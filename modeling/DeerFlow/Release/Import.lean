import DeerFlow.Release.Idempotency

/-!
# Importing an agent from its files

`import_agent_from_file`, after the agent's directory was read. A version of the organisation with
the digest of the manifest's text is taken as it is; otherwise the package is found or created by
its name and a draft version is added.
-/

namespace DeerFlow

/-- `AgentConfig` with the text of `SOUL.md`. -/
structure AgentDefinition where
  model : Option String := none
  toolGroups : Option (List String) := none
  skills : Option (List String) := none
  soul : Option String := none

/-- `validate_agent_name`, with `AGENT_NAME_PATTERN`. -/
def validateAgentName (name : String) : Bool :=
  !name.toList.isEmpty && name.toList.all fun c => c.isAlphanum || c = '-'

/-- The fields of `Manifest` that `_project_manifest` fills. -/
structure AgentManifest where
  soulOrPromptRef : String
  modelRequirements : List String
  skills : List String
  tools : List String

def AgentDefinition.projectManifest (d : AgentDefinition) : AgentManifest where
  soulOrPromptRef := d.soul.getD ""
  modelRequirements := match d.model with
    | some m => if m = "" then [] else [m]
    | none => []
  skills := d.skills.getD []
  tools := d.toolGroups.getD []

def asciiList (item : String → List Char) (xs : List String) : List Char :=
  '[' :: ((xs.map item).intersperse [',']).flatten ++ [']']

def nameObject (name : String) : List Char := "\x7b\"name\":".toList ++ asciiQuote name ++ ['\x7d']

/-- `canonical_manifest_json`, which leaves `source_metadata` out. -/
def AgentManifest.canonical (m : AgentManifest) : String := String.ofList
  ("\x7b\"agent_entry\":\"soul\",\"dependencies\":[],\"mcp_servers\":[],\"model_requirements\":".toList
    ++ asciiList nameObject m.modelRequirements
    ++ ",\"network_requirements\":[],\"runtime_limits\":null,\"schema_version\":\"1.0\",".toList
    ++ "\"secret_requirements\":[],\"skills\":".toList ++ asciiList nameObject m.skills
    ++ ",\"soul_or_prompt_ref\":".toList ++ asciiQuote m.soulOrPromptRef
    ++ ",\"tools\":".toList ++ asciiList asciiQuote m.tools ++ ['\x7d'])

structure ImportArgs where
  orgId : String
  name : String
  version : String
  workspaceId : Option String := none
  threshold : ℕ := 65536

/-- The ids of the rows a call may add, the stored manifest, and whether the flush of the version
fails. -/
structure ImportFresh where
  packageId : String
  versionId : VersionId
  manifest : String
  refused : Bool := false

inductive ImportError where
  | invalidName
  | orgRequired
  | invariant
  | release (e : ReleaseError)

structure ImportReport where
  packageId : String
  package : PackageRow
  versionId : VersionId
  version : VersionRow
  digest : String
  imported : Bool

namespace ReleaseDb

variable (sha256 : String → String) (db : ReleaseDb)

/-- `get_agent_version_by_digest`. -/
def versionByDigest (orgId digest : String) : Option (VersionId × VersionRow) :=
  db.versions.entries.find? fun e => e.2.orgId = orgId && e.2.digest = digest

def getAgentPackage (packageId orgId : String) : Option PackageRow :=
  (db.packages.get? packageId).filter fun row => row.orgId = orgId

/-- The package of the agent, which is created if it is not there. -/
def packageFor (a : ImportArgs) (newId : String) :
    ReleaseDb × Except ReleaseError (String × PackageRow) :=
  match db.packageByName a.orgId a.name with
  | some pkg => (db, .ok pkg)
  | none =>
    let row : PackageRow := ⟨a.orgId, a.workspaceId, a.name, false⟩
    let (db, created) := db.createAgentPackage newId row
    (db, created.map fun () => (newId, row))

/-- `import_agent_from_file`. -/
def importAgent (a : ImportArgs) (d : AgentDefinition) (new : ImportFresh) :
    ReleaseDb × Except ImportError ImportReport :=
  let canonical := d.projectManifest.canonical
  let digest := computeArtifactDigest sha256 canonical
  if !validateAgentName a.name then (db, .error .invalidName)
  else if a.orgId = "" then (db, .error .orgRequired)
  else
    match db.versionByDigest a.orgId digest with
    | some (versionId, version) =>
      match db.getAgentPackage version.packageId a.orgId with
      | some package =>
        (db, .ok ⟨version.packageId, package, versionId, version, digest, false⟩)
      | none => (db, .error .invariant)
    | none =>
      match db.packageFor a new.packageId with
      | (db, .error e) => (db, .error (.release e))
      | (db, .ok (packageId, package)) =>
        let (db, created) := db.createAgentVersion sha256 new.versionId
          { orgId := a.orgId, packageId := packageId, version := a.version, manifest := new.manifest,
            content := canonical, workspaceId := a.workspaceId.or package.workspaceId,
            threshold := a.threshold } new.refused
        match created with
        | .error e => (db, .error (.release e))
        | .ok version => (db, .ok ⟨packageId, package, new.versionId, version, digest, true⟩)

end ReleaseDb

end DeerFlow

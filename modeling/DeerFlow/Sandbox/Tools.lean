import DeerFlow.Sandbox.Provider

/-!
# The file tools of the local sandbox

What `tools.py` does with a path before it hands it to the sandbox: a path is checked, and then
translated to the host, or left to the sandbox where it is under a custom mount. The configuration
does not change.
-/

namespace DeerFlow

open PosixPath PurePath

/-- `ThreadDataState`. -/
structure ThreadData where
  workspacePath : Option (List Char) := none
  uploadsPath : Option (List Char) := none
  outputsPath : Option (List Char) := none

inductive ToolFailure where
  | sandboxRuntimeError (message : String)
  | permissionError (message : String)
  | fileNotFoundError (message : String)
  deriving DecidableEq

/-- The host, the configuration, and the ACP workspace of a thread where it exists. -/
structure ToolHost where
  host : Host
  settings : SandboxSettings
  acpWorkspace : Option (List Char) → Option (List Char)

def traversalDetected : ToolFailure := .permissionError "Access denied: path traversal detected"

def rejectPathTraversal (path : List Char) : Except ToolFailure Unit :=
  if ['.', '.'] ∈ split (path.map fun c => if c = '\\' then '/' else c) then
    .error traversalDetected
  else .ok ()

def pathSeparatorForStyle (path : List Char) : Char :=
  if '\\' ∈ path ∧ '/' ∉ path then '\\' else '/'

def isAnySlash (c : Char) : Bool := c = '/' || c = '\\'

def joinPathPreservingStyle (base relative : List Char) : List Char :=
  if relative = [] then base
  else
    let separator := pathSeparatorForStyle base
    let normalized := (relative.map fun c => if isAnySlash c then separator else c).dropWhile
      isAnySlash
    base.rdropWhile isAnySlash ++ separator :: normalized

/-- A component of `posixpath.normpath`. -/
def normStep (rooted : Bool) (parts : List (List Char)) (part : List Char) : List (List Char) :=
  if part = [] || part = ['.'] then parts
  else if part ≠ ['.', '.'] || (!rooted && parts.isEmpty) || parts.getLast? = some ['.', '.'] then
    parts ++ [part]
  else parts.dropLast

/-- `posixpath.normpath`, as the anchor and the parts. -/
def normpath (path : List Char) : PurePath :=
  ⟨anchorOf path, (split path).foldl (normStep !(anchorOf path).isEmpty) []⟩

/-- `posixpath.commonpath([base, candidate]) == base`, for two normalised paths. -/
def isCommonBase (base candidate : PurePath) : Bool :=
  base.anchor = ['/'] && candidate.anchor ≠ [] && base.parts.isPrefixOf candidate.parts ||
    base.anchor = [] && candidate.anchor = [] && base.parts ≠ [] &&
      base.parts.isPrefixOf candidate.parts

section Families

variable (tools : ToolHost)

def ToolHost.isSkillsPath (path : List Char) : Bool :=
  isAtOrUnder tools.settings.skillsContainerPath path

def ToolHost.resolveSkillsPath (path : List Char) : Except ToolFailure (List Char) :=
  if tools.host.pathExists tools.settings.skillsPath then
    if path = tools.settings.skillsContainerPath then .ok tools.settings.skillsPath
    else .ok (joinPathPreservingStyle tools.settings.skillsPath
      (lstrip (path.drop tools.settings.skillsContainerPath.length)))
  else .error (.fileNotFoundError
    ("Skills directory not available for path: " ++ String.ofList path))

def isAcpWorkspacePath (path : List Char) : Bool := isAtOrUnder acpWorkspacePath path

/-- `_extract_thread_id_from_thread_data`. -/
def extractThreadId (td : ThreadData) : Option (List Char) :=
  (td.workspacePath.filter fun p => !p.isEmpty).map fun p =>
    (ofText p).parent.parent.name

def ToolHost.resolveAcpWorkspacePath (path : List Char) (threadId : Option (List Char)) :
    Except ToolFailure (List Char) := do
  rejectPathTraversal path
  match tools.acpWorkspace threadId with
  | none => .error (.fileNotFoundError
      ("ACP workspace directory not available for path: " ++ String.ofList path))
  | some hostPath =>
    if path = acpWorkspacePath then .ok hostPath
    else
      let resolved := joinPathPreservingStyle hostPath (lstrip (path.drop acpWorkspacePath.length))
      if '/' ∈ hostPath ∧ '\\' ∉ hostPath then
        if isCommonBase (normpath hostPath) (normpath resolved) then .ok resolved
        else .error traversalDetected
      else if (ofText (tools.host.resolve resolved)).isRelativeTo
          (ofText (tools.host.resolve hostPath)) then .ok (tools.host.resolve resolved)
      else .error traversalDetected

def ToolHost.customMounts : List VolumeMount :=
  tools.settings.mounts.filter fun m => tools.host.pathExists m.hostPath

def ToolHost.isCustomMountPath (path : List Char) : Bool :=
  tools.customMounts.any fun m => isAtOrUnder m.containerPath path

/-- The loop of `_get_custom_mount_for_path`. -/
def bestMount (path : List Char) : List VolumeMount → Option VolumeMount → Option VolumeMount :=
  longest (fun m => isAtOrUnder m.containerPath path) fun m => m.containerPath.length

def ToolHost.customMountForPath (path : List Char) : Option VolumeMount :=
  bestMount path tools.customMounts none

def ToolHost.validateLocalToolPath (path : List Char) (readOnly : Bool) :
    Except ToolFailure Unit := do
  rejectPathTraversal path
  if tools.isSkillsPath path then
    if readOnly then .ok ()
    else .error (.permissionError
      ("Write access to skills path is not allowed: " ++ String.ofList path))
  else if isAcpWorkspacePath path then
    if readOnly then .ok ()
    else .error (.permissionError
      ("Write access to ACP workspace is not allowed: " ++ String.ofList path))
  else if (userDataPath ++ ['/']).isPrefixOf path then .ok ()
  else if tools.isCustomMountPath path then
    if (tools.customMountForPath path).any VolumeMount.readOnly && !readOnly then
      .error (.permissionError
        ("Write access to read-only mount is not allowed: " ++ String.ofList path))
    else .ok ()
  else .error (.permissionError
    ("Only paths under " ++ String.ofList userDataPath ++ "/, " ++
      String.ofList tools.settings.skillsContainerPath ++ "/, " ++ String.ofList acpWorkspacePath ++
        "/, or configured mount paths are allowed"))

end Families

section UserData

variable (tools : ToolHost) (td : ThreadData)

def known? (p : Option (List Char)) : Option (List Char) := p.filter fun p => !p.isEmpty

def threadVirtualToActualMappings : List (List Char × List Char) :=
  let dirs := [("/workspace".toList, known? td.workspacePath),
    ("/uploads".toList, known? td.uploadsPath), ("/outputs".toList, known? td.outputsPath)]
  let parents := dirs.filterMap fun d => d.2.map fun p => (ofText p).parent.text
  (dirs.filterMap fun d => d.2.map fun p => (userDataPath ++ d.1, p)) ++
    match parents with
    | [] => []
    | parent :: rest => if rest.all (· = parent) then [(userDataPath, parent)] else []

def replaceWith (path : List Char) : List (List Char × List Char) → List Char
  | [] => path
  | (virtualBase, actualBase) :: rest =>
    if path = virtualBase then actualBase
    else if (virtualBase ++ ['/']).isPrefixOf path then
      let result := joinPathPreservingStyle actualBase (lstrip (path.drop virtualBase.length))
      if path.getLast? = some '/' && !result.getLast?.any isAnySlash then
        result ++ [pathSeparatorForStyle actualBase]
      else result
    else replaceWith path rest

def replaceVirtualPath (path : List Char) : List Char :=
  replaceWith path ((threadVirtualToActualMappings td).insertionSort
    fun a b => b.1.length ≤ a.1.length)

/-- The roots of `_validate_resolved_user_data_path`. -/
def ToolHost.allowedRoots : List (List Char) :=
  [td.workspacePath, td.uploadsPath, td.outputsPath].filterMap fun p => p.map tools.host.resolve

def ToolHost.isInThread (file : List Char) : Bool :=
  (tools.allowedRoots td).any fun root =>
    (ofText file).isRelativeTo (ofText root)

def ToolHost.validateResolvedUserDataPath (resolved : List Char) : Except ToolFailure Unit :=
  if (tools.allowedRoots td).isEmpty then
    .error (.sandboxRuntimeError "No allowed local sandbox directories configured")
  else if tools.isInThread td resolved then .ok ()
  else .error traversalDetected

def ToolHost.resolveAndValidateUserDataPath (path : List Char) : Except ToolFailure (List Char) := do
  let resolved := tools.host.resolve (replaceVirtualPath td path)
  tools.validateResolvedUserDataPath td resolved
  pure resolved

end UserData

section Tools

variable (tools : ToolHost)

def threadDataMissing : ToolFailure :=
  .sandboxRuntimeError "Thread data not available for local sandbox"

/-- What `ls` and `read_file` do with a path: like `_resolve_local_read_path`, with custom mounts
left to the sandbox. -/
def ToolHost.readPath (td : ThreadData) (path : List Char) : Except ToolFailure (List Char) := do
  tools.validateLocalToolPath path true
  if tools.isSkillsPath path then tools.resolveSkillsPath path
  else if isAcpWorkspacePath path then tools.resolveAcpWorkspacePath path (extractThreadId td)
  else if !tools.isCustomMountPath path then tools.resolveAndValidateUserDataPath td path
  else pure path

/-- What `write_file` and `str_replace` do with a path. -/
def ToolHost.writePath (td : ThreadData) (path : List Char) : Except ToolFailure (List Char) := do
  tools.validateLocalToolPath path false
  if !tools.isCustomMountPath path then tools.resolveAndValidateUserDataPath td path
  else pure path

def withThreadData (f : ThreadData → List Char → Except ToolFailure (List Char))
    (td : Option ThreadData) (path : List Char) : Except ToolFailure (List Char) :=
  match td with
  | none => .error threadDataMissing
  | some td => f td path

def ToolHost.readFileTool := withThreadData tools.readPath

def ToolHost.writeFileTool := withThreadData tools.writePath

def ToolHost.strReplaceTool := withThreadData tools.writePath

inductive FileTool where
  | readFile
  | writeFile
  | strReplace
  deriving DecidableEq

def FileTool.path : FileTool → Option ThreadData → List Char → Except ToolFailure (List Char)
  | .readFile => tools.readFileTool
  | .writeFile => tools.writeFileTool
  | .strReplace => tools.strReplaceTool

/-- The file the sandbox opens for a tool; only `write_file` can end at a read-only mapping without
having opened it. -/
def FileTool.opens (tool : FileTool) (sandbox : LocalSandbox) (td : Option ThreadData)
    (path : List Char) : Option (List Char) :=
  match tool.path tools td path with
  | .error _ => none
  | .ok p =>
    match sandbox.resolvePathWithMapping tools.host p with
    | .error _ => none
    | .ok resolved =>
      if tool = .writeFile && sandbox.isResolvedPathReadOnly tools.host resolved then none
      else some (tools.host.resolve resolved.path)

end Tools

end DeerFlow

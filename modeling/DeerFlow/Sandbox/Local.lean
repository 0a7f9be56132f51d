import DeerFlow.Data.Longest
import DeerFlow.Data.PosixPath

/-!
# The local sandbox

`LocalSandbox` gives an agent the paths of a container and works on directories of the host: a path
goes through the most specific mapping it is under.
-/

namespace DeerFlow

open PosixPath PurePath

/-- `Path(p).resolve()` as a text, and `Path(p).exists()`. -/
structure Host where
  resolve : List Char → List Char
  pathExists : List Char → Bool

def Host.plain (cwd : List (List Char)) (pathExists : List Char → Bool) : Host where
  resolve p := ((ofText p).resolve cwd).text
  pathExists := pathExists

structure PathMapping where
  containerPath : List Char
  localPath : List Char
  readOnly : Bool := false
  deriving DecidableEq

structure LocalSandbox where
  id : List Char
  pathMappings : List PathMapping
  deriving DecidableEq

inductive OsError where
  /-- `EACCES`, "Access denied: path escapes mounted directory". -/
  | accessDenied (path : List Char)
  deriving DecidableEq

section Resolve

variable (host : Host) (sandbox : LocalSandbox)

/-- `container_path.rstrip("/") or "/"`. -/
def bareContainer (containerPath : List Char) : List Char :=
  if rstrip containerPath = [] then ['/'] else rstrip containerPath

/-- `_resolved_local_paths`. -/
def PathMapping.resolvedLocal (m : PathMapping) : List Char := host.resolve m.localPath

/-- `sorted(..., key=..., reverse=True)`. -/
def LocalSandbox.mappingsByContainerSpecificity : List PathMapping :=
  sandbox.pathMappings.insertionSort fun a b =>
    (bareContainer b.containerPath).length ≤ (bareContainer a.containerPath).length

/-- What a path is below the container path of a mapping, if it is under it. -/
def PathMapping.relative? (m : PathMapping) (path : List Char) : Option (List Char) :=
  if bareContainer m.containerPath = ['/'] then
    if path.head? = some '/' then some (lstrip path) else none
  else if isAtOrUnder (bareContainer m.containerPath) path then
    some (lstrip (path.drop (bareContainer m.containerPath).length))
  else none

def LocalSandbox.findPathMapping (path : List Char) : Option (PathMapping × List Char) :=
  sandbox.mappingsByContainerSpecificity.findSome? fun m => (m.relative? path).map fun rel => (m, rel)

structure ResolvedPath where
  path : List Char
  mapping : Option PathMapping
  deriving DecidableEq

def PathMapping.localFile (m : PathMapping) (relative : List Char) : List Char :=
  if relative = [] then (ofText (m.resolvedLocal host)).text
  else host.resolve ((ofText (m.resolvedLocal host)).div (ofText relative)).text

def LocalSandbox.resolvePathWithMapping (path : List Char) : Except OsError ResolvedPath :=
  match sandbox.findPathMapping path with
  | none => .ok ⟨path, none⟩
  | some (m, relative) =>
    if (ofText (m.localFile host relative)).isRelativeTo
        (ofText (m.resolvedLocal host)) then
      .ok ⟨m.localFile host relative, some m⟩
    else .error (.accessDenied path)

/-- The loop of `_is_read_only_path`: the mapping with the longest local root above the path. -/
def bestLocal (resolved : List Char) : List PathMapping → Option PathMapping → Option PathMapping :=
  longest (fun m => isAtOrUnder (m.resolvedLocal host) resolved) fun m => (m.resolvedLocal host).length

def LocalSandbox.isReadOnlyPath (resolvedPath : List Char) : Bool :=
  (bestLocal host (host.resolve resolvedPath) sandbox.pathMappings none).any PathMapping.readOnly

def LocalSandbox.isResolvedPathReadOnly (resolved : ResolvedPath) : Bool :=
  resolved.mapping.any PathMapping.readOnly || sandbox.isReadOnlyPath host resolved.path

end Resolve

end DeerFlow

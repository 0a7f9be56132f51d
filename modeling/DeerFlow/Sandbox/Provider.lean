import DeerFlow.Data.Machine
import DeerFlow.Sandbox.Local

/-!
# The provider of local sandboxes

The mappings every sandbox has come from the configuration, those of a thread from the directories
of the thread and of the user who asks for it. `acquire` keeps one sandbox for each thread, the ones
used last; its two critical sections are steps of their own.
-/

namespace DeerFlow

open PosixPath

section Setup

/-- `VolumeMountConfig`. -/
structure VolumeMount where
  hostPath : List Char
  containerPath : List Char
  readOnly : Bool := false
  deriving DecidableEq

structure SandboxSettings where
  skillsPath : List Char
  skillsContainerPath : List Char := "/mnt/skills".toList
  mounts : List VolumeMount := []
  deriving DecidableEq

def userDataPath : List Char := "/mnt/user-data".toList

def acpWorkspacePath : List Char := "/mnt/acp-workspace".toList

variable (host : Host) (settings : SandboxSettings)

def reservedContainerPrefixes : List (List Char) :=
  [settings.skillsContainerPath, acpWorkspacePath, userDataPath]

def mountMapping (mount : VolumeMount) : Option PathMapping :=
  let containerPath := bareContainer mount.containerPath
  if (PurePath.ofText mount.hostPath).anchor = [] then none
  else if containerPath.head? ≠ some '/' then none
  else if (reservedContainerPrefixes settings).any fun p => isAtOrUnder p containerPath then none
  else if host.pathExists mount.hostPath then
    some ⟨containerPath, host.resolve mount.hostPath, mount.readOnly⟩
  else none

def skillsMappings : List PathMapping :=
  if host.pathExists settings.skillsPath then
    [⟨settings.skillsContainerPath, settings.skillsPath, true⟩]
  else []

def setupPathMappings : List PathMapping :=
  skillsMappings host settings ++ settings.mounts.filterMap (mountMapping host settings)

end Setup

section ThreadMappings

/-- The `ValueError` of an id that is no name for a directory. -/
inductive InvalidId where
  | userId (id : List Char)
  | threadId (id : List Char)
  deriving DecidableEq

def isSafeChar (c : Char) : Bool :=
  ('A' ≤ c && c ≤ 'Z') || ('a' ≤ c && c ≤ 'z') || ('0' ≤ c && c ≤ '9') || c = '_' || c = '-'

/-- `^[A-Za-z0-9_\-]+$`, where `$` lets a line end at the end of the text pass. -/
def isSafePathId (id : List Char) : Bool :=
  let body := if id.getLast? = some '\n' then id.dropLast else id
  !body.isEmpty && body.all isSafeChar

variable (base : PurePath)

def userDir (userId : List Char) : PurePath := base.div ⟨[], ["users".toList, userId]⟩

def threadDir (threadId userId : List Char) : Except InvalidId PurePath :=
  if isSafePathId userId then
    if isSafePathId threadId then .ok ((userDir base userId).div ⟨[], ["threads".toList, threadId]⟩)
    else .error (.threadId threadId)
  else .error (.userId userId)

def threadMapping (dir : PurePath) (containerPath : List Char) (below : List (List Char)) :
    PathMapping :=
  ⟨containerPath, (dir.div ⟨[], below⟩).text, false⟩

/-- `_build_thread_path_mappings`, for the effective user. -/
def buildThreadPathMappings (threadId userId : List Char) : Except InvalidId (List PathMapping) := do
  let dir ← threadDir base threadId userId
  pure
    [threadMapping dir userDataPath ["user-data".toList],
      threadMapping dir (userDataPath ++ "/workspace".toList) ["user-data".toList, "workspace".toList],
      threadMapping dir (userDataPath ++ "/uploads".toList) ["user-data".toList, "uploads".toList],
      threadMapping dir (userDataPath ++ "/outputs".toList) ["user-data".toList, "outputs".toList],
      threadMapping dir acpWorkspacePath ["acp-workspace".toList]]

end ThreadMappings

/-- Where a call of `acquire` is. -/
inductive AcquirePhase where
  | checking
  | building
  | inserting (mappings : List PathMapping)
  /-- It returned the id of the sandbox. -/
  | done (sandbox : LocalSandbox)
  | failed (error : InvalidId)
  deriving DecidableEq

/-- A call of `acquire` with the user it is made under. -/
structure AcquireCall where
  user : List Char
  thread : Option (List Char)
  phase : AcquirePhase := .checking
  deriving DecidableEq

/-- What `get` returned, and to whom. -/
structure GetResult where
  user : List Char
  sandboxId : List Char
  sandbox : Option LocalSandbox
  deriving DecidableEq

/-- `_thread_sandboxes` has the sandbox used last at its end. -/
structure SandboxProvider where
  genericSandbox : Option LocalSandbox := none
  threadSandboxes : List (List Char × LocalSandbox) := []
  calls : List AcquireCall := []
  gets : List GetResult := []
  deriving DecidableEq

inductive ProviderAct where
  | acquire (user : List Char) (thread : Option (List Char))
  /-- Call number `i` goes on. -/
  | step (i : ℕ)
  | get (user sandboxId : List Char)
  | reset

/-- `popitem(last=False)` as long as there are more than `cap`. -/
def evictUntilWithinCap (cap : ℕ) :
    List (List Char × LocalSandbox) → List (List Char × LocalSandbox)
  | [] => []
  | e :: es => if cap < (e :: es).length then evictUntilWithinCap cap es else e :: es

namespace SandboxProvider

variable (s : SandboxProvider)

/-- `_thread_sandboxes.get`. -/
def cached (thread : List Char) : Option LocalSandbox :=
  (s.threadSandboxes.find? (·.1 = thread)).map Prod.snd

/-- `_thread_sandboxes` with an entry at its end. -/
def putLast (thread : List Char) (sandbox : LocalSandbox) : SandboxProvider :=
  { s with
    threadSandboxes := (s.threadSandboxes.filter (·.1 ≠ thread)) ++ [(thread, sandbox)] }

def addCall (user : List Char) (thread : Option (List Char)) : SandboxProvider :=
  { s with calls := s.calls ++ [⟨user, thread, .checking⟩] }

def moveTo (i : ℕ) (c : AcquireCall) (phase : AcquirePhase) : SandboxProvider :=
  { s with calls := s.calls.set i { c with phase } }

variable (mappings : List PathMapping) (base : PurePath) (cap : ℕ)

def generic : LocalSandbox := s.genericSandbox.getD ⟨"local".toList, mappings⟩

def stepCall (i : ℕ) (c : AcquireCall) : Option SandboxProvider :=
  match c.phase, c.thread with
  | .checking, none =>
    some ({ s with genericSandbox := some (s.generic mappings) }.moveTo i c
      (.done (s.generic mappings)))
  | .checking, some thread =>
    match s.cached thread with
    | some sandbox => some ((s.putLast thread sandbox).moveTo i c (.done sandbox))
    | none => some (s.moveTo i c .building)
  | .building, some thread =>
    match buildThreadPathMappings base thread c.user with
    | .ok built => some (s.moveTo i c (.inserting (mappings ++ built)))
    | .error e => some (s.moveTo i c (.failed e))
  | .inserting built, some thread =>
    match s.cached thread with
    | some sandbox => some ((s.putLast thread sandbox).moveTo i c (.done sandbox))
    | none =>
      let sandbox : LocalSandbox := ⟨"local:".toList ++ thread, built⟩
      let s' := s.putLast thread sandbox
      some ({ s' with threadSandboxes := evictUntilWithinCap cap s'.threadSandboxes }.moveTo i c
        (.done sandbox))
  | _, _ => none

def get (user sandboxId : List Char) : SandboxProvider :=
  if sandboxId = "local".toList then
    { s with
      genericSandbox := some (s.generic mappings)
      gets := s.gets ++ [⟨user, sandboxId, some (s.generic mappings)⟩] }
  else if "local:".toList.isPrefixOf sandboxId then
    let thread := sandboxId.drop 6
    match s.cached thread with
    | some sandbox =>
      { s.putLast thread sandbox with gets := s.gets ++ [⟨user, sandboxId, some sandbox⟩] }
    | none => { s with gets := s.gets ++ [⟨user, sandboxId, none⟩] }
  else { s with gets := s.gets ++ [⟨user, sandboxId, none⟩] }

end SandboxProvider

/-- The provider with its mappings, the base directory and the number of sandboxes it keeps. -/
def sandboxProvider (mappings : List PathMapping) (base : PurePath) (cap : ℕ) :
    Machine SandboxProvider ProviderAct where
  step s act :=
    match act with
    | .acquire user thread => some (s.addCall user thread)
    | .step i => s.calls[i]?.bind fun c => s.stepCall mappings base cap i c
    | .get user sandboxId => some (s.get mappings user sandboxId)
    | .reset => some { s with genericSandbox := none, threadSandboxes := [] }

end DeerFlow

import DeerFlow.Memory.Document

/-!
# Calls on a memory file

`FileMemoryStorage` for one user and agent: the file, the cache with the modification time it was
filled at, and the calls that load the memory, change it and save the whole of it. Calls run at the
same time, step by step.
-/

namespace DeerFlow

inductive MemoryChange where
  | create (f : MemoryFact)
  | edit (factId : String) (e : FactEdit)
  | delete (factId : String)
  | clear
  | revise (ctx : UpdateContext) (u : UpdateData)

/-- The memory a call is about to save, and the one it made it from. -/
structure Draft where
  loaded : Option MemoryData
  change : MemoryChange
  data : MemoryData

inductive MemoryCall (μ : Type) where
  | createMemoryFact (content category : String) (confidence : PyFloat) (now hex : String)
  | updateMemoryFact (factId : String) (e : FactEdit)
  | deleteMemoryFact (factId : String)
  | clearMemoryData
  | updateMemory (messages : List μ) (threadId : Option String)
  deriving DecidableEq

inductive CallResult where
  | saved
  | notSaved
  | raised (e : MemoryError)

/-- Where a call is. Up to `storing` it loads, from `saving` on it saves. -/
inductive CallPhase where
  | called
  | statted (mtime : Option ℤ)
  | reading (mtime : Option ℤ)
  | storing (mtime : Option ℤ) (data : MemoryData)
  | thinking (loaded : MemoryData)
  | saving (draft : Draft)
  | replaced (data : MemoryData)
  | recording (data : MemoryData) (mtime : Option ℤ)
  | done (result : CallResult)

structure MemoryFile where
  content : Option MemoryData
  mtime : ℤ

/-- A save, by call number `call`. -/
structure SavedMemory where
  call : ℕ
  change : MemoryChange
  before : MemoryData
  after : MemoryData

/-- `log` records the saves; the code keeps no such list. -/
structure MemoryDesk (μ : Type) where
  file : Option MemoryFile := none
  cache : Option (MemoryData × Option ℤ) := none
  calls : List (MemoryCall μ × CallPhase) := []
  log : List SavedMemory := []

section Calls

variable (lib : PyLib) (config : UpdaterConfig)

def MemoryChange.apply (d : MemoryData) : MemoryChange → Except MemoryError MemoryData
  | .create f => .ok (createMemoryFact f d)
  | .edit factId e => updateMemoryFact factId e d
  | .delete factId => deleteMemoryFact factId d
  | .clear => .ok {}
  | .revise ctx u => reviseMemory lib config ctx u d

variable {μ : Type}

/-- The change a call of a user makes, once its arguments are checked. -/
def MemoryCall.userEdit : MemoryCall μ → Option (Except MemoryError MemoryChange)
  | .createMemoryFact content category confidence now hex =>
    some ((manualFact content category confidence now hex).map .create)
  | .updateMemoryFact factId e => some (.ok (.edit factId e))
  | .deleteMemoryFact factId => some (.ok (.delete factId))
  | .clearMemoryData => some (.ok .clear)
  | .updateMemory _ _ => none

/-- What the `OSError` says that a call raises when it cannot save. -/
def MemoryCall.saveFailure : MemoryCall μ → Option String
  | .createMemoryFact .. => some "Failed to save memory data after creating fact"
  | .updateMemoryFact factId _ =>
    some ("Failed to save memory data after updating fact '" ++ factId ++ "'")
  | .deleteMemoryFact factId =>
    some ("Failed to save memory data after deleting fact '" ++ factId ++ "'")
  | .clearMemoryData => some "Failed to save cleared memory data"
  | .updateMemory _ _ => none

def draftPhase (loaded : MemoryData) (change : MemoryChange) : CallPhase :=
  match change.apply lib config loaded with
  | .error e => .done (.raised e)
  | .ok data => .saving ⟨some loaded, change, data⟩

/-- Where a call goes on with the memory it loaded; `format` is `format_conversation_for_update`. -/
def MemoryCall.afterLoad (format : List μ → String) (loaded : MemoryData) :
    MemoryCall μ → CallPhase
  | .updateMemory messages _ =>
    if stripText (format messages) = "" then .done .notSaved else .thinking loaded
  | call =>
    match call.userEdit with
    | some (.ok change) => draftPhase lib config loaded change
    | some (.error e) => .done (.raised e)
    | none => .done .notSaved

def MemoryCall.start : MemoryCall μ → CallPhase
  | .updateMemory messages _ =>
    if !config.enabled || messages.isEmpty then .done .notSaved else .called
  | .clearMemoryData => .saving ⟨none, .clear, {}⟩
  | call =>
    match call.userEdit with
    | some (.error e) => .done (.raised e)
    | _ => .called

/-- The answer of the model, `none` where the call of it raised. -/
def finalizeUpdate (ctx : UpdateContext) (loaded : MemoryData) :
    Option SubagentContent → CallPhase
  | none => .done .notSaved
  | some content =>
    match parseMemoryUpdateResponse lib content with
    | .error _ => .done .notSaved
    | .ok u =>
      match reviseMemory lib config ctx u loaded with
      | .error _ => .done .notSaved
      | .ok data => .saving ⟨some loaded, .revise ctx u, data⟩

end Calls

namespace MemoryDesk

variable {μ : Type} (s : MemoryDesk μ)

/-- `_load_memory_from_file`. -/
def stored : MemoryData := (s.file.bind MemoryFile.content).getD {}

def setPhase (i : ℕ) (call : MemoryCall μ) (phase : CallPhase) : MemoryDesk μ :=
  { s with calls := s.calls.set i (call, phase) }

def cached (mtime : Option ℤ) : Option MemoryData :=
  (s.cache.filter fun c => c.2 = mtime).map Prod.fst

/-- `temp_path.replace(file_path)`. -/
def replaceFile (i : ℕ) (draft : Draft) (mtime : ℤ) : MemoryDesk μ :=
  { s with
    file := some ⟨some draft.data, mtime⟩
    log := s.log ++ [⟨i, draft.change, s.stored, draft.data⟩] }

end MemoryDesk

/-- A call is made, or call number `i` takes its next step. `stat`, `read` and `write` may raise;
the model may answer anything. -/
inductive MemoryDeskAct (μ : Type) where
  | call (c : MemoryCall μ)
  | stat (i : ℕ) (raises : Bool)
  | lookup (i : ℕ)
  | read (i : ℕ) (raises : Bool)
  | store (i : ℕ)
  | respond (i : ℕ) (now : String) (hex : ℕ → String) (answer : Option SubagentContent)
  | replace (i : ℕ) (mtime : ℤ)
  | writeFails (i : ℕ)
  | record (i : ℕ)

section Machine

variable (lib : PyLib) (config : UpdaterConfig) {μ : Type} (format : List μ → String)

def MemoryCall.threadId? : MemoryCall μ → Option String
  | .updateMemory _ threadId => threadId
  | _ => none

/-- The step `act` is for a call in a phase. -/
def MemoryDesk.stepCall (s : MemoryDesk μ) (act : MemoryDeskAct μ) (i : ℕ) (call : MemoryCall μ) :
    CallPhase → Option (MemoryDesk μ)
  | .called =>
    match act with
    | .stat _ raises =>
      some (s.setPhase i call (.statted (if raises then none else s.file.map MemoryFile.mtime)))
    | _ => none
  | .statted mtime =>
    match act with
    | .lookup _ =>
      some (s.setPhase i call
        ((s.cached mtime).elim (.reading mtime) (call.afterLoad lib config format)))
    | _ => none
  | .reading mtime =>
    match act with
    | .read _ raises => some (s.setPhase i call (.storing mtime (if raises then {} else s.stored)))
    | _ => none
  | .storing mtime data =>
    match act with
    | .store _ =>
      some ({ s with cache := some (data, mtime) }.setPhase i call
        (call.afterLoad lib config format data))
    | _ => none
  | .thinking loaded =>
    match act with
    | .respond _ now hex answer =>
      some (s.setPhase i call
        (finalizeUpdate lib config ⟨now, call.threadId?, hex⟩ loaded answer))
    | _ => none
  | .saving draft =>
    match act with
    | .replace _ mtime => some ((s.replaceFile i draft mtime).setPhase i call (.replaced draft.data))
    | .writeFails _ =>
      some (s.setPhase i call
        (.done (call.saveFailure.elim .notSaved fun message => .raised (.osError message))))
    | _ => none
  | .replaced data =>
    match act with
    | .stat _ raises =>
      some (s.setPhase i call
        (.recording data (if raises then none else s.file.map MemoryFile.mtime)))
    | _ => none
  | .recording data mtime =>
    match act with
    | .record _ => some ({ s with cache := some (data, mtime) }.setPhase i call (.done .saved))
    | _ => none
  | .done _ => none

def MemoryDeskAct.call? : MemoryDeskAct μ → Option ℕ
  | .call _ => none
  | .stat i _ | .lookup i | .read i _ | .store i | .respond i _ _ _ | .replace i _ | .writeFails i
  | .record i => some i

def memoryDesk : Machine (MemoryDesk μ) (MemoryDeskAct μ) where
  step s act :=
    match act with
    | .call c => some { s with calls := s.calls ++ [(c, c.start config)] }
    | act => act.call?.bind fun i => s.calls[i]?.bind fun x =>
        s.stepCall lib config format act i x.1 x.2

end Machine

end DeerFlow

import DeerFlow.Data.Machine
import Mathlib.Data.Int.Order.Basic

/-!
# The cache of the MCP tools

The globals of `mcp/cache.py`, the extensions config file, and concurrent calls of
`initialize_mcp_tools` and `get_cached_mcp_tools`. Every load succeeds. After `n` writes the file is
at generation `n`, and tools are known by the generation they were loaded from. A call initializes
the tools on an event loop of its own or of the caller, and the lock, an `asyncio.Lock`, belongs to
the first loop on which a call has waited for it.
-/

namespace DeerFlow

inductive ToolsPhase where
  /-- `_is_cache_stale` looks at `_cache_initialized`. -/
  | checking
  /-- It asks for the modification time of the file. -/
  | comparing
  /-- It compares it with `_config_mtime`. -/
  | judging (mtime : Option ℤ)
  /-- `reset_mcp_tools_cache` assigns the three globals in turn. -/
  | resetCache
  | resetFlag
  | resetMtime
  /-- `if not _cache_initialized`. -/
  | asking
  /-- `initialize_mcp_tools` comes to its lock. -/
  | locking
  | waiting
  | locked
  /-- `get_mcp_tools` reads the file. -/
  | loading
  | loaded (generation : ℕ)
  /-- The tools are assigned, then the flag is, then the modification time is recorded. -/
  | stored
  | flagged
  | leaving
  /-- `get_cached_mcp_tools` returns what is cached. -/
  | returning
  /-- `none` is the empty list. -/
  | done (tools : Option ℕ)
  /-- `initialize_mcp_tools` has raised. -/
  | failed
  deriving DecidableEq

/-- A call; `since` is the generation of the file when `get_cached_mcp_tools` was called, `retry` the
loop of the `asyncio.run` in its handler, `none` where that raises at once. -/
structure ToolsCall where
  get : Bool
  loop : ℕ
  retry : Option ℕ
  since : ℕ
  phase : ToolsPhase
  deriving DecidableEq

structure ToolsCache where
  /-- When the file was written, the last time last. -/
  mtimes : List ℤ := []
  cache : Option ℕ := none
  initialized : Bool := false
  configMtime : Option ℤ := none
  lock : Option ℕ := none
  lockLoop : Option ℕ := none
  waiters : List ℕ := []
  calls : List ToolsCall := []
  deriving DecidableEq

/-- What happens: the file is written, a function is called, or call number `i` goes on. -/
inductive ToolsAct where
  | edit (mtime : ℤ)
  | getCachedMcpTools (loop : ℕ) (retry : Option ℕ)
  | initializeMcpTools (loop : ℕ)
  | step (i : ℕ)

namespace ToolsCache

variable (s : ToolsCache)

def generation : ℕ := s.mtimes.length

def getConfigMtime : Option ℤ := s.mtimes.getLast?

/-- The comparison at the end of `_is_cache_stale`. -/
def isStale (mtime : Option ℤ) : Bool :=
  match s.configMtime, mtime with
  | some old, some now => old < now
  | _, _ => false

def moveTo (i : ℕ) (c : ToolsCall) (phase : ToolsPhase) : ToolsCache :=
  { s with calls := s.calls.set i { c with phase } }

/-- The `RuntimeError` of a lock that belongs to another loop. -/
def refuse (i : ℕ) (c : ToolsCall) : ToolsCache :=
  match c.get, c.retry with
  | true, some loop => s.moveTo i { c with loop, retry := none } .locking
  | true, none => s.moveTo i c (.done none)
  | false, _ => s.moveTo i c .failed

def stepCall (i : ℕ) (c : ToolsCall) : Option ToolsCache :=
  match c.phase with
  | .checking => some (s.moveTo i c (if s.initialized then .comparing else .asking))
  | .comparing => some (s.moveTo i c (.judging s.getConfigMtime))
  | .judging mtime => some (s.moveTo i c (if s.isStale mtime then .resetCache else .asking))
  | .resetCache => some ({ s with cache := none }.moveTo i c .resetFlag)
  | .resetFlag => some ({ s with initialized := false }.moveTo i c .resetMtime)
  | .resetMtime => some ({ s with configMtime := none }.moveTo i c .asking)
  | .asking => some (s.moveTo i c (if s.initialized then .returning else .locking))
  | .locking =>
    if s.lock = none ∧ s.waiters = [] then some ({ s with lock := some i }.moveTo i c .locked)
    else if s.lockLoop.all (· = c.loop) then
      some ({ s with lockLoop := some c.loop, waiters := s.waiters ++ [i] }.moveTo i c .waiting)
    else some (s.refuse i c)
  | .waiting =>
    if s.lock = none ∧ s.waiters.head? = some i then
      some ({ s with lock := some i, waiters := s.waiters.tail }.moveTo i c .locked)
    else none
  | .locked => some (s.moveTo i c (if s.initialized then .leaving else .loading))
  | .loading => some (s.moveTo i c (.loaded s.generation))
  | .loaded generation => some ({ s with cache := some generation }.moveTo i c .stored)
  | .stored => some ({ s with initialized := true }.moveTo i c .flagged)
  | .flagged => some ({ s with configMtime := s.getConfigMtime }.moveTo i c .leaving)
  | .leaving =>
    some ({ s with lock := none }.moveTo i c (if c.get then .returning else .done s.cache))
  | .returning => some (s.moveTo i c (.done s.cache))
  | .done _ | .failed => none

end ToolsCache

def toolsCache : Machine ToolsCache ToolsAct where
  step s act :=
    match act with
    | .edit mtime =>
      if s.getConfigMtime.all (· < mtime) then some { s with mtimes := s.mtimes ++ [mtime] } else none
    | .getCachedMcpTools loop retry =>
      some { s with calls := s.calls ++ [⟨true, loop, retry, s.generation, .checking⟩] }
    | .initializeMcpTools loop =>
      some { s with calls := s.calls ++ [⟨false, loop, none, 0, .locking⟩] }
    | .step i => s.calls[i]?.bind fun c => s.stepCall i c

end DeerFlow

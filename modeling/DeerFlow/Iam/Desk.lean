import DeerFlow.Data.Machine
import DeerFlow.Iam.Requests

/-!
# Authorize calls and IAM requests in one process

The tables, the permission cache and the calls under way. An authorize call looks into the cache,
reads the tables three times and stores what it found; an IAM request commits and then drops a cache
entry. Steps of different calls come in any order.
-/

namespace DeerFlow

inductive AuthorizePhase where
  | called
  | readingOrg (type : PrincipalType) (id : String)
  | readingPrincipal (type : PrincipalType) (id : String)
  | readingRoles (type : PrincipalType) (id : String)
  | storing (type : PrincipalType) (id : String) (perms : Finset String)
  | done (r : Except AuthorizeError Unit)
  | lost
  deriving DecidableEq

namespace AuthorizeArgs

variable (a : AuthorizeArgs) (ttlSeconds : ℤ) (db : IamDb) (wall mono : ℕ) (c : PermissionCache)

def step : AuthorizePhase → Option (PermissionCache × AuthorizePhase)
  | .called =>
    match a.subject with
    | .error e => some (c, .done (.error e))
    | .ok (type, id) =>
      match c.lookup mono (orgCacheKey a.orgId type id) a.forceRefresh with
      | (some perms, c') => some (c', .done (a.answer (applyScopes perms a.scopes)))
      | (none, c') => some (c', .readingOrg type id)
  | .readingOrg type id =>
    match db.orgGate a.orgId with
    | .error e => some (c, .done (.error e))
    | .ok _ => some (c, .readingPrincipal type id)
  | .readingPrincipal type id =>
    match db.principalGate a.orgId type id with
    | .error e => some (c, .done (.error e))
    | .ok _ => some (c, .readingRoles type id)
  | .readingRoles type id => some (c, .storing type id (db.fetchRolePermissions wall a.orgId type id))
  | .storing type id perms =>
    some (c.store ttlSeconds mono (orgCacheKey a.orgId type id) perms,
      .done (a.answer (applyScopes perms a.scopes)))
  | .done _ | .lost => none

end AuthorizeArgs

inductive IamCall where
  | authorize (a : AuthorizeArgs) (phase : AuthorizePhase)
  | request (r : IamRequest) (phase : IamPhase)
  deriving DecidableEq

structure IamDesk where
  db : IamDb
  cache : PermissionCache := .empty
  wall : ℕ := 0
  mono : ℕ := 0
  calls : List IamCall := []

inductive IamAct where
  | authorize (a : AuthorizeArgs)
  | request (r : IamRequest)
  | step (i : ℕ) (newId : String)
  | tick (wall mono : ℕ)
  | abort (i : ℕ)

namespace IamCall

/-- A call that ends without an answer: its process or its session fails. -/
def lost : IamCall → Option IamCall
  | .authorize _ (.done _) | .authorize _ .lost | .request _ (.done _) => none
  | .authorize a _ => some (.authorize a .lost)
  | .request r _ => some (.request r (.done (.raised .failed)))

end IamCall

namespace IamDesk

variable (s : IamDesk) (i : ℕ)

def move (r : IamRequest) (m : IamMove) : IamDesk :=
  { s with
    db := s.db.commit m.write
    cache := (m.invalidate.map s.cache.invalidate).getD s.cache
    calls := s.calls.set i (.request r m.next) }

def stepCall (ttlSeconds : ℤ) (newId : String) : IamCall → Option IamDesk
  | .authorize a phase =>
    (a.step ttlSeconds s.db s.wall s.mono s.cache phase).map fun x =>
      { s with cache := x.1, calls := s.calls.set i (.authorize a x.2) }
  | .request r phase => (r.step s.db s.wall newId phase).map (s.move i r)

end IamDesk

def iam (ttlSeconds : ℤ) : Machine IamDesk IamAct where
  step s
    | .authorize a => some { s with calls := s.calls ++ [.authorize a .called] }
    | .request r => some { s with calls := s.calls ++ [.request r .called] }
    | .step i newId => s.calls[i]?.bind (s.stepCall i ttlSeconds newId)
    | .tick wall mono => some { s with wall := s.wall + wall, mono := s.mono + mono }
    | .abort i => (s.calls[i]?.bind IamCall.lost).map fun c => { s with calls := s.calls.set i c }

end DeerFlow

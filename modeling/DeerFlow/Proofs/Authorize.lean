import DeerFlow.Iam.Authorize

/-!
# What an authorize call allows

The reads, gates and intersections of a call come down to one formula over the tables, and a call
that does not read the cache allows exactly what it permits.
-/

namespace DeerFlow

open List AuthorizeArgs IamDb

def PrincipalRef.Names (p : PrincipalRef) : PrincipalType → String → Prop
  | .user, id => p.type = .user ∧ p.userId = some id
  | .serviceAccount, id => p.type = .serviceAccount ∧ p.id = id
  | .system, _ => False

def IamDb.ActivePrincipal (db : IamDb) (orgId : String) : PrincipalType → String → Prop
  | .user, id => db.memberships.get? (orgId, id) = some .active
  | .serviceAccount, id =>
    ∃ sa, db.serviceAccounts.get? id = some sa ∧ sa.orgId = orgId ∧ sa.status = .active
  | .system, _ => False

/-- Some role bound to the principal in the organisation, by a binding that has not expired, lists
the permission. -/
def IamDb.Granted (db : IamDb) (now : ℕ) (orgId : String) (type : PrincipalType) (id : String)
    (permission : String) : Prop :=
  ∃ b ∈ db.bindings.values, ∃ r, b.orgId = orgId ∧ b.principalType = type ∧ b.principalId = id ∧
    (∀ t, b.expiresAt = some t → now < t) ∧ db.roles.get? b.roleId = some r ∧
    Json.str permission ∈ r.permissions

structure IamDb.Permits (db : IamDb) (now : ℕ) (orgId : String) (type : PrincipalType) (id : String)
    (permission : String) : Prop where
  org : db.orgs.get? orgId = some .active
  principal : db.ActivePrincipal orgId type id
  granted : db.Granted now orgId type id permission
  notSystem : isSystemPermission permission = false

/-- `s'` restricts at least as much as `s`. -/
def Narrower (s' s : Option (Finset String)) : Prop :=
  ∀ scopes, s = some scopes → ∃ scopes', s' = some scopes' ∧ scopes' ⊆ scopes

def AuthorizeArgs.Misses (a : AuthorizeArgs) (c : PermissionCache) (mono : ℕ) : Prop :=
  a.forceRefresh = true ∨
    ∀ type id, a.subject = .ok (type, id) → c.get? mono (orgCacheKey a.orgId type id) = none

section Computation

variable {db : IamDb} {now : ℕ} {orgId id p : String} {type : PrincipalType}

theorem RoleRow.mem_granted {r : RoleRow} :
    p ∈ r.granted ↔ Json.str p ∈ r.permissions ∧ isSystemPermission p = false := by
  unfold RoleRow.granted
  rw [mem_filterMap]
  constructor
  · rintro ⟨j, hj, hp⟩
    split at hp
    · split at hp
      · cases hp
      · next hsys =>
        cases hp
        exact ⟨hj, by simpa using hsys⟩
    · cases hp
  · rintro ⟨hj, hp⟩
    exact ⟨.str p, hj, by simp [hp]⟩

theorem IamDb.mem_fetchRolePermissions : p ∈ db.fetchRolePermissions now orgId type id ↔
      db.Granted now orgId type id p ∧ isSystemPermission p = false := by
  unfold fetchRolePermissions IamDb.Granted
  simp only [mem_toFinset, mem_flatMap, mem_filter, Bool.and_eq_true,
    RoleBindingRow.isOf_iff, RoleBindingRow.live_iff]
  constructor
  · rintro ⟨b, ⟨hb, ⟨horg, htype, hid⟩, hlive⟩, hp⟩
    cases hr : db.roles.get? b.roleId with
    | none => simp [hr] at hp
    | some r =>
      simp only [hr, Option.map_some, Option.getD_some, RoleRow.mem_granted] at hp
      exact ⟨⟨b, hb, r, horg, htype, hid, hlive, hr, hp.1⟩, hp.2⟩
  · rintro ⟨⟨b, hb, r, horg, htype, hid, hlive, hr, hp⟩, hsys⟩
    refine ⟨b, ⟨hb, ⟨horg, htype, hid⟩, hlive⟩, ?_⟩
    simpa [hr, RoleRow.mem_granted] using ⟨hp, hsys⟩

theorem IamDb.Granted.earlier {later : ℕ} (h : now ≤ later)
    (hg : db.Granted later orgId type id p) : db.Granted now orgId type id p := by
  obtain ⟨b, hb, r, horg, htype, hid, hlive, hr, hp⟩ := hg
  exact ⟨b, hb, r, horg, htype, hid, fun t ht => h.trans_lt (hlive t ht), hr, hp⟩

theorem IamDb.orgGate_ok {st : OrgStatus} :
    db.orgGate orgId = .ok st ↔ db.orgs.get? orgId = some .active ∧ st = .active := by
  unfold orgGate
  split <;> simp_all [@eq_comm OrgStatus .active]

theorem IamDb.principalGate_ok {st : MembershipStatus} :
    db.principalGate orgId type id = .ok st ↔ db.ActivePrincipal orgId type id ∧ st = .active := by
  cases type with
  | user =>
    simp only [principalGate, membershipGate, IamDb.ActivePrincipal]
    split <;> simp_all [@eq_comm MembershipStatus .active]
  | serviceAccount =>
    simp only [principalGate, serviceAccountGate, IamDb.ActivePrincipal]
    split
    · simp_all
    · next sa hsa =>
      by_cases horg : sa.orgId = orgId
      · rw [if_neg (by simpa using horg)]
        cases hst : sa.status <;> simp [hsa, horg, hst, eq_comm]
      · rw [if_pos horg]
        simp [hsa, horg]
  | system => simp [principalGate, IamDb.ActivePrincipal]

theorem IamDb.computePermissions_ok {perms : Finset String} :
    db.computePermissions now orgId type id "user" = .ok perms ↔
      db.orgs.get? orgId = some .active ∧ db.ActivePrincipal orgId type id ∧
        perms = db.fetchRolePermissions now orgId type id := by
  unfold computePermissions
  cases horg : db.orgGate orgId with
  | error e =>
    have hne : db.orgs.get? orgId ≠ some .active := fun h => by
      rw [orgGate_ok.2 ⟨h, rfl⟩] at horg
      cases horg
    simp [bind, Except.bind, hne]
  | ok st =>
    cases hpr : db.principalGate orgId type id with
    | error e =>
      have hne : ¬ db.ActivePrincipal orgId type id := fun h => by
        rw [principalGate_ok.2 ⟨h, rfl⟩] at hpr
        cases hpr
      simp [bind, Except.bind, hne]
    | ok m =>
      simp [bind, Except.bind, pure, Except.pure, computeEffectivePermissions,
        (orgGate_ok.1 horg).1, (principalGate_ok.1 hpr).1, eq_comm]

theorem IamDb.permits_iff : db.Permits now orgId type id p ↔
      ∃ perms, db.computePermissions now orgId type id "user" = .ok perms ∧ p ∈ perms := by
  simp only [computePermissions_ok]
  constructor
  · rintro ⟨horg, hpr, hg, hsys⟩
    exact ⟨_, ⟨horg, hpr, rfl⟩, mem_fetchRolePermissions.2 ⟨hg, hsys⟩⟩
  · rintro ⟨perms, ⟨horg, hpr, rfl⟩, hp⟩
    obtain ⟨hg, hsys⟩ := mem_fetchRolePermissions.1 hp
    exact ⟨horg, hpr, hg, hsys⟩

end Computation

section Call

variable {ttl : ℤ} {db : IamDb} {wall mono : ℕ} {c : PermissionCache} {a : AuthorizeArgs}
  {type : PrincipalType} {id : String}

theorem mem_applyScopes {perms : Finset String} {scopes : Option (Finset String)} {p : String} :
    p ∈ applyScopes perms scopes ↔ p ∈ perms ∧ ∀ S, scopes = some S → p ∈ S := by
  cases scopes <;> simp [applyScopes]

theorem AuthorizeArgs.subject_ok : a.subject = .ok (type, id) ↔ a.principal.Names type id := by
  unfold subject
  cases htype : a.principal.type with
  | user =>
    cases hid : a.principal.userId with
    | none => cases type <;> simp [PrincipalRef.Names, htype, hid]
    | some uid => cases type <;> simp [PrincipalRef.Names, htype, hid, eq_comm]
  | serviceAccount =>
    have hne := a.principal.nonempty
    cases type <;> simp [PrincipalRef.Names, htype, hne]
  | system => cases type <;> simp [PrincipalRef.Names, htype]

theorem AuthorizeArgs.answer_ok {effective : Finset String} :
    a.answer effective = .ok () ↔ a.permission ∈ effective := by
  unfold answer
  split <;> simp_all

theorem AuthorizeArgs.effective_of_subject
    (h : a.subject = .ok (type, id)) :
    a.effective ttl db wall mono c = c.readThrough ttl mono (orgCacheKey a.orgId type id) a.scopes
      a.forceRefresh (db.computePermissions wall a.orgId type id "user") := by
  unfold effective
  rw [h]
  cases type with
  | user => rfl
  | serviceAccount => rfl
  | system => exact (subject_ok.1 h).elim

theorem authorize_ok_iff : (authorize ttl db wall mono c a).1 = .ok () ↔
      ∃ type id, a.principal.Names type id ∧ (∀ S, a.scopes = some S → a.permission ∈ S) ∧
        ∃ perms, a.permission ∈ perms ∧
          match (c.lookup mono (orgCacheKey a.orgId type id) a.forceRefresh).1 with
          | some cached => perms = cached
          | none => db.computePermissions wall a.orgId type id "user" = .ok perms := by
  unfold authorize
  cases hsub : a.subject with
  | error e =>
    have hnone : ∀ type id, ¬ a.principal.Names type id := fun type id h => by
      rw [subject_ok.2 h] at hsub
      cases hsub
    simp [effective, hsub, hnone]
  | ok ti =>
    obtain ⟨type, id⟩ := ti
    have hnames : ∀ type' id', a.principal.Names type' id' ↔ type' = type ∧ id' = id := by
      intro type' id'
      rw [← subject_ok, hsub]
      simp [eq_comm]
    rw [effective_of_subject hsub]
    simp only [hnames, PermissionCache.readThrough]
    cases hlook : c.lookup mono (orgCacheKey a.orgId type id) a.forceRefresh with
    | mk cached c' =>
      cases cached with
      | some cached => simp [answer_ok, mem_applyScopes, hlook, and_comm]
      | none =>
        cases hcomp : db.computePermissions wall a.orgId type id "user" with
        | error e => simp [hlook, hcomp]
        | ok perms => simp [answer_ok, mem_applyScopes, hlook, hcomp, and_comm]

theorem AuthorizeArgs.Misses.lookup (h : a.Misses c mono)
    (hn : a.principal.Names type id) :
    (c.lookup mono (orgCacheKey a.orgId type id) a.forceRefresh).1 = none := by
  unfold PermissionCache.lookup
  split
  · rfl
  · next hf =>
    rcases h with h | h
    · exact absurd h hf
    · exact h type id (subject_ok.2 hn)

/-- A call that does not use the cache allows exactly what the formula permits, and in no state of
the cache does a narrower scope allow more. -/
theorem authorize_computes_the_intersection (ttl : ℤ) (db : IamDb) (wall mono : ℕ)
    (c : PermissionCache) (a : AuthorizeArgs) :
    (a.Misses c mono → ((authorize ttl db wall mono c a).1 = .ok () ↔
      ∃ type id, a.principal.Names type id ∧ db.Permits wall a.orgId type id a.permission ∧
        ∀ S, a.scopes = some S → a.permission ∈ S)) ∧
    ∀ scopes, Narrower scopes a.scopes → (authorize ttl db wall mono c a).1 ≠ .ok () →
      (authorize ttl db wall mono c { a with scopes := scopes }).1 ≠ .ok () := by
  constructor
  · intro hmiss
    rw [authorize_ok_iff]
    constructor
    · rintro ⟨type, id, hn, hscopes, perms, hp, hcomp⟩
      rw [hmiss.lookup hn] at hcomp
      exact ⟨type, id, hn, permits_iff.2 ⟨perms, hcomp, hp⟩, hscopes⟩
    · rintro ⟨type, id, hn, hpermits, hscopes⟩
      obtain ⟨perms, hcomp, hp⟩ := permits_iff.1 hpermits
      refine ⟨type, id, hn, hscopes, perms, hp, ?_⟩
      rw [hmiss.lookup hn]
      exact hcomp
  · intro scopes hnarrow hdeny hallow
    apply hdeny
    rw [authorize_ok_iff] at hallow ⊢
    obtain ⟨type, id, hn, hscopes, hperms⟩ := hallow
    refine ⟨type, id, hn, fun S hS => ?_, hperms⟩
    obtain ⟨S', hS', hsub⟩ := hnarrow S hS
    exact hsub (hscopes S' hS')

end Call

def readerDb : IamDb where
  orgs := OrdDict.empty.set "o" .active
  memberships := OrdDict.empty.set ("o", "u") .active
  roles := OrdDict.empty.set "r" ⟨none, "org:viewer", [.str "runtime:run:read"], true, isSystem_inScope⟩
  bindings := OrdDict.empty.set "b" ⟨"o", .user, "u", "r", none, some 10, user_ne_system⟩

def readsRun (scopes : Option (Finset String)) : AuthorizeArgs where
  principal := ⟨.user, "u", some "u", none, by decide, fun h => absurd rfl h⟩
  orgId := "o"
  permission := "runtime:run:read"
  scopes := scopes

theorem readerDb_permits : readerDb.Permits 9 "o" .user "u" "runtime:run:read" := by
  refine ⟨rfl, rfl, ⟨_, mem_singleton_self _, _, rfl, rfl, rfl, ?_, rfl, ?_⟩, by decide⟩
  · intro t ht
    cases ht
    decide
  · exact mem_singleton_self _

/-- The member is allowed while the binding is live, and not by an empty scope. -/
theorem reader_reads_within_scopes : (authorize 60 readerDb 9 0 .empty (readsRun none)).1 = .ok () ∧
    (authorize 60 readerDb 10 0 .empty (readsRun none)).1 ≠ .ok () ∧
    (authorize 60 readerDb 10 0 .empty (readsRun (some ∅))).1 ≠ .ok () := by
  refine ⟨?_, by decide +kernel, ?_⟩
  · refine ((authorize_computes_the_intersection 60 readerDb 9 0 .empty (readsRun none)).1
      (Or.inr fun _ _ _ => rfl)).2 ⟨.user, "u", ⟨rfl, rfl⟩, readerDb_permits, fun S hS => ?_⟩
    cases hS
  · exact (authorize_computes_the_intersection 60 readerDb 10 0 .empty (readsRun none)).2 (some ∅)
      nofun (by decide +kernel)

end DeerFlow

import DeerFlow.Proofs.IamSteps

/-!
# Roles of other organisations

The permissions of an organisation's principals do not depend on the custom roles of other
organisations, as long as the role ids given for it name system roles or roles of its own. The
endpoints do not compare the two.
-/

namespace DeerFlow

open OrdDict IamDb IamMove

def IamDb.LocalRole (db : IamDb) (orgId roleId : String) : Prop :=
  ∀ r ∈ db.roles.get? roleId, r.isSystem = true ∨ r.orgId = some orgId

instance (db : IamDb) (orgId roleId : String) : Decidable (db.LocalRole orgId roleId) :=
  inferInstanceAs (Decidable (∀ r ∈ db.roles.get? roleId, _))

/-- Two rows of `roles` that differ at most in the permissions of another organisation's role. -/
structure RoleRow.Agree (orgId : String) (r r' : RoleRow) : Prop where
  owner : r.orgId = r'.orgId
  name : r.name = r'.name
  system : r.isSystem = r'.isSystem
  permissions : r.isSystem = true ∨ r.orgId = some orgId → r.permissions = r'.permissions

/-- Two databases that differ only in the permissions of custom roles of other organisations. -/
structure IamDb.AgreeFor (orgId : String) (db db' : IamDb) : Prop where
  orgs : db.orgs = db'.orgs
  memberships : db.memberships = db'.memberships
  serviceAccounts : db.serviceAccounts = db'.serviceAccounts
  bindings : db.bindings = db'.bindings
  mappings : db.mappings = db'.mappings
  roles : ∀ k, Option.Rel (RoleRow.Agree orgId) (db.roles.get? k) (db'.roles.get? k)

def IamDb.LocalRule (db : IamDb) (orgId : String) (m : GroupMappingRow) : Prop :=
  m.targetOrgId = orgId → db.LocalRole orgId m.targetRoleId

def IamPhase.LocalRules (db : IamDb) (orgId : String) : IamPhase → Prop
  | .mapping _ rules _ => ∀ m ∈ rules, db.LocalRule orgId m
  | .binding o rule rules _ => rule.targetOrgId = o ∧ db.LocalRule orgId rule ∧
    ∀ m ∈ rules, db.LocalRule orgId m
  | _ => True

structure IamDesk.LocalRoles (orgId : String) (s : IamDesk) : Prop where
  bindings : ∀ k b, s.db.bindings.get? k = some b → b.orgId = orgId → s.db.LocalRole orgId b.roleId
  mappings : ∀ k m, s.db.mappings.get? k = some m → s.db.LocalRule orgId m
  calls : ∀ (i : ℕ) (r : IamRequest) (phase : IamPhase), s.calls[i]? = some (.request r phase) →
    phase.LocalRules s.db orgId

def IamCall.GivesLocalRole (db : IamDb) (orgId : String) : IamCall → Prop
  | .request (.createSaRoleBinding o _ roleId _ _) .writing => o = orgId → db.LocalRole orgId roleId
  | .request (.createMapping _ body) .writing =>
    body.targetOrgId = orgId → db.LocalRole orgId body.targetRoleId
  | .request (.updateMapping _ mappingId fields) .writing =>
    ∀ m ∈ db.mappings.get? mappingId, m.targetOrgId = orgId →
      ∀ roleId ∈ fields.targetRoleId, db.LocalRole orgId roleId
  | _ => True

instance (db : IamDb) (orgId : String) (c : IamCall) : Decidable (c.GivesLocalRole db orgId) := by
  unfold IamCall.GivesLocalRole
  split <;> infer_instance

def IamAct.GivesLocalRole (orgId : String) (s : IamDesk) : IamAct → Prop
  | .step i _ => ∀ c ∈ s.calls[i]?, c.GivesLocalRole s.db orgId
  | _ => True

instance (orgId : String) (s : IamDesk) (a : IamAct) : Decidable (a.GivesLocalRole orgId s) := by
  rcases a with ⟨⟩ <;> dsimp only [IamAct.GivesLocalRole] <;> infer_instance

section Writes

variable {db : IamDb}  {orgId newId : String} {r : IamRequest} {phase : IamPhase}
  {w : IamWrite}

@[simp] theorem IamDb.commit_roles : (db.commit w).roles = db.roles := by
  cases w <;> rfl

theorem IamDb.localRole_commit {roleId : String} :
    (db.commit w).LocalRole orgId roleId ↔ db.LocalRole orgId roleId := by
  simp [IamDb.LocalRole]

theorem IamDb.localRule_commit {x : GroupMappingRow} :
    (db.commit w).LocalRule orgId x ↔ db.LocalRule orgId x := by
  simp [IamDb.LocalRule, localRole_commit]

theorem IamPhase.localRules_commit :
    phase.LocalRules (db.commit w) orgId ↔ phase.LocalRules db orgId := by
  cases phase <;> simp [IamPhase.LocalRules, localRule_commit]

theorem commit_bindings_local
    (h : ∀ k b, db.bindings.get? k = some b → b.orgId = orgId → db.LocalRole orgId b.roleId)
    (hw : r.Writes db newId phase w) (hok : (IamCall.request r phase).GivesLocalRole db orgId)
    (hphase : phase.LocalRules db orgId) (k : String) (b : RoleBindingRow)
    (hk : (db.commit w).bindings.get? k = some b) (hb : b.orgId = orgId) :
    db.LocalRole orgId b.roleId := by
  cases hw with
  | nothing | suspend | activate | newAccount | status | newMapping | newFields | dropMapping =>
    exact h k b hk hb
  | dropAccount o id =>
    simp only [commit, get?_filter, Option.filter_eq_some_iff] at hk
    exact h k b hk.1 hb
  | unbind o id bindingId d hd ho =>
    simp only [commit, get?_pop] at hk
    split at hk
    · cases hk
    · exact h k b hk hb
  | bind o id roleId actor expiresAt hrow hnew =>
    simp only [commit, get?_set] at hk
    split at hk
    · cases hk
      exact hok hb
    · exact h k b hk hb
  | groupBind u issuer groups dryRun o rule rules result provenance hnew =>
    simp only [commit, get?_set] at hk
    split at hk
    · cases hk
      exact hphase.2.1 (hphase.1.trans hb)
    · exact h k b hk hb

theorem commit_mappings_local (h : ∀ k x, db.mappings.get? k = some x → db.LocalRule orgId x)
    (hw : r.Writes db newId phase w) (hok : (IamCall.request r phase).GivesLocalRole db orgId)
    (k : String) (x : GroupMappingRow) (hk : (db.commit w).mappings.get? k = some x) :
    db.LocalRule orgId x := by
  cases hw with
  | nothing | suspend | activate | newAccount | status | dropAccount | bind | unbind | groupBind =>
    exact h k x hk
  | newMapping o body row horg hrole =>
    simp only [commit, get?_set] at hk
    split at hk
    · cases hk
      intro hx
      rw [hrole]
      exact hok (horg.symm.trans hx)
    · exact h k x hk
  | newFields o mappingId fields old row hold horg hrole =>
    simp only [commit, get?_set] at hk
    split at hk
    · cases hk
      intro hx
      have hold' : old.targetOrgId = orgId := horg.symm.trans hx
      rw [hrole]
      cases hf : fields.targetRoleId with
      | none => exact h mappingId old hold hold'
      | some roleId => exact hok old hold hold' roleId hf
    · exact h k x hk
  | dropMapping o mappingId =>
    simp only [commit, get?_pop] at hk
    split at hk
    · cases hk
    · exact h k x hk

end Writes

section Phases

variable {db : IamDb} {wall : ℕ} {orgId newId : String} {r : IamRequest} {phase : IamPhase}
  {m : IamMove}

theorem IamMove.localRules_transact {next : IamPhase} {x : Except IamError IamWrite}
    (h : next.LocalRules db orgId) : (transact next x).next.LocalRules db orgId := by
  cases x with
  | error e => trivial
  | ok w => exact h

theorem IamRequest.localRules_considerRule {groups : List String} {o : String}
    {rule : GroupMappingRow} {rules : List GroupMappingRow} {result : MappingResult}
    (h : ∀ x ∈ rule :: rules, db.LocalRule orgId x) :
    (considerRule db groups o rule rules result).LocalRules db orgId := by
  have hrest : ∀ x ∈ rules, db.LocalRule orgId x := fun x hx => h x (List.mem_cons_of_mem _ hx)
  unfold considerRule
  simp only
  split
  · exact hrest
  split
  · exact hrest
  split
  · exact hrest
  · next horg =>
    split
    · exact hrest
    split
    · exact hrest
    · exact ⟨not_not.1 horg, h rule List.mem_cons_self, hrest⟩

theorem IamRequest.step_localRules
    (hmap : ∀ k x, db.mappings.get? k = some x → db.LocalRule orgId x)
    (h : phase.LocalRules db orgId) (hs : r.step db wall newId phase = some m) :
    m.next.LocalRules db orgId := by
  cases r with
  | applyGroupMapping u issuer groups dryRun =>
    simp only [step] at hs
    unfold applyMapping at hs
    split at hs
    · split at hs <;> (cases hs; trivial)
    · cases hs
      intro x hx
      obtain ⟨k, hk⟩ := mem_values_iff.1 (List.mem_of_mem_filter hx)
      exact hmap k x hk
    · cases hs
      trivial
    · cases hs
      exact localRules_considerRule h
    · cases hs
      exact localRules_transact h.2.2
    · cases hs
  | suspendMember o u =>
    simp only [step] at hs
    unfold suspendOrgMember transition at hs
    repeat' split at hs
    all_goals cases hs
    all_goals trivial
  | activateMember o u =>
    simp only [step] at hs
    unfold activateOrgMember transition at hs
    repeat' split at hs
    all_goals cases hs
    all_goals trivial
  | setServiceAccountStatus o id status =>
    simp only [step] at hs
    unfold transitionStatus at hs
    repeat' split at hs
    all_goals cases hs
    all_goals trivial
  | deleteServiceAccount o id =>
    simp only [step] at hs
    unfold deleteOrgServiceAccount at hs
    repeat' split at hs
    all_goals cases hs
    all_goals trivial
  | deleteSaRoleBinding o id bindingId =>
    simp only [step] at hs
    unfold deleteSaBinding at hs
    repeat' split at hs
    all_goals cases hs
    all_goals trivial
  | deleteMapping o mappingId =>
    simp only [step] at hs
    unfold deleteGroupMapping at hs
    repeat' split at hs
    all_goals cases hs
    all_goals trivial
  | createServiceAccount o name =>
    simp only [step] at hs
    unfold createOrgServiceAccount at hs
    repeat' split at hs
    all_goals cases hs
    exact localRules_transact trivial
  | createSaRoleBinding o id roleId actor expiresAt =>
    simp only [step] at hs
    unfold createSaBinding at hs
    repeat' split at hs
    all_goals cases hs
    all_goals first | trivial | exact localRules_transact trivial
  | createMapping o body =>
    simp only [step] at hs
    unfold createGroupMapping at hs
    repeat' split at hs
    all_goals cases hs
    all_goals first | trivial | exact localRules_transact trivial
  | updateMapping o mappingId fields =>
    simp only [step] at hs
    unfold updateGroupMapping at hs
    repeat' split at hs
    all_goals cases hs
    all_goals first | trivial | exact localRules_transact trivial

end Phases

section Runs

variable {ttl : ℤ} {s s' : IamDesk} {a : IamAct} {orgId : String}

theorem IamDesk.LocalRoles.step (h : s.LocalRoles orgId) (hok : a.GivesLocalRole orgId s)
    (hs : (iam ttl).step s a = some s') : s'.LocalRoles orgId := by
  -- the tables first: the rows of a write are local
  have hdb : ∃ w, s'.db = s.db.commit w ∧
      (∀ k b, (s.db.commit w).bindings.get? k = some b → b.orgId = orgId →
        s.db.LocalRole orgId b.roleId) ∧
      ∀ k m, (s.db.commit w).mappings.get? k = some m → s.db.LocalRule orgId m := by
    obtain ⟨hdb, -⟩ | ⟨wall, mono, rfl, hdb, -⟩ | ⟨i, newId, r, phase, w, rfl, hc, hw, hdb, -⟩ :=
      iam_step_db hs
    · exact ⟨.nothing, hdb, h.bindings, h.mappings⟩
    · exact ⟨.nothing, hdb, h.bindings, h.mappings⟩
    · exact ⟨w, hdb, commit_bindings_local h.bindings hw (hok _ hc) (h.calls i r phase hc),
        commit_mappings_local h.mappings hw (hok _ hc)⟩
  obtain ⟨w, hw, hbind, hmap⟩ := hdb
  refine ⟨?_, ?_, fun j r phase hj => ?_⟩
  · intro k b hk hb
    rw [hw] at hk ⊢
    exact localRole_commit.2 (hbind k b hk hb)
  · intro k m hk
    rw [hw] at hk ⊢
    exact localRule_commit.2 (hmap k m hk)
  · rw [hw, IamPhase.localRules_commit]
    obtain hold | ⟨-, ⟨args, hc⟩ | ⟨r', hc⟩⟩ | ⟨-, args, p, x, -, -, -, hc⟩ |
      ⟨newId, r', p, m, rfl, hold, hm, hc⟩ | ⟨c, hold, hl⟩ := iam_step_call hs hj
    · exact h.calls j r phase hold
    · cases hc
    · cases hc
      trivial
    · cases hc
    · cases hc
      exact IamRequest.step_localRules h.mappings (h.calls j r p hold) hm
    · unfold IamCall.lost at hl
      split at hl <;> cases hl
      trivial

theorem IamDb.fetchRolePermissions_congr {db db' : IamDb} {wall : ℕ} {type : PrincipalType}
    {id : String} (h : db.AgreeFor orgId db')
    (hloc : ∀ k b, db.bindings.get? k = some b → b.orgId = orgId → db.LocalRole orgId b.roleId) :
    db.fetchRolePermissions wall orgId type id = db'.fetchRolePermissions wall orgId type id := by
  unfold fetchRolePermissions
  rw [← h.bindings]
  simp only
  congr 1
  refine List.flatMap_congr fun b hb => ?_
  obtain ⟨hmem, hcond⟩ := List.mem_filter.1 hb
  obtain ⟨k, hk⟩ := mem_values_iff.1 hmem
  have horg : b.orgId = orgId := (RoleBindingRow.isOf_iff.1 (Bool.and_eq_true _ _ ▸ hcond).1).1
  have hrole := hloc k b hk horg
  have hrel := h.roles b.roleId
  unfold IamDb.LocalRole at hrole
  cases hr : db.roles.get? b.roleId with
  | none =>
    rw [hr] at hrel
    cases hrel' : db'.roles.get? b.roleId with
    | none => rfl
    | some r' =>
      rw [hrel'] at hrel
      cases hrel
  | some r =>
    rw [hr] at hrel hrole
    cases hrel' : db'.roles.get? b.roleId with
    | none =>
      rw [hrel'] at hrel
      cases hrel
    | some r' =>
      rw [hrel'] at hrel
      cases hrel with
      | some hagree =>
        simp only [Option.map_some, Option.getD_some, RoleRow.granted]
        rw [hagree.permissions (hrole r rfl)]

/-- In every state of a run that gives only local role ids for the organisation, the permissions of
its principals are the same in any database that differs in other organisations' custom roles. -/
theorem roles_are_isolated (ttl : ℤ) (orgId : String) (s t : IamDesk) (as : List IamAct)
    (db' : IamDb) (hstart : s.LocalRoles orgId)
    (hok : (iam ttl).Along (fun s a => a.GivesLocalRole orgId s) as s)
    (hrun : (iam ttl).run as s = some t) (hagree : t.db.AgreeFor orgId db') :
    ∀ (wall : ℕ) (id : String), t.db.computeUserPermissions wall orgId id "user"
        = db'.computeUserPermissions wall orgId id "user" ∧
      t.db.computeServiceAccountPermissions wall orgId id
        = db'.computeServiceAccountPermissions wall orgId id := by
  have hlocal : t.LocalRoles orgId :=
    Machine.run_inv (fun _ _ _ h hok hs => h.step hok hs) hstart hok hrun
  have hfetch : ∀ (wall : ℕ) (type : PrincipalType) (id : String),
      t.db.fetchRolePermissions wall orgId type id = db'.fetchRolePermissions wall orgId type id :=
    fun _ _ _ => fetchRolePermissions_congr hagree hlocal.bindings
  have horg : t.db.orgGate orgId = db'.orgGate orgId := by
    unfold orgGate
    rw [hagree.orgs]
  have hprincipal : ∀ (type : PrincipalType) (id : String),
      t.db.principalGate orgId type id = db'.principalGate orgId type id := by
    intro type id
    cases type with
    | user => simp only [principalGate, membershipGate, hagree.memberships]
    | serviceAccount =>
      simp only [principalGate, serviceAccountGate, hagree.serviceAccounts]
    | system => rfl
  intro wall id
  simp only [computeUserPermissions, computeServiceAccountPermissions,
    computePermissions, horg, hprincipal, hfetch, and_self]

end Runs

/-- Two organisations; `p` are the permissions of a custom role of the second. -/
def twoOrgs (p : List Json) : IamDesk where
  db :=
    { orgs := (empty.set "a" .active).set "b" .active
      serviceAccounts := empty.set "sa" ⟨"a", "ci", .active⟩
      roles := (empty.set "own" ⟨some "a", "runner", [.str "runtime:run:create"], false,
        by decide⟩).set "foreign" ⟨some "b", "editor", p, false, by decide⟩ }

def bindActs (roleId : String) : List IamAct :=
  [.request (.createSaRoleBinding "a" "sa" roleId none none), .step 0 "n", .step 0 "n", .step 0 "n"]

def boundDb (roleId : String) (p : List Json) : IamDb :=
  { (twoOrgs p).db with
    bindings := empty.set "n" ⟨"a", .serviceAccount, "sa", roleId, none, none, serviceAccount_ne_system⟩ }

theorem localRoles_twoOrgs (p : List Json) : (twoOrgs p).LocalRoles "a" := by
  refine ⟨?_, ?_, ?_⟩ <;> simp [twoOrgs]

theorem agreeFor_boundDb (roleId : String) (p p' : List Json) :
    (boundDb roleId p).AgreeFor "a" (boundDb roleId p') := by
  refine ⟨rfl, rfl, rfl, rfl, rfl, fun k => ?_⟩
  simp only [boundDb, twoOrgs, get?_set, get?_empty]
  split
  · exact .some ⟨rfl, rfl, rfl, fun h => by simp at h⟩
  · split
    · exact .some ⟨rfl, rfl, rfl, fun _ => rfl⟩
    · exact .none

theorem own_role_is_isolated : ∃ t t', (iam 60).run (bindActs "own") (twoOrgs []) = some t ∧
    (iam 60).run (bindActs "own") (twoOrgs [.str "admin:iam:manage"]) = some t' ∧
    t.db.computeServiceAccountPermissions 0 "a" "sa"
      = t'.db.computeServiceAccountPermissions 0 "a" "sa" := by
  refine ⟨_, _, rfl, rfl, ?_⟩
  exact (roles_are_isolated 60 "a" (twoOrgs []) _ (bindActs "own") _ (localRoles_twoOrgs [])
    (by decide +kernel) rfl (agreeFor_boundDb "own" [] [.str "admin:iam:manage"]) 0 "sa").2

/-- A service account bound to another organisation's role has the permissions that organisation
gives the role. -/
theorem foreign_role_decides : ∃ t t', (iam 60).run (bindActs "foreign") (twoOrgs []) = some t ∧
    (iam 60).run (bindActs "foreign") (twoOrgs [.str "admin:iam:manage"]) = some t' ∧
    t.db.AgreeFor "a" t'.db ∧
    t.db.computeServiceAccountPermissions 0 "a" "sa"
      ≠ t'.db.computeServiceAccountPermissions 0 "a" "sa" :=
  ⟨_, _, rfl, rfl, agreeFor_boundDb "foreign" [] [.str "admin:iam:manage"], by decide +kernel⟩

section UserPermissions

/-- The requests that can move what a user may do in an organisation. -/
def IamRequest.Concerns (orgId userId : String) : IamRequest → Prop
  | .suspendMember o u | .activateMember o u => (o, u) = (orgId, userId)
  | .deleteSaRoleBinding o _ _ => o = orgId
  | .applyGroupMapping u _ _ _ => u = userId
  | _ => False

def IamAct.Spares (orgId userId : String) (s : IamDesk) : IamAct → Prop
  | .step i _ => ∀ r phase, s.calls[i]? = some (.request r phase) → ¬ r.Concerns orgId userId
  | _ => True

variable {db : IamDb} {orgId userId newId : String} {r : IamRequest} {phase : IamPhase}
  {w : IamWrite}

theorem IamRequest.Writes.membership (hw : r.Writes db newId phase w)
    (hr : ¬ r.Concerns orgId userId) :
    (db.commit w).memberships.get? (orgId, userId) = db.memberships.get? (orgId, userId) := by
  cases hw with
  | suspend o u | activate o u => exact (get?_set ..).trans (if_neg hr)
  | _ => rfl

theorem IamRequest.Writes.user_binding (hw : r.Writes db newId phase w)
    (hr : ¬ r.Concerns orgId userId) {b : RoleBindingRow} (horg : b.orgId = orgId)
    (htype : b.principalType = .user) (huser : b.principalId = userId) (id : String) :
    (db.commit w).bindings.get? id = some b ↔ db.bindings.get? id = some b := by
  cases hw with
  | dropAccount o sa => simp [commit, htype]
  | bind o sa roleId actor expiresAt h hnew =>
    refine get?_set_new hnew ?_
    rintro rfl
    cases htype
  | groupBind u issuer groups dryRun o rule rules result provenance hnew =>
    refine get?_set_new hnew ?_
    rintro rfl
    exact hr huser
  | unbind o sa bindingId b' h ho =>
    have hne : db.bindings.get? bindingId ≠ some b := fun hb =>
      hr (ho.symm.trans ((Option.some.inj (h.symm.trans hb)) ▸ horg))
    simp only [commit, get?_pop]
    split_ifs with hid
    · simp [← hid, hne]
    · rfl
  | _ => rfl

theorem IamRequest.Writes.permits_iff (hw : r.Writes db newId phase w)
    (hr : ¬ r.Concerns orgId userId) {now : ℕ} {p : String} :
    (db.commit w).Permits now orgId .user userId p ↔ db.Permits now orgId .user userId p := by
  have horgs : (db.commit w).orgs = db.orgs := by cases w <;> rfl
  have hgranted : (db.commit w).Granted now orgId .user userId p ↔
      db.Granted now orgId .user userId p := by
    simp only [IamDb.Granted, mem_values_iff, commit_roles]
    refine exists_congr fun b => and_congr_left fun h => exists_congr fun id => ?_
    obtain ⟨role, horg, htype, huser, -⟩ := h
    exact hw.user_binding hr horg htype huser id
  exact ⟨fun h => ⟨horgs ▸ h.org, (hw.membership hr).symm.trans h.principal, hgranted.1 h.granted,
    h.notSystem⟩, fun h => ⟨horgs ▸ h.org, (hw.membership hr).trans h.principal,
    hgranted.2 h.granted, h.notSystem⟩⟩

/-- What a user may do in an organisation stays as it is while no request that concerns them takes a
step, whatever the other requests do. -/
theorem user_permissions_stay (ttl : ℤ) (orgId userId : String) (s s' : IamDesk) (as : List IamAct)
    (hok : (iam ttl).Along (fun s a => a.Spares orgId userId s) as s)
    (hrun : (iam ttl).run as s = some s') (now : ℕ) (p : String) :
    s'.db.Permits now orgId .user userId p ↔ s.db.Permits now orgId .user userId p := by
  refine Machine.run_inv (I := fun t => t.db.Permits now orgId .user userId p ↔
    s.db.Permits now orgId .user userId p) (fun t a t' hI ha hs => ?_) Iff.rfl hok hrun
  obtain ⟨hdb, -⟩ | ⟨wall, mono, -, hdb, -⟩ | ⟨i, id, r, phase, w, rfl, hc, hw, hdb, -⟩ :=
    iam_step_db hs
  · rw [hdb, hI]
  · rw [hdb, hI]
  · rw [hdb, hw.permits_iff (ha r phase hc), hI]

/-- A service account is made and bound to the role that a member has too. -/
def bindAccount : List IamAct :=
  [.request (.createServiceAccount "o" "ci"), .step 0 "sa",
    .request (.createSaRoleBinding "o" "sa" "r" none none), .step 1 "n", .step 1 "n", .step 1 "n"]

theorem account_leaves_user_permissions : ∃ s', (iam 60).run bindAccount { db := readerDb } = some s' ∧
    (s'.db.bindings.get? "n").map (·.principalId) = some "sa" ∧
    s'.db.Permits 9 "o" .user "u" "runtime:run:read" := by
  refine ⟨_, rfl, rfl, (user_permissions_stay 60 "o" "u" { db := readerDb } _ bindAccount ?_ rfl 9 _).2
    readerDb_permits⟩
  iterate 2
    refine ⟨trivial, ?_⟩
    rintro _ ⟨⟩
    refine ⟨by rintro r phase ⟨⟩; exact id, ?_⟩
    rintro _ ⟨⟩
  iterate 2
    refine ⟨by rintro r phase ⟨⟩; exact id, ?_⟩
    rintro _ ⟨⟩
  trivial

end UserPermissions

end DeerFlow

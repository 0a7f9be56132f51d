import DeerFlow.Data.Slots
import DeerFlow.Iam.Desk
import DeerFlow.Proofs.Authorize

/-!
# What a step of the IAM calls does

One relation says which rows a request can commit at each of its steps, and one inversion lemma what
a step of the process is. What holds over runs is derived from the two.
-/

namespace DeerFlow

open Option AuthorizeArgs IamMove

inductive IamRequest.Writes (db : IamDb) (newId : String) : IamRequest → IamPhase → IamWrite → Prop
  | nothing (r phase) : Writes db newId r phase .nothing
  | suspend (orgId userId read) (h : read ≠ .suspended) :
    Writes db newId (.suspendMember orgId userId) (.committing read)
      (.setMembership orgId userId .suspended)
  | activate (orgId userId read) :
    Writes db newId (.activateMember orgId userId) (.committing read)
      (.setMembership orgId userId .active)
  | newAccount (orgId name) :
    Writes db newId (.createServiceAccount orgId name) .called
      (.putServiceAccount newId ⟨orgId, name, .active⟩)
  | status (orgId id status sa) (h : db.serviceAccounts.get? id = some sa) (horg : sa.orgId = orgId) :
    Writes db newId (.setServiceAccountStatus orgId id status) .called
      (.putServiceAccount id { sa with status := status })
  | dropAccount (orgId id) :
    Writes db newId (.deleteServiceAccount orgId id) .writing (.dropServiceAccount id)
  | bind (orgId id roleId actor expiresAt h) (hnew : db.bindings.get? newId = none) :
    Writes db newId (.createSaRoleBinding orgId id roleId actor expiresAt) .writing
      (.putBinding newId ⟨orgId, .serviceAccount, id, roleId, actor, expiresAt, h⟩)
  | unbind (orgId id bindingId b) (h : db.bindings.get? bindingId = some b) (horg : b.orgId = orgId) :
    Writes db newId (.deleteSaRoleBinding orgId id bindingId) .writing (.dropBinding bindingId)
  | newMapping (orgId body row) (horg : row.targetOrgId = body.targetOrgId)
    (hrole : row.targetRoleId = body.targetRoleId) :
    Writes db newId (.createMapping orgId body) .writing (.putMapping newId row)
  | newFields (orgId mappingId fields old row) (h : db.mappings.get? mappingId = some old)
    (horg : row.targetOrgId = old.targetOrgId)
    (hrole : row.targetRoleId = fields.targetRoleId.getD old.targetRoleId) :
    Writes db newId (.updateMapping orgId mappingId fields) .writing (.putMapping mappingId row)
  | dropMapping (orgId mappingId) :
    Writes db newId (.deleteMapping orgId mappingId) .writing (.dropMapping mappingId)
  | groupBind (userId issuer groups dryRun orgId rule rules result provenance)
    (hnew : db.bindings.get? newId = none) :
    Writes db newId (.applyGroupMapping userId issuer groups dryRun)
      (.binding orgId rule rules result)
      (.putBinding newId (IamDb.groupBinding orgId userId rule.targetRoleId provenance))

section Requests

variable {db : IamDb} {wall : ℕ} {newId : String} {phase : IamPhase} {m : IamMove}

theorem IamDb.createRoleBinding_ok {row : RoleBindingRow} {w : IamWrite}
    (h : db.createRoleBinding newId row = .ok w) :
    db.bindings.get? newId = none ∧ w = .putBinding newId row := by
  unfold IamDb.createRoleBinding at h
  split at h
  · cases h
  · next hc =>
    simp only [Bool.or_eq_true, not_or] at hc
    cases h
    exact ⟨by simpa using hc.1.1, rfl⟩

theorem IamDb.ensureGroupRoleBinding_ok {orgId userId roleId provenance : String} {w : IamWrite}
    (h : db.ensureGroupRoleBinding newId orgId userId roleId provenance = .ok w) :
    w = .nothing ∨ db.bindings.get? newId = none ∧
      w = .putBinding newId (IamDb.groupBinding orgId userId roleId provenance) := by
  unfold IamDb.ensureGroupRoleBinding at h
  split at h
  · cases h
    exact Or.inl rfl
  · exact Or.inr (IamDb.createRoleBinding_ok h)

theorem IamDb.updateOidcGroupMapping_ok {id : String} {fields : MappingFields} {w : IamWrite}
    (h : db.updateOidcGroupMapping id fields = .ok w) :
    ∃ old row, db.mappings.get? id = some old ∧ row.targetOrgId = old.targetOrgId ∧
      row.targetRoleId = fields.targetRoleId.getD old.targetRoleId ∧ w = .putMapping id row := by
  unfold IamDb.updateOidcGroupMapping at h
  split at h
  · cases h
  · next old hold =>
    simp only at h
    split at h
    · cases h
    · cases h
      refine ⟨old, _, hold, ?_, ?_, rfl⟩ <;> rfl

theorem IamMove.transact_write {next : IamPhase} {x : Except IamError IamWrite} :
    (transact next x).write = .nothing ∨ ∃ w, x = .ok w ∧ (transact next x).write = w := by
  cases x with
  | error e => exact Or.inl rfl
  | ok w => exact Or.inr ⟨w, rfl, rfl⟩

theorem IamRequest.transition_writes {orgId userId : String} {status : MembershipStatus}
    (h : transition db orgId userId status phase = some m) :
    m.write = .nothing ∨ ∃ read, phase = .committing read ∧ read ≠ status ∧
      m.write = .setMembership orgId userId status := by
  unfold transition at h
  split at h
  · split at h <;> (cases h; exact Or.inl rfl)
  · next read =>
    cases h
    simp only [transact, IamDb.setMembershipStatus]
    split
    · exact Or.inl rfl
    · next hne => exact Or.inr ⟨read, rfl, hne, rfl⟩
  · cases h
    exact Or.inl rfl
  · cases h

theorem IamRequest.step_writes {r : IamRequest} (h : r.step db wall newId phase = some m) :
    r.Writes db newId phase m.write := by
  have quiet : m.write = .nothing → r.Writes db newId phase m.write := fun hw => hw ▸ .nothing r phase
  cases r with
  | suspendMember orgId userId =>
    simp only [step] at h
    unfold suspendOrgMember at h
    split at h
    · split at h <;> (cases h; exact quiet rfl)
    · split at h <;> (cases h; exact quiet rfl)
    · split at h <;> (cases h; exact quiet rfl)
    · obtain hw | ⟨read, rfl, hread, hw⟩ := transition_writes h
      · exact quiet hw
      · exact hw ▸ .suspend orgId userId read hread
  | activateMember orgId userId =>
    simp only [step] at h
    unfold activateOrgMember at h
    split at h
    · cases h
      exact quiet rfl
    · obtain hw | ⟨read, rfl, -, hw⟩ := transition_writes h
      · exact quiet hw
      · exact hw ▸ .activate orgId userId read
  | createServiceAccount orgId name =>
    simp only [step] at h
    unfold createOrgServiceAccount at h
    split at h
    · cases h
      unfold IamDb.createServiceAccount
      split
      · exact .nothing _ _
      · exact .newAccount orgId name
    · cases h
  | setServiceAccountStatus orgId id status =>
    simp only [step] at h
    unfold transitionStatus at h
    split at h
    · split at h
      · cases h
        exact quiet rfl
      · next sa hsa =>
        split at h
        · next horg =>
          cases h
          exact .status orgId id status sa hsa horg
        · cases h
          exact quiet rfl
    · cases h
      exact quiet rfl
    · cases h
  | deleteServiceAccount orgId id =>
    simp only [step] at h
    unfold deleteOrgServiceAccount at h
    split at h
    · split at h <;> (cases h; exact quiet rfl)
    · split at h
      · cases h
        exact quiet rfl
      · next w hw =>
        cases h
        obtain ⟨sa, -, rfl⟩ := map_eq_some_iff.1 hw
        exact .dropAccount orgId id
    · cases h
      exact quiet rfl
    · cases h
  | createSaRoleBinding orgId id roleId actor expiresAt =>
    simp only [step] at h
    unfold createSaBinding at h
    split at h
    · split at h <;> (cases h; exact quiet rfl)
    · cases h
      obtain hw | ⟨w, hx, hw⟩ := transact_write
      · exact quiet hw
      · obtain ⟨hnew, rfl⟩ := IamDb.createRoleBinding_ok hx
        exact hw ▸ .bind orgId id roleId actor expiresAt _ hnew
    · cases h
      exact quiet rfl
    · cases h
  | deleteSaRoleBinding orgId id bindingId =>
    simp only [step] at h
    unfold deleteSaBinding at h
    split at h
    · split at h <;> (cases h; exact quiet rfl)
    · cases h
      simp only [transact, IamDb.deleteRoleBinding]
      split
      · next b hb =>
        split
        · next horg => exact .unbind orgId id bindingId b hb horg
        · exact .nothing _ _
      · exact .nothing _ _
    · cases h
      exact quiet rfl
    · cases h
  | createMapping orgId body =>
    simp only [step] at h
    unfold createGroupMapping at h
    split at h
    · split at h
      · cases h
        exact quiet rfl
      · split at h
        · cases h
          exact quiet rfl
        · split at h <;> (cases h; exact quiet rfl)
    · cases h
      unfold IamDb.createOidcGroupMapping
      split
      · exact .nothing _ _
      · exact .newMapping orgId body _ rfl rfl
    · cases h
  | updateMapping orgId mappingId fields =>
    simp only [step] at h
    unfold updateGroupMapping at h
    split at h
    · split at h <;> (cases h; exact quiet rfl)
    · split at h <;> (cases h; exact quiet rfl)
    · cases h
      obtain hw | ⟨w, hx, hw⟩ := transact_write
      · exact quiet hw
      · obtain ⟨old, row, hold, horg, hrole, rfl⟩ := IamDb.updateOidcGroupMapping_ok hx
        exact hw ▸ .newFields orgId mappingId fields old row hold horg hrole
    · cases h
  | deleteMapping orgId mappingId =>
    simp only [step] at h
    unfold deleteGroupMapping at h
    split at h
    · split at h <;> (cases h; exact quiet rfl)
    · cases h
      simp only [transact, IamDb.deleteOidcGroupMapping]
      split
      · split
        · exact .dropMapping orgId mappingId
        · exact .nothing _ _
      · exact .nothing _ _
    · cases h
  | applyGroupMapping userId issuer groups dryRun =>
    simp only [step] at h
    unfold applyMapping at h
    split at h
    · split at h <;> (cases h; exact quiet rfl)
    · cases h
      exact quiet rfl
    · cases h
      exact quiet rfl
    · cases h
      exact quiet rfl
    · cases h
      obtain hw | ⟨w, hx, hw⟩ := transact_write
      · exact quiet hw
      · obtain rfl | ⟨hnew, rfl⟩ := IamDb.ensureGroupRoleBinding_ok hx
        · exact quiet hw
        · exact hw ▸ .groupBind userId issuer groups dryRun _ _ _ _ _ hnew
    · cases h

end Requests

section Steps

variable {ttl : ℤ} {s s' : IamDesk} {a : IamAct}

theorem iam_step_cases (h : (iam ttl).step s a = some s') :
    (∃ c, ((∃ args, c = .authorize args .called) ∨ ∃ r, c = .request r .called) ∧
      s' = { s with calls := s.calls ++ [c] }) ∨
    (∃ i newId args phase x, a = .step i newId ∧ s.calls[i]? = some (.authorize args phase) ∧
      args.step ttl s.db s.wall s.mono s.cache phase = some x ∧
      s' = { s with cache := x.1, calls := s.calls.set i (.authorize args x.2) }) ∨
    (∃ i newId r phase m, a = .step i newId ∧ s.calls[i]? = some (.request r phase) ∧
      r.step s.db s.wall newId phase = some m ∧ s' = s.move i r m) ∨
    (∃ wall mono, a = .tick wall mono ∧
      s' = { s with wall := s.wall + wall, mono := s.mono + mono }) ∨
    (∃ i c c', a = .abort i ∧ s.calls[i]? = some c ∧ c.lost = some c' ∧
      s' = { s with calls := s.calls.set i c' }) := by
  cases a with
  | authorize args =>
    cases h
    exact Or.inl ⟨_, Or.inl ⟨args, rfl⟩, rfl⟩
  | request r =>
    cases h
    exact Or.inl ⟨_, Or.inr ⟨r, rfl⟩, rfl⟩
  | step i newId =>
    obtain ⟨c, hc, hs⟩ := bind_eq_some_iff.1 h
    cases c with
    | authorize args phase =>
      obtain ⟨x, hx, rfl⟩ := map_eq_some_iff.1 hs
      exact Or.inr (Or.inl ⟨i, newId, args, phase, x, rfl, hc, hx, rfl⟩)
    | request r phase =>
      obtain ⟨m, hm, rfl⟩ := map_eq_some_iff.1 hs
      exact Or.inr (Or.inr (Or.inl ⟨i, newId, r, phase, m, rfl, hc, hm, rfl⟩))
  | tick wall mono =>
    cases h
    exact Or.inr (Or.inr (Or.inr (Or.inl ⟨wall, mono, rfl, rfl⟩)))
  | abort i =>
    obtain ⟨c', hc', rfl⟩ := map_eq_some_iff.1 h
    obtain ⟨c, hc, hl⟩ := bind_eq_some_iff.1 hc'
    exact Or.inr (Or.inr (Or.inr (Or.inr ⟨i, c, c', rfl, hc, hl, rfl⟩)))

theorem iam_step_db (h : (iam ttl).step s a = some s') : (s'.db = s.db ∧ s'.wall = s.wall) ∨
    (∃ wall mono, a = .tick wall mono ∧ s'.db = s.db ∧ s'.wall = s.wall + wall) ∨
    ∃ i newId r phase w, a = .step i newId ∧ s.calls[i]? = some (.request r phase) ∧
      r.Writes s.db newId phase w ∧ s'.db = s.db.commit w ∧ s'.wall = s.wall := by
  obtain ⟨c, -, rfl⟩ | ⟨i, newId, args, phase, x, -, -, -, rfl⟩ |
    ⟨i, newId, r, phase, m, rfl, hc, hm, rfl⟩ | ⟨wall, mono, rfl, rfl⟩ | ⟨i, c, c', -, -, -, rfl⟩ :=
    iam_step_cases h
  · exact Or.inl ⟨rfl, rfl⟩
  · exact Or.inl ⟨rfl, rfl⟩
  · exact Or.inr (Or.inr ⟨i, newId, r, phase, m.write, rfl, hc, IamRequest.step_writes hm, rfl, rfl⟩)
  · exact Or.inr (Or.inl ⟨wall, mono, rfl, rfl, rfl⟩)
  · exact Or.inl ⟨rfl, rfl⟩

theorem iam_step_call {j : ℕ} {c' : IamCall} (h : (iam ttl).step s a = some s')
    (hj : s'.calls[j]? = some c') :
    s.calls[j]? = some c' ∨
    (j = s.calls.length ∧ ((∃ args, c' = .authorize args .called) ∨ ∃ r, c' = .request r .called)) ∨
    (∃ newId args phase x, a = .step j newId ∧ s.calls[j]? = some (.authorize args phase) ∧
      args.step ttl s.db s.wall s.mono s.cache phase = some x ∧ c' = .authorize args x.2) ∨
    (∃ newId r phase m, a = .step j newId ∧ s.calls[j]? = some (.request r phase) ∧
      r.step s.db s.wall newId phase = some m ∧ c' = .request r m.next) ∨
    ∃ c, s.calls[j]? = some c ∧ c.lost = some c' := by
  obtain ⟨c, hc, rfl⟩ | ⟨i, newId, args, phase, x, rfl, hi, hx, rfl⟩ |
    ⟨i, newId, r, phase, m, rfl, hi, hm, rfl⟩ | ⟨wall, mono, rfl, rfl⟩ |
    ⟨i, c, d, rfl, hi, hl, rfl⟩ := iam_step_cases h
  · rcases Slots.getElem?_concat_cases hj with hj | ⟨rfl, rfl⟩
    · exact Or.inl hj
    · exact Or.inr (Or.inl ⟨rfl, hc⟩)
  · obtain ⟨rfl, rfl⟩ | ⟨-, hj⟩ := Slots.getElem?_set_cases hj
    · exact Or.inr (Or.inr (Or.inl ⟨newId, args, phase, x, rfl, hi, hx, rfl⟩))
    · exact Or.inl hj
  · obtain ⟨rfl, rfl⟩ | ⟨-, hj⟩ := Slots.getElem?_set_cases hj
    · exact Or.inr (Or.inr (Or.inr (Or.inl ⟨newId, r, phase, m, rfl, hi, hm, rfl⟩)))
    · exact Or.inl hj
  · exact Or.inl hj
  · obtain ⟨rfl, rfl⟩ | ⟨-, hj⟩ := Slots.getElem?_set_cases hj
    · exact Or.inr (Or.inr (Or.inr (Or.inr ⟨c, hi, hl⟩)))
    · exact Or.inl hj

end Steps

section Alone

variable {ttl : ℤ} {a : AuthorizeArgs} {db : IamDb} {wall mono n : ℕ} {c c' c'' : PermissionCache}
  {phase phase' : AuthorizePhase} {r : Except AuthorizeError Unit}

def AuthorizeArgs.Ends (a : AuthorizeArgs) (ttl : ℤ) (db : IamDb) (wall mono n : ℕ)
    (c : PermissionCache) (phase : AuthorizePhase) (c' : PermissionCache)
    (r : Except AuthorizeError Unit) : Prop :=
  ∀ (s : IamDesk) (i : ℕ), s.db = db → s.wall = wall → s.mono = mono → s.cache = c →
    s.calls[i]? = some (.authorize a phase) →
    ∃ s', (iam ttl).run (List.replicate n (.step i "")) s = some s' ∧ s'.db = db ∧ s'.cache = c' ∧
      s'.calls[i]? = some (.authorize a (.done r))

theorem AuthorizeArgs.ends_done : a.Ends ttl db wall mono 0 c (.done r) c r :=
  fun s _ hdb _ _ hc hi => ⟨s, rfl, hdb, hc, hi⟩

theorem AuthorizeArgs.Ends.step (h : a.Ends ttl db wall mono n c' phase' c'' r)
    (hs : a.step ttl db wall mono c phase = some (c', phase')) :
    a.Ends ttl db wall mono (n + 1) c phase c'' r := by
  rintro s i rfl rfl rfl rfl hi
  have hstep : (iam ttl).step s (.step i "")
      = some { s with cache := c', calls := s.calls.set i (.authorize a phase') } := by
    simp [iam, hi, IamDesk.stepCall, hs]
  have hlt := (List.getElem?_eq_some_iff.1 hi).1
  obtain ⟨s', hrun, hrest⟩ := h { s with cache := c', calls := s.calls.set i (.authorize a phase') } i
    rfl rfl rfl rfl (by simp [hlt])
  refine ⟨s', ?_, hrest⟩
  rw [List.replicate_succ, Machine.run_cons, hstep]
  exact hrun

theorem AuthorizeArgs.ends_reading (a : AuthorizeArgs) (ttl : ℤ) (db : IamDb) (wall mono : ℕ)
    (c : PermissionCache) (type : PrincipalType) (id : String) :
    ∃ n ≤ 4, a.Ends ttl db wall mono n c (.readingOrg type id)
      (match db.computePermissions wall a.orgId type id "user" with
        | .ok perms => c.store ttl mono (orgCacheKey a.orgId type id) perms
        | .error _ => c)
      (match db.computePermissions wall a.orgId type id "user" with
        | .ok perms => a.answer (applyScopes perms a.scopes)
        | .error e => .error e) := by
  cases horg : db.orgGate a.orgId with
  | error e =>
    have hcomp : db.computePermissions wall a.orgId type id "user" = .error e := by
      simp [IamDb.computePermissions, horg, bind, Except.bind]
    rw [hcomp]
    exact ⟨1, by omega, ends_done.step (by simp [step, horg])⟩
  | ok st =>
    cases hpr : db.principalGate a.orgId type id with
    | error e =>
      have hcomp : db.computePermissions wall a.orgId type id "user" = .error e := by
        simp [IamDb.computePermissions, horg, hpr, bind, Except.bind]
      rw [hcomp]
      refine ⟨2, by omega, Ends.step ?_ (by simp only [step, horg]; rfl)⟩
      exact ends_done.step (by simp only [step, hpr])
    | ok m =>
      have hcomp : db.computePermissions wall a.orgId type id "user"
          = .ok (db.fetchRolePermissions wall a.orgId type id) :=
        IamDb.computePermissions_ok.2 ⟨(IamDb.orgGate_ok.1 horg).1, (IamDb.principalGate_ok.1 hpr).1,
          rfl⟩
      rw [hcomp]
      refine ⟨4, le_rfl, Ends.step ?_ (by simp only [step, horg]; rfl)⟩
      refine Ends.step ?_ (by simp only [step, hpr]; rfl)
      refine Ends.step ?_ (by simp only [step]; rfl)
      exact ends_done.step rfl

theorem authorize_alone (ttl : ℤ) (a : AuthorizeArgs) (db : IamDb) (wall mono : ℕ)
    (c : PermissionCache) :
    ∃ n ≤ 5, a.Ends ttl db wall mono n c .called (authorize ttl db wall mono c a).2
      (authorize ttl db wall mono c a).1 := by
  cases hsub : a.subject with
  | error e =>
    have hauth : authorize ttl db wall mono c a = (.error e, c) := by
      simp [authorize, effective, hsub]
    rw [hauth]
    exact ⟨1, by omega, ends_done.step (by simp [step, hsub])⟩
  | ok ti =>
    obtain ⟨type, id⟩ := ti
    unfold authorize
    rw [effective_of_subject hsub]
    unfold PermissionCache.readThrough
    cases hl : c.lookup mono (orgCacheKey a.orgId type id) a.forceRefresh with
    | mk hit c' =>
      cases hit with
      | some perms =>
        exact ⟨1, by omega, ends_done.step (by simp [step, hsub, hl])⟩
      | none =>
        obtain ⟨n, hn, hends⟩ := a.ends_reading ttl db wall mono c' type id
        refine ⟨n + 1, by omega, ?_⟩
        have hcalled : a.step ttl db wall mono c .called = some (c', .readingOrg type id) := by
          simp [step, hsub, hl]
        have hstep := hends.step hcalled
        cases hcomp : db.computePermissions wall a.orgId type id "user" with
        | error e | ok perms => simpa [hcomp] using hstep

end Alone

end DeerFlow

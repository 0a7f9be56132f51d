import DeerFlow.Proofs.IamSteps

/-!
# The last administrator of an organisation

An organisation keeps a human administrator as long as suspensions commit while there is another
one, and the service-account endpoint deletes bindings of service accounts only. The router checks
neither: its guard counts bindings before the transaction, and the endpoint takes the id of any
binding.
-/

namespace DeerFlow

open OrdDict

def RoleRow.isOrgAdmin (r : RoleRow) : Bool := r.name = "org:admin" && r.isSystem

def IamDb.MakesAdmin (db : IamDb) (wall : ℕ) (orgId : String) (b : RoleBindingRow) : Prop :=
  b.orgId = orgId ∧ b.principalType = .user ∧ b.live wall = true ∧
    (db.roles.get? b.roleId).any RoleRow.isOrgAdmin = true ∧
    db.memberships.get? (orgId, b.principalId) = some .active

instance (db : IamDb) (wall : ℕ) (orgId : String) (b : RoleBindingRow) :
    Decidable (db.MakesAdmin wall orgId b) :=
  inferInstanceAs (Decidable (_ ∧ _))

def IamDb.HasAdmin (db : IamDb) (wall : ℕ) (orgId : String) : Prop :=
  ∃ b ∈ db.bindings.values, db.MakesAdmin wall orgId b

def IamDb.HasOtherAdmin (db : IamDb) (wall : ℕ) (orgId userId : String) : Prop :=
  ∃ b ∈ db.bindings.values, db.MakesAdmin wall orgId b ∧ b.principalId ≠ userId

instance (db : IamDb) (wall : ℕ) (orgId : String) : Decidable (db.HasAdmin wall orgId) :=
  inferInstanceAs (Decidable (∃ b ∈ db.bindings.values, _))

instance (db : IamDb) (wall : ℕ) (orgId userId : String) :
    Decidable (db.HasOtherAdmin wall orgId userId) :=
  inferInstanceAs (Decidable (∃ b ∈ db.bindings.values, _))

/-- A suspension commits beside another administrator, a deletion names a binding of its service
account. -/
def IamCall.SparesAdmin (db : IamDb) (wall : ℕ) (orgId : String) : IamCall → Prop
  | .request (.suspendMember o u) (.committing read) =>
    o = orgId → read ≠ .suspended → db.HasOtherAdmin wall orgId u
  | .request (.deleteSaRoleBinding o id bindingId) .writing =>
    o = orgId → ∀ b ∈ db.bindings.get? bindingId, b.orgId = orgId →
      b.principalType = .serviceAccount ∧ b.principalId = id
  | _ => True

instance (db : IamDb) (wall : ℕ) (orgId : String) (c : IamCall) :
    Decidable (c.SparesAdmin db wall orgId) := by
  unfold IamCall.SparesAdmin
  split <;> infer_instance

/-- The step spares the administrators, and as time passes no binding of the organisation expires. -/
def IamAct.SparesAdmin (orgId : String) (s : IamDesk) : IamAct → Prop
  | .step i _ => ∀ c ∈ s.calls[i]?, c.SparesAdmin s.db s.wall orgId
  | .tick wall _ => ∀ b ∈ s.db.bindings.values, b.orgId = orgId → b.live s.wall = true →
    b.live (s.wall + wall) = true
  | _ => True

instance (orgId : String) (s : IamDesk) (a : IamAct) : Decidable (a.SparesAdmin orgId s) := by
  unfold IamAct.SparesAdmin
  split <;> infer_instance

section Writes

variable {db : IamDb} {wall : ℕ} {orgId newId : String} {r : IamRequest} {phase : IamPhase}
  {w : IamWrite}

theorem IamDb.hasAdmin_iff : db.HasAdmin wall orgId ↔
    ∃ k b, db.bindings.get? k = some b ∧ db.MakesAdmin wall orgId b := by
  simp only [IamDb.HasAdmin, mem_values_iff]
  constructor
  · rintro ⟨b, ⟨k, hk⟩, hb⟩
    exact ⟨k, b, hk, hb⟩
  · rintro ⟨k, b, hk, hb⟩
    exact ⟨b, ⟨k, hk⟩, hb⟩

theorem IamDb.MakesAdmin.setMembership {b : RoleBindingRow} {o u : String}
    {status : MembershipStatus} (hb : db.MakesAdmin wall orgId b)
    (h : o = orgId → b.principalId = u → status = .active) :
    (db.commit (.setMembership o u status)).MakesAdmin wall orgId b := by
  obtain ⟨horg, htype, hlive, hrole, hmem⟩ := hb
  refine ⟨horg, htype, hlive, hrole, ?_⟩
  simp only [IamDb.commit, get?_set]
  split
  · next heq =>
    obtain ⟨rfl, rfl⟩ := Prod.mk.injEq .. ▸ heq
    rw [h rfl rfl]
  · exact hmem

theorem IamDb.HasAdmin.commit (h : db.HasAdmin wall orgId) (hw : r.Writes db newId phase w)
    (hok : (IamCall.request r phase).SparesAdmin db wall orgId) :
    (db.commit w).HasAdmin wall orgId := by
  rw [IamDb.hasAdmin_iff] at h ⊢
  obtain ⟨k, b, hk, hb⟩ := h
  cases hw with
  | nothing => exact ⟨k, b, hk, hb⟩
  | suspend o u read hread =>
    by_cases ho : o = orgId
    · obtain ⟨b', hmem, hb', hne⟩ := hok ho hread
      obtain ⟨k', hk'⟩ := mem_values_iff.1 hmem
      exact ⟨k', b', hk', hb'.setMembership fun _ heq => absurd heq hne⟩
    · exact ⟨k, b, hk, hb.setMembership fun heq => absurd heq ho⟩
  | activate o u read => exact ⟨k, b, hk, hb.setMembership fun _ _ => rfl⟩
  | newAccount | status | newMapping | newFields | dropMapping => exact ⟨k, b, hk, hb⟩
  | dropAccount o id =>
    refine ⟨k, b, ?_, hb⟩
    have htype : b.principalType = .user := hb.2.1
    simp [IamDb.commit, hk, htype]
  | bind o id roleId actor expiresAt hrow hnew
  | groupBind u issuer groups dryRun o rule rules result provenance hnew =>
    refine ⟨k, b, ?_, hb⟩
    have hne : newId ≠ k := fun heq => by simp [← heq, hnew] at hk
    simp [IamDb.commit, hk, hne]
  | unbind o id bindingId d hd ho =>
    refine ⟨k, b, ?_, hb⟩
    have hne : bindingId ≠ k := by
      rintro rfl
      obtain rfl : d = b := Option.some.inj (hd.symm.trans hk)
      have hsa := (hok (ho.symm.trans hb.1) d hd hb.1).1
      rw [hb.2.1] at hsa
      cases hsa
    simp [IamDb.commit, hk, hne]

end Writes

section Runs

variable {ttl : ℤ} {s s' : IamDesk} {a : IamAct} {orgId : String}

theorem hasAdmin_step (h : s.db.HasAdmin s.wall orgId) (hok : a.SparesAdmin orgId s)
    (hs : (iam ttl).step s a = some s') : s'.db.HasAdmin s'.wall orgId := by
  obtain ⟨hdb, hwall⟩ | ⟨wall, mono, rfl, hdb, hwall⟩ |
    ⟨i, newId, r, phase, w, rfl, hc, hw, hdb, hwall⟩ := iam_step_db hs
  · rw [hdb, hwall]
    exact h
  · rw [hdb, hwall]
    obtain ⟨b, hmem, horg, htype, hlive, hrest⟩ := h
    exact ⟨b, hmem, horg, htype, hok b hmem horg hlive, hrest⟩
  · rw [hdb, hwall]
    exact h.commit hw (hok _ hc)

/-- An organisation that has a human administrator has one in every state of a run whose
suspensions and deletions spare them. -/
theorem organisation_keeps_an_admin (ttl : ℤ) (orgId : String) (s s' : IamDesk) (as : List IamAct)
    (hadmin : s.db.HasAdmin s.wall orgId)
    (hok : (iam ttl).Along (fun s a => a.SparesAdmin orgId s) as s)
    (hrun : (iam ttl).run as s = some s') : s'.db.HasAdmin s'.wall orgId :=
  Machine.run_inv (I := fun s => s.db.HasAdmin s.wall orgId)
    (fun _ _ _ h hok hs => hasAdmin_step h hok hs) hadmin hok hrun

end Runs

def orgAdminRole : RoleRow := ⟨none, "org:admin", [.str "admin:iam:manage"], true, isSystem_inScope⟩

def twoAdmins : IamDesk where
  db :=
    { orgs := empty.set "o" .active
      memberships := (empty.set ("o", "u1") .active).set ("o", "u2") .active
      serviceAccounts := empty.set "sa" ⟨"o", "ci", .active⟩
      roles := empty.set "r" orgAdminRole
      bindings := (empty.set "b1" ⟨"o", .user, "u1", "r", none, none, user_ne_system⟩).set "b2"
        ⟨"o", .user, "u2", "r", none, none, user_ne_system⟩ }

def suspendActs (i : ℕ) (userId : String) : List IamAct :=
  [.request (.suspendMember "o" userId), .step i "", .step i "", .step i "", .step i "", .step i ""]

theorem one_admin_of_two_stays :
    (iam 60).Along (fun s a => a.SparesAdmin "o" s) (suspendActs 0 "u1") twoAdmins ∧
      ∃ s, (iam 60).run (suspendActs 0 "u1") twoAdmins = some s ∧ s.db.HasAdmin s.wall "o" := by
  refine ⟨by decide +kernel, _, rfl, ?_⟩
  exact organisation_keeps_an_admin 60 "o" twoAdmins _ (suspendActs 0 "u1") (by decide +kernel)
    (by decide +kernel) rfl

/-- The two suspended one after the other, and both bindings deleted through the service account:
each leaves no administrator. -/
theorem last_admin_is_removed : twoAdmins.db.HasAdmin twoAdmins.wall "o" ∧
    (∃ s, (iam 60).run (suspendActs 0 "u1" ++ suspendActs 1 "u2") twoAdmins = some s ∧
      ¬ s.db.HasAdmin s.wall "o") ∧
    ∃ s, (iam 60).run
        [.request (.deleteSaRoleBinding "o" "sa" "b1"), .step 0 "", .step 0 "",
          .request (.deleteSaRoleBinding "o" "sa" "b2"), .step 1 "", .step 1 ""] twoAdmins = some s ∧
      ¬ s.db.HasAdmin s.wall "o" :=
  ⟨by decide +kernel, ⟨_, rfl, by decide +kernel⟩, _, rfl, by decide +kernel⟩

end DeerFlow

import DeerFlow.Data.Separated
import DeerFlow.Proofs.IamSteps

/-!
# Revocation and the permission cache

A request commits the loss of a permission and then drops the principal's cache entry. A computation
that began its reads before the commit may still store after that; where none is left, no later call
allows the permission.
-/

namespace DeerFlow

open AuthorizeArgs Machine PermissionCache IamDb IamDesk

def IamRequest.orgId? : IamRequest → Option String
  | .suspendMember orgId _ | .activateMember orgId _ | .createServiceAccount orgId _
  | .setServiceAccountStatus orgId _ _ | .deleteServiceAccount orgId _
  | .createSaRoleBinding orgId _ _ _ _ | .deleteSaRoleBinding orgId _ _ | .createMapping orgId _
  | .updateMapping orgId _ _ | .deleteMapping orgId _ => some orgId
  | .applyGroupMapping _ _ _ _ => none

def IamCall.Quiet (db : IamDb) (wall : ℕ) (newId : String) : IamCall → Prop
  | .authorize _ _ => True
  | .request r phase => ∀ m ∈ r.step db wall newId phase, m.write = .nothing

instance (db : IamDb) (wall : ℕ) (newId : String) (c : IamCall) : Decidable (c.Quiet db wall newId) := by
  unfold IamCall.Quiet
  split <;> infer_instance

def IamAct.Quiet (s : IamDesk) : IamAct → Prop
  | .step i newId => ∀ c ∈ s.calls[i]?, c.Quiet s.db s.wall newId
  | .authorize _ | .request _ | .tick _ _ | .abort _ => True

instance (s : IamDesk) (a : IamAct) : Decidable (a.Quiet s) := by
  rcases a with ⟨⟩ <;> dsimp only [IamAct.Quiet] <;> infer_instance

/-- The call computes the principal's permissions: it has begun to read and has not stored. -/
def IamCall.computes (orgId : String) (type : PrincipalType) (id : String) : IamCall → Bool
  | .authorize a (.readingPrincipal t i) | .authorize a (.readingRoles t i)
  | .authorize a (.storing t i _) => a.orgId = orgId && t = type && i = id
  | _ => false

def IamDesk.Computes (s : IamDesk) (orgId : String) (type : PrincipalType) (id : String) (j : ℕ) :
    Prop :=
  (s.calls[j]?).any (IamCall.computes orgId type id) = true

/-- A request commits, and later drops the cache entry of a principal the tables no longer
permit. -/
structure Revokes (ttl : ℤ) (orgId : String) (type : PrincipalType) (id perm : String) (i : ℕ)
    (r : IamRequest) (between : List IamAct) (before committed dropping dropped : IamDesk) :
    Prop where
  acts : r.orgId? = some orgId
  commit : ∃ n, (iam ttl).step before (.step i n) = some committed
  gone : ¬ committed.db.Permits committed.wall orgId type id perm
  quiet : (iam ttl).Along (fun s a => a.Quiet s) between committed
  run : (iam ttl).run between committed = some dropping
  phase : dropping.calls[i]? = some (.request r (.invalidating type id))
  drop : ∃ n, (iam ttl).step dropping (.step i n) = some dropped

theorem colon_notMem_text (t : PrincipalType) : ':' ∉ t.text.toList := by
  cases t <;> decide

theorem PrincipalType.text_inj {t t' : PrincipalType} (h : t.text = t'.text) : t = t' := by
  cases t <;> cases t' <;> first | rfl | exact absurd h (by decide)

theorem orgCacheKey_inj {o o' i i' : String} {t t' : PrincipalType} (ho : ':' ∉ o.toList)
    (hi : ':' ∉ i.toList) (h : orgCacheKey o' t' i' = orgCacheKey o t i) :
    o' = o ∧ t' = t ∧ i' = i := by
  have hkey : ∀ (o : String) (t : PrincipalType) (i : String), (orgCacheKey o t i).toList
      = "authz:".toList ++ (o.toList ++ ':' :: (t.text.toList ++ ':' :: i.toList)) := by
    intro o t i
    simp [orgCacheKey]
  have hlist := congrArg String.toList h
  rw [hkey, hkey] at hlist
  obtain ⟨ho', ht', hi'⟩ := Separated.join_three_inj (List.append_cancel_left hlist) ho
    (colon_notMem_text t) hi (colon_notMem_text t')
  exact ⟨String.toList_inj.1 ho', PrincipalType.text_inj (String.toList_inj.1 ht'),
    String.toList_inj.1 hi'⟩

section Calls

variable {ttl : ℤ} {orgId id perm : String} {type : PrincipalType}

def IamCall.Sound (db : IamDb) (orgId : String) (type : PrincipalType) (id perm : String) :
    IamCall → Prop
  | .authorize a (.readingPrincipal t i) => a.orgId = orgId → t = type → i = id →
    db.orgs.get? orgId = some .active
  | .authorize a (.readingRoles t i) => a.orgId = orgId → t = type → i = id →
    db.orgs.get? orgId = some .active ∧ db.ActivePrincipal orgId type id
  | .authorize a (.storing t i perms) => a.orgId = orgId → t = type → i = id → perm ∉ perms
  | _ => True

theorem IamCall.computes_or_sound (db : IamDb) (c : IamCall) :
    c.computes orgId type id ∨ c.Sound db orgId type id perm := by
  by_cases hc : c.computes orgId type id
  · exact Or.inl hc
  · refine Or.inr ?_
    unfold IamCall.Sound
    split <;> try trivial
    all_goals
      intro ho ht hi
      exact absurd (by simp [IamCall.computes, ho, ht, hi]) hc

theorem IamCall.sound_of_lost {db : IamDb} {c c' : IamCall} (h : c.lost = some c') :
    c'.Sound db orgId type id perm := by
  unfold IamCall.lost at h
  split at h <;> cases h <;> trivial

variable {db : IamDb} {wall wall1 mono : ℕ} {cache : PermissionCache} {a : AuthorizeArgs}
  {phase : AuthorizePhase} {x : PermissionCache × AuthorizePhase}

theorem AuthorizeArgs.step_sound (hgone : ¬ db.Permits wall1 orgId type id perm) (hw : wall1 ≤ wall)
    (hx : a.step ttl db wall mono cache phase = some x)
    (h : (IamCall.authorize a phase).Sound db orgId type id perm) :
    (IamCall.authorize a x.2).Sound db orgId type id perm := by
  unfold step at hx
  split at hx
  · split at hx
    · cases hx
      trivial
    · split at hx <;> (cases hx; trivial)
  · split at hx
    · cases hx
      trivial
    · next hgate =>
      cases hx
      rintro rfl - -
      exact (orgGate_ok.1 hgate).1
  · split at hx
    · cases hx
      trivial
    · next hgate =>
      cases hx
      rintro rfl rfl rfl
      exact ⟨h rfl rfl rfl, (principalGate_ok.1 hgate).1⟩
  · cases hx
    rintro rfl rfl rfl hmem
    obtain ⟨horg, hactive⟩ := h rfl rfl rfl
    obtain ⟨hgranted, hsys⟩ := mem_fetchRolePermissions.1 hmem
    exact hgone ⟨horg, hactive, hgranted.earlier hw, hsys⟩
  · cases hx
    trivial
  · cases hx
  · cases hx

theorem PermissionCache.holds_lookup {key key' : String} {forceRefresh : Bool} {P : Finset String → Prop}
    {hit : Option (Finset String)} {cache' : PermissionCache} (h : cache.Holds key P)
    (hl : cache.lookup mono key' forceRefresh = (hit, cache')) : cache'.Holds key P := by
  unfold PermissionCache.lookup at hl
  split at hl <;> cases hl
  · exact h
  · exact h.touch

theorem AuthorizeArgs.step_holds (ho : ':' ∉ orgId.toList) (hi : ':' ∉ id.toList)
    (hx : a.step ttl db wall mono cache phase = some x)
    (h : (IamCall.authorize a phase).Sound db orgId type id perm)
    (hc : cache.Holds (orgCacheKey orgId type id) (perm ∉ ·)) :
    x.1.Holds (orgCacheKey orgId type id) (perm ∉ ·) := by
  unfold step at hx
  split at hx
  · split at hx
    · cases hx
      exact hc
    · split at hx
      · next hl =>
        cases hx
        exact holds_lookup hc hl
      · next hl =>
        cases hx
        exact holds_lookup hc hl
  · split at hx <;> (cases hx; exact hc)
  · split at hx <;> (cases hx; exact hc)
  · cases hx
    exact hc
  · cases hx
    refine hc.set fun hkey => ?_
    obtain ⟨rfl, rfl, rfl⟩ := orgCacheKey_inj ho hi hkey
    exact h rfl rfl rfl
  · cases hx
  · cases hx

def AuthorizePhase.Denies (type : PrincipalType) (id : String) : AuthorizePhase → Prop
  | .called | .lost => True
  | .readingOrg t i | .readingPrincipal t i | .readingRoles t i | .storing t i _ => t = type ∧ i = id
  | .done r => r ≠ .ok ()

theorem AuthorizeArgs.step_denies (hn : a.principal.Names type id) (ho : a.orgId = orgId)
    (hp : a.permission = perm) (hx : a.step ttl db wall mono cache phase = some x)
    (h : (IamCall.authorize a phase).Sound db orgId type id perm)
    (hc : a.forceRefresh ∨ cache.Holds (orgCacheKey orgId type id) (perm ∉ ·))
    (hd : phase.Denies type id) : x.2.Denies type id := by
  subst ho hp
  have hanswer : ∀ perms : Finset String, a.permission ∉ perms →
      a.answer (applyScopes perms a.scopes) ≠ .ok () := by
    intro perms hperms hok
    exact hperms (mem_applyScopes.1 (answer_ok.1 hok)).1
  unfold step at hx
  split at hx
  · rw [subject_ok.2 hn] at hx
    simp only at hx
    split at hx
    · next perms c' hl =>
      cases hx
      refine hanswer perms ?_
      unfold PermissionCache.lookup at hl
      split at hl
      · cases hl
      · next hrefresh => exact (hc.resolve_left hrefresh).get? (congrArg Prod.fst hl)
    · cases hx
      exact ⟨rfl, rfl⟩
  · split at hx <;> cases hx
    · rintro ⟨⟩
    · exact hd
  · split at hx <;> cases hx
    · rintro ⟨⟩
    · exact hd
  · cases hx
    exact hd
  · cases hx
    exact hanswer _ (h rfl hd.1 hd.2)
  · cases hx
  · cases hx

end Calls

section Runs

variable {ttl : ℤ} {orgId id perm : String} {type : PrincipalType} {s s' : IamDesk} {act : IamAct}

theorem iam_step_quiet (hs : (iam ttl).step s act = some s') (hq : act.Quiet s) :
    s'.db = s.db ∧ s.wall ≤ s'.wall := by
  obtain ⟨c, -, rfl⟩ | ⟨i, newId, args, phase, x, -, -, -, rfl⟩ |
    ⟨i, newId, r, phase, m, rfl, hc, hm, rfl⟩ | ⟨wall, mono, rfl, rfl⟩ | ⟨i, c, c', -, -, -, rfl⟩ :=
    iam_step_cases hs
  · exact ⟨rfl, le_rfl⟩
  · exact ⟨rfl, le_rfl⟩
  · have hw := hq _ hc m hm
    exact ⟨by simp [move, hw, commit], le_rfl⟩
  · exact ⟨rfl, Nat.le_add_right _ _⟩
  · exact ⟨rfl, le_rfl⟩

structure Settling (orgId : String) (type : PrincipalType) (id perm : String) (s1 s : IamDesk) :
    Prop where
  db : s.db = s1.db
  wall : s1.wall ≤ s.wall
  calls : ∀ (j : ℕ) (c : IamCall), s.calls[j]? = some c →
    c.Sound s1.db orgId type id perm ∨
      s1.Computes orgId type id j ∧ c.computes orgId type id = true

theorem Settling.step {s1 : IamDesk} (hgone : ¬ s1.db.Permits s1.wall orgId type id perm)
    (h : Settling orgId type id perm s1 s) (hq : act.Quiet s) (hs : (iam ttl).step s act = some s') :
    Settling orgId type id perm s1 s' := by
  obtain ⟨hdb, hwall⟩ := iam_step_quiet hs hq
  refine ⟨hdb.trans h.db, h.wall.trans hwall, fun j c' hj => ?_⟩
  obtain hold | ⟨-, ⟨args, rfl⟩ | ⟨r, rfl⟩⟩ | ⟨newId, args, phase, x, rfl, hold, hx, rfl⟩ |
    ⟨newId, r, phase, m, -, -, -, rfl⟩ | ⟨c, -, hl⟩ := iam_step_call hs hj
  · exact h.calls j c' hold
  · exact Or.inl trivial
  · exact Or.inl trivial
  · rcases h.calls j _ hold with hsound | ⟨hstale, -⟩
    · rw [← h.db] at hsound hgone ⊢
      exact Or.inl (step_sound hgone h.wall hx hsound)
    · rcases IamCall.computes_or_sound s1.db (IamCall.authorize args x.2) with hc | hc
      · exact Or.inr ⟨hstale, hc⟩
      · exact Or.inl hc
  · exact Or.inl trivial
  · exact Or.inl (IamCall.sound_of_lost hl)

/-- Since the entry was dropped every call is sound, and the entry and the calls from the `n`-th on
lack the permission. -/
structure Settled (orgId : String) (type : PrincipalType) (id perm : String) (n : ℕ)
    (s1 s : IamDesk) : Prop where
  db : s.db = s1.db
  wall : s1.wall ≤ s.wall
  calls : ∀ (j : ℕ) (c : IamCall), s.calls[j]? = some c → c.Sound s1.db orgId type id perm
  cache : s.cache.Holds (orgCacheKey orgId type id) (perm ∉ ·)
  denied : ∀ (j : ℕ) (a : AuthorizeArgs) (phase : AuthorizePhase), n ≤ j →
    s.calls[j]? = some (.authorize a phase) → a.orgId = orgId → a.principal.Names type id →
    a.permission = perm → phase.Denies type id

theorem Settled.step {n : ℕ} {s1 : IamDesk} (ho : ':' ∉ orgId.toList) (hi : ':' ∉ id.toList)
    (hgone : ¬ s1.db.Permits s1.wall orgId type id perm) (h : Settled orgId type id perm n s1 s)
    (hq : act.Quiet s) (hs : (iam ttl).step s act = some s') :
    Settled orgId type id perm n s1 s' := by
  obtain ⟨hdb, hwall⟩ := iam_step_quiet hs hq
  refine ⟨hdb.trans h.db, h.wall.trans hwall, fun j c' hj => ?_, ?_, fun j a phase' hn hj => ?_⟩
  · obtain hold | ⟨-, ⟨args, rfl⟩ | ⟨r, rfl⟩⟩ | ⟨newId, args, phase, x, rfl, hold, hx, rfl⟩ |
      ⟨newId, r, phase, m, -, -, -, rfl⟩ | ⟨c, -, hl⟩ := iam_step_call hs hj
    · exact h.calls j c' hold
    · trivial
    · trivial
    · have hsound := h.calls j _ hold
      rw [← h.db] at hsound hgone ⊢
      exact step_sound hgone h.wall hx hsound
    · trivial
    · exact IamCall.sound_of_lost hl
  · obtain ⟨c, -, rfl⟩ | ⟨i, newId, args, phase, x, -, hold, hx, rfl⟩ |
      ⟨i, newId, r, phase, m, -, -, -, rfl⟩ | ⟨wall, mono, -, rfl⟩ | ⟨i, c, c', -, -, -, rfl⟩ :=
      iam_step_cases hs
    · exact h.cache
    · have hsound := h.calls i _ hold
      rw [← h.db] at hsound
      exact step_holds ho hi hx hsound h.cache
    · cases hm : m.invalidate with
      | none => simpa [move, hm] using h.cache
      | some key => simpa [move, hm] using h.cache.invalidate
    · exact h.cache
    · exact h.cache
  · intro horg hnames hperm
    obtain hold | ⟨-, ⟨args, hc⟩ | ⟨r, hc⟩⟩ | ⟨newId, args, phase, x, rfl, hold, hx, hc⟩ |
      ⟨newId, r, phase, m, -, -, -, hc⟩ | ⟨c, -, hl⟩ := iam_step_call hs hj
    · exact h.denied j a phase' hn hold horg hnames hperm
    · cases hc
      trivial
    · cases hc
    · cases hc
      have hsound := h.calls j _ hold
      rw [← h.db] at hsound
      exact step_denies hnames horg hperm hx hsound (.inr h.cache)
        (h.denied j a phase hn hold horg hnames hperm)
    · cases hc
    · unfold IamCall.lost at hl
      split at hl <;> cases hl
      trivial

theorem IamRequest.step_invalidating {r : IamRequest} {db : IamDb} {wall : ℕ} {newId : String}
    {m : IamMove} (horg : r.orgId? = some orgId)
    (h : r.step db wall newId (.invalidating type id) = some m) : m = IamMove.drop orgId type id := by
  cases r <;> cases horg <;> cases h <;> rfl

/-- Once the entry of a principal is dropped after a revocation, and no computation for them is left
from before the commit, no later call allows the permission. -/
theorem revocation_holds_after_invalidation (ttl : ℤ) (orgId : String) (type : PrincipalType)
    (id perm : String) (i : ℕ) (r : IamRequest) (between after : List IamAct)
    (s0 s1 s2 s3 s4 : IamDesk) (h : Revokes ttl orgId type id perm i r between s0 s1 s2 s3)
    (hplain : ':' ∉ orgId.toList ∧ ':' ∉ id.toList)
    (hdone : ∀ j, s1.Computes orgId type id j → ¬ s2.Computes orgId type id j)
    (hquiet : (iam ttl).Along (fun s a => a.Quiet s) after s3)
    (hrun : (iam ttl).run after s3 = some s4) (j : ℕ) (a : AuthorizeArgs)
    (hlater : s3.calls.length ≤ j) (horg : a.orgId = orgId) (hnames : a.principal.Names type id)
    (hperm : a.permission = perm) :
    s4.calls[j]? ≠ some (.authorize a (.done (.ok ()))) := by
  have hsettling : Settling orgId type id perm s1 s2 := by
    refine run_inv (fun _ _ _ h' hq hs => h'.step h.gone hq hs) ⟨rfl, le_rfl, ?_⟩ h.quiet h.run
    intro j c hj
    rcases IamCall.computes_or_sound s1.db c with hc | hc
    · exact Or.inr ⟨by simp [IamDesk.Computes, hj, hc], hc⟩
    · exact Or.inl hc
  have hsound : ∀ (j : ℕ) (c : IamCall), s2.calls[j]? = some c →
      c.Sound s1.db orgId type id perm := by
    intro j c hj
    rcases hsettling.calls j c hj with hc | ⟨hstale, hc⟩
    · exact hc
    · exact absurd (by simp [IamDesk.Computes, hj, hc]) (hdone j hstale)
  have hsettled : Settled orgId type id perm s3.calls.length s1 s3 := by
    obtain ⟨n, hdrop⟩ := h.drop
    obtain ⟨c, hc, hstep⟩ := Option.bind_eq_some_iff.1 hdrop
    obtain rfl : c = .request r (.invalidating type id) := Option.some.inj (hc.symm.trans h.phase)
    obtain ⟨m, hm, rfl⟩ := Option.map_eq_some_iff.1 hstep
    obtain rfl := IamRequest.step_invalidating h.acts hm
    refine ⟨hsettling.db, hsettling.wall, fun j c hj => ?_, TtlCache.holds_invalidate,
      fun j a phase hle hj => ?_⟩
    · rcases Slots.getElem?_set_cases hj with ⟨-, rfl⟩ | ⟨-, hj⟩
      · trivial
      · exact hsound j c hj
    · exact absurd (List.getElem?_eq_some_iff.1 hj).1 (by omega)
  have hend : Settled orgId type id perm s3.calls.length s1 s4 :=
    run_inv (fun _ _ _ h' hq hs => h'.step hplain.1 hplain.2 h.gone hq hs) hsettled hquiet hrun
  intro hj
  exact hend.denied j a _ hlater hj horg hnames hperm rfl

end Runs

def runnerDesk : IamDesk where
  db :=
    { orgs := OrdDict.empty.set "o" .active
      serviceAccounts := OrdDict.empty.set "sa" ⟨"o", "ci", .active⟩
      roles := OrdDict.empty.set "r" ⟨none, "runner", [.str "runtime:run:create"], true, isSystem_inScope⟩
      bindings := OrdDict.empty.set "b"
        ⟨"o", .serviceAccount, "sa", "r", none, none, serviceAccount_ne_system⟩ }

def createsRun : AuthorizeArgs where
  principal := ⟨.serviceAccount, "sa", none, none, by decide, fun _ => rfl⟩
  orgId := "o"
  permission := "runtime:run:create"

def disableRunner : IamRequest := .setServiceAccountStatus "o" "sa" .disabled

def computeThenDisable : List IamAct :=
  [.authorize createsRun, .step 0 "", .step 0 "", .step 0 "", .step 0 "", .request disableRunner]

theorem not_permits_of_disabled {db : IamDb} {wall : ℕ} {orgId id perm : String}
    {sa : ServiceAccountRow} (h : db.serviceAccounts.get? id = some sa) (hst : sa.status = .disabled) :
    ¬ db.Permits wall orgId .serviceAccount id perm := by
  rintro ⟨-, ⟨sa', hsa', -, hst'⟩, -, -⟩
  cases h.symm.trans hsa'
  rw [hst] at hst'
  cases hst'

theorem revokes_runner {s0 s1 s3 : IamDesk} (hcommit : (iam 60).step s0 (.step 1 "") = some s1)
    (hphase : s1.calls[1]? = some (.request disableRunner (.invalidating .serviceAccount "sa")))
    (hsa : s1.db.serviceAccounts.get? "sa" = some ⟨"o", "ci", .disabled⟩)
    (hdrop : (iam 60).step s1 (.step 1 "") = some s3) :
    Revokes 60 "o" .serviceAccount "sa" "runtime:run:create" 1 disableRunner [] s0 s1 s1 s3 :=
  ⟨rfl, ⟨"", hcommit⟩, not_permits_of_disabled hsa rfl, trivial, rfl, hphase, "", hdrop⟩

def runnerAt (as : List IamAct) : IamDesk := ((iam 60).run as runnerDesk).getD runnerDesk

def storedActs : List IamAct := computeThenDisable ++ [.step 0 ""]

def laterCall : List IamAct := [.authorize createsRun, .step 2 "", .step 2 "", .step 2 ""]

/-- The computation stores before the commit; the call after the invalidation is not allowed. -/
theorem disabled_account_is_denied :
    Revokes 60 "o" .serviceAccount "sa" "runtime:run:create" 1 disableRunner []
      (runnerAt storedActs) (runnerAt (storedActs ++ [.step 1 ""]))
      (runnerAt (storedActs ++ [.step 1 ""])) (runnerAt (storedActs ++ [.step 1 "", .step 1 ""])) ∧
    (runnerAt (storedActs ++ [.step 1 "", .step 1 ""] ++ laterCall)).calls[2]?
      ≠ some (.authorize createsRun (.done (.ok ()))) := by
  have hrev : Revokes 60 "o" .serviceAccount "sa" "runtime:run:create" 1 disableRunner []
      (runnerAt storedActs) (runnerAt (storedActs ++ [.step 1 ""]))
      (runnerAt (storedActs ++ [.step 1 ""])) (runnerAt (storedActs ++ [.step 1 "", .step 1 ""])) :=
    revokes_runner rfl rfl rfl rfl
  refine ⟨hrev, revocation_holds_after_invalidation 60 "o" .serviceAccount "sa" "runtime:run:create"
    1 disableRunner [] laterCall _ _ _ _ _ hrev ⟨by decide, by decide⟩ (fun j => ?_)
    (by decide +kernel) rfl 2 createsRun (by decide +kernel) rfl ⟨rfl, rfl⟩ rfl⟩
  match j with
  | 0 | 1 | _ + 2 => exact fun h => absurd h Bool.false_ne_true

/-- The computation stores after the invalidation, and the call that starts then is allowed. -/
theorem disabled_account_is_allowed : ∃ s0 s1 s3 s4,
    (iam 60).run computeThenDisable runnerDesk = some s0 ∧
    Revokes 60 "o" .serviceAccount "sa" "runtime:run:create" 1 disableRunner [] s0 s1 s1 s3 ∧
    (iam 60).Along (fun s a => a.Quiet s) [.step 0 "", .authorize createsRun, .step 2 ""] s3 ∧
    (iam 60).run [.step 0 "", .authorize createsRun, .step 2 ""] s3 = some s4 ∧
    s3.calls.length ≤ 2 ∧ s4.calls[2]? = some (.authorize createsRun (.done (.ok ()))) :=
  ⟨_, _, _, _, rfl, revokes_runner rfl rfl rfl rfl, by decide +kernel, rfl, by decide +kernel,
    by decide +kernel⟩

section DeleteBinding

variable {ttl : ℤ} (s : IamDesk) (orgId id bindingId : String)

/-- The other bindings are unchanged; if this one is gone, it was the account's, and its principal
has no cache entry. -/
def IamDesk.TouchesOnly (s' : IamDesk) : Prop :=
  (∀ k, k ≠ bindingId → s'.db.bindings.get? k = s.db.bindings.get? k) ∧
    ∀ b, s.db.bindings.get? bindingId = some b → s'.db.bindings.get? bindingId = some b ∨
      s'.db.bindings.get? bindingId = none ∧ b.isOf orgId .serviceAccount id = true ∧
        s'.cache.get? s'.mono (orgCacheKey b.orgId b.principalType b.principalId) = none

theorem iam_step_last (ttl : ℤ) {r : IamRequest} {phase : IamPhase} {m : IamMove}
    (h : r.step s.db s.wall "" phase = some m) (cs : List IamCall) :
    (iam ttl).step { s with calls := cs ++ [.request r phase] } (.step cs.length "") = some { s with
        db := s.db.commit m.write
        cache := (m.invalidate.map s.cache.invalidate).getD s.cache
        calls := cs ++ [.request r m.next] } := by
  simp [iam, stepCall, h, move]

def deleteActs (k : ℕ) : List IamAct :=
  .request (.deleteSaRoleBinding orgId id bindingId) :: List.replicate k (.step s.calls.length "")

theorem delete_sa_role_binding_unknown (h : s.db.serviceAccountOf orgId id = false) :
    (iam ttl).run (deleteActs s orgId id bindingId 1) s = some { s with
      calls := s.calls ++ [.request (.deleteSaRoleBinding orgId id bindingId)
        (.done (.raised .serviceAccountNotFound))] } := by
  have hcall : (IamRequest.deleteSaRoleBinding orgId id bindingId).step s.db s.wall "" .called =
      some (.raise .serviceAccountNotFound) := by
    simp [IamRequest.step, IamRequest.deleteSaBinding, h]
  exact run_single (iam_step_last s ttl hcall s.calls)

theorem delete_sa_role_binding_known (h : s.db.serviceAccountOf orgId id) :
    (iam ttl).run (deleteActs s orgId id bindingId 3) s = some { s with
      db := s.db.commit (s.db.deleteRoleBinding bindingId orgId)
      cache := s.cache.invalidate (orgCacheKey orgId .serviceAccount id)
      calls := s.calls ++ [.request (.deleteSaRoleBinding orgId id bindingId) (.done .ok)] } := by
  have hcall : (IamRequest.deleteSaRoleBinding orgId id bindingId).step s.db s.wall "" .called =
      some (.goto .writing) := by
    simp [IamRequest.step, IamRequest.deleteSaBinding, h]
  have hrun := run_trans (run_single (iam_step_last s ttl hcall s.calls))
    (run_trans (run_single (iam_step_last s ttl rfl s.calls))
      (run_single (iam_step_last
        { s with db := s.db.commit (s.db.deleteRoleBinding bindingId orgId) } ttl rfl s.calls)))
  exact hrun

theorem delete_sa_role_binding_touches_only_iff : ∃ k s' answer,
    (iam ttl).run (deleteActs s orgId id bindingId k) s = some s' ∧
    s'.calls = s.calls ++ [.request (.deleteSaRoleBinding orgId id bindingId) (.done answer)] ∧
    (answer = .ok ∨ s'.db = s.db) ∧
    (s.TouchesOnly orgId id bindingId s' ↔ (s.db.serviceAccountOf orgId id = true →
      ∀ b, s.db.bindings.get? bindingId = some b → b.orgId = orgId →
        b.isOf orgId .serviceAccount id = true)) := by
  cases hsa : s.db.serviceAccountOf orgId id with
  | false =>
    exact ⟨1, _, _, delete_sa_role_binding_unknown s orgId id bindingId hsa, rfl, .inr rfl,
      iff_of_true ⟨fun _ _ => rfl, fun _ hb => .inl hb⟩ nofun⟩
  | true =>
    refine ⟨3, _, _, delete_sa_role_binding_known s orgId id bindingId hsa, rfl, .inl rfl, ?_⟩
    simp only [IamDesk.TouchesOnly, deleteRoleBinding, forall_const]
    cases hb : s.db.bindings.get? bindingId with
    | none => simp [commit]
    | some b =>
      by_cases horg : b.orgId = orgId
      · simp only [if_pos horg, commit]
        constructor
        · rintro ⟨-, h⟩ b' hb' -
          rcases h b' hb' with h | h
          · simp at h
          · exact h.2.1
        · intro h
          have hof : b.isOf orgId .serviceAccount id = true := h b rfl horg
          refine ⟨fun k hk => by simp [hk.symm], fun b' hb' => .inr ?_⟩
          cases hb'
          simp only [RoleBindingRow.isOf, Bool.and_eq_true, decide_eq_true_eq] at hof
          simp [RoleBindingRow.isOf, hof, TtlCache.get?, TtlCache.invalidate]
      · simp [horg, hb, commit]

def boundUser : IamDesk where
  db :=
    { runnerDesk.db with
      bindings := runnerDesk.db.bindings.set "u" ⟨"o", .user, "u", "r", none, none, user_ne_system⟩ }
  cache := ⟨.set .empty (orgCacheKey "o" .user "u") (60, ∅)⟩

/-- Deleting it as a binding of `"sa"` removes it and leaves the entry. -/
theorem user_binding_is_deleted : ((iam 60).run (deleteActs boundUser "o" "sa" "u" 3) boundUser).any
    (fun s => (s.db.bindings.get? "u").isNone &&
      (s.cache.get? s.mono (orgCacheKey "o" .user "u")).isSome) = true := by
  decide +kernel

end DeleteBinding

end DeerFlow

import DeerFlow.Proofs.Revocation
import DeerFlow.Stream.Revalidation
import DeerFlow.System

/-!
# Streams after a revocation

A stream whose record is stamped with the user and the organisation has each business event
authorized again, so an event it takes after a revocation is not yielded (`Waits.step`). A record
without the stamp has no re-validation (`not_revokedInTime`), and `start_run` stamps nobody for a
request of a user.
-/

namespace DeerFlow

open List Option SseDesk Machine AuthorizeArgs OrdDict RequestUser IamDesk IamDb

def SseAct.Steady (s : SseDesk) : SseAct → Prop
  | .iam a => a.Quiet s.iam ∧ ∀ i item, s.checking = some (i, item) → a ≠ .abort i
  | _ => True

/-- An IAM change takes `runtime:run:read` from a user who had it, and the stream takes a business
event after that. -/
structure EventAfterRevocation (ttl : ℤ) (orgId userId : String) (x : StampedRecord)
    (iam0 : IamDesk) (acts : List SseAct) (change : IamAct) (between : List SseAct)
    (e : StreamEvent Json) (rest : List SseAct) (before committed taken checking after : SseDesk) :
    Prop where
  run : (sse ttl).run acts (.start iam0 x) = some before
  permitted : before.iam.db.Permits before.iam.wall orgId .user userId "runtime:run:read"
  commit : (sse ttl).step before (.iam change) = some committed
  gone : ¬ committed.iam.db.Permits committed.iam.wall orgId .user userId "runtime:run:read"
  steady : (sse ttl).Along (fun s a => a.Steady s) between committed
  later : (sse ttl).run between committed = some taken
  receive : (sse ttl).step taken (.receive (.event e) false) = some checking
  undisturbed : (sse ttl).Along (fun s a => a.Steady s) rest checking
  settles : (sse ttl).run rest checking = some after

/-- A business event taken after the user lost `runtime:run:read` is not yielded: the stream waits
for its re-validation, was closed meanwhile, or has yielded the revoked frame and is closed. -/
def RevokedInTime (x : StampedRecord) (orgId userId : String) : Prop :=
  ∀ ttl iam0 acts change between e rest before committed taken checking after,
    EventAfterRevocation ttl orgId userId x iam0 acts change between e rest before committed taken
      checking after →
    after.frames = taken.frames ∧ (after.checking.isSome = true ∨ SseAct.close ∈ rest) ∨
      after.frames = taken.frames ++ [revokedFrame] ∧ after.closed = true

section Steps

variable {ttl : ℤ} {s s' : SseDesk} {act : SseAct}

theorem sse_step_cases (h : (sse ttl).step s act = some s') :
    (∃ a t, act = .iam a ∧ (iam ttl).step s.iam a = some t ∧ s' = { s with iam := t }) ∨
    (∃ item disconnected, act = .receive item disconnected ∧ s.closed = false ∧
      s.checking = none ∧ s' = s.receive item disconnected) ∨
    (∃ i item allowed, act = .settle ∧ s.checking = some (i, item) ∧ s.checked i = some allowed ∧
      s' = s.settle item allowed) ∨
    act = .close ∧ s' = { s with closed := true, checking := none } := by
  cases act with
  | iam a =>
    obtain ⟨t, ht, rfl⟩ := map_eq_some_iff.1 h
    exact .inl ⟨a, t, rfl, ht, rfl⟩
  | receive item disconnected =>
    simp only [sse] at h
    split_ifs at h with hidle
    cases h
    rw [Bool.not_eq_true, Bool.or_eq_false_iff, isSome_eq_false_iff, isNone_iff_eq_none] at hidle
    exact .inr (.inl ⟨item, disconnected, rfl, hidle.1, hidle.2, rfl⟩)
  | settle =>
    obtain ⟨⟨i, item⟩, hc, h⟩ := bind_eq_some_iff.1 h
    obtain ⟨allowed, ha, rfl⟩ := map_eq_some_iff.1 h
    exact .inr (.inr (.inl ⟨i, item, allowed, rfl, hc, ha, rfl⟩))
  | close =>
    cases h
    exact .inr (.inr (.inr ⟨rfl, rfl⟩))

theorem SseDesk.deliver_record (s : SseDesk) (item : SseItem) :
    (s.deliver item).record = s.record := by
  cases item <;> rfl

theorem SseDesk.deliver_iam (s : SseDesk) (item : SseItem) : (s.deliver item).iam = s.iam := by
  cases item <;> rfl

theorem SseDesk.receive_frame (s : SseDesk) (item : SseItem) (disconnected : Bool) :
    (s.receive item disconnected).record = s.record ∧
      (s.receive item disconnected).iam.db = s.iam.db ∧
      (s.receive item disconnected).iam.wall = s.iam.wall := by
  have hdeliver : (s.deliver item).record = s.record ∧ (s.deliver item).iam.db = s.iam.db ∧
      (s.deliver item).iam.wall = s.iam.wall := by
    rw [deliver_record, deliver_iam]
    exact ⟨rfl, rfl, rfl⟩
  unfold receive
  split
  · exact ⟨rfl, rfl, rfl⟩
  · split
    · exact hdeliver
    · split
      · exact ⟨rfl, rfl, rfl⟩
      · exact hdeliver

theorem SseDesk.settle_frame (s : SseDesk) (item : SseItem) (allowed : Bool) :
    (s.settle item allowed).record = s.record ∧ (s.settle item allowed).iam = s.iam := by
  cases allowed with
  | false => exact ⟨rfl, rfl⟩
  | true => exact ⟨deliver_record .., deliver_iam ..⟩

theorem sse_step_record (h : (sse ttl).step s act = some s') : s'.record = s.record := by
  obtain ⟨a, t, -, -, rfl⟩ | ⟨item, disconnected, -, -, -, rfl⟩ | ⟨i, item, allowed, -, -, -, rfl⟩ |
    ⟨-, rfl⟩ := sse_step_cases h
  · rfl
  · exact (s.receive_frame item disconnected).1
  · exact (s.settle_frame item allowed).1
  · rfl

theorem sse_run_record {acts : List SseAct} (h : (sse ttl).run acts s = some s') :
    s'.record = s.record :=
  run_inv (I := fun t => t.record = s.record)
    (fun _ _ _ hI _ h => (sse_step_record h).trans hI) rfl (along_true acts s) h

theorem sse_step_steady (h : (sse ttl).step s act = some s') (hst : act.Steady s) :
    s'.iam.db = s.iam.db ∧ s.iam.wall ≤ s'.iam.wall := by
  obtain ⟨a, t, rfl, ht, rfl⟩ | ⟨item, disconnected, -, -, -, rfl⟩ |
    ⟨i, item, allowed, -, -, -, rfl⟩ | ⟨-, rfl⟩ := sse_step_cases h
  · exact iam_step_quiet ht hst.1
  · obtain ⟨-, hdb, hwall⟩ := s.receive_frame item disconnected
    exact ⟨hdb, hwall.ge⟩
  · rw [(s.settle_frame item allowed).2]
    exact ⟨rfl, le_rfl⟩
  · exact ⟨rfl, le_rfl⟩

theorem sse_run_steady {acts : List SseAct} (hst : (sse ttl).Along (fun s a => a.Steady s) acts s)
    (h : (sse ttl).run acts s = some s') :
    s'.iam.db = s.iam.db ∧ s.iam.wall ≤ s'.iam.wall := by
  refine run_inv (I := fun t => t.iam.db = s.iam.db ∧ s.iam.wall ≤ t.iam.wall)
    (fun t a t' hI hst h => ?_) ⟨rfl, le_rfl⟩ hst h
  obtain ⟨hdb, hwall⟩ := sse_step_steady h hst
  exact ⟨hdb.trans hI.1, hI.2.trans hwall⟩

end Steps

section Stamped

variable {ttl : ℤ} {orgId userId : String} {args : AuthorizeArgs} {phase : AuthorizePhase}

theorem IamDb.Permits.earlier {db : IamDb} {now later : ℕ} {id perm : String} {type : PrincipalType}
    (hle : now ≤ later) (h : db.Permits later orgId type id perm) :
    db.Permits now orgId type id perm :=
  ⟨h.org, h.principal, h.granted.earlier hle, h.notSystem⟩

theorem iam_step_authorize {t t' : IamDesk} {a : IamAct} {j : ℕ} (h : (iam ttl).step t a = some t')
    (hj : t.calls[j]? = some (.authorize args phase)) (habort : a ≠ .abort j) :
    ∃ phase', t'.calls[j]? = some (.authorize args phase') ∧ (phase' = phase ∨
        ∃ x, args.step ttl t.db t.wall t.mono t.cache phase = some x ∧ phase' = x.2) := by
  have hlt := Slots.lt_of_getElem? hj
  obtain ⟨c, -, rfl⟩ | ⟨i, newId, args', phase', x, rfl, hi, hx, rfl⟩ |
    ⟨i, newId, r, phase', m, rfl, hi, hm, rfl⟩ | ⟨wall, mono, rfl, rfl⟩ |
    ⟨i, c, c', rfl, hi, hl, rfl⟩ := iam_step_cases h
  · exact ⟨phase, (getElem?_append_left hlt).trans hj, .inl rfl⟩
  · by_cases hij : i = j
    · subst hij
      rw [hi] at hj
      cases hj
      exact ⟨x.2, by simp [hlt], .inr ⟨x, hx, rfl⟩⟩
    · exact ⟨phase, by simpa [getElem?_set, hij] using hj, .inl rfl⟩
  · have hij : i ≠ j := by
      rintro rfl
      rw [hi] at hj
      cases hj
    exact ⟨phase, by simpa [move, getElem?_set, hij] using hj, .inl rfl⟩
  · exact ⟨phase, hj, .inl rfl⟩
  · have hij : i ≠ j := fun hij => habort (by rw [hij])
    exact ⟨phase, by simpa [getElem?_set, hij] using hj, .inl rfl⟩

theorem AuthorizeArgs.step_ne_lost {db : IamDb} {wall mono : ℕ} {cache : PermissionCache}
    {x : PermissionCache × AuthorizePhase} (h : args.step ttl db wall mono cache phase = some x) :
    x.2 ≠ .lost := by
  unfold step at h
  split at h
  · split at h
    · cases h
      nofun
    · split at h <;> (cases h; nofun)
  · split at h <;> (cases h; nofun)
  · split at h <;> (cases h; nofun)
  · cases h
    nofun
  · cases h
    nofun
  · cases h
  · cases h

/-- The stream waits for a re-validation that the tables `taken` has do not let pass. -/
structure Waits (orgId userId : String) (h : userId ≠ "") (e : StreamEvent Json)
    (taken s : SseDesk) : Prop where
  frames : s.frames = taken.frames
  checking : s.checking = some (taken.iam.calls.length, .event e)
  db : s.iam.db = taken.iam.db
  wall : taken.iam.wall ≤ s.iam.wall
  call : ∃ phase, s.iam.calls[taken.iam.calls.length]? =
      some (.authorize (runReadArgs userId orgId h) phase) ∧
    (IamCall.authorize (runReadArgs userId orgId h) phase).Sound taken.iam.db orgId .user userId
      "runtime:run:read" ∧ phase.Denies .user userId ∧ phase ≠ .lost

structure Over (taken s : SseDesk) (acts : List SseAct) : Prop where
  closed : s.closed = true
  idle : s.checking = none
  frames : s.frames = taken.frames ∧ SseAct.close ∈ acts ∨
    s.frames = taken.frames ++ [revokedFrame]

theorem Over.step {taken s s' : SseDesk} {acts : List SseAct} {act : SseAct} (h : Over taken s acts)
    (hs : (sse ttl).step s act = some s') : Over taken s' (acts ++ [act]) := by
  have hframes : s.frames = taken.frames ∧ SseAct.close ∈ acts ++ [act] ∨
      s.frames = taken.frames ++ [revokedFrame] :=
    h.frames.imp_left fun hf => ⟨hf.1, mem_append_left _ hf.2⟩
  obtain ⟨a, t, -, -, rfl⟩ | ⟨item, disconnected, -, hclosed, -, -⟩ |
    ⟨i, item, allowed, -, hc, -, -⟩ | ⟨-, rfl⟩ := sse_step_cases hs
  · exact ⟨h.closed, h.idle, hframes⟩
  · rw [h.closed] at hclosed
    cases hclosed
  · rw [h.idle] at hc
    cases hc
  · exact ⟨rfl, rfl, hframes⟩

theorem sseRevalidate_of_denies {allowed : Bool} (hd : phase.Denies .user userId)
    (hl : phase ≠ .lost) (h : sseRevalidate phase = some allowed) : allowed = false := by
  unfold sseRevalidate at h
  split at h
  · exact absurd rfl hd
  · exact (some.inj h).symm
  · exact absurd rfl hl
  · cases h

theorem Waits.step {taken s s' : SseDesk} {h : userId ≠ ""} {e : StreamEvent Json}
    {acts : List SseAct} {act : SseAct}
    (hgone : ¬ taken.iam.db.Permits taken.iam.wall orgId .user userId "runtime:run:read")
    (hw : Waits orgId userId h e taken s) (hst : act.Steady s)
    (hs : (sse ttl).step s act = some s') :
    Waits orgId userId h e taken s' ∨ Over taken s' (acts ++ [act]) := by
  obtain ⟨phase, hcall, hsound, hden, hlost⟩ := hw.call
  obtain ⟨a, t, rfl, ht, rfl⟩ | ⟨item, disconnected, -, -, hidle, -⟩ |
    ⟨i, item, allowed, -, hc, hallowed, rfl⟩ | ⟨rfl, rfl⟩ := sse_step_cases hs
  · obtain ⟨hdb, hwall⟩ := iam_step_quiet ht hst.1
    obtain ⟨phase', hcall', hphase⟩ := iam_step_authorize ht hcall (hst.2 _ _ hw.checking)
    refine .inl ⟨hw.frames, hw.checking, hdb.trans hw.db, hw.wall.trans hwall, phase', hcall', ?_⟩
    rcases hphase with rfl | ⟨x, hx, rfl⟩
    · exact ⟨hsound, hden, hlost⟩
    · rw [← hw.db] at hgone hsound ⊢
      exact ⟨step_sound hgone hw.wall hx hsound,
        step_denies ⟨rfl, rfl⟩ rfl rfl hx hsound (.inl rfl) hden,
        step_ne_lost hx⟩
  · rw [hw.checking] at hidle
    cases hidle
  · rw [hw.checking] at hc
    cases hc
    simp only [checked, hcall] at hallowed
    obtain rfl := sseRevalidate_of_denies hden hlost hallowed
    exact .inr ⟨rfl, rfl, .inr (by rw [← hw.frames]; rfl)⟩
  · exact .inr ⟨rfl, rfl, .inl ⟨hw.frames, by simp⟩⟩

theorem buildSseRevalidationContext_eq_some {x : StampedRecord} {userId orgId : String}
    (hu : x.userId = some userId) (ho : x.record.orgId = some orgId) (hu0 : userId ≠ "")
    (ho0 : orgId ≠ "") :
    buildSseRevalidationContext x = some (runReadArgs userId orgId hu0) := by
  simp [buildSseRevalidationContext, hu, ho, hu0, ho0]

theorem revokedInTime_of_stamp {x : StampedRecord} (hu : x.userId = some userId)
    (ho : x.record.orgId = some orgId) (hu0 : userId ≠ "") (ho0 : orgId ≠ "") :
    RevokedInTime x orgId userId := by
  intro ttl iam0 acts change between e rest before committed taken checking after h
  obtain ⟨hdb, hwall⟩ := sse_run_steady h.steady h.later
  have hgone : ¬ taken.iam.db.Permits taken.iam.wall orgId .user userId "runtime:run:read" := by
    rw [hdb]
    exact fun hp => h.gone (hp.earlier hwall)
  have hrecord : taken.record = x :=
    calc taken.record = committed.record := sse_run_record h.later
      _ = before.record := sse_step_record h.commit
      _ = x := sse_run_record h.run
  have hwaits : Waits orgId userId hu0 e taken checking := by
    obtain ⟨a, t, hact, -, -⟩ | ⟨item, disconnected, hact, -, -, rfl⟩ | ⟨i, item, allowed, hact, -, -, -⟩ |
      ⟨hact, -⟩ := sse_step_cases h.receive
    · cases hact
    · cases hact
      have hctx := buildSseRevalidationContext_eq_some (x := x) hu ho hu0 ho0
      rw [← hrecord] at hctx
      have hreceive : taken.receive (.event e) false = { taken with
            iam := { taken.iam with
              calls := taken.iam.calls ++ [.authorize (runReadArgs userId orgId hu0) .called] }
            checking := some (taken.iam.calls.length, .event e) } := by
        simp [receive, hctx, rechecks]
      rw [hreceive]
      exact ⟨rfl, rfl, rfl, le_rfl, .called, by simp, trivial, trivial, nofun⟩
    · cases hact
    · cases hact
  have hend : Waits orgId userId hu0 e taken after ∨ Over taken after rest := by
    refine run_trace_inv
      (I := fun acts s => Waits orgId userId hu0 e taken s ∨ Over taken s acts)
      (fun acts s act s' _ hI hst hs => ?_) (.inl hwaits) h.undisturbed h.settles
    rcases hI with hw | ho
    · exact hw.step hgone hst hs
    · exact .inr (ho.step hs)
  rcases hend with hw | ho
  · exact .inl ⟨hw.frames, .inl (by rw [hw.checking]; rfl)⟩
  · rcases ho.frames with ⟨hf, hclose⟩ | hf
    · exact .inl ⟨hf, .inr hclose⟩
    · exact .inr ⟨hf, ho.closed⟩

end Stamped

section Unstamped

variable {ttl : ℤ} {orgId userId orgId' userId' : String}

def twoReaders (orgId userId orgId' userId' : String) : IamDb where
  orgs := (empty.set orgId' .active).set orgId .active
  memberships := (empty.set (orgId', userId') .active).set (orgId, userId) .active
  roles := empty.set "r" ⟨none, "org:viewer", [.str "runtime:run:read"], true, isSystem_inScope⟩
  bindings := (empty.set "b" ⟨orgId', .user, userId', "r", none, none, user_ne_system⟩).set "c"
    ⟨orgId, .user, userId, "r", none, none, user_ne_system⟩

theorem permits_of_binding {db : IamDb} {wall : ℕ} (id : String) {b : RoleBindingRow}
    (horg : db.orgs.get? orgId = some .active)
    (hmember : db.memberships.get? (orgId, userId) = some .active)
    (hb : db.bindings.get? id = some b) (hof : b.orgId = orgId ∧ b.principalType = .user ∧
      b.principalId = userId ∧ b.expiresAt = none) {r : RoleRow}
    (hr : db.roles.get? b.roleId = some r) (hperm : .str "runtime:run:read" ∈ r.permissions) :
    db.Permits wall orgId .user userId "runtime:run:read" := by
  obtain ⟨ho, ht, hi, hx⟩ := hof
  refine ⟨horg, hmember, ⟨b, mem_values_iff.2 ⟨id, hb⟩, r, ho, ht, hi, ?_, hr, hperm⟩,
    by decide⟩
  intro t ht
  rw [hx] at ht
  cases ht

def suspendFirst (orgId userId : String) : List IamAct :=
  [.request (.suspendMember orgId userId), .step 0 "", .step 0 ""]

def oneReader (orgId userId orgId' userId' : String) : IamDb :=
  (twoReaders orgId userId orgId' userId').commit (.setMembership orgId userId .suspended)

theorem suspend_commits (ttl : ℤ) (orgId userId orgId' userId' : String) : ∃ t0 t1,
    (iam ttl).run (suspendFirst orgId userId) { db := twoReaders orgId userId orgId' userId' }
      = some t0 ∧ t0.db = twoReaders orgId userId orgId' userId' ∧
    (iam ttl).step t0 (.step 0 "") = some t1 ∧ t1.db = oneReader orgId userId orgId' userId' ∧
    t1.calls.length = 1 := by
  refine ⟨⟨twoReaders orgId userId orgId' userId', .empty, 0, 0,
      [.request (.suspendMember orgId userId) (.committing .active)]⟩,
    ⟨oneReader orgId userId orgId' userId', .empty, 0, 0,
      [.request (.suspendMember orgId userId) (.invalidating .user userId)]⟩, ?_, rfl, ?_, rfl, rfl⟩
  · have hadmin : (twoReaders orgId userId orgId' userId').orgAdminRoleId = .ok none := rfl
    have hmember : (twoReaders orgId userId orgId' userId').memberships.get? (orgId, userId)
        = some .active := by
      simp [twoReaders]
    simp [suspendFirst, run, iam, stepCall, IamRequest.step,
      IamRequest.suspendOrgMember, IamRequest.transition, hadmin, hmember, IamMove.goto,
      move, commit]
  · simp [iam, stepCall, IamRequest.step, IamRequest.suspendOrgMember,
      IamRequest.transition, setMembershipStatus, IamMove.transact, move, oneReader]

theorem twoReaders_permits (wall : ℕ) :
    (twoReaders orgId userId orgId' userId').Permits wall orgId .user userId "runtime:run:read" := by
  refine permits_of_binding "c" (b := ⟨orgId, .user, userId, "r", none, none, by decide⟩)
    ?_ ?_ ?_ ⟨rfl, rfl, rfl, rfl⟩ rfl mem_cons_self
  · simp [twoReaders]
  · simp [twoReaders]
  · simp [twoReaders]

theorem oneReader_not_permits (wall : ℕ) :
    ¬ (oneReader orgId userId orgId' userId').Permits wall orgId .user userId "runtime:run:read" := by
  intro h
  have hmember := h.principal
  simp [IamDb.ActivePrincipal, oneReader, commit] at hmember

theorem oneReader_permits (hne : (orgId, userId) ≠ (orgId', userId')) (wall : ℕ) :
    (oneReader orgId userId orgId' userId').Permits wall orgId' .user userId' "runtime:run:read" := by
  refine permits_of_binding "b" (b := ⟨orgId', .user, userId', "r", none, none, by decide⟩)
    ?_ ?_ ?_ ⟨rfl, rfl, rfl, rfl⟩ rfl mem_cons_self
  · simp [oneReader, twoReaders, commit]
  · simp only [oneReader, twoReaders, commit, get?_set, if_neg hne, if_true]
  · simp [oneReader, twoReaders, commit]

theorem sse_run_iam : ∀ {acts : List IamAct} {s : SseDesk} {t : IamDesk},
    (iam ttl).run acts s.iam = some t → (sse ttl).run (acts.map .iam) s = some { s with iam := t }
  | [], s, t, h => by
    cases h
    rfl
  | a :: acts, s, t, h => by
    obtain ⟨u, hu, hut⟩ := bind_eq_some_iff.1 h
    have hstep : (sse ttl).step s (.iam a) = some { s with iam := u } := by
      simp [sse, hu]
    rw [map_cons, run_cons, hstep]
    exact sse_run_iam (s := { s with iam := u }) hut

theorem along_own_steps {args : AuthorizeArgs} {j : ℕ} : ∀ (n : ℕ) {s : SseDesk}
    {phase : AuthorizePhase}, s.iam.calls[j]? = some (.authorize args phase) →
      (sse ttl).Along (fun s a => a.Steady s) ((replicate n (.step j "")).map .iam) s
  | 0, _, _, _ => trivial
  | n + 1, s, phase, hj => by
    refine ⟨⟨fun c hc => ?_, fun _ _ _ => nofun⟩, fun s' hs => ?_⟩
    · rw [hj] at hc
      cases hc
      trivial
    · obtain ⟨t, ht, rfl⟩ := map_eq_some_iff.1 hs
      obtain ⟨phase', hj', -⟩ := iam_step_authorize ht hj nofun
      exact along_own_steps n hj'

structure JustSuspended (x : StampedRecord) (orgId userId orgId' userId' : String)
    (taken : SseDesk) : Prop where
  record : taken.record = x
  db : taken.iam.db = oneReader orgId userId orgId' userId'
  calls : taken.iam.calls.length = 1
  idle : taken.closed = false ∧ taken.checking = none
  frames : taken.frames = []

/-- Whatever the record says, there is a run in which the user is suspended and the stream takes an
event then. -/
theorem exists_event_after_suspension (x : StampedRecord) (e : StreamEvent Json)
    (orgId userId orgId' userId' : String) :
    ∃ iam0 acts change before taken, JustSuspended x orgId userId orgId' userId' taken ∧
      ∀ rest after, (sse 60).Along (fun s a => a.Steady s) rest (taken.receive (.event e) false) →
        (sse 60).run rest (taken.receive (.event e) false) = some after →
        EventAfterRevocation 60 orgId userId x iam0 acts change [] e rest before taken taken
          (taken.receive (.event e) false) after := by
  obtain ⟨t0, t1, hrun, hdb0, hstep, hdb1, hcalls⟩ := suspend_commits 60 orgId userId orgId' userId'
  let started := start { db := twoReaders orgId userId orgId' userId' } x
  refine ⟨{ db := twoReaders orgId userId orgId' userId' }, (suspendFirst orgId userId).map .iam,
    .step 0 "", { started with iam := t0 }, { started with iam := t1 },
    ⟨rfl, hdb1, hcalls, ⟨rfl, rfl⟩, rfl⟩, fun rest after hsteady hafter => ?_⟩
  refine ⟨sse_run_iam (s := started) hrun, ?_, ?_, ?_, trivial, rfl, rfl, hsteady, hafter⟩
  · rw [hdb0]
    exact twoReaders_permits _
  · simp [sse, hstep]
  · rw [hdb1]
    exact oneReader_not_permits _

def anEvent : StreamEvent Json := ⟨"1-0", "values", .null⟩

theorem eventFrame_ne_revokedFrame {fs : List SseFrame} {id : Option String} :
    fs ++ [.message "values" .null id] ≠ fs ++ [revokedFrame] := by
  intro h
  have := append_cancel_left h
  simp [revokedFrame] at this

theorem exists_of_context {x : StampedRecord} {args : AuthorizeArgs}
    (h : buildSseRevalidationContext x = some args) :
    ∃ userId orgId, x.userId = some userId ∧ x.record.orgId = some orgId ∧ ∃ hu : userId ≠ "",
      orgId ≠ "" ∧ args = runReadArgs userId orgId hu := by
  unfold buildSseRevalidationContext at h
  split at h
  · rename_i userId orgId hu ho
    split_ifs at h with hu0 ho0
    exact ⟨userId, orgId, hu, ho, hu0, ho0, (some.inj h).symm⟩
  · cases h

theorem allowed_event_is_yielded {s : SseDesk} {e : StreamEvent Json} {userId orgId : String}
    {hu : userId ≠ ""}
    (hctx : buildSseRevalidationContext s.record = some (runReadArgs userId orgId hu))
    (hp : s.iam.db.Permits s.iam.wall orgId .user userId "runtime:run:read") :
    ∃ rest after, (sse ttl).run rest (s.receive (.event e) false) = some after ∧
      (sse ttl).Along (fun s a => a.Steady s) rest (s.receive (.event e) false) ∧
      after.frames = s.frames ++ [.message e.event e.data (eventId e.id)] := by
  have hreceive : s.receive (.event e) false = { s with
        iam := { s.iam with
          calls := s.iam.calls ++ [.authorize (runReadArgs userId orgId hu) .called] }
        checking := some (s.iam.calls.length, .event e) } := by
    simp [receive, hctx, rechecks]
  have hallowed : (authorize ttl s.iam.db s.iam.wall s.iam.mono s.iam.cache
      (runReadArgs userId orgId hu)).1 = .ok () :=
    ((authorize_computes_the_intersection ..).1 (.inl rfl)).2 ⟨.user, userId, ⟨rfl, rfl⟩, hp, nofun⟩
  obtain ⟨n, -, hends⟩ := authorize_alone ttl (runReadArgs userId orgId hu) s.iam.db s.iam.wall
    s.iam.mono s.iam.cache
  rw [hallowed] at hends
  have hcall : (s.receive (.event e) false).iam.calls[s.iam.calls.length]? =
      some (.authorize (runReadArgs userId orgId hu) .called) := by
    rw [hreceive]
    simp
  obtain ⟨t, ht, -, -, hdone⟩ := hends (s.receive (.event e) false).iam s.iam.calls.length
    (by rw [hreceive]) (by rw [hreceive]) (by rw [hreceive]) (by rw [hreceive]) hcall
  have hrun := sse_run_iam ht
  have hsettle : (sse ttl).step { s.receive (.event e) false with iam := t } .settle =
      some ({ s.receive (.event e) false with iam := t }.settle (.event e) true) := by
    simp [sse, hreceive, checked, hdone, sseRevalidate]
  have hlast : ∀ t, (sse ttl).Along (fun s a => a.Steady s) [.settle] t :=
    fun _ => ⟨trivial, fun _ _ => trivial⟩
  refine ⟨(replicate n (.step s.iam.calls.length "")).map .iam ++ [.settle], _,
    run_trans hrun (run_single hsettle),
    along_append (along_own_steps n hcall) fun t _ => hlast t, ?_⟩
  rw [hreceive]
  rfl

/-- A stream whose record has another stamp than the user's, or none, yields an event it takes after
the user was suspended. -/
theorem not_revokedInTime {x : StampedRecord} (h : ¬ (x.userId = some userId ∧
    x.record.orgId = some orgId ∧ userId ≠ "" ∧ orgId ≠ "")) : ¬ RevokedInTime x orgId userId := by
  intro hrev
  cases hctx : buildSseRevalidationContext x with
  | none =>
    -- Nobody is authorized again.
    obtain ⟨iam0, acts, change, before, taken, htaken, hrun⟩ :=
      exists_event_after_suspension x anEvent orgId userId orgId userId
    have hreceive : taken.receive (.event anEvent) false = taken.deliver (.event anEvent) := by
      simp [receive, htaken.record, hctx]
    rcases hrev _ _ _ _ _ _ _ _ _ _ _ _ (hrun [] _ trivial rfl) with ⟨hf, -⟩ | ⟨hf, -⟩
    · rw [hreceive] at hf
      simp [deliver] at hf
    · rw [hreceive] at hf
      exact eventFrame_ne_revokedFrame hf
  | some args =>
    -- Somebody else is, and they are allowed.
    obtain ⟨userId', orgId', hu, ho, hu0, ho0, rfl⟩ := exists_of_context hctx
    have hne : (orgId, userId) ≠ (orgId', userId') := by
      intro heq
      cases heq
      exact h ⟨hu, ho, hu0, ho0⟩
    obtain ⟨iam0, acts, change, before, taken, htaken, hrun⟩ :=
      exists_event_after_suspension x anEvent orgId userId orgId' userId'
    obtain ⟨rest, after, hafter, hsteady, hframes⟩ := allowed_event_is_yielded (e := anEvent)
      (htaken.record ▸ hctx) (htaken.db ▸ oneReader_permits hne _)
    rcases hrev _ _ _ _ _ _ _ _ _ _ _ _ (hrun _ _ hsteady hafter) with ⟨hf, -⟩ | ⟨hf, -⟩
    · rw [hframes] at hf
      simp at hf
    · rw [hframes] at hf
      exact eventFrame_ne_revokedFrame hf

end Unstamped

theorem getTrustedInternalOwnerUserId_eq_some {user : Option RequestUser} {header : Option String}
    {userId : String} : getTrustedInternalOwnerUserId user header = some userId ↔
      user.any internal ∧ header.map stripText = some userId ∧ userId ≠ "" := by
  unfold getTrustedInternalOwnerUserId
  cases user.any internal with
  | false => simp
  | true =>
    cases header with
    | none => simp
    | some h =>
      have hempty : h = "" → stripText h = "" := fun heq => by rw [heq]; rfl
      simp only [if_true, map_some, some.injEq, true_and]
      split_ifs with h0 hstrip
      · simp [hempty h0, eq_comm]
      · simp [hstrip, eq_comm]
      · refine ⟨fun heq => ?_, fun heq => congrArg some heq.1⟩
        cases heq
        exact ⟨rfl, hstrip⟩

/-- The streams `start_run` opens are closed in time exactly for the runs that a trusted internal
request starts for the user, in the organisation: the record of a run that a user starts has no
stamp. -/
theorem stream_revoked_in_time_iff (q : StartRequest) (header : Option String) (now : ℕ)
    (orgId userId : String)
    (hq : q.ownerUserId = getTrustedInternalOwnerUserId q.user header) :
    RevokedInTime (q.stamped now) orgId userId ↔
      q.user.any internal = true ∧ header.map stripText = some userId ∧ userId ≠ "" ∧
        q.exec.ctx.tenantOrg = some orgId ∧ orgId ≠ "" := by
  have hstamp : (q.stamped now).userId = some userId ↔
      q.user.any internal = true ∧ header.map stripText = some userId ∧ userId ≠ "" := by
    rw [← getTrustedInternalOwnerUserId_eq_some, ← hq]
    rfl
  constructor
  · intro h
    by_contra hno
    refine not_revokedInTime (fun hx => hno ?_) h
    obtain ⟨hu, ho, hu0, ho0⟩ := hx
    obtain ⟨hinternal, hheader, -⟩ := hstamp.1 hu
    exact ⟨hinternal, hheader, hu0, ho, ho0⟩
  · rintro ⟨hinternal, hheader, hu0, ho, ho0⟩
    exact revokedInTime_of_stamp (hstamp.2 ⟨hinternal, hheader, hu0⟩) ho hu0 ho0

def internalRequest : StartRequest :=
  { plainRequest with user := some ⟨"default", true⟩, ownerUserId := some "u" }

theorem internal_stream_is_revoked : RevokedInTime (internalRequest.stamped 0) "o" "u" :=
  (stream_revoked_in_time_iff internalRequest (some " u") 0 "o" "u" (by decide +kernel)).2
    ⟨rfl, by decide +kernel, by decide, rfl, by decide⟩

def ordinaryRequest : StartRequest := { plainRequest with user := some ⟨"u", false⟩ }

/-- A user is suspended, and the stream of a run they started yields the event it takes then. -/
theorem ordinary_stream_yields_after_suspension : ∃ iam0 acts change before taken after,
    (sse 60).run acts (.start iam0 (ordinaryRequest.stamped 0)) = some before ∧
    before.iam.db.Permits before.iam.wall "o" .user "u" "runtime:run:read" ∧
    (sse 60).step before (.iam change) = some taken ∧
    ¬ taken.iam.db.Permits taken.iam.wall "o" .user "u" "runtime:run:read" ∧
    (sse 60).step taken (.receive (.event anEvent) false) = some after ∧
    after.frames = taken.frames ++ [.message "values" .null (some "1-0")] := by
  obtain ⟨iam0, acts, change, before, taken, htaken, hrun⟩ :=
    exists_event_after_suspension (ordinaryRequest.stamped 0) anEvent "o" "u" "o" "u"
  have h := hrun [] _ trivial rfl
  refine ⟨iam0, acts, change, before, taken, _, h.run, h.permitted, h.commit, h.gone, h.receive, ?_⟩
  have hctx : buildSseRevalidationContext taken.record = none := by
    rw [htaken.record]
    rfl
  simp only [receive, hctx]
  rfl

end DeerFlow

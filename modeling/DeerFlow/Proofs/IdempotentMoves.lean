import DeerFlow.Proofs.ChannelHistory
import DeerFlow.Proofs.RequestHash

/-!
# A key is used once

The replay record of an organisation and key is inserted in the transaction that moves the channel,
and by one request only; what the other requests with the key are told is what that move stored.
-/

namespace DeerFlow

open List Option ReleaseDesk TxCell MoveRequest Function

def MoveRequest.slot (r : MoveRequest) : Option (String × String) :=
  r.key.map fun key => (r.args.orgId, key)

def CommittedEvent.slot (e : CommittedEvent) : Option (String × String) :=
  e.key.map fun key => (e.args.orgId, key)

def CommittedAudit.slot (e : CommittedAudit) : Option (String × String) :=
  e.key.map fun key => (e.args.orgId, key)

def MovePhase.Answers (phase : MovePhase) (p : PromoteResponse) : Prop :=
  phase = .done (.moved p) ∨ phase = .done (.replayed p)

def MovePhase.Unanswered (phase : MovePhase) : Prop :=
  (∀ p, phase ≠ .committing p) ∧ ∀ p, ¬ phase.Answers p

section Once

variable (sha256 : List Char → String) (κ : String × String)

def ReleaseDesk.eventsOf (s : ReleaseDesk) : List CommittedEvent :=
  s.events.filter fun e => e.slot = some κ

def ReleaseDesk.auditsOf (s : ReleaseDesk) : List CommittedAudit :=
  s.audits.filter fun e => e.slot = some κ

/-- The requests with the key `κ` and its record. -/
structure ReleaseDesk.Once (s : ReleaseDesk) : Prop where
  holder : ∀ i v, (s.records κ).pending = some (i, v) → (s.records κ).committed = none ∧
    ∃ (r : MoveRequest) (p : PromoteResponse), s.requests[i]? = some r ∧ r.slot = some κ ∧
      r.phase = .committing p ∧ v = some ⟨computeRequestHash sha256 r.args, p, 200⟩
  staged : ∀ (i : ℕ) (r : MoveRequest) (p : PromoteResponse), s.requests[i]? = some r →
    r.slot = some κ → r.phase = .committing p → ∃ v, (s.records κ).pending = some (i, v)
  answered : ∀ (i : ℕ) (r : MoveRequest) (p : PromoteResponse), s.requests[i]? = some r →
    r.slot = some κ → r.phase.Answers p →
      (s.records κ).committed = some ⟨computeRequestHash sha256 r.args, p, 200⟩
  unused : (s.records κ).committed = none → s.eventsOf κ = [] ∧ s.auditsOf κ = []
  origin : ∀ rec, (s.records κ).committed = some rec →
    ∃ (i : ℕ) (r : MoveRequest) (p : PromoteResponse), s.requests[i]? = some r ∧
      r.slot = some κ ∧ r.phase = .done (.moved p) ∧
      s.eventsOf κ = [event i r p] ∧ s.auditsOf κ = [audit i r p] ∧
      ∀ (j : ℕ) (r' : MoveRequest) (q : PromoteResponse), s.requests[j]? = some r' →
        r'.slot = some κ → r'.phase = .done (.moved q) → j = i

end Once

namespace ReleaseDesk.Once

variable {sha256 : List Char → String} {κ : String × String} {s : ReleaseDesk} {i : ℕ}
  {r : MoveRequest}

theorem not_holder (h : s.Once sha256 κ) (hr : s.requests[i]? = some r)
    (hno : r.slot = some κ → ∀ p, r.phase ≠ .committing p) (v : Option IdempotencyRecord) :
    (s.records κ).pending ≠ some (i, v) := by
  intro hp
  obtain ⟨-, r', p, hr', hslot, hphase, -⟩ := h.holder i v hp
  rw [hr] at hr'
  cases hr'
  exact hno hslot p hphase

theorem advance (h : s.Once sha256 κ) (hr : s.requests[i]? = some r)
    (hopen : ∀ p, r.phase ≠ .done (.moved p)) (phase : MovePhase)
    (channels : ChannelKey → TxCell ℕ (Option ChannelRow))
    (records : String × String → TxCell ℕ (Option IdempotencyRecord))
    (hc : (records κ).committed = (s.records κ).committed)
    (hother : ∀ j v, j ≠ i → ((records κ).pending = some (j, v) ↔ (s.records κ).pending = some (j, v)))
    (hown : ∀ v, (records κ).pending = some (i, v) → (s.records κ).committed = none ∧
      r.slot = some κ ∧ ∃ p, phase = .committing p ∧
        v = some ⟨computeRequestHash sha256 r.args, p, 200⟩)
    (hstaged : r.slot = some κ → ∀ p, phase = .committing p → ∃ v, (records κ).pending = some (i, v))
    (hanswer : r.slot = some κ → ∀ p, phase.Answers p → phase = .done (.replayed p) ∧
      (s.records κ).committed = some ⟨computeRequestHash sha256 r.args, p, 200⟩) :
    ReleaseDesk.Once sha256 κ { s.goto i r phase with channels := channels, records := records } := by
  have hset : ∀ {j : ℕ}, j ≠ i → (s.goto i r phase).requests[j]? = s.requests[j]? :=
    fun hj => goto_other hj phase
  have hseti := goto_self hr phase
  refine ⟨fun j v hv => ?_, fun j r' p hr' hslot hp => ?_, fun j r' p hr' hslot hp => ?_,
    fun hnone => h.unused (hc ▸ hnone), fun rec hrec => ?_⟩
  · by_cases hj : j = i
    · subst hj
      obtain ⟨hnone, hslot, p, hp, hv'⟩ := hown v hv
      exact ⟨hc.trans hnone, _, p, hseti, hslot, hp, hv'⟩
    · obtain ⟨hnone, r', p, hr', hrest⟩ := h.holder j v ((hother j v hj).1 hv)
      exact ⟨hc.trans hnone, r', p, (hset hj).trans hr', hrest⟩
  · by_cases hj : j = i
    · subst hj
      cases hseti.symm.trans hr'
      exact hstaged hslot p hp
    · obtain ⟨v, hv⟩ := h.staged j r' p ((hset hj).symm.trans hr') hslot hp
      exact ⟨v, (hother j v hj).2 hv⟩
  · by_cases hj : j = i
    · subst hj
      cases hseti.symm.trans hr'
      exact hc.trans (hanswer hslot p hp).2
    · exact hc.trans (h.answered j r' p ((hset hj).symm.trans hr') hslot hp)
  · obtain ⟨j, r', p, hr', hslot, hp, hev, hau, honly⟩ := h.origin rec (hc ▸ hrec)
    have hj : j ≠ i := by
      rintro rfl
      rw [hr] at hr'
      cases hr'
      exact hopen p hp
    refine ⟨j, r', p, (hset hj).trans hr', hslot, hp, hev, hau, fun m r'' q hr'' hslot' hq => ?_⟩
    by_cases hm : m = i
    · subst hm
      cases hseti.symm.trans hr''
      rw [(hanswer hslot' q (.inl hq)).1] at hq
      cases hq
    · exact honly m r'' q ((hset hm).symm.trans hr'') hslot' hq

theorem goto (h : s.Once sha256 κ) (hr : s.requests[i]? = some r)
    (hopen : ∀ p, r.phase ≠ .done (.moved p)) (hno : ∀ p, r.phase ≠ .committing p)
    (phase : MovePhase) (hphase : phase.Unanswered)
    (channels : ChannelKey → TxCell ℕ (Option ChannelRow)) :
    ReleaseDesk.Once sha256 κ { s.goto i r phase with channels := channels } :=
  h.advance hr hopen phase channels s.records rfl (fun _ _ _ => Iff.rfl)
    (fun v hv => absurd hv (h.not_holder hr (fun _ => hno) v))
    (fun _ p hp => absurd hp (hphase.1 p)) fun _ p hp => absurd hp (hphase.2 p)

theorem abort (h : s.Once sha256 κ) (hr : s.requests[i]? = some r)
    (hopen : ∀ p, r.phase ≠ .done (.moved p)) (phase : MovePhase) (hphase : phase.Unanswered) :
    (s.abort i r phase).Once sha256 κ :=
  h.advance hr hopen phase _ _ rollback_committed
    (fun _ _ hj => rollback_pending.trans (and_iff_left hj))
    (fun _ hv => absurd rfl (rollback_pending.1 hv).2)
    (fun _ p hp => absurd hp (hphase.1 p)) fun _ p hp => absurd hp (hphase.2 p)

theorem unanswered_raised (e : MoveFailure) : (MovePhase.done (.raised e)).Unanswered :=
  ⟨fun p => by simp, fun p => by simp [MovePhase.Answers]⟩

theorem raise (h : s.Once sha256 κ) (hr : s.requests[i]? = some r)
    (hopen : ∀ p, r.phase ≠ .done (.moved p)) (e : MoveFailure) : (s.raise i r e).Once sha256 κ :=
  h.abort hr hopen _ (unanswered_raised e)

theorem replay (h : s.Once sha256 κ) (hr : s.requests[i]? = some r)
    (hopen : ∀ p, r.phase ≠ .done (.moved p)) (hno : ∀ p, r.phase ≠ .committing p)
    {rec : IdempotencyRecord} (hrec : r.slot = some κ → (s.records κ).committed = some rec)
    (hhash : rec.requestHash = computeRequestHash sha256 r.args) :
    (s.goto i r (.done (.replayed rec.responsePayload))).Once sha256 κ := by
  refine h.advance hr hopen _ s.channels s.records rfl (fun _ _ _ => Iff.rfl)
    (fun v hv => absurd hv (h.not_holder hr (fun _ => hno) v)) nofun
    fun hslot p hp => ?_
  rcases hp with hp | hp
  · cases hp
  · cases hp
    refine ⟨rfl, (hrec hslot).trans ?_⟩
    -- the record is the one that a committed request stored
    obtain ⟨j, r', q, hr', hslot', hq, -⟩ := h.origin rec (hrec hslot)
    have hstored := (hrec hslot).symm.trans (h.answered j r' q hr' hslot' (.inl hq))
    cases hstored
    rw [← hhash]

theorem commit (h : s.Once sha256 κ) (hr : s.requests[i]? = some r) {p : PromoteResponse}
    (hphase : r.phase = .committing p) : (s.commit i r p).Once sha256 κ := by
  have hset : ∀ {j : ℕ}, j ≠ i → (s.commit i r p).requests[j]? = s.requests[j]? :=
    fun hj => goto_other hj _
  have hseti := goto_self hr (.done (.moved p))
  by_cases hslot : r.slot = some κ
  · obtain ⟨v, hv⟩ := h.staged i r p hr hslot hphase
    obtain ⟨hnone, r', p', hr', -, hphase', rfl⟩ := h.holder i v hv
    cases hr.symm.trans hr'
    cases hphase.symm.trans hphase'
    have hc : (s.commit i r p).records κ = ⟨some ⟨computeRequestHash sha256 r.args, p, 200⟩, none⟩ :=
      commit_of_pending hv
    have hev : (s.commit i r p).eventsOf κ = [event i { r with phase := .done (.moved p) } p] := by
      change filter _ (s.events ++ [event i r p]) = _
      have hself : (event i r p).slot = some κ := hslot
      rw [filter_append, filter_singleton, decide_eq_true hself]
      exact congrArg (· ++ [event i r p]) (h.unused hnone).1
    have hau : (s.commit i r p).auditsOf κ = [audit i { r with phase := .done (.moved p) } p] := by
      change filter _ (s.audits ++ [audit i r p]) = _
      have hself : (audit i r p).slot = some κ := hslot
      rw [filter_append, filter_singleton, decide_eq_true hself]
      exact congrArg (· ++ [audit i r p]) (h.unused hnone).2
    refine ⟨fun j v hv => ?_, fun j r' q hr' hslot' hq => ?_, fun j r' q hr' hslot' hq => ?_,
      fun hno => ?_, fun rec _ => ?_⟩
    · rw [hc] at hv
      cases hv
    · have hj : j ≠ i := by
        rintro rfl
        cases hseti.symm.trans hr'
        cases hq
      obtain ⟨v', hv'⟩ := h.staged j r' q ((hset hj).symm.trans hr') hslot' hq
      rw [hv] at hv'
      cases hv'
      exact absurd rfl hj
    · by_cases hj : j = i
      · subst hj
        cases hseti.symm.trans hr'
        rw [hc]
        rcases hq with hq | hq
        · cases hq
          rfl
        · cases hq
      · have := h.answered j r' q ((hset hj).symm.trans hr') hslot' hq
        rw [hnone] at this
        cases this
    · rw [hc] at hno
      cases hno
    · refine ⟨i, _, p, hseti, hslot, rfl, hev, hau, fun j r' q hr' hslot' hq => ?_⟩
      by_contra hj
      have := h.answered j r' q ((hset hj).symm.trans hr') hslot' (.inl hq)
      rw [hnone] at this
      cases this
  · have hnot := h.not_holder hr fun hs => absurd hs hslot
    have hc : (s.commit i r p).records κ = s.records κ := commit_eq_self hnot
    have hev : (s.commit i r p).eventsOf κ = s.eventsOf κ := by
      change filter _ (s.events ++ [event i r p]) = _
      have hself : ¬ (event i r p).slot = some κ := hslot
      rw [filter_append, filter_singleton, decide_eq_false hself]
      exact append_nil _
    have hau : (s.commit i r p).auditsOf κ = s.auditsOf κ := by
      change filter _ (s.audits ++ [audit i r p]) = _
      have hself : ¬ (audit i r p).slot = some κ := hslot
      rw [filter_append, filter_singleton, decide_eq_false hself]
      exact append_nil _
    have hother : ∀ {j : ℕ} {r' : MoveRequest}, (s.commit i r p).requests[j]? = some r' →
        r'.slot = some κ → s.requests[j]? = some r' := by
      intro j r' hr' hslot'
      have hj : j ≠ i := by
        rintro rfl
        cases hseti.symm.trans hr'
        exact hslot hslot'
      exact (hset hj).symm.trans hr'
    have hback : ∀ {j : ℕ} {r' : MoveRequest}, s.requests[j]? = some r' → r'.slot = some κ →
        (s.commit i r p).requests[j]? = some r' := by
      intro j r' hr' hslot'
      have hj : j ≠ i := by
        rintro rfl
        cases hr.symm.trans hr'
        exact hslot hslot'
      exact (hset hj).trans hr'
    refine ⟨fun j v hv => ?_, fun j r' q hr' hslot' hq => ?_, fun j r' q hr' hslot' hq => ?_,
      fun hno => ?_, fun rec hrec => ?_⟩
    · rw [hc] at hv ⊢
      obtain ⟨hnone, r', q, hr', hslot', hrest⟩ := h.holder j v hv
      exact ⟨hnone, r', q, hback hr' hslot', hslot', hrest⟩
    · rw [hc]
      exact h.staged j r' q (hother hr' hslot') hslot' hq
    · rw [hc]
      exact h.answered j r' q (hother hr' hslot') hslot' hq
    · rw [hev, hau]
      exact h.unused (hc ▸ hno)
    · rw [hev, hau]
      obtain ⟨j, r', q, hr', hslot', hq, hev', hau', honly⟩ := h.origin rec (hc ▸ hrec)
      exact ⟨j, r', q, hback hr' hslot', hslot', hq, hev', hau',
        fun m r'' q' hr'' hslot'' => honly m r'' q' (hother hr'' hslot'') hslot''⟩

end ReleaseDesk.Once

section Statements

variable {sha256 : List Char → String} {κ : String × String} {s s' : ReleaseDesk} {i : ℕ}
  {r : MoveRequest}

theorem MoveRequest.record_slot {key : String} (hkey : r.key = some key) (hslot : r.slot = some κ) :
    (r.args.orgId, key) = κ := by
  rw [slot, hkey] at hslot
  exact some.inj hslot

theorem MovePhase.Next.unanswered {a b : MovePhase} (h : a.Next b) :
    (∀ p, a ≠ .done (.moved p)) ∧ (∀ p, a ≠ .committing p) ∧ b.Unanswered := by
  cases h <;> simp [MovePhase.Unanswered, MovePhase.Answers]

theorem once_record (h : s.Once sha256 κ) (hr : s.requests[i]? = some r) {key : String}
    {p : PromoteResponse} {c : TxCell ℕ (Option IdempotencyRecord)} (hphase : r.phase = .keying p)
    (hkey : r.key = some key) (hnone : (s.records (r.args.orgId, key)).committed = none)
    (hc : (s.records (r.args.orgId, key)).write i
      (some ⟨computeRequestHash sha256 r.args, p, 200⟩) = some c) :
    ReleaseDesk.Once sha256 κ { s.goto i r (.committing p) with
      records := update s.records (r.args.orgId, key) c } := by
  have hopen : ∀ q, r.phase ≠ .done (.moved q) := by simp [hphase]
  by_cases hslot : r.slot = some κ
  · have hκ := record_slot hkey hslot
    subst hκ
    have hupd : update s.records (r.args.orgId, key) c (r.args.orgId, key) = c :=
      update_self _ _ _
    obtain ⟨-, hcell⟩ := write_eq_some hc
    refine h.advance hr hopen _ s.channels _ ?_ (fun j v hj => ?_) (fun v hv => ?_)
      (fun _ q hq => ?_) fun _ q hq => ?_
    · rw [hupd, write_committed hc]
    · rw [hupd]
      exact write_pending_other hc hj
    · rw [hupd, hcell] at hv
      cases hv
      exact ⟨hnone, hslot, p, rfl, rfl⟩
    · rw [hupd, hcell]
      exact ⟨_, rfl⟩
    · rcases hq with hq | hq <;> cases hq
  · have hne : κ ≠ (r.args.orgId, key) := by
      rintro rfl
      exact hslot (by rw [slot, hkey]; rfl)
    have hupd : update s.records (r.args.orgId, key) c κ = s.records κ :=
      update_of_ne hne _ _
    refine h.advance hr hopen _ s.channels _ (by rw [hupd]) (fun j v _ => by rw [hupd])
      (fun v hv => ?_) (fun hs => absurd hs hslot) fun hs => absurd hs hslot
    rw [hupd] at hv
    exact absurd hv (h.not_holder hr (by simp [hphase]) v)

theorem once_moves (h : s.Once sha256 κ) (hr : s.requests[i]? = some r)
    (hs : s.Moves i r sha256 s') : s'.Once sha256 κ := by
  have hunanswered : ∀ {phase : MovePhase}, (∀ p, phase ≠ .committing p) →
      (∀ a, phase ≠ .done a) → phase.Unanswered := fun h1 h2 => ⟨h1, fun p hp => hp.elim (h2 _) (h2 _)⟩
  cases hs with
  | abort phase hopen hphase =>
    rcases hphase with rfl | ⟨e, rfl⟩
    · exact h.abort hr hopen _ (hunanswered (by simp) (by simp))
    · exact h.raise hr hopen e
  | goto phase hnext =>
    obtain ⟨hopen, hno, hphase⟩ := hnext.unanswered
    exact h.goto hr hopen hno phase hphase s.channels
  | replay key rec hkey hphase hrec hhash =>
    have hopen : ∀ p, r.phase ≠ .done (.moved p) := by rcases hphase with h | h <;> simp [h]
    have hno : ∀ p, r.phase ≠ .committing p := by rcases hphase with h | h <;> simp [h]
    refine h.replay hr hopen hno (fun hslot => ?_) hhash
    rw [record_slot hkey hslot,
      visible_eq_committed (h.not_holder hr fun _ => hno)] at hrec
    exact hrec.elim id id
  | select ch hphase =>
    exact h.goto hr (by simp [hphase]) (by simp [hphase]) _ (hunanswered (by simp) (by simp)) s.channels
  | insert newId c hphase =>
    exact h.goto hr (by simp [hphase]) (by simp [hphase]) _ (hunanswered (by simp) (by simp)) _
  | swap ch row got newId c hphase =>
    exact h.goto hr (by simp [hphase]) (by simp [hphase]) _ (hunanswered (by simp) (by simp)) _
  | keyless p hphase hkey =>
    -- without a key there is no record to hold
    have hslot : r.slot ≠ some κ := by simp [slot, hkey]
    exact h.advance hr (by simp [hphase]) _ s.channels s.records rfl (fun _ _ _ => Iff.rfl)
      (fun v hv => absurd hv (h.not_holder hr (by simp [hphase]) v))
      (fun hs => absurd hs hslot) fun hs => absurd hs hslot
  | record key p c hphase hkey hnone hc => exact once_record h hr hphase hkey hnone hc
  | commit p hphase => exact h.commit hr hphase

end Statements

theorem once_step {sha256 : List Char → String} {κ : String × String} {s s' : ReleaseDesk}
    {a : MoveAct} (h : s.Once sha256 κ) (hs : (releaseMoves sha256).step s a = some s') :
    s'.Once sha256 κ := by
  cases a with
  | call args key =>
    cases hs
    have hnew : ∀ {j : ℕ} {r : MoveRequest}, (s.requests ++ [⟨args, key, .called⟩])[j]? = some r →
        r.phase ≠ .called → s.requests[j]? = some r := by
      intro j r hj hphase
      rcases Slots.getElem?_concat_cases hj with hj | ⟨-, rfl⟩
      · exact hj
      · exact absurd rfl hphase
    have hanswer : ∀ {r : MoveRequest} {p : PromoteResponse}, r.phase.Answers p → r.phase ≠ .called := by
      rintro r p (hp | hp) <;> simp [hp]
    refine ⟨fun j v hv => ?_, fun j r p hr hslot hp => ?_, fun j r p hr hslot hp => ?_, h.unused,
      fun rec hrec => ?_⟩
    · obtain ⟨hnone, r, p, hr, hrest⟩ := h.holder j v hv
      exact ⟨hnone, r, p, called_before hr, hrest⟩
    · exact h.staged j r p (hnew hr (by simp [hp])) hslot hp
    · exact h.answered j r p (hnew hr (hanswer hp)) hslot hp
    · obtain ⟨j, r, p, hr, hslot, hp, hev, hau, honly⟩ := h.origin rec hrec
      exact ⟨j, r, p, called_before hr, hslot, hp, hev, hau,
        fun m r' q hr' hslot' hq => honly m r' q (hnew hr' (by simp [hq])) hslot' hq⟩
  | version id row =>
    cases hs
    exact ⟨h.holder, h.staged, h.answered, h.unused, h.origin⟩
  | step i newId refused =>
    obtain ⟨r, hr, hs⟩ := bind_eq_some_iff.1 hs
    exact once_moves h hr (moves_of_stepRequest hs)
  | lose i =>
    obtain ⟨r, hr, hs⟩ := bind_eq_some_iff.1 hs
    split at hs
    · cases hs
    · next hopen =>
      cases hs
      exact h.raise hr (fun p => hopen _) _

/-- Of the requests with one key in an organisation at most one moves a channel, with one release
event and one audit row. Whoever is answered is given the response that this request stored, and has
asked for the same. -/
theorem idempotent_move_happens_once (sha256 : List Char → String)
    (hinj : Function.Injective sha256) (orgId key : String) (start s : ReleaseDesk)
    (acts : List MoveAct) (hidle : start.Idle)
    (hunused : (start.records (orgId, key)).committed = none)
    (hrun : (releaseMoves sha256).run acts start = some s) :
    (∀ (i j : ℕ) (r r' : MoveRequest) (p q : PromoteResponse), s.requests[i]? = some r →
        s.requests[j]? = some r' → r.slot = some (orgId, key) → r'.slot = some (orgId, key) →
        r.phase = .done (.moved p) → r'.phase = .done (.moved q) → i = j) ∧
      (s.eventsOf (orgId, key)).length ≤ 1 ∧ (s.auditsOf (orgId, key)).length ≤ 1 ∧
      (∀ k, (s.channels k).committed
        = (s.history k).foldl replayEvent (start.channels k).committed) ∧
      ∀ (i : ℕ) (r : MoveRequest) (p : PromoteResponse), s.requests[i]? = some r →
        r.slot = some (orgId, key) → r.phase.Answers p →
        ∃ (j : ℕ) (r' : MoveRequest) (rec : IdempotencyRecord), s.requests[j]? = some r' ∧
          r'.slot = some (orgId, key) ∧ r'.phase = .done (.moved p) ∧
          (s.records (orgId, key)).committed = some rec ∧ rec.responsePayload = p ∧
          r.args.identity = r'.args.identity := by
  have hstart : start.Once sha256 (orgId, key) := by
    refine ⟨fun i v hv => ?_, fun i r p hr => ?_, fun i r p hr => ?_, fun _ => ?_, fun rec hrec => ?_⟩
    · rw [hidle.records] at hv
      cases hv
    · rw [hidle.requests] at hr
      cases hr
    · rw [hidle.requests] at hr
      cases hr
    · simp [eventsOf, auditsOf, hidle.events, hidle.audits]
    · rw [hunused] at hrec
      cases hrec
  have h : s.Once sha256 (orgId, key) :=
    Machine.run_inv (fun _ _ _ h _ hs => once_step h hs) hstart (Machine.along_true acts start) hrun
  have hcases : (s.eventsOf (orgId, key)).length ≤ 1 ∧ (s.auditsOf (orgId, key)).length ≤ 1 := by
    cases hrec : (s.records (orgId, key)).committed with
    | none =>
      obtain ⟨hev, hau⟩ := h.unused hrec
      simp [hev, hau]
    | some rec =>
      obtain ⟨i, r, p, -, -, -, hev, hau, -⟩ := h.origin rec hrec
      simp [hev, hau]
  refine ⟨fun i j r r' p q hr hr' hslot hslot' hp hq => ?_, hcases.1, hcases.2, fun k => ?_,
    fun i r p hr hslot hp => ?_⟩
  · obtain ⟨m, -, -, -, -, -, -, -, honly⟩ := h.origin _ (h.answered i r p hr hslot (.inl hp))
    rw [honly i r p hr hslot hp, honly j r' q hr' hslot' hq]
  · have hlog : s.Logged False k (start.channels k).committed :=
      logged_run hidle (fun hf => hf.elim) hrun
    exact hlog.committed
  · have hrec := h.answered i r p hr hslot hp
    obtain ⟨j, r', q, hr', hslot', hq, -⟩ := h.origin _ hrec
    have hrec' := h.answered j r' q hr' hslot' (.inl hq)
    rw [hrec, some.injEq, IdempotencyRecord.mk.injEq] at hrec'
    obtain ⟨hhash, rfl, -⟩ := hrec'
    exact ⟨j, r', _, hr', hslot', hq, hrec, rfl, computeRequestHash_inj hinj hhash⟩

def promoteTwice (expected : ℤ) : List MoveAct :=
  [.version ⟨"a", clean_a⟩ (some ⟨"o", "p", "1", "d", .published, "", some "t", none, 1, none, none⟩),
    .call ⟨"o", "p", .prod, ⟨"a", clean_a⟩, 1, .promote, none, none, none, none⟩ (some "k")]
    ++ List.replicate 9 (.step 0 "c" false)
    ++ [.call ⟨"o", "p", .prod, ⟨"a", clean_a⟩, expected, .promote, none, none, none, none⟩
        (some "k"),
      .step 1 "e" false]

theorem retry_gets_the_stored_response :
    ∃ s p, (releaseMoves String.ofList).run (promoteTwice 1) {} = some s ∧
      s.requests[1]?.map (·.phase) = some (.done (.replayed p)) ∧
      (s.eventsOf ("o", "k")).length ≤ 1 := by
  refine ⟨_, _, rfl, rfl, ?_⟩
  exact (idempotent_move_happens_once String.ofList (fun _ _ h => String.ofList_injective h) "o" "k"
    {} _ (promoteTwice 1) ⟨rfl, rfl, rfl, fun _ => rfl, fun _ => rfl⟩ rfl rfl).2.1

/-- A request with the key that expects another channel version is given the stored response. -/
theorem other_expected_version_is_answered :
    ∃ s r r' p, (releaseMoves String.ofList).run (promoteTwice 7) {} = some s ∧
      s.requests = [r, r'] ∧ r.phase = .done (.moved p) ∧ r'.phase = .done (.replayed p) ∧
      r.slot = r'.slot ∧ r.args.expectedChannelVersion ≠ r'.args.expectedChannelVersion :=
  ⟨_, _, _, _, rfl, rfl, rfl, rfl, rfl, by decide⟩

end DeerFlow

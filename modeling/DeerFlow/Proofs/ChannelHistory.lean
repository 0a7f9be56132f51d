import DeerFlow.Data.Slots
import DeerFlow.Release.Moves

/-!
# The release events are the log of the channel pointer

The compare-and-set lets one request at a time move a channel, so the committed events count its
versions and the last of them is its pointer. Each event names the pointer of the row its request
has read.
-/

namespace DeerFlow

open List Option ReleaseDesk TxCell Function

def ReleaseDesk.history (s : ReleaseDesk) (k : ChannelKey) : List CommittedEvent :=
  s.events.filter fun e => e.args.key = k

def rowVersionOf (row : Option ChannelRow) : ℕ := (row.map (·.rowVersion)).getD 1

def pointerOf (row : Option ChannelRow) : Option VersionId := row.bind (·.currentVersionId)

def replayEvent (row : Option ChannelRow) (e : CommittedEvent) : Option ChannelRow :=
  some ⟨e.event.channelId, some e.event.toVersionId, rowVersionOf row + 1, e.args.actorId⟩

def Chained : Option VersionId → List CommittedEvent → Prop
  | _, [] => True
  | pointer, e :: es => e.event.fromVersionId = pointer ∧ Chained (some e.event.toVersionId) es

def MovePhase.reads? : MovePhase → Option ChannelRow
  | checking ch | swapping ch => some ch
  | _ => none

def MovePhase.staged? : MovePhase → Option PromoteResponse
  | recording p | auditing p | keying p | committing p => some p
  | _ => none

section Replay

variable {r0 : Option ChannelRow}

theorem rowVersionOf_replay : ∀ (es : List CommittedEvent) (row : Option ChannelRow),
    rowVersionOf (es.foldl replayEvent row) = rowVersionOf row + es.length
  | [], _ => rfl
  | e :: es, row => by
    rw [foldl_cons, rowVersionOf_replay es, length_cons]
    simp only [replayEvent, rowVersionOf, map_some, getD_some]
    omega

theorem replay_concat (es : List CommittedEvent) (e : CommittedEvent) :
    (es ++ [e]).foldl replayEvent r0 = replayEvent (es.foldl replayEvent r0) e := by
  rw [foldl_append]
  rfl

theorem pointerOf_replay : ∀ (es : List CommittedEvent) (row : Option ChannelRow),
    pointerOf (es.foldl replayEvent row)
      = (es.getLast?.map fun e => e.event.toVersionId).or (pointerOf row)
  | [], row => by simp
  | e :: es, row => by
    rw [foldl_cons, pointerOf_replay es, getLast?_cons]
    cases es.getLast? with
    | none => rfl
    | some e' => rfl

theorem Chained.concat {e : CommittedEvent} : ∀ {es : List CommittedEvent} (row : Option ChannelRow),
    Chained (pointerOf row) es → e.event.fromVersionId = pointerOf (es.foldl replayEvent row) →
    Chained (pointerOf row) (es ++ [e])
  | [], _, _, he => ⟨he, trivial⟩
  | x :: _, row, h, he => ⟨h.1, Chained.concat (replayEvent row x) h.2 he⟩

end Replay

section Moves

/-- From one phase to the next, without a row that is read or written. -/
inductive MovePhase.Next : MovePhase → MovePhase → Prop
  | unkeyed : Next .called .selecting
  | missing : Next .selecting .inserting
  | checked (ch : ChannelRow) : Next (.checking ch) (.swapping ch)
  | recorded (p : PromoteResponse) : Next (.recording p) (.auditing p)
  | audited (p : PromoteResponse) : Next (.auditing p) (.keying p)
  | refused (e : MoveFailure) : Next .called (.done (.raised e))
  | lost (e : MoveFailure) : Next .rereading (.done (.raised e))

/-- What a statement of request `i` can do. -/
inductive ReleaseDesk.Moves (s : ReleaseDesk) (i : ℕ) (r : MoveRequest)
    (sha256 : List Char → String) : ReleaseDesk → Prop
  | abort (phase : MovePhase) (hopen : ∀ p, r.phase ≠ .done (.moved p))
      (hphase : phase = .rereading ∨ ∃ e, phase = .done (.raised e)) : s.Moves i r sha256 (s.abort i r phase)
  | goto (phase : MovePhase) (hnext : r.phase.Next phase) : s.Moves i r sha256 (s.goto i r phase)
  | replay (key : String) (rec : IdempotencyRecord) (hkey : r.key = some key)
      (hphase : r.phase = .called ∨ r.phase = .rereading)
      (hrec : (s.records (r.args.orgId, key)).visible i = some rec ∨
        (s.records (r.args.orgId, key)).committed = some rec)
      (hhash : rec.requestHash = computeRequestHash sha256 r.args) :
      s.Moves i r sha256 (s.goto i r (.done (.replayed rec.responsePayload)))
  | select (ch : ChannelRow) (hphase : r.phase = .selecting)
      (hch : (s.channels r.args.key).visible i = some ch) :
      s.Moves i r sha256 (s.goto i r (.checking ch))
  | insert (newId : String) (c : TxCell ℕ (Option ChannelRow)) (hphase : r.phase = .inserting)
      (hnone : (s.channels r.args.key).committed = none)
      (hc : (s.channels r.args.key).write i (some ⟨newId, none, 1, none⟩) = some c) :
      s.Moves i r sha256 { s.goto i r (.checking ⟨newId, none, 1, none⟩) with
        channels := update s.channels r.args.key c }
  | swap (ch row got : ChannelRow) (newId : String) (c : TxCell ℕ (Option ChannelRow))
      (hphase : r.phase = .swapping ch) (hrow : (s.channels r.args.key).visible i = some row)
      (hexp : (row.rowVersion : ℤ) = r.args.expectedChannelVersion)
      (hc : (s.channels r.args.key).write i (some (row.moved r.args)) = some c) :
      s.Moves i r sha256 { s.goto i r (.recording ⟨got,
          r.args.event newId (row.moved r.args).id ch.currentVersionId⟩) with
        channels := update s.channels r.args.key c }
  | keyless (p : PromoteResponse) (hphase : r.phase = .auditing p) (hkey : r.key = none) :
      s.Moves i r sha256 (s.goto i r (.committing p))
  | record (key : String) (p : PromoteResponse) (c : TxCell ℕ (Option IdempotencyRecord))
      (hphase : r.phase = .keying p) (hkey : r.key = some key)
      (hnone : (s.records (r.args.orgId, key)).committed = none)
      (hc : (s.records (r.args.orgId, key)).write i
        (some ⟨computeRequestHash sha256 r.args, p, 200⟩) = some c) :
      s.Moves i r sha256 { s.goto i r (.committing p) with
        records := update s.records (r.args.orgId, key) c }
  | commit (p : PromoteResponse) (hphase : r.phase = .committing p) :
      s.Moves i r sha256 (s.commit i r p)

variable {s s' : ReleaseDesk} {i j : ℕ} {r r' : MoveRequest} {sha256 : List Char → String}
  {newId : String} {refused : Bool}

theorem MovePhase.Next.keeps {a b : MovePhase} (h : a.Next b) :
    b.reads? = a.reads? ∧ b.staged? = a.staged? := by
  cases h <;> exact ⟨rfl, rfl⟩

theorem ReleaseDesk.moves_raise (hopen : ∀ p, r.phase ≠ .done (.moved p)) (e : MoveFailure) :
    s.Moves i r sha256 (s.raise i r e) :=
  .abort _ hopen (.inr ⟨e, rfl⟩)

theorem ReleaseDesk.moves_integrity (hopen : ∀ p, r.phase ≠ .done (.moved p)) :
    s.Moves i r sha256 (s.integrity i r) := by
  unfold integrity
  split
  · exact moves_raise hopen _
  · exact .abort _ hopen (.inl rfl)

theorem ReleaseDesk.moves_answer {key : String} {rec : IdempotencyRecord} (hkey : r.key = some key)
    (hphase : r.phase = .called ∨ r.phase = .rereading)
    (hrec : (s.records (r.args.orgId, key)).visible i = some rec ∨
      (s.records (r.args.orgId, key)).committed = some rec) :
    s.Moves i r sha256 (s.goto i r (answer r sha256 rec)) := by
  unfold answer
  split
  · next hhash => exact .replay key rec hkey hphase hrec hhash
  · rcases hphase with hphase | hphase
    · exact .goto _ (hphase ▸ .refused _)
    · exact .goto _ (hphase ▸ .lost _)

theorem ReleaseDesk.moves_of_stepRequest
    (hs : s.stepRequest i r sha256 newId refused = some s') : s.Moves i r sha256 s' := by
  unfold stepRequest at hs
  split at hs
  case h_1 hphase =>
    cases hs
    unfold lookup
    split
    · exact .goto _ (hphase ▸ .unkeyed)
    next key hkey =>
    split
    · exact moves_raise (by simp [hphase]) _
    split
    · next rec hrec => exact moves_answer hkey (.inl hphase) (.inl hrec)
    · exact .goto _ (hphase ▸ .unkeyed)
  case h_2 hphase =>
    cases hs
    unfold select
    split
    · exact moves_raise (by simp [hphase]) _
    split
    · next ch hch => exact .select ch hphase hch
    · exact .goto _ (hphase ▸ .missing)
  case h_3 hphase =>
    unfold insert at hs
    dsimp only at hs
    split at hs
    · cases hs
      exact moves_integrity (by simp [hphase])
    next hfree =>
    split at hs
    · cases hs
    next c hc =>
    cases hs
    rw [Bool.or_eq_true, not_or, not_isSome_iff_eq_none] at hfree
    exact .insert newId c hphase hfree.2 hc
  case h_4 ch hphase =>
    cases hs
    unfold check
    split
    · exact moves_raise (by simp [hphase]) _
    · exact .goto _ (hphase ▸ .checked ch)
  case h_5 ch hphase =>
    have hopen : ∀ p, r.phase ≠ .done (.moved p) := by simp [hphase]
    unfold swap at hs
    split at hs
    · cases hs
      exact moves_raise hopen _
    next row hrow =>
    split at hs
    · cases hs
      exact moves_raise hopen _
    next row' hcas =>
    split at hs
    · cases hs
    next c hc =>
    cases hs
    unfold casUpdateChannel at hcas
    split_ifs at hcas with hexp
    cases hcas
    exact .swap ch row _ newId c hphase hrow hexp hc
  case h_6 p hphase =>
    cases hs
    split
    · exact moves_integrity (by simp [hphase])
    · exact .goto _ (hphase ▸ .recorded p)
  case h_7 p hphase =>
    cases hs
    split
    · exact moves_integrity (by simp [hphase])
    split
    · exact .goto _ (hphase ▸ .audited p)
    · next hkey => exact .keyless p hphase (by simpa using hkey)
  case h_8 p hphase =>
    have hopen : ∀ p, r.phase ≠ .done (.moved p) := by simp [hphase]
    split at hs
    · next key hkey =>
      split at hs
      · cases hs
        exact moves_integrity hopen
      unfold insertRecord at hs
      split at hs
      · cases hs
        exact moves_integrity hopen
      next hfree =>
      split at hs
      · cases hs
      next c hc =>
      cases hs
      exact .record key p c hphase hkey (not_isSome_iff_eq_none.1 hfree) hc
    · cases hs
  case h_9 p hphase =>
    cases hs
    exact .commit p hphase
  case h_10 hphase =>
    obtain ⟨key, hkey, rfl⟩ := map_eq_some_iff.1 hs
    unfold reread
    split
    · next rec hrec => exact moves_answer hkey (.inr hphase) (.inr hrec)
    · exact .goto _ (hphase ▸ .lost _)
  case h_11 => cases hs

theorem ReleaseDesk.goto_other (hj : j ≠ i) (phase : MovePhase) :
    (s.goto i r phase).requests[j]? = s.requests[j]? :=
  getElem?_set_ne (Ne.symm hj)

theorem ReleaseDesk.goto_self (hr : s.requests[i]? = some r) (phase : MovePhase) :
    (s.goto i r phase).requests[i]? = some { r with phase := phase } :=
  getElem?_set_self (Slots.lt_of_getElem? hr)

theorem ReleaseDesk.called_before (hj : s.requests[j]? = some r') :
    (s.requests ++ [r])[j]? = some r' := by
  rw [getElem?_append_left (Slots.lt_of_getElem? hj)]
  exact hj

end Moves

section Consistent

variable (linked : Prop)

def MoveArgs.HasRead (a : MoveArgs) (c : TxCell ℕ (Option ChannelRow)) (i : ℕ) (ch : ChannelRow) :
    Prop :=
  (c.pending = some (i, some ch) ∧ c.committed = none ∧ ch.rowVersion = 1 ∧
      ch.currentVersionId = none) ∨
    ((∀ v, c.pending ≠ some (i, v)) ∧ ∃ row, c.committed = some row ∧
      ch.rowVersion ≤ row.rowVersion ∧
      (ch.rowVersion = row.rowVersion → ch.currentVersionId = row.currentVersionId) ∧
      (linked → a.expectedChannelVersion ≤ ch.rowVersion))

/-- The move a request has made: the row it is going to commit, and the event of that move. -/
def MoveRequest.HasMoved (r : MoveRequest) (c : TxCell ℕ (Option ChannelRow)) (i : ℕ)
    (p : PromoteResponse) : Prop :=
  c.pending = some (i, replayEvent c.committed (event i r p)) ∧
    (rowVersionOf c.committed : ℤ) = r.args.expectedChannelVersion ∧
    (linked → p.event.fromVersionId = pointerOf c.committed)

structure MoveRequest.Consistent (c : TxCell ℕ (Option ChannelRow)) (i : ℕ) (r : MoveRequest) :
    Prop where
  reads : ∀ ch, r.phase.reads? = some ch → r.args.HasRead linked c i ch
  staged : ∀ p, r.phase.staged? = some p → r.HasMoved linked c i p
  idle : r.phase.reads? = none → r.phase.staged? = none → ∀ v, c.pending ≠ some (i, v)

/-- The channel `k` has the row that its events lead to, from `r0` on. -/
structure ReleaseDesk.Logged (k : ChannelKey) (r0 : Option ChannelRow) (s : ReleaseDesk) : Prop where
  committed : (s.channels k).committed = (s.history k).foldl replayEvent r0
  expected : ∀ (n : ℕ) (e : CommittedEvent), (s.history k)[n]? = some e →
    e.args.expectedChannelVersion = (rowVersionOf r0 + n : ℕ)
  chained : linked → Chained (pointerOf r0) (s.history k)
  holder : ∀ i v, (s.channels k).pending = some (i, v) →
    ∃ r : MoveRequest, s.requests[i]? = some r ∧ r.args.key = k
  request : ∀ (i : ℕ) (r : MoveRequest), s.requests[i]? = some r → r.args.key = k →
    r.Consistent linked (s.channels k) i
  origin : ∀ e ∈ s.events, ∃ (r : MoveRequest) (p : PromoteResponse),
    s.requests[e.request]? = some r ∧ r.phase = .done (.moved p)

variable {linked} {c c' : TxCell ℕ (Option ChannelRow)} {i : ℕ} {r : MoveRequest}

theorem MoveRequest.Consistent.frame (h : r.Consistent linked c i)
    (hc : c'.committed = c.committed)
    (hp : ∀ v, c'.pending = some (i, v) ↔ c.pending = some (i, v)) : r.Consistent linked c' i where
  reads ch hch := by
    have h' := h.reads ch hch
    unfold MoveArgs.HasRead at h' ⊢
    simpa only [hc, hp, ne_eq] using h'
  staged p hstaged := by
    have h' := h.staged p hstaged
    unfold MoveRequest.HasMoved at h' ⊢
    simpa only [hc, hp] using h'
  idle h1 h2 v := fun hv => h.idle h1 h2 v ((hp v).1 hv)

theorem MoveRequest.Consistent.goto (h : r.Consistent linked c i) {phase : MovePhase}
    (h1 : phase.reads? = r.phase.reads?) (h2 : phase.staged? = r.phase.staged?) :
    MoveRequest.Consistent linked c i { r with phase := phase } where
  reads ch hch := h.reads ch (h1 ▸ hch)
  staged p hp := h.staged p (h2 ▸ hp)
  idle h1' h2' := h.idle (h1 ▸ h1') (h2 ▸ h2')

theorem MoveRequest.consistent_idle {phase : MovePhase} (h1 : phase.reads? = none)
    (h2 : phase.staged? = none) (hc : ∀ v, c.pending ≠ some (i, v)) :
    MoveRequest.Consistent linked c i { r with phase := phase } where
  reads ch hch := by rw [h1] at hch; cases hch
  staged p hp := by rw [h2] at hp; cases hp
  idle _ _ := hc

end Consistent

namespace ReleaseDesk.Logged

variable {linked : Prop} {k : ChannelKey} {r0 : Option ChannelRow} {s : ReleaseDesk} {i : ℕ}
  {r : MoveRequest}

theorem not_holder (h : s.Logged linked k r0) (hr : s.requests[i]? = some r) (hk : r.args.key ≠ k)
    (v : Option ChannelRow) : (s.channels k).pending ≠ some (i, v) := by
  intro hp
  obtain ⟨r', hr', hk'⟩ := h.holder i v hp
  rw [hr] at hr'
  cases hr'
  exact hk hk'

theorem advance (h : s.Logged linked k r0) (hr : s.requests[i]? = some r)
    (hopen : ∀ p, r.phase ≠ .done (.moved p)) (phase : MovePhase)
    (channels : ChannelKey → TxCell ℕ (Option ChannelRow))
    (records : String × String → TxCell ℕ (Option IdempotencyRecord))
    (hc : (channels k).committed = (s.channels k).committed)
    (hother : ∀ j v, j ≠ i →
      ((channels k).pending = some (j, v) ↔ (s.channels k).pending = some (j, v)))
    (hkey : r.args.key ≠ k → ∀ v, (channels k).pending ≠ some (i, v))
    (hself : r.args.key = k →
      MoveRequest.Consistent linked (channels k) i { r with phase := phase }) :
    ReleaseDesk.Logged linked k r0
      { s.goto i r phase with channels := channels, records := records } := by
  have hset : ∀ {j : ℕ}, j ≠ i → (s.goto i r phase).requests[j]? = s.requests[j]? :=
    fun hj => goto_other hj phase
  have hseti := goto_self hr phase
  refine ⟨hc.trans h.committed, h.expected, h.chained, fun j v hp => ?_, fun j r' hr' hk => ?_,
    fun e he => ?_⟩
  · by_cases hj : j = i
    · subst hj
      refine ⟨_, hseti, ?_⟩
      by_contra hk
      exact hkey hk v hp
    · obtain ⟨r', hr', hk⟩ := h.holder j v ((hother j v hj).1 hp)
      exact ⟨r', (hset hj).trans hr', hk⟩
  · by_cases hj : j = i
    · subst hj
      cases hseti.symm.trans hr'
      exact hself hk
    · exact (h.request j r' ((hset hj).symm.trans hr') hk).frame hc fun v => hother j v hj
  · obtain ⟨r', p, hr', hp⟩ := h.origin e he
    have hj : e.request ≠ i := by
      intro hj
      rw [hj, hr] at hr'
      cases hr'
      exact hopen p hp
    exact ⟨r', p, (hset hj).trans hr', hp⟩

theorem goto (h : s.Logged linked k r0) (hr : s.requests[i]? = some r)
    (hopen : ∀ p, r.phase ≠ .done (.moved p)) (phase : MovePhase)
    (records : String × String → TxCell ℕ (Option IdempotencyRecord))
    (hself : r.args.key = k →
      MoveRequest.Consistent linked (s.channels k) i { r with phase := phase }) :
    ReleaseDesk.Logged linked k r0 { s.goto i r phase with records := records } :=
  h.advance hr hopen phase s.channels records rfl (fun _ _ _ => Iff.rfl)
    (fun hk => h.not_holder hr hk) hself

theorem abort (h : s.Logged linked k r0) (hr : s.requests[i]? = some r)
    (hopen : ∀ p, r.phase ≠ .done (.moved p)) (phase : MovePhase) (h1 : phase.reads? = none)
    (h2 : phase.staged? = none) : (s.abort i r phase).Logged linked k r0 := by
  have hnot : ∀ v, ((s.channels k).rollback i).pending ≠ some (i, v) := fun v hv =>
    (rollback_pending.1 hv).2 rfl
  exact h.advance hr hopen phase _ _ rollback_committed
    (fun j v hj => rollback_pending.trans (and_iff_left hj)) (fun _ => hnot)
    fun _ => MoveRequest.consistent_idle h1 h2 hnot

theorem raise (h : s.Logged linked k r0) (hr : s.requests[i]? = some r)
    (hopen : ∀ p, r.phase ≠ .done (.moved p)) (e : MoveFailure) :
    (s.raise i r e).Logged linked k r0 :=
  h.abort hr hopen _ rfl rfl

theorem write (h : s.Logged linked k r0) (hr : s.requests[i]? = some r)
    (hopen : ∀ p, r.phase ≠ .done (.moved p)) (phase : MovePhase) {row : ChannelRow}
    {c : TxCell ℕ (Option ChannelRow)} (hw : (s.channels r.args.key).write i (some row) = some c)
    (hself : r.args.key = k →
      MoveRequest.Consistent linked { s.channels k with pending := some (i, some row) } i
        { r with phase := phase }) :
    ReleaseDesk.Logged linked k r0
      { s.goto i r phase with channels := update s.channels r.args.key c } := by
  by_cases hk : r.args.key = k
  · subst hk
    have hc : update s.channels r.args.key c r.args.key = c := update_self _ _ _
    refine h.advance hr hopen phase _ s.records ?_ (fun j v hj => ?_) (fun hk => absurd rfl hk)
      fun hk => ?_
    · rw [hc, write_committed hw]
    · rw [hc]
      exact write_pending_other hw hj
    · rw [hc, (write_eq_some hw).2]
      exact hself hk
  · have hc : update s.channels r.args.key c k = s.channels k :=
      update_of_ne (Ne.symm hk) _ _
    refine h.advance hr hopen phase _ s.records (by rw [hc]) (fun j v _ => by rw [hc])
      (fun hk' => by rw [hc]; exact h.not_holder hr hk') fun hk' => absurd hk' hk

theorem consistent_after {c : TxCell ℕ (Option ChannelRow)} {j : ℕ} {r' : MoveRequest}
    {new : ChannelRow} (h : r'.Consistent linked c j) (hp : c.pending = some (i, some new))
    (hj : j ≠ i) (hv : new.rowVersion = rowVersionOf c.committed + 1) :
    r'.Consistent linked ⟨some new, none⟩ j := by
  have hnot : ∀ v, c.pending ≠ some (j, v) := by
    intro v hv
    rw [hp] at hv
    cases hv
    exact hj rfl
  refine ⟨fun ch hch => ?_, fun q hq => absurd (h.staged q hq).1 (hnot _), nofun⟩
  rcases h.reads ch hch with ⟨hp', -⟩ | ⟨-, row, hrow, hle, -, hexp⟩
  · exact absurd hp' (hnot _)
  · rw [hrow] at hv
    change new.rowVersion = row.rowVersion + 1 at hv
    exact .inr ⟨fun v hv => (by cases hv), new, rfl, by omega, fun heq => by omega, hexp⟩

theorem commit (h : s.Logged linked k r0) (hr : s.requests[i]? = some r) {p : PromoteResponse}
    (hphase : r.phase = .committing p) : (s.commit i r p).Logged linked k r0 := by
  have hset : ∀ {j : ℕ}, j ≠ i → (s.commit i r p).requests[j]? = s.requests[j]? :=
    fun hj => goto_other hj _
  have hseti := goto_self hr (.done (.moved p))
  have horigin : ∀ e ∈ (s.commit i r p).events, ∃ (r' : MoveRequest) (q : PromoteResponse),
      (s.commit i r p).requests[e.request]? = some r' ∧ r'.phase = .done (.moved q) := by
    intro e he
    rcases mem_append.1 he with he | he
    · obtain ⟨r', q, hr', hq⟩ := h.origin e he
      have hj : e.request ≠ i := by
        intro hj
        rw [hj, hr] at hr'
        cases hr'
        rw [hphase] at hq
        cases hq
      exact ⟨r', q, (hset hj).trans hr', hq⟩
    · rw [mem_singleton.1 he]
      exact ⟨_, p, hseti, rfl⟩
  by_cases hk : r.args.key = k
  · obtain ⟨hp, hexp, hfrom⟩ := (h.request i r hr hk).staged p (by rw [hphase]; rfl)
    have hc : (s.commit i r p).channels k = ⟨replayEvent (s.channels k).committed (event i r p), none⟩ :=
      commit_of_pending hp
    have hhist : (s.commit i r p).history k = s.history k ++ [event i r p] := by
      change filter _ (s.events ++ [event i r p]) = _
      simp [history, event, hk]
    refine ⟨?_, fun n e hn => ?_, fun hl => ?_, fun j v hv => ?_, fun j r' hr' hk' => ?_, horigin⟩
    · rw [hc, hhist, replay_concat, ← h.committed]
    · rw [hhist] at hn
      rcases Slots.getElem?_concat_cases hn with hn | ⟨rfl, rfl⟩
      · exact h.expected n e hn
      · change r.args.expectedChannelVersion = _
        rw [← hexp, h.committed, rowVersionOf_replay]
    · rw [hhist]
      refine Chained.concat r0 (h.chained hl) ?_
      rw [← h.committed]
      exact hfrom hl
    · rw [hc] at hv
      cases hv
    · rw [hc]
      by_cases hj : j = i
      · subst hj
        cases hseti.symm.trans hr'
        exact MoveRequest.consistent_idle rfl rfl nofun
      · exact consistent_after (h.request j r' ((hset hj).symm.trans hr') hk') hp hj rfl
  · have hnot := h.not_holder hr hk
    have hc : (s.commit i r p).channels k = s.channels k := commit_eq_self hnot
    have hhist : (s.commit i r p).history k = s.history k := by
      change filter _ (s.events ++ [event i r p]) = _
      simp [history, event, hk]
    refine ⟨by rw [hc, hhist]; exact h.committed, by rw [hhist]; exact h.expected,
      by rw [hhist]; exact h.chained, fun j v hv => ?_, fun j r' hr' hk' => ?_, horigin⟩
    · rw [hc] at hv
      have hj : j ≠ i := by
        rintro rfl
        exact hnot v hv
      obtain ⟨r', hr', hk'⟩ := h.holder j v hv
      exact ⟨r', (hset hj).trans hr', hk'⟩
    · rw [hc]
      have hj : j ≠ i := by
        rintro rfl
        cases hseti.symm.trans hr'
        exact hk hk'
      exact h.request j r' ((hset hj).symm.trans hr') hk'

end ReleaseDesk.Logged

section Statements

variable {linked : Prop} {k : ChannelKey} {r0 : Option ChannelRow} {s s' : ReleaseDesk} {i : ℕ}
  {r : MoveRequest} {sha256 : List Char → String}

/-- The compare-and-set; with the condition the row that was read is the committed one. -/
theorem hasMoved_swap {c : TxCell ℕ (Option ChannelRow)} {ch row got : ChannelRow} {newId : String}
    (hread : r.args.HasRead linked c i ch) (hrow : c.visible i = some row)
    (hexp : (row.rowVersion : ℤ) = r.args.expectedChannelVersion) :
    r.HasMoved linked { c with pending := some (i, some (row.moved r.args)) } i
      ⟨got, r.args.event newId (row.moved r.args).id ch.currentVersionId⟩ := by
  rcases hread with ⟨hp, hnone, hone, hcur⟩ | ⟨hnot, base, hbase, hle, hsame, hknown⟩
  · -- its own insertion: version 1 without a pointer
    rw [visible_of_pending hp] at hrow
    cases hrow
    refine ⟨?_, ?_, fun _ => ?_⟩
    · simp [replayEvent, event, ChannelRow.moved, MoveArgs.event, hnone, rowVersionOf,
        hone]
    · rw [← hexp, hone, hnone]
      rfl
    · simp [MoveArgs.event, hcur, hnone, pointerOf]
  · rw [visible_eq_committed hnot, hbase] at hrow
    cases hrow
    refine ⟨?_, ?_, fun hl => ?_⟩
    · simp [replayEvent, event, ChannelRow.moved, MoveArgs.event, hbase, rowVersionOf]
    · rw [hbase]
      exact hexp
    · have hk := hknown hl
      simp only [MoveArgs.event, hbase, pointerOf, bind_some]
      exact hsame (by omega)

theorem logged_moves (h : s.Logged linked k r0) (hr : s.requests[i]? = some r)
    (hseen : linked → r.phase = .selecting → r.args.key = k → ∀ row ∈ (s.channels k).visible i,
      r.args.expectedChannelVersion ≤ row.rowVersion)
    (hs : s.Moves i r sha256 s') : s'.Logged linked k r0 := by
  have hstay : ∀ {phase : MovePhase} (records), (∀ p, r.phase ≠ .done (.moved p)) →
      phase.reads? = r.phase.reads? → phase.staged? = r.phase.staged? →
      ReleaseDesk.Logged linked k r0 { s.goto i r phase with records := records } :=
    fun records hopen h1 h2 =>
      h.goto hr hopen _ records fun hk => (h.request i r hr hk).goto h1 h2
  cases hs with
  | abort phase hopen hphase =>
    rcases hphase with rfl | ⟨e, rfl⟩
    · exact h.abort hr hopen _ rfl rfl
    · exact h.abort hr hopen _ rfl rfl
  | goto phase hnext =>
    refine hstay s.records (fun p hp => ?_) hnext.keeps.1 hnext.keeps.2
    rw [hp] at hnext
    cases hnext
  | replay key rec hkey hphase =>
    rcases hphase with hphase | hphase
    all_goals exact hstay s.records (by simp [hphase]) (by rw [hphase]; rfl) (by rw [hphase]; rfl)
  | select ch hphase hch =>
    refine h.goto hr (by simp [hphase]) _ s.records fun hk => ?_
    subst hk
    have hnot := (h.request i r hr rfl).idle (by rw [hphase]; rfl) (by rw [hphase]; rfl)
    have hexp := fun hl => hseen hl hphase rfl ch hch
    rw [visible_eq_committed hnot] at hch
    refine ⟨fun ch' hch' => ?_, fun p hp => (by cases hp), fun h1 => (by cases h1)⟩
    cases hch'
    exact .inr ⟨hnot, ch, hch, le_rfl, fun _ => rfl, hexp⟩
  | insert newId c hphase hnone hc =>
    refine h.write hr (by simp [hphase]) _ hc fun hk => ?_
    subst hk
    refine ⟨fun ch' hch' => ?_, fun p hp => (by cases hp), fun h1 => (by cases h1)⟩
    cases hch'
    exact .inl ⟨rfl, hnone, rfl, rfl⟩
  | swap ch row got newId c hphase hrow hexp hc =>
    refine h.write hr (by simp [hphase]) _ hc fun hk => ?_
    subst hk
    refine ⟨fun ch' hch' => (by cases hch'), fun p hp => ?_, fun _ h2 => (by cases h2)⟩
    cases hp
    exact hasMoved_swap ((h.request i r hr rfl).reads ch (by rw [hphase]; rfl)) hrow hexp
  | keyless p hphase =>
    exact hstay s.records (by simp [hphase]) (by rw [hphase]; rfl) (by rw [hphase]; rfl)
  | record key p c hphase =>
    exact hstay _ (by simp [hphase]) (by rw [hphase]; rfl) (by rw [hphase]; rfl)
  | commit p hphase => exact h.commit hr hphase

end Statements

/-- A caller expects a version that the channel has, or had, when the move reads its row. -/
def MoveAct.Seen (k : ChannelKey) (s : ReleaseDesk) : MoveAct → Prop
  | .step i _ _ => ∀ r ∈ s.requests[i]?, r.phase = .selecting → r.args.key = k →
      ∀ row ∈ (s.channels k).visible i, r.args.expectedChannelVersion ≤ row.rowVersion
  | _ => True

structure ReleaseDesk.Idle (s : ReleaseDesk) : Prop where
  requests : s.requests = []
  events : s.events = []
  audits : s.audits = []
  channels : ∀ k, (s.channels k).pending = none
  records : ∀ k, (s.records k).pending = none

theorem logged_step {linked : Prop} {k : ChannelKey} {r0 : Option ChannelRow} {s s' : ReleaseDesk}
    {sha256 : List Char → String} {a : MoveAct} (h : s.Logged linked k r0)
    (hseen : linked → a.Seen k s) (hs : (releaseMoves sha256).step s a = some s') :
    s'.Logged linked k r0 := by
  cases a with
  | call args key =>
    cases hs
    refine ⟨h.committed, h.expected, h.chained, fun j v hv => ?_, fun j r hr hk => ?_, fun e he => ?_⟩
    · obtain ⟨r, hr, hk⟩ := h.holder j v hv
      exact ⟨r, called_before hr, hk⟩
    · rcases Slots.getElem?_concat_cases hr with hr | ⟨rfl, rfl⟩
      · exact h.request j r hr hk
      · -- the new request has not read anything
        have hnot : ∀ v, (s.channels k).pending ≠ some (s.requests.length, v) := fun v hv => by
          obtain ⟨r', hr', -⟩ := h.holder _ v hv
          exact (lt_irrefl _) (Slots.lt_of_getElem? hr')
        exact ⟨fun ch hch => (by cases hch), fun p hp => (by cases hp), fun _ _ => hnot⟩
    · obtain ⟨r, p, hr, hp⟩ := h.origin e he
      exact ⟨r, p, called_before hr, hp⟩
  | version id row =>
    cases hs
    exact ⟨h.committed, h.expected, h.chained, h.holder, h.request, h.origin⟩
  | step i newId refused =>
    obtain ⟨r, hr, hs⟩ := bind_eq_some_iff.1 hs
    exact logged_moves h hr (fun hl => hseen hl r hr) (moves_of_stepRequest hs)
  | lose i =>
    obtain ⟨r, hr, hs⟩ := bind_eq_some_iff.1 hs
    split at hs
    · cases hs
    · next hopen =>
      cases hs
      exact h.raise hr (fun p => hopen _) _

theorem logged_run {linked : Prop} {sha256 : List Char → String} {k : ChannelKey}
    {start s : ReleaseDesk} {acts : List MoveAct} (hidle : start.Idle)
    (hok : linked → (releaseMoves sha256).Along (fun s a => a.Seen k s) acts start)
    (hrun : (releaseMoves sha256).run acts start = some s) :
    s.Logged linked k (start.channels k).committed := by
  have hstart : start.Logged linked k (start.channels k).committed := by
    have hhist : start.history k = [] := by simp [history, hidle.events]
    refine ⟨by rw [hhist]; rfl, fun n e hn => ?_, fun _ => by rw [hhist]; trivial, fun i v hv => ?_,
      fun i r hr => ?_, fun e he => ?_⟩
    · rw [hhist] at hn
      cases hn
    · rw [hidle.channels k] at hv
      cases hv
    · rw [hidle.requests] at hr
      cases hr
    · rw [hidle.events] at he
      cases he
  by_cases hl : linked
  · exact Machine.run_inv (fun _ _ _ h ha hs => logged_step h (fun _ => ha) hs) hstart (hok hl) hrun
  · exact Machine.run_inv (fun _ _ _ h _ hs => logged_step h (fun hl' => absurd hl' hl) hs) hstart
      (Machine.along_true acts start) hrun

/-- The committed events of a channel count its row versions, no two were committed for the same
expected version, and the last one is the pointer; and each starts where the one before it ended, if
every caller expects a version the channel has had. -/
theorem release_history_is_pointer_log (sha256 : List Char → String) (k : ChannelKey)
    (start s : ReleaseDesk) (acts : List MoveAct) (hidle : start.Idle)
    (hrun : (releaseMoves sha256).run acts start = some s) :
    rowVersionOf (s.channels k).committed
        = rowVersionOf (start.channels k).committed + (s.history k).length ∧
      ((s.history k).map fun e => e.args.expectedChannelVersion).Nodup ∧
      pointerOf (s.channels k).committed
        = ((s.history k).getLast?.map fun e => e.event.toVersionId).or
            (pointerOf (start.channels k).committed) ∧
      (s.channels k).committed = (s.history k).foldl replayEvent (start.channels k).committed ∧
      (∀ i r f, s.requests[i]? = some r → r.phase = .done (.raised f) →
        ∀ e ∈ s.events, e.request ≠ i) ∧
      ((releaseMoves sha256).Along (fun s a => a.Seen k s) acts start →
        Chained (pointerOf (start.channels k).committed) (s.history k)) := by
  have h : s.Logged False k (start.channels k).committed :=
    logged_run hidle (fun hf => hf.elim) hrun
  refine ⟨?_, ?_, ?_, h.committed, fun i r f hr hf e he hi => ?_, fun hok => ?_⟩
  · rw [h.committed, rowVersionOf_replay]
  · rw [nodup_iff_getElem?_ne_getElem?]
    intro m n hmn hn heq
    rw [length_map] at hn
    rw [getElem?_map, getElem?_map, getElem?_eq_getElem (by omega : m < _),
      getElem?_eq_getElem hn, map_some, map_some, some.injEq] at heq
    rw [h.expected m _ (getElem?_eq_getElem (by omega)),
      h.expected n _ (getElem?_eq_getElem hn)] at heq
    omega
  · rw [h.committed, pointerOf_replay]
  · obtain ⟨r', p, hr', hp⟩ := h.origin e he
    rw [hi, hr] at hr'
    cases hr'
    rw [hf] at hp
    cases hp
  · have h' : s.Logged True k (start.channels k).committed := logged_run hidle (fun _ => hok) hrun
    exact h'.chained trivial

def promoteFirst : List MoveAct :=
  let row (v : String) : VersionRow :=
    ⟨"o", "p", v, v, .published, "", some v, none, 1, none, none⟩
  [.version ⟨"a", clean_a⟩ (some (row "1")), .version ⟨"b", clean_b⟩ (some (row "2")),
    .call ⟨"o", "p", .prod, ⟨"a", clean_a⟩, 1, .promote, none, none, none, none⟩ none]
    ++ List.replicate 8 (.step 0 "c" false)

def prodChannel : ChannelKey := ⟨"o", none, "p", .prod⟩

instance (k : ChannelKey) (s : ReleaseDesk) (a : MoveAct) : Decidable (a.Seen k s) := by
  unfold MoveAct.Seen
  split <;> infer_instance

def promoteThenRollback : List MoveAct :=
  promoteFirst
    ++ [.call ⟨"o", "p", .prod, ⟨"b", clean_b⟩, 2, .rollback, none, none, none, none⟩ none]
    ++ List.replicate 7 (.step 1 "e" false)

theorem promote_then_rollback_is_logged :
    ∃ s, (releaseMoves String.ofList).run promoteThenRollback {} = some s ∧
      (s.history prodChannel).length = 2 ∧ Chained none (s.history prodChannel) := by
  refine ⟨_, rfl, rfl, ?_⟩
  exact (release_history_is_pointer_log String.ofList prodChannel {} _ promoteThenRollback
    ⟨rfl, rfl, rfl, fun _ => rfl, fun _ => rfl⟩ rfl).2.2.2.2.2 (by decide +kernel)

/-- A rollback that expects version 3 has read version 2; another promote commits version 3 in
between, and the event of the rollback names the pointer from before it. -/
theorem event_names_stale_pointer :
    ∃ s, (releaseMoves String.ofList).run (promoteFirst ++
        [.call ⟨"o", "p", .prod, ⟨"a", by decide⟩, 3, .rollback, none, none, none, none⟩ none,
          .step 1 "e" false, .step 1 "e" false,
          .call ⟨"o", "p", .prod, ⟨"b", by decide⟩, 2, .promote, none, none, none, none⟩ none]
        ++ List.replicate 7 (.step 2 "e" false) ++ List.replicate 5 (.step 1 "e" false)) {} = some s ∧
      ((s.history prodChannel).map fun e => (e.event.fromVersionId, e.event.toVersionId))
        = [(none, ⟨"a", by decide⟩), (some ⟨"a", by decide⟩, ⟨"b", by decide⟩),
          (some ⟨"a", by decide⟩, ⟨"a", by decide⟩)] ∧
      ¬ Chained none (s.history prodChannel) := by
  refine ⟨_, rfl, rfl, ?_⟩
  rintro ⟨-, -, h, -⟩
  revert h
  decide +kernel

end DeerFlow

import DeerFlow.Audit.Outbox
import DeerFlow.Data.Slots
import DeerFlow.Proofs.AuditEvent

/-!
# Delivery from the outbox

Rows are never removed from the outbox and keep their event. An event is inserted at most once, and
a row is marked as published only by a worker that has seen its event in the table.
-/

namespace DeerFlow

open List Option OutboxRow AuditEvent

def OutboxRow.Same (r r' : OutboxRow) : Prop :=
  r'.eventId = r.eventId ∧ r'.payloadJson = r.payloadJson

def Outbox.Keeps (o : Outbox) (id : String) (r : OutboxRow) : Prop :=
  ∃ r', o.get? id = some r' ∧ r.Same r'

def Outbox.Extends (o o' : Outbox) : Prop := ∀ id r, o.get? id = some r → o'.Keeps id r

section Rows

variable {r r' r'' : OutboxRow} {o o' o'' : Outbox} {id : String}

theorem OutboxRow.Same.refl (r : OutboxRow) : r.Same r := ⟨rfl, rfl⟩

theorem OutboxRow.Same.trans (h : r.Same r') (h' : r'.Same r'') : r.Same r'' :=
  ⟨h'.1.trans h.1, h'.2.trans h.2⟩

theorem Outbox.Extends.refl (o : Outbox) : o.Extends o := fun _ r h => ⟨r, h, .refl r⟩

theorem Outbox.Keeps.mono (h : o.Keeps id r) (hext : o.Extends o') : o'.Keeps id r := by
  obtain ⟨r', hr', hsame⟩ := h
  obtain ⟨r'', hr'', hsame'⟩ := hext id r' hr'
  exact ⟨r'', hr'', hsame.trans hsame'⟩

theorem Outbox.Extends.trans (h : o.Extends o') (h' : o'.Extends o'') : o.Extends o'' :=
  fun id r hr => (h id r hr).mono h'

theorem OutboxRow.release_same (staleAfter now : ℕ) : r.Same (r.release staleAfter now) := by
  unfold release
  split <;> exact ⟨rfl, rfl⟩

theorem OutboxRow.release_published {staleAfter now : ℕ}
    (h : (r.release staleAfter now).status = .published) : r.status = .published := by
  unfold release at h
  split at h
  · cases h
  · exact h

theorem OutboxRow.fail_ne_published (error : String) (now : ℕ) :
    (r.fail error now).status ≠ .published := by
  unfold fail
  split <;> nofun

theorem OutboxRow.flush_published {error : String} {now : ℕ}
    (h : (r.flush r' (r'.fail error now)).status = .published) : r.status = .published := by
  simp only [flush] at h
  split at h
  · exact h
  · exact absurd h (r'.fail_ne_published error now)

theorem Outbox.extends_mapValues {f : String → OutboxRow → OutboxRow}
    (h : ∀ (k : String) (r : OutboxRow), r.Same (f k r)) :
    o.Extends (o.mapValues f) := by
  intro id r hr
  exact ⟨f id r, by simp [hr], h id r⟩

theorem Outbox.extends_enqueue (e : AuditEvent) (now : ℕ) : o.Extends (o.enqueue id e now) := by
  unfold Outbox.enqueue
  split
  · exact .refl o
  · next hnew =>
    intro k r hr
    have hne : id ≠ k := by
      rintro rfl
      simp [hr] at hnew
    exact ⟨r, by simp [hne, hr], .refl r⟩

end Rows

namespace AuditDesk

def Known (s : AuditDesk) (rows : List (String × OutboxRow)) : Prop :=
  ∀ x ∈ rows, s.outbox.Keeps x.1 x.2

/-- The event of the row is in `audit_events`. -/
def Delivered (s : AuditDesk) (id : String) : Prop :=
  ∃ r, s.outbox.get? id = some r ∧ s.has r.eventId = true

def SoundPhase (s : AuditDesk) : DrainPhase → Prop
  | .publishing rows => s.Known rows
  | .marking id _ rows => s.Delivered id ∧ s.Known rows
  | .failing _ _ rows | .recording _ _ _ rows => s.Known rows
  | .releasing | .claiming | .taking _ | .done => True

structure SoundRow (s : AuditDesk) (r : OutboxRow) : Prop where
  payload : ∃ e : AuditEvent, r.payloadJson = e.modelDumpJson ∧ r.eventId = e.eventId
  published : r.status = .published → s.has r.eventId = true

structure Sound (s : AuditDesk) : Prop where
  nodup : (s.events.map AuditEventRow.eventId).Nodup
  rows : ∀ id r, s.outbox.get? id = some r → s.SoundRow r
  workers : ∀ (i : ℕ) (w : DrainWorker), s.workers[i]? = some w → s.SoundPhase w.phase

structure Grows (s s' : AuditDesk) : Prop where
  outbox : s.outbox.Extends s'.outbox
  events : ∀ eventId, s.has eventId = true → s'.has eventId = true

variable {s s' : AuditDesk} {i : ℕ} {w : DrainWorker} {rows : List (String × OutboxRow)}

theorem has_iff {eventId : String} :
    s.has eventId ↔ eventId ∈ s.events.map AuditEventRow.eventId := by
  simp only [has, List.any_eq_true, decide_eq_true_eq, List.mem_map]

theorem Grows.refl (s : AuditDesk) : s.Grows s := ⟨.refl _, fun _ h => h⟩

theorem SoundPhase.mono {phase : DrainPhase} (h : s.SoundPhase phase) (hg : s.Grows s') :
    s'.SoundPhase phase := by
  have hknown : ∀ rows, s.Known rows → s'.Known rows :=
    fun rows hk x hx => (hk x hx).mono hg.outbox
  cases phase with
  | publishing rows => exact hknown rows h
  | marking id duplicate rows =>
    obtain ⟨⟨r, hr, hhas⟩, hk⟩ := h
    obtain ⟨r', hr', hsame⟩ := hg.outbox id r hr
    exact ⟨⟨r', hr', hg.events _ (hsame.1 ▸ hhas)⟩, hknown rows hk⟩
  | failing id error rows | recording id seen error rows => exact hknown rows h
  | releasing | claiming | taking | done => trivial

theorem SoundRow.mono {r r' : OutboxRow} (h : s.SoundRow r) (hsame : r.Same r') (hg : s.Grows s')
    (hpub : r'.status = .published → r.status = .published) : s'.SoundRow r' := by
  obtain ⟨e, hp, hid⟩ := h.payload
  refine ⟨⟨e, hsame.2.trans hp, hsame.1.trans hid⟩, fun hst => ?_⟩
  rw [hsame.1]
  exact hg.events _ (h.published (hpub hst))

theorem grows_workers (ws : List DrainWorker) : s.Grows { s with workers := ws } :=
  ⟨.refl _, fun _ h => h⟩

theorem Sound.withWorkers {ws : List DrainWorker} (h : s.Sound)
    (hws : ∀ (j : ℕ) (w : DrainWorker), ws[j]? = some w → s.SoundPhase w.phase) :
    Sound { s with workers := ws } := by
  have hg : s.Grows { s with workers := ws } := grows_workers ws
  exact ⟨h.nodup, fun id r hr => (h.rows id r hr).mono (.refl r) hg fun hst => hst,
    fun j w hj => (hws j w hj).mono hg⟩

theorem Sound.setWorker (h : s.Sound) (hp : s.SoundPhase w.phase) :
    Sound { s with workers := s.workers.set i w } := by
  refine h.withWorkers fun j w' hj => ?_
  rcases Slots.getElem?_set_cases hj with ⟨-, rfl⟩ | ⟨-, hj⟩
  · exact hp
  · exact h.workers j w' hj

theorem Sound.addWorker (h : s.Sound) (hp : s.SoundPhase w.phase) :
    Sound { s with workers := s.workers ++ [w] } := by
  refine h.withWorkers fun j w' hj => ?_
  rcases Slots.getElem?_concat_cases hj with hj | ⟨-, rfl⟩
  · exact h.workers j w' hj
  · exact hp

theorem Sound.withOutbox {o : Outbox} (h : s.Sound) (hext : s.outbox.Extends o)
    (hrows : ∀ id r', o.get? id = some r' → (s.withOutbox o).SoundRow r') :
    (s.withOutbox o).Sound := by
  have hg : s.Grows (s.withOutbox o) := ⟨hext, fun _ hh => hh⟩
  exact ⟨h.nodup, hrows, fun j w hj => (h.workers j w hj).mono hg⟩

theorem Sound.mapValues {f : String → OutboxRow → OutboxRow} (h : s.Sound)
    (hsame : ∀ (k : String) (r : OutboxRow), r.Same (f k r))
    (hpub : ∀ k r, s.outbox.get? k = some r → (f k r).status = .published →
      r.status = .published ∨ s.has r.eventId) :
    (s.withOutbox (s.outbox.mapValues f)).Sound := by
  have hext : s.outbox.Extends (s.outbox.mapValues f) := Outbox.extends_mapValues hsame
  refine h.withOutbox hext fun id r' hr' => ?_
  rw [OrdDict.get?_mapValues] at hr'
  obtain ⟨r, hr, rfl⟩ := map_eq_some_iff.1 hr'
  obtain ⟨e, hp, hid⟩ := (h.rows id r hr).payload
  refine ⟨⟨e, (hsame id r).2.trans hp, (hsame id r).1.trans hid⟩, fun hst => ?_⟩
  rw [(hsame id r).1]
  rcases hpub id r hr hst with hst' | hhas
  · exact (h.rows id r hr).published hst'
  · exact hhas

theorem grows_insertEvent (e : AuditEvent) (producer : Option String) :
    s.Grows (s.insertEvent e producer) := by
  unfold insertEvent
  split
  · exact .refl s
  · refine ⟨.refl _, fun eventId hh => ?_⟩
    rw [has_iff] at hh ⊢
    simp [hh]

theorem insertEvent_has (e : AuditEvent) (producer : Option String) :
    (s.insertEvent e producer).has e.eventId := by
  unfold insertEvent
  split
  · assumption
  · rw [has_iff]
    simp [toRow, eventToRow]

theorem Sound.insertEvent (h : s.Sound) (e : AuditEvent) (producer : Option String) :
    (s.insertEvent e producer).Sound := by
  have hg : s.Grows (s.insertEvent e producer) := grows_insertEvent e producer
  have htables : (s.insertEvent e producer).outbox = s.outbox ∧
      (s.insertEvent e producer).workers = s.workers := by
    unfold AuditDesk.insertEvent
    split <;> exact ⟨rfl, rfl⟩
  refine ⟨?_, fun id r hr => ?_, fun j w hj => ?_⟩
  · unfold AuditDesk.insertEvent
    split
    · exact h.nodup
    · next hnew =>
      rw [has_iff] at hnew
      rw [map_append, nodup_append]
      refine ⟨h.nodup, by simp, ?_⟩
      rintro x hx y hy rfl
      simp only [map_cons, map_nil, mem_singleton, toRow, eventToRow] at hy
      exact hnew (hy ▸ hx)
  · rw [htables.1] at hr
    exact (h.rows id r hr).mono (.refl r) hg fun hst => hst
  · rw [htables.2] at hj
    exact (h.workers j w hj).mono hg

section Transactions

variable {phase : DrainPhase} {fate : Fate} {id error : String} {r : OutboxRow}

theorem Grows.trans {s'' : AuditDesk} (h : s.Grows s') (h' : s'.Grows s'') : s.Grows s'' :=
  ⟨h.outbox.trans h'.outbox, fun _ hh => h'.events _ (h.events _ hh)⟩

theorem Sound.goto (h : s.Sound) (hp : s.SoundPhase phase) : (s.goto i w phase).Sound :=
  h.setWorker hp

theorem grows_mapValues {f : String → OutboxRow → OutboxRow}
    (hsame : ∀ (k : String) (r : OutboxRow), r.Same (f k r)) :
    s.Grows (s.withOutbox (s.outbox.mapValues f)) :=
  ⟨Outbox.extends_mapValues hsame, fun _ hh => hh⟩

theorem Sound.releaseStale (h : s.Sound) (staleAfter now : ℕ) :
    (s.withOutbox (s.outbox.releaseStale staleAfter now)).Sound ∧
      s.Grows (s.withOutbox (s.outbox.releaseStale staleAfter now)) :=
  ⟨h.mapValues (fun _ _ => release_same _ _)
      fun _ _ _ hst => Or.inl (release_published hst),
    grows_mapValues fun _ _ => release_same _ _⟩

theorem Sound.claim (h : s.Sound) (ids : List String) (token : String) (now : ℕ) :
    (s.withOutbox (s.outbox.claim ids token now)).Sound ∧
      s.Grows (s.withOutbox (s.outbox.claim ids token now)) := by
  have hsame : ∀ (k : String) (r : OutboxRow),
      r.Same (if k ∈ ids then r.claim token now else r) := by
    intro k r
    split <;> exact ⟨rfl, rfl⟩
  refine ⟨h.mapValues hsame fun k r _ hst => Or.inl ?_, grows_mapValues hsame⟩
  split at hst
  · cases hst
  · exact hst

theorem Sound.update {f : OutboxRow → OutboxRow} (h : s.Sound) (hsame : ∀ r, OutboxRow.Same r (f r))
    (hpub : ∀ r, s.outbox.get? id = some r → (f r).status = .published →
      r.status = .published ∨ s.has r.eventId) :
    (s.withOutbox (s.outbox.update id f)).Sound ∧ s.Grows (s.withOutbox (s.outbox.update id f)) := by
  have hsame' : ∀ (k : String) (r : OutboxRow), r.Same (if k = id then f r else r) := by
    intro k r
    split
    · exact hsame r
    · exact .refl r
  refine ⟨h.mapValues hsame' fun k r hk hst => ?_, grows_mapValues hsame'⟩
  split at hst
  · next hid => exact hpub r (hid ▸ hk) hst
  · exact Or.inl hst

theorem Sound.publish (h : s.Sound) (hd : s.Delivered id) (now : ℕ) :
    (s.withOutbox (s.outbox.update id fun r => r.publish now)).Sound ∧
      s.Grows (s.withOutbox (s.outbox.update id fun r => r.publish now)) := by
  refine h.update (fun r => ⟨rfl, rfl⟩) fun r hr _ => Or.inr ?_
  obtain ⟨r', hr', hhas⟩ := hd
  cases hr.symm.trans hr'
  exact hhas

theorem Sound.record (h : s.Sound) (id : String) (seen : OutboxRow) (error : String) (now : ℕ) :
    (s.withOutbox (s.outbox.update id fun r => r.flush seen (seen.fail error now))).Sound ∧
      s.Grows (s.withOutbox (s.outbox.update id fun r => r.flush seen (seen.fail error now))) :=
  h.update (fun _ => ⟨rfl, rfl⟩) fun _ _ hst => Or.inl (flush_published hst)

theorem known_rowsOf (ids : List String) : s.Known (s.outbox.rowsOf ids) := by
  intro x hx
  obtain ⟨k, -, hk⟩ := mem_filterMap.1 hx
  obtain ⟨r, hr, rfl⟩ := map_eq_some_iff.1 hk
  exact ⟨r, hr, .refl r⟩

theorem Sound.decoded {e : AuditEvent} (h : s.Sound) (hk : s.outbox.Keeps id r)
    (he : modelValidateJson r.payloadJson = some e) :
    ∃ r', s.outbox.get? id = some r' ∧ r'.eventId = e.eventId := by
  obtain ⟨r', hr', hsame⟩ := hk
  obtain ⟨e', hp, hid⟩ := (h.rows id r' hr').payload
  rw [← hsame.2, hp, modelValidateJson_dump] at he
  cases he
  exact ⟨r', hr', hid⟩

theorem delivered_insertEvent {e : AuditEvent} {producer : Option String} (h : s.Sound)
    (hk : s.outbox.Keeps id r) (he : modelValidateJson r.payloadJson = some e) :
    (s.insertEvent e producer).Delivered id := by
  obtain ⟨r', hr', hid⟩ := h.decoded hk he
  have hout : (s.insertEvent e producer).outbox = s.outbox := by
    unfold insertEvent
    split <;> rfl
  refine ⟨r', hout ▸ hr', ?_⟩
  rw [hid]
  exact insertEvent_has e producer

theorem Sound.stepWorker {locked : List String} (h : s.Sound) (hp : s.SoundPhase w.phase)
    (hs : s.stepWorker i w fate locked = some s') : s'.Sound ∧ s.Grows s' := by
  have hgoto : ∀ {t : AuditDesk} {phase : DrainPhase}, t.Sound ∧ s.Grows t → t.SoundPhase phase →
      (t.goto i w phase).Sound ∧ s.Grows (t.goto i w phase) :=
    fun ht hph => ⟨ht.1.goto hph, ht.2.trans (grows_workers _)⟩
  have hself : s.Sound ∧ s.Grows s := ⟨h, .refl s⟩
  unfold AuditDesk.stepWorker at hs
  split at hs
  · cases hs
    cases fate with
    | runs => exact hgoto (h.releaseStale _ _) trivial
    | raises e => exact hgoto hself trivial
    | commitsThenRaises e => exact hgoto (h.releaseStale _ _) trivial
  · cases hs
    cases fate <;> exact hgoto hself trivial
  · cases hs
    cases fate with
    | runs => exact hgoto (h.claim _ _ _) (known_rowsOf (s := s.withOutbox _) _)
    | raises e => exact hgoto hself trivial
    | commitsThenRaises e => exact hgoto (h.claim _ _ _) trivial
  · cases hs
    exact hgoto hself trivial
  · next id r rows hphase =>
    rw [hphase] at hp
    have hk : s.outbox.Keeps id r := hp (id, r) mem_cons_self
    have hrest : s.Known rows := fun x hx => hp x (mem_cons_of_mem _ hx)
    cases hs
    unfold AuditDesk.publishing
    split
    · exact hgoto hself hrest
    · next e he =>
      have hins : (s.insertEvent e (some "audit-outbox-worker")).Sound ∧
          s.Grows (s.insertEvent e (some "audit-outbox-worker")) :=
        ⟨h.insertEvent e _, grows_insertEvent e _⟩
      have hrest' : (s.insertEvent e (some "audit-outbox-worker")).Known rows :=
        fun x hx => (hrest x hx).mono hins.2.outbox
      cases fate with
      | runs => exact hgoto hins ⟨delivered_insertEvent h hk he, hrest'⟩
      | raises error => exact hgoto hself hrest
      | commitsThenRaises error => exact hgoto hins hrest'
  · next id duplicate rows hphase =>
    rw [hphase] at hp
    obtain ⟨hd, hrest⟩ := hp
    have hpub := h.publish hd w.now
    have hrest' : (s.withOutbox (s.outbox.update id fun r => r.publish w.now)).Known rows :=
      fun x hx => (hrest x hx).mono hpub.2.outbox
    cases hs
    cases fate with
    | runs => exact ⟨hpub.1.setWorker hrest', hpub.2.trans (grows_workers _)⟩
    | raises error =>
      refine hgoto hself ?_
      cases duplicate
      · exact hrest
      · trivial
    | commitsThenRaises error =>
      refine hgoto hpub ?_
      cases duplicate
      · exact hrest'
      · trivial
  · next id error rows hphase =>
    rw [hphase] at hp
    cases hs
    cases fate with
    | runs =>
      simp only [AuditDesk.failing]
      split <;> exact hgoto hself hp
    | raises e | commitsThenRaises e => exact hgoto hself hp
  · next id seen error rows hphase =>
    rw [hphase] at hp
    have hrec := h.record id seen error w.now
    have hp' : (s.withOutbox (s.outbox.update id fun r =>
        r.flush seen (seen.fail error w.now))).Known rows :=
      fun x hx => (hp x hx).mono hrec.2.outbox
    cases hs
    cases fate with
    | runs => exact hgoto hrec hp'
    | raises e => exact hgoto hself hp
    | commitsThenRaises e => exact hgoto hrec hp'
  · cases hs

end Transactions

theorem Sound.enqueue (h : s.Sound) (id : String) (e : AuditEvent) (now : ℕ) :
    (s.withOutbox (s.outbox.enqueue id e now)).Sound := by
  refine h.withOutbox (Outbox.extends_enqueue e now) fun k r hk => ?_
  have hg : s.Grows (s.withOutbox (s.outbox.enqueue id e now)) :=
    ⟨Outbox.extends_enqueue e now, fun _ hh => hh⟩
  unfold Outbox.enqueue at hk
  split at hk
  · exact (h.rows k r hk).mono (.refl r) hg fun hst => hst
  · rw [OrdDict.get?_set] at hk
    split at hk
    · cases hk
      exact ⟨⟨e, rfl, rfl⟩, by rintro ⟨⟩⟩
    · exact (h.rows k r hk).mono (.refl r) hg fun hst => hst

theorem sound_step {a : AuditAct} (h : s.Sound) (hs : auditDesk.step s a = some s') :
    s'.Sound ∧ s.Grows s' := by
  cases a with
  | enqueue id e now =>
    cases hs
    exact ⟨h.enqueue id e now, Outbox.extends_enqueue e now, fun _ hh => hh⟩
  | insert e producer =>
    cases hs
    exact ⟨h.insertEvent e producer, grows_insertEvent e producer⟩
  | drain now batchSize token =>
    cases hs
    exact ⟨h.addWorker trivial, grows_workers _⟩
  | retry id error now =>
    cases hs
    exact ⟨h.addWorker (by nofun), grows_workers _⟩
  | release staleAfter now =>
    cases hs
    exact h.releaseStale staleAfter now
  | step i fate locked =>
    obtain ⟨w, hw, hstep⟩ := bind_eq_some_iff.1 hs
    exact h.stepWorker (h.workers i w hw) hstep
  | crash i =>
    obtain ⟨w, hw, rfl⟩ := map_eq_some_iff.1 hs
    exact ⟨h.goto trivial, grows_workers _⟩

theorem sound_empty : Sound {} := ⟨nodup_nil, by simp, by simp⟩

/-- Over any run of producers, workers, retries and reconcilers: a row that is enqueued stays with
its event, no two events have one id, and a published row has its event. -/
theorem outbox_delivers_once (as bs : List AuditAct) (s t : AuditDesk)
    (hs : auditDesk.run as {} = some s) (ht : auditDesk.run bs s = some t) :
    (∀ id r, s.outbox.get? id = some r →
      ∃ r', t.outbox.get? id = some r' ∧ r'.eventId = r.eventId ∧ r'.payloadJson = r.payloadJson) ∧
    (t.events.map AuditEventRow.eventId).Nodup ∧
    ∀ id r, t.outbox.get? id = some r → r.status = .published →
      ∃ e ∈ t.events, e.eventId = r.eventId := by
  have hsound : s.Sound := Machine.run_inv (fun _ _ _ h _ hstep => (sound_step h hstep).1)
    sound_empty (Machine.along_true as _) hs
  have hend : t.Sound ∧ s.Grows t := Machine.run_inv (I := fun t => t.Sound ∧ s.Grows t)
    (fun _ _ _ h _ hstep => ⟨(sound_step h.1 hstep).1, h.2.trans (sound_step h.1 hstep).2⟩)
    ⟨hsound, .refl s⟩ (Machine.along_true bs _) ht
  refine ⟨hend.2.outbox, hend.1.nodup, fun id r hr hst => ?_⟩
  have hhas := (hend.1.rows id r hr).published hst
  rw [has_iff] at hhas
  obtain ⟨e, he, hid⟩ := mem_map.1 hhas
  exact ⟨e, he, hid⟩

def suspendedEvent : AuditEvent where
  eventId := "e1"
  idempotencyKey := "k1"
  orgId := some "o"
  actor := ⟨.user, "u2", some "u2", none, by decide, fun h => absurd rfl h⟩
  action := "iam.membership.suspended"
  outcome := .success
  requestId := "q1"
  occurredAt := "2026-01-01T00:00:00Z"
  nonempty := by decide
  scrubbed := rfl

def crashedPass : List AuditAct :=
  [.enqueue "1" suspendedEvent 0, .drain 0 50 "a", .step 0 .runs [], .step 0 .runs [],
    .step 0 .runs [], .step 0 .runs [], .crash 0]

def secondPass : List AuditAct :=
  [.drain 400 50 "b", .step 1 .runs [], .step 1 .runs [], .step 1 .runs [], .step 1 .runs [],
    .step 1 .runs []]

theorem second_pass_delivers : ∃ s t, auditDesk.run crashedPass {} = some s ∧
    auditDesk.run secondPass s = some t ∧ t.events.length = 1 ∧
    ∃ r, t.outbox.get? "1" = some r ∧ r.status = .published ∧
      ∃ e ∈ t.events, e.eventId = r.eventId := by
  have hrun : ((auditDesk.run crashedPass {}).bind fun s => (auditDesk.run secondPass s).map
      fun t => (t.events.length, (t.outbox.get? "1").map status)) =
        some (1, some .published) := by decide +kernel
  obtain ⟨s, hs, hrun⟩ := bind_eq_some_iff.1 hrun
  obtain ⟨t, ht, hend⟩ := map_eq_some_iff.1 hrun
  obtain ⟨hlength, hst⟩ := Prod.mk.inj hend
  obtain ⟨r, hr, hpub⟩ := map_eq_some_iff.1 hst
  exact ⟨s, t, hs, ht, hlength, r, hr, hpub,
    (outbox_delivers_once crashedPass secondPass s t hs ht).2.2 "1" r hr hpub⟩

end AuditDesk

end DeerFlow

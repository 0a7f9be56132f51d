import DeerFlow.Proofs.AuditOutbox

/-!
# Final states of the outbox

A worker marks its rows by their id alone. Where no row is taken from a worker that still has it, a
published or dead row is left as it is, and attempts are counted by the owner.
-/

namespace DeerFlow

open List Option Outbox

def OutboxStatus.isFinal : OutboxStatus → Bool
  | .published | .deadLetter => true
  | .pending | .processing => false

def OutboxRow.isStale (r : OutboxRow) (staleAfter now : ℕ) : Bool :=
  decide (r.status = .processing ∧ r.updatedAt + staleAfter < now)

def DrainPhase.held : DrainPhase → List String
  | .publishing rows => rows.map Prod.fst
  | .marking id _ rows | .failing id _ rows | .recording id _ _ rows => id :: rows.map Prod.fst
  | .releasing | .claiming | .taking _ | .done => []

def Fate.commits : Fate → Bool
  | .runs | .commitsThenRaises _ => true
  | .raises _ => false

namespace AuditDesk

def releasesUnheld (s : AuditDesk) (staleAfter now : ℕ) : Bool :=
  s.outbox.entries.all fun e =>
    !e.2.isStale staleAfter now || s.workers.all fun w => !w.phase.held.contains e.1

/-- No row is taken from a worker that has it: stale rows are released once their worker has gone, a
claim finds its rows pending, the token of a pass is new, and no commit of `mark_outbox_published`
is reported as an error. -/
def leavesHeld (s : AuditDesk) : AuditAct → Bool
  | .enqueue _ _ _ | .insert _ _ | .crash _ => true
  | .retry _ _ _ => false
  | .drain _ _ token => s.workers.all fun w => w.token ≠ token
  | .release staleAfter now => s.releasesUnheld staleAfter now
  | .step i fate _ =>
    match s.workers[i]? with
    | none => true
    | some w =>
      match w.phase with
      | .releasing => !fate.commits || s.releasesUnheld 300 w.now
      | .taking ids => !fate.commits || ids.all fun id => (s.outbox.get? id).any (·.status = .pending)
      | .marking _ false _ => !fate.commits || fate = .runs
      | _ => true

end AuditDesk

namespace Outbox

variable {o o' : Outbox} {token id : String} {r : OutboxRow} {phase : DrainPhase}
  {may : OutboxRow → Prop}
  {f : OutboxRow → OutboxRow}

def Owned (o : Outbox) (token id : String) : Prop :=
  ∃ r, o.get? id = some r ∧ r.status = .processing ∧ r.ownerToken = some token

/-- Every row stays; final ones keep their status, and attempts change only where they may. -/
def Kept (may : OutboxRow → Prop) (o o' : Outbox) : Prop :=
  ∀ id r, o.get? id = some r → ∃ r', o'.get? id = some r'
    ∧ (r.status.isFinal = true → r'.status = r.status)
    ∧ (r'.attempts ≠ r.attempts → may r)

theorem Kept.refl (may : OutboxRow → Prop) (o : Outbox) : Kept may o o :=
  fun _ r hr => ⟨r, hr, fun _ => rfl, fun h => absurd rfl h⟩

theorem Kept.mono {may' : OutboxRow → Prop} (h : Kept may o o') (hmay : ∀ r, may r → may' r) :
    Kept may' o o' := by
  intro id r hr
  obtain ⟨r', hr', hfin, hatt⟩ := h id r hr
  exact ⟨r', hr', hfin, fun hne => hmay r (hatt hne)⟩

theorem kept_mapValues {f : String → OutboxRow → OutboxRow}
    (h : ∀ id r, o.get? id = some r → (r.status.isFinal → (f id r).status = r.status)
      ∧ ((f id r).attempts ≠ r.attempts → may r)) :
    Kept may o (o.mapValues f) := by
  intro id r hr
  exact ⟨f id r, by simp [hr], h id r hr⟩

theorem get?_releaseStale (staleAfter now : ℕ) :
    (o.releaseStale staleAfter now).get? id = (o.get? id).map (·.release staleAfter now) :=
  OrdDict.get?_mapValues o _ id

theorem kept_releaseStale (staleAfter now : ℕ) : Kept may o (o.releaseStale staleAfter now) := by
  refine kept_mapValues fun id r _ => ?_
  unfold OutboxRow.release
  split_ifs with h
  · refine ⟨fun hfin => ?_, fun hne => absurd rfl hne⟩
    rw [h.1] at hfin
    cases hfin
  · exact ⟨fun _ => rfl, fun hne => absurd rfl hne⟩

theorem get?_claim (ids : List String) (now : ℕ) : (o.claim ids token now).get? id
    = (o.get? id).map fun r => if id ∈ ids then r.claim token now else r :=
  OrdDict.get?_mapValues o _ id

theorem kept_claim {ids : List String} (now : ℕ)
    (h : ∀ id ∈ ids, (o.get? id).any (·.status = .pending)) :
    Kept may o (o.claim ids token now) := by
  refine kept_mapValues fun id r hr => ?_
  split_ifs with hid
  · refine ⟨fun hfin => ?_, fun hne => absurd rfl hne⟩
    have hpending : r.status = .pending := by simpa [hr] using h id hid
    rw [hpending] at hfin
    cases hfin
  · exact ⟨fun _ => rfl, fun hne => absurd rfl hne⟩

theorem get?_update_of_ne {k : String} (h : k ≠ id) : (o.update id f).get? k = o.get? k := by
  simp [update, h]

theorem kept_update (h : o.Owned token id) :
    Kept (fun r => r.ownerToken = some token) o (o.update id f) := by
  obtain ⟨r0, hr0, hstatus, howner⟩ := h
  refine kept_mapValues fun k r hr => ?_
  split_ifs with hk
  · subst hk
    cases hr.symm.trans hr0
    refine ⟨fun hfin => ?_, fun _ => howner⟩
    rw [hstatus] at hfin
    cases hfin
  · exact ⟨fun _ => rfl, fun hne => absurd rfl hne⟩

theorem get?_enqueue {k : String} {e : AuditEvent} {now : ℕ} (hr : o.get? id = some r) :
    (o.enqueue k e now).get? id = some r := by
  unfold enqueue
  split
  · exact hr
  · next hnew =>
    have hne : k ≠ id := by
      rintro rfl
      simp [hr] at hnew
    simp [hne, hr]

structure OwnedBy (o : Outbox) (token : String) (phase : DrainPhase) : Prop where
  nodup : phase.held.Nodup
  rows : ∀ id ∈ phase.held, o.Owned token id
  seen : ∀ id seen error rest, phase = .recording id seen error rest → o.get? id = some seen
  taking : ∀ ids, phase = .taking ids → ids.Nodup

theorem OwnedBy.congr (h : o.OwnedBy token phase)
    (hsame : ∀ id ∈ phase.held, o'.get? id = o.get? id) : o'.OwnedBy token phase where
  nodup := h.nodup
  rows := fun id hid => by
    obtain ⟨r, hr, hrest⟩ := h.rows id hid
    exact ⟨r, (hsame id hid).trans hr, hrest⟩
  seen := fun id seen error rest hphase => by
    have hid : id ∈ phase.held := by
      rw [hphase]
      exact mem_cons_self ..
    exact (hsame id hid).trans (h.seen id seen error rest hphase)
  taking := h.taking

theorem OwnedBy.idle (h : phase = .releasing ∨ phase = .claiming ∨ phase = .done) :
    o.OwnedBy token phase := by
  rcases h with rfl | rfl | rfl <;> exact ⟨nodup_nil, nofun, nofun, nofun⟩

theorem OwnedBy.goto {next : DrainPhase} (h : o.OwnedBy token phase)
    (hsub : next.held.Sublist phase.held)
    (hseen : ∀ id seen error rest, next = .recording id seen error rest → o.get? id = some seen)
    (htaking : ∀ ids, next ≠ .taking ids) : o.OwnedBy token next :=
  ⟨h.nodup.sublist hsub, fun id hid => h.rows id (hsub.subset hid), hseen,
    fun ids hids => absurd hids (htaking ids)⟩

theorem nodup_claimable (batchSize now : ℕ) (locked : List String) :
    (o.claimable batchSize now locked).Nodup := by
  refine List.Nodup.sublist ((take_sublist ..).map Prod.fst) ?_
  refine ((perm_insertionSort ..).map Prod.fst).nodup_iff.2 ?_
  exact o.nodup.sublist (filter_sublist.map Prod.fst)

theorem map_fst_rowsOf (ids : List String) :
    (o.rowsOf ids).map Prod.fst = ids.filter fun id => (o.get? id).isSome := by
  induction ids with
  | nil => rfl
  | cons id ids ih =>
    cases h : o.get? id <;> simp_all [rowsOf]

theorem ownedBy_claim {ids : List String} (hids : ids.Nodup) (now : ℕ) :
    (o.claim ids token now).OwnedBy token
      (.publishing ((o.claim ids token now).rowsOf ids)) where
  nodup := by
    simp only [DrainPhase.held, map_fst_rowsOf]
    exact hids.filter _
  rows := fun id hid => by
    simp only [DrainPhase.held, map_fst_rowsOf, mem_filter] at hid
    obtain ⟨r, hr⟩ := isSome_iff_exists.1 hid.2
    rw [get?_claim] at hr
    obtain ⟨r0, hr0, rfl⟩ := map_eq_some_iff.1 hr
    refine ⟨r0.claim token now, ?_, rfl, rfl⟩
    rw [get?_claim, hr0, map_some, if_pos hid.1]
  seen := nofun
  taking := nofun

theorem OwnedBy.finish {rows : List (String × OutboxRow)}
    (h : o.OwnedBy token phase) (hheld : phase.held = id :: rows.map Prod.fst) :
    (o.update id f).OwnedBy token (.publishing rows) := by
  have hnodup := h.nodup
  rw [hheld, nodup_cons] at hnodup
  have hrest : o.OwnedBy token (.publishing rows) :=
    h.goto (by rw [hheld]; exact sublist_cons_self ..) nofun nofun
  refine hrest.congr fun k hk => get?_update_of_ne ?_
  rintro rfl
  exact hnodup.1 hk

end Outbox

namespace AuditDesk

variable {s s' : AuditDesk} {i : ℕ} {w : DrainWorker} {fate : Fate}
  {id : String} {rows : List (String × OutboxRow)}

structure Exclusive (s : AuditDesk) : Prop where
  tokens : ∀ (i j : ℕ) (w w' : DrainWorker), s.workers[i]? = some w → s.workers[j]? = some w' →
    w.token = w'.token → i = j
  owned : ∀ (i : ℕ) (w : DrainWorker), s.workers[i]? = some w → s.outbox.OwnedBy w.token w.phase

theorem Exclusive.withOutbox {o : Outbox} (h : s.Exclusive)
    (hsame : ∀ w ∈ s.workers, ∀ id ∈ w.phase.held, o.get? id = s.outbox.get? id) :
    (s.withOutbox o).Exclusive :=
  ⟨h.tokens, fun i w hw => (h.owned i w hw).congr (hsame w (mem_of_getElem? hw))⟩

theorem Exclusive.setWorker {o : Outbox} {events : List AuditEventRow} {w' : DrainWorker}
    (h : s.Exclusive) (hw : s.workers[i]? = some w) (htoken : w'.token = w.token)
    (hsame : ∀ (j : ℕ) (v : DrainWorker), s.workers[j]? = some v → j ≠ i → ∀ id ∈ v.phase.held,
      o.get? id = s.outbox.get? id)
    (hown : o.OwnedBy w.token w'.phase) :
    (⟨o, events, s.workers.set i w'⟩ : AuditDesk).Exclusive := by
  have hcases : ∀ (j : ℕ) (v : DrainWorker), (s.workers.set i w')[j]? = some v →
      j = i ∧ v = w' ∨ j ≠ i ∧ s.workers[j]? = some v :=
    fun j v hv => Slots.getElem?_set_cases hv
  have hold : ∀ (j : ℕ) (v : DrainWorker), (s.workers.set i w')[j]? = some v →
      ∃ v', s.workers[j]? = some v' ∧ v'.token = v.token := by
    intro j v hv
    rcases hcases j v hv with ⟨rfl, rfl⟩ | ⟨-, hv⟩
    · exact ⟨w, hw, htoken.symm⟩
    · exact ⟨v, hv, rfl⟩
  constructor
  · intro j k v v' hv hv' heq
    obtain ⟨u, hu, hut⟩ := hold j v hv
    obtain ⟨u', hu', hut'⟩ := hold k v' hv'
    exact h.tokens j k u u' hu hu' (by rw [hut, hut', heq])
  · intro j v hv
    rcases hcases j v hv with ⟨rfl, rfl⟩ | ⟨hne, hv⟩
    · rw [htoken]
      exact hown
    · exact (h.owned j v hv).congr (hsame j v hv hne)

theorem Exclusive.disjoint (h : s.Exclusive) (hw : s.workers[i]? = some w)
    (hid : id ∈ w.phase.held) {j : ℕ} {v : DrainWorker} (hv : s.workers[j]? = some v)
    (hj : j ≠ i) : id ∉ v.phase.held := by
  intro hmem
  obtain ⟨r, hr, -, howner⟩ := (h.owned i w hw).rows id hid
  obtain ⟨r', hr', -, howner'⟩ := (h.owned j v hv).rows id hmem
  cases hr.symm.trans hr'
  exact hj (h.tokens j i v w hv hw (some.inj (howner'.symm.trans howner)))

theorem releasesUnheld_same {staleAfter now : ℕ} (h : s.releasesUnheld staleAfter now)
    (hw : w ∈ s.workers) (hid : id ∈ w.phase.held) :
    (s.outbox.releaseStale staleAfter now).get? id = s.outbox.get? id := by
  rw [get?_releaseStale]
  cases hr : s.outbox.get? id with
  | none => rfl
  | some r =>
    have hfresh : r.isStale staleAfter now = false := by
      have hentry := all_eq_true.1 h (id, r) (OrdDict.mem_entries_iff.2 hr)
      cases hstale : r.isStale staleAfter now with
      | false => rfl
      | true =>
        simp only [hstale, Bool.not_true, Bool.false_or, List.all_eq_true] at hentry
        simpa [hid] using hentry w hw
    rw [map_some, OutboxRow.release, if_neg (of_decide_eq_false hfresh)]

def Orderly (token : String) (s s' : AuditDesk) : Prop :=
  s'.Exclusive ∧ Outbox.Kept (fun r => r.ownerToken = some token) s.outbox s'.outbox

theorem Exclusive.goto {events : List AuditEventRow} {phase : DrainPhase} (h : s.Exclusive)
    (hw : s.workers[i]? = some w) (hown : s.outbox.OwnedBy w.token phase) :
    Orderly w.token s ((⟨s.outbox, events, s.workers⟩ : AuditDesk).goto i w phase) :=
  ⟨h.setWorker hw rfl (fun _ _ _ _ _ _ => rfl) hown, .refl _ _⟩

theorem Exclusive.finish (f : OutboxRow → OutboxRow) (w' : DrainWorker)
    (h : s.Exclusive) (hw : s.workers[i]? = some w)
    (hheld : w.phase.held = id :: rows.map Prod.fst) (htoken : w'.token = w.token)
    (hphase : w'.phase = .publishing rows ∨ w'.phase = .done) :
    Orderly w.token s ⟨s.outbox.update id f, s.events, s.workers.set i w'⟩ := by
  have hid : id ∈ w.phase.held := hheld ▸ mem_cons_self
  refine ⟨h.setWorker hw htoken (fun j v hv hj k hk => ?_) ?_,
    kept_update ((h.owned i w hw).rows id hid)⟩
  · refine get?_update_of_ne ?_
    rintro rfl
    exact h.disjoint hw hid hv hj hk
  · rcases hphase with hphase | hphase <;> rw [hphase]
    · exact (h.owned i w hw).finish hheld
    · exact .idle (.inr (.inr rfl))

theorem Exclusive.releasing (h : s.Exclusive) (hw : s.workers[i]? = some w)
    (hok : (!fate.commits || s.releasesUnheld 300 w.now)) :
    Orderly w.token s (s.releasing i w fate) := by
  have hgo : s.releasesUnheld 300 w.now → Orderly w.token s
      ((s.withOutbox (s.outbox.releaseStale 300 w.now)).goto i w .claiming) := fun hun =>
    ⟨h.setWorker hw rfl (fun _ v hv _ _ hk =>
        releasesUnheld_same hun (mem_of_getElem? hv) hk) (.idle (.inr (.inl rfl))),
      kept_releaseStale 300 w.now⟩
  cases fate with
  | runs => exact hgo hok
  | raises e => exact h.goto hw (.idle (.inr (.inl rfl)))
  | commitsThenRaises e => exact hgo hok

theorem Exclusive.taking {ids : List String} (h : s.Exclusive) (hw : s.workers[i]? = some w)
    (hphase : w.phase = .taking ids)
    (hok : (!fate.commits || ids.all fun id => (s.outbox.get? id).any (·.status = .pending))) :
    Orderly w.token s (s.taking i w ids fate) := by
  have hids : ids.Nodup := (h.owned i w hw).taking ids hphase
  have hgo : ∀ {phase : DrainPhase}, (∀ id ∈ ids, (s.outbox.get? id).any (·.status = .pending)) →
      (s.outbox.claim ids w.token w.now).OwnedBy w.token phase →
      Orderly w.token s ((s.withOutbox (s.outbox.claim ids w.token w.now)).goto i w phase) := by
    intro phase hpending hown
    refine ⟨h.setWorker hw rfl (fun j v hv _ k hk => ?_) hown, kept_claim w.now hpending⟩
    -- the rows of the others are in work, so that none of them is selected
    obtain ⟨r, hr, hstatus, -⟩ := (h.owned j v hv).rows k hk
    have hnot : k ∉ ids := by
      intro hmem
      have := hpending k hmem
      simp [hr, hstatus] at this
    refine (get?_claim ids w.now).trans ?_
    rw [hr, map_some, if_neg hnot]
  cases fate with
  | runs => exact hgo (all_eq_true.1 hok) (ownedBy_claim hids w.now)
  | raises e => exact h.goto hw (.idle (.inr (.inr rfl)))
  | commitsThenRaises e => exact hgo (all_eq_true.1 hok) (.idle (.inr (.inr rfl)))

theorem insertEvent_eq (e : AuditEvent) (producer : Option String) :
    ∃ events, s.insertEvent e producer = ⟨s.outbox, events, s.workers⟩ := by
  unfold insertEvent
  split
  · exact ⟨s.events, rfl⟩
  · exact ⟨_, rfl⟩

theorem Exclusive.publishing {r : OutboxRow}
    (h : s.Exclusive) (hw : s.workers[i]? = some w) (hphase : w.phase = .publishing ((id, r) :: rows)) :
    Orderly w.token s (s.publishing i w id r rows fate) := by
  have hown : ∀ {next : DrainPhase}, next.held = id :: rows.map Prod.fst →
      (∀ k seen error rest, next ≠ .recording k seen error rest) → (∀ ids, next ≠ .taking ids) →
      s.outbox.OwnedBy w.token next := by
    intro next hheld hrec htaking
    refine (h.owned i w hw).goto ?_ (fun k seen error rest hnext => absurd hnext (hrec _ _ _ _)) htaking
    rw [hheld, hphase]
    exact List.Sublist.refl _
  have hfail : ∀ error, s.outbox.OwnedBy w.token (.failing id error rows) :=
    fun error => hown rfl nofun nofun
  unfold AuditDesk.publishing
  split
  · exact h.goto hw (hfail _)
  · next e he =>
    obtain ⟨events, hins⟩ := s.insertEvent_eq e (some "audit-outbox-worker")
    cases fate with
    | runs =>
      simp only [hins]
      exact h.goto hw (hown rfl nofun nofun)
    | raises error => exact h.goto hw (hfail error)
    | commitsThenRaises error =>
      simp only [hins]
      exact h.goto hw (hfail error)

theorem Exclusive.marking {duplicate : Bool}
    (h : s.Exclusive) (hw : s.workers[i]? = some w) (hphase : w.phase = .marking id duplicate rows)
    (hok : duplicate ∨ (!fate.commits || fate = .runs)) :
    Orderly w.token s (s.marking i w id duplicate rows fate) := by
  have hheld : w.phase.held = id :: rows.map Prod.fst := by rw [hphase]; rfl
  cases fate with
  | runs =>
    exact h.finish (·.publish w.now)
      { w with phase := .publishing rows, published := w.published + 1 } hw hheld rfl (.inl rfl)
  | raises error =>
    refine h.goto hw ?_
    cases duplicate
    · exact (h.owned i w hw).goto (hheld ▸ List.Sublist.refl _) nofun nofun
    · exact .idle (.inr (.inr rfl))
  | commitsThenRaises error =>
    rcases hok with rfl | hok
    · exact h.finish (·.publish w.now) { w with phase := .done } hw hheld rfl (.inr rfl)
    · simp [Fate.commits] at hok

theorem Exclusive.failing {id error : String}
    (h : s.Exclusive) (hw : s.workers[i]? = some w) (hphase : w.phase = .failing id error rows) :
    Orderly w.token s (s.failing i w id error rows fate) := by
  have hheld : w.phase.held = id :: rows.map Prod.fst := by rw [hphase]; rfl
  have hrest : s.outbox.OwnedBy w.token (.publishing rows) :=
    (h.owned i w hw).goto (hheld ▸ sublist_cons_self ..) nofun nofun
  cases fate with
  | runs =>
    unfold AuditDesk.failing
    cases hseen : s.outbox.get? id with
    | none => exact h.goto hw hrest
    | some seen =>
      refine h.goto hw ((h.owned i w hw).goto (hheld ▸ List.Sublist.refl _) ?_ nofun)
      intro k seen' error' rest hnext
      cases hnext
      exact hseen
  | raises e | commitsThenRaises e => exact h.goto hw hrest

theorem Exclusive.recording {id error : String} {seen : OutboxRow}
    (h : s.Exclusive) (hw : s.workers[i]? = some w)
    (hphase : w.phase = .recording id seen error rows) :
    Orderly w.token s (s.recording i w id seen error rows fate) := by
  have hheld : w.phase.held = id :: rows.map Prod.fst := by rw [hphase]; rfl
  have hdone := h.finish (fun r => r.flush seen (seen.fail error w.now))
    { w with phase := .publishing rows } hw hheld rfl (.inl rfl)
  cases fate with
  | runs => exact hdone
  | raises e =>
    exact h.goto hw ((h.owned i w hw).goto (hheld ▸ sublist_cons_self ..) nofun nofun)
  | commitsThenRaises e => exact hdone

theorem Exclusive.stepWorker {locked : List String} (h : s.Exclusive)
    (hw : s.workers[i]? = some w) (hok : s.leavesHeld (.step i fate locked))
    (hs : s.stepWorker i w fate locked = some s') : Orderly w.token s s' := by
  simp only [leavesHeld, hw] at hok
  unfold AuditDesk.stepWorker at hs
  split at hs <;> cases hs
  · next hphase =>
    rw [hphase] at hok
    exact h.releasing hw hok
  · next hphase =>
    cases fate with
    | runs =>
      refine h.goto hw ⟨nodup_nil, by rintro _ ⟨⟩, by rintro _ _ _ _ ⟨⟩, fun ids hids => ?_⟩
      cases hids
      exact nodup_claimable ..
    | raises e | commitsThenRaises e => exact h.goto hw (.idle (.inr (.inr rfl)))
  · next ids hphase =>
    rw [hphase] at hok
    exact h.taking hw hphase hok
  · exact h.goto hw (.idle (.inr (.inr rfl)))
  · next hphase => exact h.publishing hw hphase
  · next id duplicate rows hphase =>
    refine h.marking hw hphase ?_
    cases duplicate
    · rw [hphase] at hok
      exact .inr hok
    · exact .inl rfl
  · next hphase => exact h.failing hw hphase
  · next hphase => exact h.recording hw hphase

def OwnStep (s : AuditDesk) (a : AuditAct) (r : OutboxRow) : Prop :=
  ∃ i fate locked w, a = .step i fate locked ∧ s.workers[i]? = some w ∧ r.ownerToken = some w.token

theorem Exclusive.addWorker (h : s.Exclusive) (now batchSize : ℕ) {token : String}
    (hnew : ∀ w ∈ s.workers, w.token ≠ token) :
    ({ s with workers := s.workers ++ [⟨now, batchSize, token, 0, .releasing⟩] } :
      AuditDesk).Exclusive := by
  have hcases := fun (j : ℕ) (v : DrainWorker) => @Slots.getElem?_concat_cases _ s.workers
    ⟨now, batchSize, token, 0, .releasing⟩ j v
  constructor
  · intro j k v v' hv hv' heq
    rcases hcases j v hv with hv | ⟨rfl, rfl⟩ <;> rcases hcases k v' hv' with hv' | ⟨rfl, rfl⟩
    · exact h.tokens j k v v' hv hv' heq
    · exact absurd heq (hnew v (mem_of_getElem? hv))
    · exact absurd heq.symm (hnew v' (mem_of_getElem? hv'))
    · rfl
  · intro j v hv
    rcases hcases j v hv with hv | ⟨rfl, rfl⟩
    · exact h.owned j v hv
    · exact .idle (.inl rfl)

theorem exclusive_step {a : AuditAct} (h : s.Exclusive) (hok : s.leavesHeld a)
    (hs : auditDesk.step s a = some s') :
    s'.Exclusive ∧ Outbox.Kept (s.OwnStep a) s.outbox s'.outbox := by
  cases a with
  | enqueue id e now =>
    cases hs
    refine ⟨h.withOutbox fun w hw k hk => ?_, fun k r hr =>
      ⟨r, get?_enqueue hr, fun _ => rfl, fun hne => absurd rfl hne⟩⟩
    obtain ⟨i, hi⟩ := mem_iff_getElem?.1 hw
    obtain ⟨r, hr, -⟩ := (h.owned i w hi).rows k hk
    rw [hr, get?_enqueue hr]
  | insert e producer =>
    cases hs
    obtain ⟨events, hins⟩ := s.insertEvent_eq e producer
    rw [hins]
    exact ⟨⟨h.tokens, h.owned⟩, .refl _ _⟩
  | drain now batchSize token =>
    cases hs
    refine ⟨h.addWorker now batchSize fun w hw => ?_, .refl _ _⟩
    simpa using all_eq_true.1 hok w hw
  | retry id error now => cases hok
  | release staleAfter now =>
    cases hs
    exact ⟨h.withOutbox fun w hw k hk => releasesUnheld_same hok hw hk,
      kept_releaseStale staleAfter now⟩
  | step i fate locked =>
    obtain ⟨w, hw, hstep⟩ := bind_eq_some_iff.1 hs
    obtain ⟨hex, hkept⟩ := h.stepWorker hw hok hstep
    exact ⟨hex, hkept.mono fun r hr => ⟨i, fate, locked, w, rfl, hw, hr⟩⟩
  | crash i =>
    obtain ⟨w, hw, rfl⟩ := map_eq_some_iff.1 hs
    exact ⟨(h.goto hw (.idle (.inr (.inr rfl)))).1, .refl _ _⟩

theorem exclusive_empty : Exclusive {} := ⟨by simp, by simp⟩

theorem Exclusive.run {as : List AuditAct} (h : s.Exclusive)
    (hok : auditDesk.Along (fun s a => s.leavesHeld a) as s)
    (hs : auditDesk.run as s = some s') : s'.Exclusive :=
  Machine.run_inv (fun _ _ _ h ha hstep => (exclusive_step h ha hstep).1) h hok hs

/-- In every run that takes no row from a worker that still has it, published and dead rows keep
their status, and attempts are counted by the worker whose token is on the row. -/
theorem final_rows_stay (as : List AuditAct) (s : AuditDesk)
    (hok : auditDesk.Along (fun s a => s.leavesHeld a = true) as {})
    (hs : auditDesk.run as {} = some s) :
    (∀ bs t, auditDesk.Along (fun s a => s.leavesHeld a = true) bs s → auditDesk.run bs s = some t →
      ∀ id r, s.outbox.get? id = some r → r.status.isFinal = true →
        ∃ r', t.outbox.get? id = some r' ∧ r'.status = r.status) ∧
    ∀ a t, s.leavesHeld a = true → auditDesk.step s a = some t → ∀ id r, s.outbox.get? id = some r →
        ∃ r', t.outbox.get? id = some r' ∧ (r'.attempts ≠ r.attempts → s.OwnStep a r) := by
  have hex : s.Exclusive := exclusive_empty.run hok hs
  constructor
  · intro bs t hbs ht id r hr hfin
    refine (Machine.run_inv (I := fun t => t.Exclusive ∧
      ∃ r', t.outbox.get? id = some r' ∧ r'.status = r.status) ?_ ⟨hex, r, hr, rfl⟩ hbs ht).2
    rintro u a v ⟨hu, r1, hr1, hst1⟩ ha hstep
    obtain ⟨hv, hkept⟩ := exclusive_step hu ha hstep
    obtain ⟨r2, hr2, hst2, -⟩ := hkept id r1 hr1
    rw [hst1] at hst2
    exact ⟨hv, r2, hr2, hst2 hfin⟩
  · intro a t ha hstep id r hr
    obtain ⟨r', hr', -, hatt⟩ := (exclusive_step hex ha hstep).2 id r hr
    exact ⟨r', hr', hatt⟩

def publishedRow : List AuditAct :=
  [.enqueue "1" suspendedEvent 0, .drain 0 50 "a", .drain 0 50 "b", .step 0 .runs [],
    .step 1 .runs [], .step 0 .runs [], .step 0 .runs [], .step 0 .runs [], .step 0 .runs []]

def laterSteps : List AuditAct :=
  [.step 1 .runs [], .step 1 .runs [], .step 0 .runs [], .release 300 1000]

theorem published_row_stays : ∃ s t, auditDesk.run publishedRow {} = some s ∧
    auditDesk.run laterSteps s = some t ∧ ∃ r r', s.outbox.get? "1" = some r ∧
      r.status = .published ∧ t.outbox.get? "1" = some r' ∧ r'.status = r.status := by
  have hrun : ((auditDesk.run publishedRow {}).bind fun s => (auditDesk.run laterSteps s).map
      fun _ => (s.outbox.get? "1").map OutboxRow.status) = some (some .published) := by
    decide +kernel
  have hok : auditDesk.Along (fun s a => s.leavesHeld a = true) (publishedRow ++ laterSteps) {} := by
    decide +kernel
  obtain ⟨s, hs, hrun⟩ := bind_eq_some_iff.1 hrun
  obtain ⟨t, ht, hst⟩ := map_eq_some_iff.1 hrun
  obtain ⟨r, hr, hpub⟩ := map_eq_some_iff.1 hst
  obtain ⟨has, hbs⟩ := hok.append hs
  obtain ⟨r', hr', hsame⟩ :=
    (final_rows_stay publishedRow s has hs).1 laterSteps t hbs ht "1" r hr (by rw [hpub]; rfl)
  exact ⟨s, t, hs, ht, r, r', hr, hpub, hr', hsame⟩

def takenRow : List AuditAct :=
  [.enqueue "1" suspendedEvent 0, .drain 0 50 "a", .step 0 .runs [], .step 0 .runs [],
    .step 0 .runs [], .step 0 (.raises "timeout") [], .drain 400 50 "b", .step 1 .runs [],
    .step 1 .runs [], .step 1 .runs [], .step 1 .runs [], .step 1 .runs []]

/-- When the first worker resumes, it records the failure: the published row is pending again, with
an attempt more that no owner of the row has made. -/
theorem resumed_worker_reopens_row : ((auditDesk.run takenRow {}).bind fun s =>
      (s.outbox.get? "1").map fun r => (r.status, r.attempts, r.ownerToken))
        = some (.published, 0, none) ∧
    ((auditDesk.run (takenRow ++ [.step 0 .runs [], .step 0 .runs []]) {}).bind fun s =>
      (s.outbox.get? "1").map fun r => (r.status, r.attempts)) = some (.pending, 1) := by
  constructor <;> decide +kernel

/-- A statement of a `claim_audit_outbox` call; an `UPDATE` finds the rows it selected pending. -/
def claimsPending (s : AuditDesk) : AuditAct → Bool
  | .step i .runs [] => s.workers[i]?.any fun w =>
    match w.phase with
    | .claiming => true
    | .taking ids => ids.all fun id => (s.outbox.get? id).any (·.status = .pending)
    | _ => false
  | _ => false

theorem leavesHeld_of_claimsPending {a : AuditAct} (h : s.claimsPending a) : s.leavesHeld a := by
  unfold claimsPending at h
  split at h
  · next i =>
    obtain ⟨w, hw, hphase⟩ := (any_eq_true _ _).1 h
    simp only [leavesHeld, hw]
    split at hphase
    · next hp => rw [hp]
    · next hp =>
      rw [hp]
      exact hphase
    · cases hphase
  · cases h

theorem exclusive_claiming (hidle : ∀ w ∈ s.workers, w.phase = .claiming)
    (htokens : (s.workers.map DrainWorker.token).Nodup) : s.Exclusive where
  tokens i j w w' hw hw' heq := by
    refine (getElem?_inj (by simpa using Slots.lt_of_getElem? hw) htokens).1 ?_
    rw [getElem?_map, getElem?_map, hw, hw', map_some, map_some, heq]
  owned _ w hw := .idle (.inr (.inl (hidle w (mem_of_getElem? hw))))

theorem claimed_rows_are_disjoint {s0 : AuditDesk} {as : List AuditAct}
    (hidle : ∀ w ∈ s0.workers, w.phase = .claiming)
    (htokens : (s0.workers.map DrainWorker.token).Nodup)
    (hok : auditDesk.Along (fun s a => s.claimsPending a = true) as s0)
    (hs : auditDesk.run as s0 = some s) (hw : s.workers[i]? = some w)
    (hrows : w.phase = .publishing rows) :
    ∀ id ∈ rows.map Prod.fst, s.outbox.Owned w.token id ∧
      ∀ j v rows', s.workers[j]? = some v → v.phase = .publishing rows' → j ≠ i →
        id ∉ rows'.map Prod.fst := by
  intro id hid
  have hex : s.Exclusive := (exclusive_claiming hidle htokens).run
    (hok.mono fun _ _ h => leavesHeld_of_claimsPending h) hs
  have hheld : id ∈ w.phase.held := by rwa [hrows]
  refine ⟨(hex.owned i w hw).rows id hheld, fun j v rows' hv hrows' hj => ?_⟩
  have hnot := hex.disjoint hw hheld hv hj
  rwa [hrows'] at hnot

def twoClaims : AuditDesk where
  outbox := (enqueue .empty "1" suspendedEvent 0).set "2" (suspendedEvent.outboxRow 0)
  workers := [⟨0, 1, "a", 0, .claiming⟩, ⟨0, 1, "b", 0, .claiming⟩]

def claimedIds (as : List AuditAct) : Option (List (List String)) :=
  (auditDesk.run as twoClaims).map fun s => s.workers.map fun w => w.phase.held

def claimsInTurn : List AuditAct :=
  [.step 0 .runs [], .step 0 .runs [], .step 1 .runs [], .step 1 .runs []]

theorem claims_in_turn : ∃ s w rows, auditDesk.run claimsInTurn twoClaims = some s ∧
    s.workers[1]? = some w ∧ w.phase = .publishing rows ∧ rows.map Prod.fst = ["2"] ∧
      s.outbox.Owned w.token "2" := by
  have hok : auditDesk.Along (fun s a => s.claimsPending a = true) claimsInTurn twoClaims := by
    decide +kernel
  exact ⟨_, _, _, rfl, rfl, rfl, rfl,
    (claimed_rows_are_disjoint (by decide) (by decide) hok rfl (i := 1) rfl rfl "2" (by decide)).1⟩

/-- Both select the row before either marks it, and both return it. -/
theorem claims_overlap :
    claimedIds [.step 0 .runs [], .step 1 .runs [], .step 0 .runs [], .step 1 .runs []]
      = some [["1"], ["1"]] := by
  decide +kernel

end AuditDesk

end DeerFlow

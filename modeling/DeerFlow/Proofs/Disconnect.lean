import DeerFlow.Consumers
import DeerFlow.Proofs.Frame

/-!
# Clients that disconnect

The row of a run does not have its `on_disconnect`, so a record made of a row says `cancel`. A
consumer cancels nothing as long as no such record is followed while it says that the run is in
flight.
-/

namespace DeerFlow

open List Option World

def World.Continues (r : RunId) (w : World) : Prop :=
  ∀ ρ x, w.record? ρ r = some x → x.onDisconnect = .continue_

namespace World.Continues

variable {r : RunId} {w : World} {ρ : ReplicaId}

theorem setManager (h : w.Continues r) {m : RunManager}
    (hm : ∀ x, m.heap r = some x → x.onDisconnect = .continue_) : (w.setManager ρ m).Continues r := by
  intro ρ' x hx
  by_cases hρ : ρ' = ρ
  · subst hρ
    rw [record?, setManager_self] at hx
    exact hm x hx
  · rw [record?, setManager_of_ne _ _ _ m hρ] at hx
    exact h ρ' x hx

theorem register (h : w.Continues r) {x : RunRecord}
    (hx : x.runId = r → x.onDisconnect = .continue_) :
    (w.setManager ρ ((w.managers ρ).register x)).Continues r := by
  refine h.setManager fun y hy => ?_
  simp only [RunManager.register, RunManager.indexRunLocked] at hy
  split_ifs at hy with hr
  · cases hy
    exact hx hr.symm
  · exact h ρ y hy

theorem retire (h : w.Continues r) {r' : RunId} {t : ThreadId} :
    (w.setManager ρ (((w.managers ρ).popRun r').unindexRunLocked r' t)).Continues r := by
  refine h.setManager fun y hy => h ρ y ?_
  rw [record?, ← hy]
  unfold RunManager.unindexRunLocked
  split
  · rfl
  · dsimp only
    split_ifs <;> rfl

theorem updateRecord (h : w.Continues r) {r' : RunId} {f : RunRecord → RunRecord}
    (hf : ∀ x, (f x).onDisconnect = x.onDisconnect) : (w.updateRecord ρ r' f).Continues r := by
  refine h.setManager fun y hy => ?_
  dsimp only at hy
  split_ifs at hy with hr
  · obtain ⟨x, hx, rfl⟩ := map_eq_some_iff.1 hy
    rw [hf]
    exact h ρ x (hr ▸ hx)
  · exact h ρ y hy

theorem of_managers {w' : World} (h : w.Continues r) (hm : w'.managers = w.managers) :
    w'.Continues r := by
  intro ρ x hx
  rw [record?, hm] at hx
  exact h ρ x hx

end World.Continues

theorem put_managers (w : World) (r : RunId) (p : PutPayload) : (w.put r p).managers = w.managers := by
  unfold put
  split <;> rfl

theorem updateStatus_managers (w : World) (r : RunId) (status : RunStatus) (error : Option String)
    (expected : Option ℕ) : (w.updateStatus r status error expected).1.managers = w.managers := by
  unfold updateStatus
  split <;> rfl

def Consumer.Harmless (r : RunId) (c : Consumer) : Prop :=
  c.runId = r → ∀ x, c.held = .hydrated x → x.status.inflight = false

structure Gateway.Spared (r : RunId) (s : Gateway) : Prop where
  world : s.world.Continues r
  consumers : ∀ c ∈ s.consumers, c.Harmless r
  cancels : ∀ ρ, (ρ, r) ∉ s.cancels

/-- The run is created with `continue`; where `get` makes a record of its row, it is over or not
followed. -/
def GatewayAct.Mindful (crossReplica : Bool) (r : RunId) (s : Gateway) : GatewayAct → Prop
  | .create _ a => a.runId = r → a.onDisconnect = .continue_
  | .settle l _ => ∀ k ∈ s.lookups[l]?, k.runId = r →
      (s.world.managers k.replica).get? r = none → ∀ row ∈ k.row.join,
      row.status.inflight = false
        ∨ (crossReplica = false ∧ (k.endpoint = .join ∨ k.endpoint = .stream none))
  | _ => True

instance (crossReplica : Bool) (r : RunId) (s : Gateway) :
    DecidablePred (GatewayAct.Mindful crossReplica r s) := fun a => by
  unfold GatewayAct.Mindful
  split <;> infer_instance

namespace Gateway.Spared

variable {crossReplica passes : Bool} {r : RunId} {s : Gateway}

theorem proceed (h : s.Spared r) {k : Lookup} {found : Option (HeldRecord × RunRecord)}
    (hk : ∀ held x, found = some (held, x) → k.endpoint.follows crossReplica passes k.threadId x →
      (⟨.sse, k.replica, k.runId, held⟩ : Consumer).Harmless r) :
    (s.proceed crossReplica passes k found).Spared r := by
  unfold Gateway.proceed
  split
  · exact h
  · rename_i held x
    split_ifs with hf
    · exact ⟨h.world, forall_mem_append.2 ⟨h.consumers, forall_mem_singleton.2 (hk held x rfl hf)⟩,
        h.cancels⟩
    · exact h

theorem leave (h : s.Spared r) {c : Consumer} {completed : Bool} (hc : c.Harmless r) :
    (s.leave c completed).Spared r := by
  unfold Gateway.leave
  split
  · exact h
  · rename_i x hx
    split_ifs with hcancel
    · refine ⟨h.world, h.consumers, fun ρ hρ => ?_⟩
      rcases mem_append.1 hρ with hρ | hρ
      · exact h.cancels ρ hρ
      obtain ⟨-, hr⟩ := Prod.mk.inj (mem_singleton.1 hρ)
      -- the record is in flight and says `cancel`, which neither kind of record does
      have hflight : x.status.inflight ∧ x.onDisconnect = .cancel := by
        unfold ConsumerKind.finallyCancels at hcancel
        split at hcancel <;> simp_all
      cases hheld : c.held with
      | own =>
        rw [hheld] at hx
        have hcont := h.world c.replica x (hr ▸ hx)
        rw [hflight.2] at hcont
        cases hcont
      | hydrated y =>
        rw [hheld] at hx
        cases hx
        have hover := hc hr.symm x hheld
        rw [hflight.1] at hover
        cases hover
    · exact h

theorem settle (h : s.Spared r) {l : ℕ} {s' : Gateway}
    (ha : (GatewayAct.settle l passes).Mindful crossReplica r s)
    (hstep : (gateway crossReplica).step s (.settle l passes) = some s') : s'.Spared r := by
  obtain ⟨k, hk, hstep⟩ := bind_eq_some_iff.1 hstep
  obtain ⟨row, hrow, rfl⟩ := map_eq_some_iff.1 hstep
  have h' : ({ s with lookups := s.lookups.eraseIdx l } : Gateway).Spared r :=
    ⟨h.world, h.consumers, h.cancels⟩
  refine h'.proceed fun held x hfound hfollows hr y hy => ?_
  subst hy
  unfold Lookup.found at hfound
  split at hfound
  · cases hfound
  · rename_i hnone
    obtain ⟨row', rfl, heq⟩ := map_eq_some_iff.1 hfound
    cases heq
    rcases ha k hk hr (hr ▸ hnone) row' (by simp [hrow]) with hover | ⟨rfl, he⟩
    · exact hover
    · rcases he with he | he <;>
        simp [Endpoint.follows, he, RunRow.recordFromStore] at hfollows

theorem step (h : s.Spared r) {a : GatewayAct} {s' : Gateway} (ha : a.Mindful crossReplica r s)
    (hstep : (gateway crossReplica).step s a = some s') : s'.Spared r := by
  cases a with
  | create ρ a =>
    cases hstep
    exact ⟨h.world.register ha, h.consumers, h.cancels⟩
  | persist ρ r' error =>
    obtain ⟨x, -, rfl⟩ := map_eq_some_iff.1 hstep
    exact ⟨h.world.of_managers (put_managers ..), h.consumers, h.cancels⟩
  | retire ρ r' =>
    obtain ⟨x, -, rfl⟩ := map_eq_some_iff.1 hstep
    exact ⟨h.world.retire, h.consumers, h.cancels⟩
  | recordStatus ρ r' status =>
    cases hstep
    exact ⟨h.world.updateRecord fun _ => rfl, h.consumers, h.cancels⟩
  | rowStatus r' status =>
    cases hstep
    exact ⟨h.world.of_managers (updateStatus_managers ..), h.consumers, h.cancels⟩
  | follow kind ρ r' =>
    obtain ⟨x, -, rfl⟩ := map_eq_some_iff.1 hstep
    refine ⟨h.world, forall_mem_append.2 ⟨h.consumers, forall_mem_singleton.2 ?_⟩, h.cancels⟩
    exact fun _ _ hy => by cases hy
  | look e ρ t r' passes =>
    simp only [gateway] at hstep
    split at hstep
    · cases hstep
      exact h.proceed fun held x hfound _ _ y hy => by cases hfound; cases hy
    · split_ifs at hstep <;> cases hstep
      · exact ⟨h.world, h.consumers, h.cancels⟩
      · exact h
  | read l =>
    obtain ⟨k, -, rfl⟩ := map_eq_some_iff.1 hstep
    exact ⟨h.world, h.consumers, h.cancels⟩
  | settle l passes => exact h.settle ha hstep
  | wake c ev =>
    obtain ⟨x, hx, rfl⟩ := map_eq_some_iff.1 hstep
    split
    · exact h
    · have h' : ({ s with consumers := s.consumers.eraseIdx c } : Gateway).Spared r :=
        ⟨h.world, fun c hc => h.consumers c (mem_of_mem_eraseIdx hc), h.cancels⟩
      exact h'.leave (h.consumers x (mem_of_getElem? hx))

end Gateway.Spared

/-- In every run of the replicas in which the run is created with `continue` and a record of its row
is followed only once the run is over, no consumer cancels it. -/
theorem disconnect_spares_run {crossReplica : Bool} {r : RunId} {as : List GatewayAct}
    {s : Gateway} (hok : (gateway crossReplica).Along (fun s a => a.Mindful crossReplica r s) as {})
    (hrun : (gateway crossReplica).run as {} = some s) : ∀ ρ, (ρ, r) ∉ s.cancels := by
  have h0 : ({} : Gateway).Spared r :=
    ⟨fun ρ x hx => (nomatch hx), fun c hc => (not_mem_nil hc).elim, fun ρ => not_mem_nil⟩
  exact (Machine.run_inv (fun s a s' h ha hstep => h.step ha hstep) h0 hok hrun).cancels

def continuedRun : CreateArgs := { runId := "r", threadId := "t", onDisconnect := .continue_ }

/-- The creator's client goes away while the run is going, and one that follows it from replica 1
once it is over. -/
theorem late_follower_spares_run :
    let as : List GatewayAct := [.create 0 continuedRun, .persist 0 "r" none, .follow .sse 0 "r",
      .recordStatus 0 "r" .running, .wake 0 (.entry .heartbeat true true), .rowStatus "r" .success,
      .look .join 1 "t" "r" true, .read 0, .settle 0 true, .wake 0 .closed]
    ∃ s, (gateway true).run as {} = some s ∧ ∀ ρ, (ρ, "r") ∉ s.cancels := by
  intro as
  have hok : (gateway true).Along (fun s a => a.Mindful true "r" s) as {} := by decide
  exact ⟨_, rfl, disconnect_spares_run hok rfl⟩

/-- A client that follows the run from replica 1 while it is going cancels it by going away. -/
theorem follower_cancels_run : ∃ s, (gateway true).run [.create 0 continuedRun, .persist 0 "r" none,
        .look .join 1 "t" "r" true, .read 0, .settle 0 true,
        .wake 0 (.entry .heartbeat true true)] {} = some s
      ∧ s.cancels = [(1, "r")] :=
  ⟨_, rfl, rfl⟩

end DeerFlow

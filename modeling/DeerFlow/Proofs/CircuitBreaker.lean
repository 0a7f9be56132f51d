import DeerFlow.Agents.CircuitBreaker
import DeerFlow.Data.Slots

/-!
# The probe of the circuit breaker

The probe flag is cleared by whatever call records an outcome next. When the last call ends without
recording one, no call is admitted any more; and a call from before the breaker opened that records
its outcome lets another probe in.
-/

namespace DeerFlow

open ModelCall Circuit

namespace HandlerOutcome

/-- The `n`th attempt ends the call, and the breaker is told how. -/
def records (lower : String → String) (n : ℕ) : HandlerOutcome → Bool
  | .success | .bubbleUp => true
  | .error e => e.retriable lower && !decide (n < e.maxAttempts)
  | .cancelled => false

/-- The `n`th attempt ends the call, and the breaker is not told. -/
def isSilent (lower : String → String) (n : ℕ) : HandlerOutcome → Bool
  | .success | .bubbleUp => false
  | .error e => !e.retriable lower || n < e.maxAttempts && (e.buildRetryDelayMs n).isNone
  | .cancelled => true

end HandlerOutcome

namespace ModelCall

def isInFlight : ModelCall → Bool
  | .attempting _ _ | .sleeping _ _ => true
  | .done => false

def isProbe : ModelCall → Bool
  | .attempting _ probe | .sleeping _ probe => probe
  | .done => false

end ModelCall

namespace Circuit

variable {config : CircuitBreakerConfig} {c : Circuit} {now : ℤ}

def Coherent (c : Circuit) : Prop := c.probeInFlight = true → c.state = .halfOpen

theorem check_cases (c : Circuit) (now : ℤ) :
    c.check now = (true, c) ∧ (c.state = .open ∧ now < c.openUntil
        ∨ c.state = .halfOpen ∧ c.probeInFlight)
      ∨ c.check now = (false, c) ∧ c.state = .closed
      ∨ c.check now = (false, { c with state := .halfOpen, probeInFlight := true })
        ∧ (c.state = .open ∧ c.openUntil ≤ now
          ∨ c.state = .halfOpen ∧ c.probeInFlight = false) := by
  obtain ⟨count, until', state, flag⟩ := c
  cases state with
  | closed => exact .inr (.inl ⟨rfl, rfl⟩)
  | «open» =>
    by_cases hnow : now < until'
    · exact .inl ⟨by simp [check, hnow], .inl ⟨rfl, hnow⟩⟩
    · exact .inr (.inr ⟨by simp [check, hnow], .inl ⟨rfl, by simpa using hnow⟩⟩)
  | halfOpen =>
    cases flag with
    | true => exact .inl ⟨by simp [check], .inr ⟨rfl, rfl⟩⟩
    | false => exact .inr (.inr ⟨by simp [check], .inr ⟨rfl, rfl⟩⟩)

theorem check_admits (hflag : c.probeInFlight = false) (hnow : c.openUntil ≤ now) :
    (c.check now).1 = false := by
  rcases check_cases c now with ⟨-, ⟨-, hlt⟩ | ⟨-, htrue⟩⟩ | ⟨h, -⟩ | ⟨h, -⟩
  · omega
  · rw [hflag] at htrue
    cases htrue
  · rw [h]
  · rw [h]

theorem Coherent.check (h : c.Coherent) : (c.check now).2.Coherent := by
  rcases check_cases c now with ⟨heq, -⟩ | ⟨heq, -⟩ | ⟨heq, -⟩
  · rw [heq]
    exact h
  · rw [heq]
    exact h
  · rw [heq]
    exact fun _ => rfl

theorem flag_recordFailure (h : c.Coherent) : (c.recordFailure config now).probeInFlight = false := by
  have hclear : c.state ≠ .halfOpen → c.probeInFlight = false := fun hne => by
    by_contra hflag
    exact hne (h (by simpa using hflag))
  unfold recordFailure
  split_ifs with hhalf hthreshold hopen
  · rfl
  · exact hclear hhalf
  · rfl
  · exact hclear hhalf

theorem flag_bubbleUp (h : c.Coherent) : c.bubbleUp.probeInFlight = false := by
  unfold bubbleUp
  split_ifs with hhalf
  · rfl
  · by_contra hflag
    exact hhalf (h (by simpa using hflag))

theorem coherent_of_flag (h : c.probeInFlight = false) : c.Coherent := by
  intro hflag
  rw [h] at hflag
  cases hflag

end Circuit

namespace Middleware

def inFlight (s : Middleware) : ℕ := s.calls.countP isInFlight

def probes (s : Middleware) : ℕ := s.calls.countP isProbe

def endsSilently (lower : String → String) (s : Middleware) : MiddlewareAct → Bool
  | .attempt i outcome _ =>
    match s.calls[i]? with
    | some (.attempting n _) => outcome.isSilent lower n
    | _ => false
  | .cancel _ => true
  | .call _ | .wake _ => false

def Abandons (lower : String → String) (s : Middleware) (a : MiddlewareAct) : Prop :=
  s.endsSilently lower a = true ∧ s.inFlight = 1 ∧ s.circuit.probeInFlight = true

instance (lower : String → String) (s : Middleware) (a : MiddlewareAct) :
    Decidable (s.Abandons lower a) :=
  inferInstanceAs (Decidable (_ ∧ _ ∧ _))

/-- A call that is no probe tells the breaker how it ended, while a probe is on its way. -/
def intrudes (lower : String → String) (s : Middleware) : MiddlewareAct → Bool
  | .attempt i outcome _ =>
    match s.calls[i]? with
    | some (.attempting n false) => outcome.records lower n && decide (0 < s.probes)
    | _ => false
  | .call _ | .wake _ | .cancel _ => false

/-- With no call in flight the flag is clear, so that the next call is admitted when the recovery
timeout is over. -/
def Recovers (s : Middleware) : Prop :=
  s.inFlight = 0 → s.circuit.probeInFlight = false
    ∧ ∀ now, s.circuit.openUntil ≤ now → (s.circuit.check now).1 = false

variable {lower : String → String} {config : CircuitBreakerConfig} {s s' : Middleware}
  {a : MiddlewareAct}

/-- What a step does: it begins a call, moves one on, or ends one and tells the breaker or does
not. -/
inductive Moves (lower : String → String) (config : CircuitBreakerConfig) (s : Middleware) :
    MiddlewareAct → Middleware → Prop
  | begin (now : ℤ) : Moves lower config s (.call now) (s.call now)
  | turn {i : ℕ} {x y : ModelCall} {a : MiddlewareAct} (hi : s.calls[i]? = some x)
      (hx : x.isInFlight = true) (hy : y.isInFlight = true) (hp : y.isProbe = x.isProbe)
      (hloud : s.endsSilently lower a = false) : Moves lower config s a (s.setCall i y)
  | silent {i : ℕ} {x : ModelCall} {a : MiddlewareAct} (hi : s.calls[i]? = some x)
      (hx : x.isInFlight = true) (hs : s.endsSilently lower a = true) :
      Moves lower config s a (s.finish i s.circuit)
  | record {i n : ℕ} {probe : Bool} {c : Circuit} {a : MiddlewareAct}
      (hi : s.calls[i]? = some (.attempting n probe)) (hs : s.endsSilently lower a = false)
      (hc : s.circuit.Coherent → c.probeInFlight = false)
      (hin : probe = false → 0 < s.probes → s.intrudes lower a = true) :
      Moves lower config s a (s.finish i c)

theorem moves_of_attempt {i n : ℕ} {probe : Bool} {now : ℤ}
    (hi : s.calls[i]? = some (.attempting n probe)) (outcome : HandlerOutcome) :
    Moves lower config s (.attempt i outcome now) (s.attempt lower config i n probe now outcome) := by
  have hsilent : s.endsSilently lower (.attempt i outcome now) = outcome.isSilent lower n := by
    simp only [endsSilently, hi]
  have hintrudes (hrec : outcome.records lower n) (hp : probe = false) (hpos : 0 < s.probes) :
      s.intrudes lower (.attempt i outcome now) := by
    subst hp
    simp [intrudes, hi, hrec, hpos]
  cases outcome with
  | success => exact .record hi hsilent (fun _ => rfl) (hintrudes rfl)
  | bubbleUp => exact .record hi hsilent flag_bubbleUp (hintrudes rfl)
  | cancelled => exact .silent hi rfl hsilent
  | error e =>
    simp only [attempt]
    simp only [HandlerOutcome.isSilent] at hsilent
    split_ifs with hretry hdelay hr
    · simp only [Bool.and_eq_true, decide_eq_true_eq] at hretry
      exact .turn hi rfl rfl rfl (hsilent.trans (by simp [hretry, hdelay]))
    · simp only [Bool.and_eq_true, decide_eq_true_eq] at hretry
      exact .silent hi rfl (hsilent.trans (by simpa [hretry] using hdelay))
    · have hn : ¬ n < e.maxAttempts := fun hlt => hretry (by simp [hr, hlt])
      refine .record hi (hsilent.trans (by simp [hr, hn])) flag_recordFailure (hintrudes ?_)
      simp [HandlerOutcome.records, hr, hn]
    · exact .silent hi rfl (hsilent.trans (by simp [hr]))

theorem moves_of_step (h : (middleware lower config).step s a = some s') :
    Moves lower config s a s' := by
  cases a with
  | call now =>
    cases h
    exact .begin now
  | attempt i outcome now =>
    simp only [middleware] at h
    split at h
    · next n probe hi =>
      cases h
      exact moves_of_attempt hi outcome
    · cases h
  | wake i =>
    simp only [middleware] at h
    split at h
    · next n probe hi =>
      cases h
      exact .turn hi rfl rfl rfl rfl
    · cases h
  | cancel i =>
    simp only [middleware] at h
    split at h
    · next n probe hi =>
      cases h
      exact .silent hi rfl rfl
    · cases h

theorem coherent_step (hc : s.circuit.Coherent) (h : Moves lower config s a s') : s'.circuit.Coherent := by
  cases h with
  | begin now => exact hc.check
  | turn => exact hc
  | silent => exact hc
  | record hi hs hclear => exact coherent_of_flag (hclear hc)

theorem recovers_iff : s.Recovers ↔ (s.inFlight = 0 → s.circuit.probeInFlight = false) :=
  ⟨fun h h0 => (h h0).1, fun h h0 => ⟨h h0, fun _ hnow => check_admits (h h0) hnow⟩⟩

theorem inFlight_finish {i : ℕ} {x : ModelCall} {c : Circuit} (hi : s.calls[i]? = some x)
    (hx : x.isInFlight) : (s.finish i c).inFlight + 1 = s.inFlight := by
  have h := Slots.countP_set (y := .done) (p := isInFlight) hi
  rw [if_pos hx] at h
  exact h

theorem inFlight_setCall {i : ℕ} {x y : ModelCall} (hi : s.calls[i]? = some x)
    (hx : x.isInFlight) (hy : y.isInFlight) :
    (s.setCall i y).inFlight = s.inFlight := by
  have h := Slots.countP_set (y := y) (p := isInFlight) hi
  rw [if_pos hx, if_pos hy] at h
  exact Nat.add_right_cancel h

theorem inFlight_begin {c : Circuit} {x : ModelCall} :
    inFlight ⟨c, s.calls ++ [x]⟩ = s.inFlight + if x.isInFlight then 1 else 0 := by
  simp [inFlight, List.countP_append, List.countP_singleton]

theorem recovers_call (now : ℤ) (h : s.Recovers) : (s.call now).Recovers := by
  rw [recovers_iff] at h ⊢
  unfold call
  rcases check_cases s.circuit now with ⟨heq, -⟩ | ⟨heq, -⟩ | ⟨heq, -⟩
  · rw [heq, inFlight_begin]
    exact h
  · rw [heq, inFlight_begin]
    exact fun h0 => absurd h0 (Nat.succ_ne_zero _)
  · rw [heq, inFlight_begin]
    exact fun h0 => absurd h0 (Nat.succ_ne_zero _)

theorem not_abandons (h : s.endsSilently lower a = false) : ¬ s.Abandons lower a := by
  rintro ⟨hs, -⟩
  rw [h] at hs
  cases hs

theorem recovers_step_iff (hc : s.circuit.Coherent) (hrec : s.Recovers)
    (h : Moves lower config s a s') : s'.Recovers ↔ ¬ s.Abandons lower a := by
  cases h with
  | begin now => exact iff_of_true (recovers_call now hrec) (not_abandons rfl)
  | turn hi hx hy hp hloud =>
    refine iff_of_true ?_ (not_abandons hloud)
    rw [recovers_iff, inFlight_setCall hi hx hy]
    exact recovers_iff.1 hrec
  | silent hi hx hs =>
    have hfin := inFlight_finish (c := s.circuit) hi hx
    rw [recovers_iff]
    constructor
    · rintro h ⟨-, hone, hflag⟩
      have hclear : s.circuit.probeInFlight = false := h (by omega)
      rw [hflag] at hclear
      cases hclear
    · intro h h0
      cases hflag : s.circuit.probeInFlight with
      | false => exact hflag
      | true => exact absurd ⟨hs, by omega, hflag⟩ h
  | record hi hs hclear hin =>
    refine iff_of_true ?_ (not_abandons hs)
    rw [recovers_iff]
    exact fun _ => hclear hc

/-- A run recovers in all of its states exactly if none of its steps ends the last call in flight
silently while the flag is set: by a cancellation, an error that is not retried, or an exception for
the delay. -/
theorem breaker_never_sticks_iff {as : List MiddlewareAct} {s : Middleware}
    (h : (middleware lower config).run as {} = some s) :
    (∀ bs t, bs <+: as → (middleware lower config).run bs {} = some t → t.Recovers)
      ↔ (middleware lower config).Along (fun s a => ¬ s.Abandons lower a) as {} := by
  refine (Machine.along_iff_prefixes (I := fun s => s.circuit.Coherent)
    (fun s a s' hI hs => coherent_step hI (moves_of_step hs))
    (fun s a s' hI hP hs => recovers_step_iff hI hP (moves_of_step hs)) ?_ ?_ h).symm
  · exact coherent_of_flag rfl
  · exact recovers_iff.2 fun _ => rfl

def stalled : ProviderError := { className := "StreamChunkTimeoutError" }

def badRequest : ProviderError := { className := "BadRequestError", text := "context too long" }

def endlessRetry : ProviderError := { stalled with retryAfter := .overflow }

def probeRun (outcome : HandlerOutcome) : List MiddlewareAct :=
  [.call 0, .attempt 0 (.error stalled) 0, .wake 0, .attempt 0 (.error stalled) 0,
    .call 60, .attempt 1 outcome 60]

/-- A probe that is cancelled, that the provider rejects for good or that it asks to wait for ever
leaves a breaker that admits no call at any later time. -/
theorem ended_probe_sticks : ∃ s, (∀ outcome ∈ [.cancelled, .error badRequest, .error endlessRetry],
        (middleware String.toLower ⟨1, 60⟩).run (probeRun outcome) {} = some s)
      ∧ s.inFlight = 0 ∧ s.circuit.probeInFlight = true ∧ ∀ now, (s.circuit.check now).1 = true :=
  ⟨⟨⟨1, 60, .halfOpen, true⟩, [.done, .done]⟩, by decide +kernel, rfl, rfl, fun _ => rfl⟩

theorem probe_success_recovers :
    ∃ s, (middleware String.toLower ⟨1, 60⟩).run (probeRun .success) {} = some s
      ∧ ∀ bs t, bs <+: probeRun .success →
        (middleware String.toLower ⟨1, 60⟩).run bs {} = some t → t.Recovers := by
  have h : (middleware String.toLower ⟨1, 60⟩).run (probeRun .success) {}
      = some ⟨{}, [.done, .done]⟩ := by decide +kernel
  exact ⟨_, h, (breaker_never_sticks_iff h).2 (by decide +kernel)⟩

structure OneProbe (s : Middleware) : Prop where
  one : s.probes ≤ 1
  known : 0 < s.probes → s.circuit.state = .halfOpen ∧ s.circuit.probeInFlight = true

theorem probes_begin {c : Circuit} {x : ModelCall} :
    probes ⟨c, s.calls ++ [x]⟩ = s.probes + if x.isProbe then 1 else 0 := by
  simp [probes, List.countP_append, List.countP_singleton]

theorem probes_finish {i : ℕ} {x : ModelCall} {c : Circuit} (hi : s.calls[i]? = some x) :
    (s.finish i c).probes + (if x.isProbe then 1 else 0) = s.probes := by
  have h := Slots.countP_set (y := .done) (p := isProbe) hi
  exact h

theorem probes_setCall {i : ℕ} {x y : ModelCall} (hi : s.calls[i]? = some x)
    (hp : y.isProbe = x.isProbe) : (s.setCall i y).probes = s.probes := by
  have h := Slots.countP_set (y := y) (p := isProbe) hi
  rw [hp] at h
  exact Nat.add_right_cancel h

theorem OneProbe.call (h : s.OneProbe) (now : ℤ) : (s.call now).OneProbe := by
  unfold Middleware.call
  rcases check_cases s.circuit now with ⟨heq, -⟩ | ⟨heq, hclosed⟩ | ⟨heq, hadmit⟩
  · rw [heq]
    refine ⟨?_, ?_⟩ <;> rw [probes_begin]
    · exact h.one
    · exact h.known
  · rw [heq]
    have hplain : (attempting 1 (decide (s.circuit.state = .halfOpen))).isProbe = false := by
      rw [hclosed]
      rfl
    refine ⟨?_, ?_⟩ <;> rw [probes_begin, if_neg Bool.false_ne_true, hplain, if_neg Bool.false_ne_true]
    · exact h.one
    · exact h.known
  · have hzero : s.probes = 0 := by
      by_contra hne
      obtain ⟨hstate, hflag⟩ := h.known (Nat.pos_of_ne_zero hne)
      rcases hadmit with ⟨hopen, -⟩ | ⟨-, hclear⟩
      · rw [hstate] at hopen
        cases hopen
      · rw [hflag] at hclear
        cases hclear
    rw [heq]
    refine ⟨?_, fun _ => ⟨rfl, rfl⟩⟩
    rw [probes_begin, hzero]
    exact Nat.le_refl 1

theorem OneProbe.step (h : s.OneProbe) (hm : Moves lower config s a s') (hok : ¬ s.intrudes lower a) :
    s'.OneProbe := by
  cases hm with
  | begin now => exact h.call now
  | turn hi hx hy hp hloud =>
    refine ⟨?_, ?_⟩ <;> rw [probes_setCall hi hp]
    · exact h.one
    · exact h.known
  | silent hi hx hs =>
    have hfin := probes_finish (c := s.circuit) hi
    have hone := h.one
    exact ⟨by omega, fun hpos => h.known (by omega)⟩
  | record hi hs hclear hin =>
    next i n probe c =>
    have hfin := probes_finish (c := c) hi
    have hone := h.one
    have hzero : (s.finish i c).probes = 0 := by
      cases probe with
      | true =>
        simp only [isProbe, if_true] at hfin
        omega
      | false =>
        by_contra hne
        exact hok (hin rfl (by omega))
    exact ⟨by omega, fun hpos => by omega⟩

/-- In every run in which no call from before the breaker opened tells it how it ended while a
probe is on its way, at most one probe is. No call is ever admitted to an open breaker before its
time. -/
theorem half_open_admits_one_probe {s : Middleware} :
    (∀ as, (middleware lower config).run as {} = some s →
      (middleware lower config).Along (fun s a => ¬ s.intrudes lower a = true) as {} →
      s.probes ≤ 1) ∧
    ∀ now, s.circuit.state = .open → now < s.circuit.openUntil →
      s.call now = { s with calls := s.calls ++ [.done] } := by
  have hfresh : OneProbe {} := ⟨Nat.zero_le 1, fun hpos => absurd hpos (Nat.lt_irrefl 0)⟩
  refine ⟨fun as h hok => ?_, fun now hopen hnow => ?_⟩
  · exact (Machine.run_inv (fun s a s' hI hok hs => hI.step (moves_of_step hs) hok) hfresh hok h).one
  · simp [Middleware.call, check, hopen, hnow]

/-- A call is bubbled up while the probe is on its way, and the next one is admitted as well. -/
def twoProbesRun : List MiddlewareAct :=
  [.call 0, .call 0, .attempt 0 (.error stalled) 0, .wake 0, .attempt 0 (.error stalled) 0,
    .call 60, .attempt 1 .bubbleUp 60, .call 61]

theorem old_call_admits_second_probe :
    ∃ s, (middleware String.toLower ⟨1, 60⟩).run twoProbesRun {} = some s ∧ s.probes = 2 :=
  ⟨⟨⟨1, 60, .halfOpen, true⟩, [.done, .done, .attempting 1 true, .attempting 1 true]⟩,
    by decide +kernel, rfl⟩

theorem probeRun_admits_one :
    ∃ s, (middleware String.toLower ⟨1, 60⟩).run ((probeRun .success).take 5) {} = some s
      ∧ 0 < s.probes ∧ s.probes ≤ 1 := by
  have h : (middleware String.toLower ⟨1, 60⟩).run ((probeRun .success).take 5) {}
      = some ⟨⟨1, 60, .halfOpen, true⟩, [.done, .attempting 1 true]⟩ := by decide +kernel
  exact ⟨_, h, by decide, half_open_admits_one_probe.1 _ h (by decide +kernel)⟩

end Middleware

end DeerFlow

import DeerFlow.Data.Slots
import DeerFlow.Mcp.ToolsCache

/-!
# The cached tools and the config file

The modification time that stands for the cached tools is recorded after the file was read. A write
in between makes tools look newer than they are, a file that is created later is never looked at, a
reset takes the tools from under another call, and the lock refuses a call on another loop. Where
none of this happens, returned tools are as new as the file was when they were asked for.
-/

namespace DeerFlow

open List Option Slots ToolsPhase Machine

namespace ToolsPhase

def readsFile : ToolsPhase → Bool
  | .loaded _ | .stored | .flagged => true
  | _ => false

def resetting : ToolsPhase → Bool
  | .resetFlag | .resetMtime => true
  | _ => false

def countsOnCache : ToolsPhase → Bool
  | .stored | .flagged | .leaving | .returning => true
  | _ => false

def holdsLock : ToolsPhase → Bool
  | .locked | .loading | .loaded _ | .stored | .flagged | .leaving => true
  | _ => false

end ToolsPhase

def ToolsCache.others (s : ToolsCache) (i : ℕ) : List ToolsPhase :=
  (s.calls.eraseIdx i).map ToolsCall.phase

/-- The file is not written between the read of a load and the record of its modification time, nor
created once tools are cached; no call goes on while another resets the globals it counts on, or
comes to the lock while another has it or waits for it. -/
def undisturbedTools (s : ToolsCache) : ToolsAct → Bool
  | .edit _ => s.calls.all (fun c => !c.phase.readsFile) && (!s.initialized || s.configMtime.isSome)
  | .step i =>
    (s.others i).all (fun p => !p.resetting) &&
      (s.calls[i]?.all (fun c => c.phase ≠ .resetCache) ||
        (s.others i).all fun p => !p.countsOnCache) &&
      s.calls[i]?.all fun c => c.phase ≠ .locking || s.lock = none && s.waiters = []
  | _ => true

def ToolsCall.Known (s : ToolsCache) (c : ToolsCall) : Prop :=
  match c.phase with
  | .judging none => c.since = 0
  | .judging (some mtime) => ∃ k, c.since ≤ k + 1 ∧ s.mtimes[k]? = some mtime
  | .asking | .locking | .locked => ∀ g, s.cache = some g → s.initialized = true → c.since ≤ g
  | .loading => s.initialized = false
  | .loaded g => g = s.generation ∧ s.initialized = false
  | .stored => s.cache = some s.generation ∧ s.initialized = false
  | .flagged => s.cache = some s.generation ∧ s.initialized = true
  | .leaving | .returning => s.initialized = true ∧ ∃ g, s.cache = some g ∧ c.since ≤ g
  | .resetMtime => s.initialized = false
  | .done tools => c.get = true → ∃ g, tools = some g ∧ c.since ≤ g
  | .waiting | .failed => False
  | _ => True

def ToolsCache.Recorded (s : ToolsCache) : Prop :=
  ∃ g, s.cache = some g ∧ (s.configMtime = none → g = s.generation) ∧
    ∀ m, s.configMtime = some m → ∃ k, g = k + 1 ∧ s.mtimes[k]? = some m

structure ToolsCache.Coherent (s : ToolsCache) : Prop where
  sorted : s.mtimes.Pairwise (· < ·)
  since : ∀ c ∈ s.calls, c.since ≤ s.generation
  lock : ∀ (i : ℕ) (c : ToolsCall), s.calls[i]? = some c → c.phase.holdsLock = true →
    s.lock = some i
  known : ∀ c ∈ s.calls, c.Known s
  alone : ∀ (i j : ℕ) (c d : ToolsCall), s.calls[i]? = some c → s.calls[j]? = some d → i ≠ j →
    c.phase.resetting = true → d.phase.countsOnCache = false ∧ d.phase.resetting = false
  cached : (∀ c ∈ s.calls, c.phase.resetting = false) → s.initialized = true → s.Recorded
  unset : (∀ c ∈ s.calls, c.phase.resetting = false) → s.initialized = false →
    s.configMtime = none

section Step

variable {s s1 : ToolsCache} {i : ℕ} {c : ToolsCall} {phase : ToolsPhase}

def ToolsCache.Quiet (s : ToolsCache) (i : ℕ) : Prop :=
  ∀ (j : ℕ) (d : ToolsCall), j ≠ i → s.calls[j]? = some d → d.phase.resetting = false

/-- All calls but number `i`. -/
def ToolsCache.Others (s : ToolsCache) (i : ℕ) (P : ℕ → ToolsCall → Prop) : Prop :=
  ∀ (j : ℕ) (d : ToolsCall), j ≠ i → s.calls[j]? = some d → P j d

theorem ToolsCache.mem_others {j : ℕ} {d : ToolsCall} (hj : s.calls[j]? = some d) (hne : j ≠ i) :
    d.phase ∈ s.others i :=
  mem_map_of_mem (mem_eraseIdx_iff_getElem?.2 ⟨j, hne, hj⟩)

theorem ToolsCache.Quiet.all (hquiet : s.Quiet i) (hi : s.calls[i]? = some c)
    (hc : c.phase.resetting = false) : ∀ d ∈ s.calls, d.phase.resetting = false := by
  intro d hd
  obtain ⟨j, hj⟩ := mem_iff_getElem?.1 hd
  by_cases hji : j = i
  · subst hji
    rw [hi] at hj
    cases hj
    exact hc
  · exact hquiet j d hji hj

theorem ToolsCache.Coherent.moveTo (hs : s.Coherent) (hi : s.calls[i]? = some c)
    (hquiet : s.Quiet i) (hcalls : s1.calls = s.calls) (hmtimes : s1.mtimes = s.mtimes)
    (hlock : s.Others i fun j d => d.phase.holdsLock → s1.lock = some j)
    (hlock' : phase.holdsLock → s1.lock = some i)
    (hothers : s.Others i fun _ d => d.Known s1)
    (hself : ToolsCall.Known s1 { c with phase })
    (halone : phase.resetting → s.Others i fun _ d => d.phase.countsOnCache = false)
    (hcached : phase.resetting = false → s1.initialized → s1.Recorded)
    (hunset : phase.resetting = false → s1.initialized = false → s1.configMtime = none) :
    (s1.moveTo i c phase).Coherent := by
  have hcases : ∀ {j : ℕ} {d : ToolsCall}, (s1.moveTo i c phase).calls[j]? = some d →
      j = i ∧ d = { c with phase } ∨ j ≠ i ∧ s.calls[j]? = some d := by
    intro j d hj
    change (s1.calls.set i { c with phase })[j]? = some d at hj
    rw [hcalls] at hj
    exact getElem?_set_cases hj
  have hphase : (∀ d ∈ (s1.moveTo i c phase).calls, d.phase.resetting = false) →
      phase.resetting = false := by
    intro h
    refine h { c with phase } ?_
    change _ ∈ s1.calls.set i { c with phase }
    rw [hcalls]
    exact mem_set hi
  refine ⟨hmtimes ▸ hs.sorted, fun d hd => ?_, fun j d hj hd => ?_, fun d hd => ?_,
    fun j k d e hj hk hne hd => ?_, fun h => hcached (hphase h), fun h => hunset (hphase h)⟩
  · obtain ⟨j, hj⟩ := mem_iff_getElem?.1 hd
    change d.since ≤ s1.mtimes.length
    rw [hmtimes]
    rcases hcases hj with ⟨-, rfl⟩ | ⟨-, hj⟩
    · exact hs.since c (mem_of_getElem? hi)
    · exact hs.since d (mem_of_getElem? hj)
  · rcases hcases hj with ⟨rfl, rfl⟩ | ⟨hne, hj⟩
    · exact hlock' hd
    · exact hlock j d hne hj hd
  · obtain ⟨j, hj⟩ := mem_iff_getElem?.1 hd
    rcases hcases hj with ⟨-, rfl⟩ | ⟨hne, hj⟩
    · exact hself
    · exact hothers j d hne hj
  · rcases hcases hj with ⟨rfl, rfl⟩ | ⟨hji, hj⟩
    · rcases hcases hk with ⟨rfl, -⟩ | ⟨hki, hk⟩
      · exact absurd rfl hne
      · exact ⟨halone hd k e hki hk, hquiet k e hki hk⟩
    · rw [hquiet j d hji hj] at hd
      cases hd

theorem ToolsCache.Coherent.keeps (hs : s.Coherent) : s.Others i fun _ d => d.Known s :=
  fun _ d _ hj => hs.known d (mem_of_getElem? hj)

theorem ToolsCache.Coherent.locks (hs : s.Coherent) :
    s.Others i fun j d => d.phase.holdsLock → s.lock = some j :=
  fun j d _ hj => hs.lock j d hj

theorem ToolsCache.Coherent.goesOn (hs : s.Coherent) (hi : s.calls[i]? = some c)
    (hquiet : s.Quiet i) (hc : c.phase.resetting = false) (hphase : phase.resetting = false)
    (hlock : phase.holdsLock → c.phase.holdsLock)
    (hself : ToolsCall.Known s { c with phase }) : (s.moveTo i c phase).Coherent := by
  have hall := hquiet.all hi hc
  refine hs.moveTo hi hquiet rfl rfl hs.locks (fun h => hs.lock i c hi (hlock h)) hs.keeps hself
    (fun h => ?_) (fun _ => hs.cached hall) (fun _ => hs.unset hall)
  rw [hphase] at h
  cases h

theorem ToolsCache.Coherent.since_le_of_not_stale {mtime : Option ℤ} (hs : s.Coherent)
    (hall : ∀ d ∈ s.calls, d.phase.resetting = false) (hi : s.calls[i]? = some c)
    (hc : c.phase = .judging mtime) (hstale : s.isStale mtime = false) {g : ℕ}
    (hg : s.cache = some g) (hinit : s.initialized) : c.since ≤ g := by
  obtain ⟨g', hg', hnone, hsome⟩ := hs.cached hall hinit
  rw [hg] at hg'
  cases hg'
  have hmem := mem_of_getElem? hi
  have hknown := hs.known c hmem
  unfold ToolsCall.Known at hknown
  rw [hc] at hknown
  cases hm : s.configMtime with
  | none =>
    rw [hnone hm]
    exact hs.since c hmem
  | some m =>
    obtain ⟨k, rfl, hk⟩ := hsome m hm
    cases mtime with
    | none =>
      have hzero : c.since = 0 := hknown
      omega
    | some now =>
      obtain ⟨l, hl, hnow⟩ := hknown
      simp only [isStale, hm, decide_eq_false_iff_not, not_lt] at hstale
      by_contra hlt
      have hkl : k < l := by omega
      obtain ⟨hklen, rfl⟩ := List.getElem?_eq_some_iff.1 hk
      obtain ⟨hllen, rfl⟩ := List.getElem?_eq_some_iff.1 hnow
      exact absurd (pairwise_iff_getElem.1 hs.sorted k l hklen hllen hkl) (not_lt.2 hstale)

theorem ToolsCache.Coherent.not_holds (hs : s.Coherent) (hi : s.calls[i]? = some c)
    (hc : c.phase.holdsLock) : s.Others i fun _ d => d.phase.holdsLock = false := by
  intro j d hne hj
  by_contra hd
  have := (hs.lock i c hi hc).symm.trans (hs.lock j d hj (eq_true_of_ne_false hd))
  exact hne (some.inj this).symm

/-- What a call is to find when it returns. -/
theorem ToolsCache.Coherent.returns (hs : s.Coherent) (hall : ∀ d ∈ s.calls, d.phase.resetting = false)
    (hinit : s.initialized) (hle : ∀ g, s.cache = some g → s.initialized → c.since ≤ g) :
    s.initialized ∧ ∃ g, s.cache = some g ∧ c.since ≤ g := by
  obtain ⟨g, hg, -⟩ := hs.cached hall hinit
  exact ⟨hinit, g, hg, hle g hg hinit⟩

section Globals

variable {d : ToolsCall}

theorem ToolsCall.Known.dropCache (h : d.Known s) (hd : d.phase.countsOnCache = false) :
    d.Known { s with cache := none } := by
  unfold ToolsCall.Known at *
  split <;> simp_all [countsOnCache, ToolsCache.generation]

theorem ToolsCall.Known.storeCache (h : d.Known s) (hsince : d.since ≤ s.generation) :
    d.Known { s with cache := some s.generation } := by
  unfold ToolsCall.Known at *
  split <;> simp_all [ToolsCache.generation]

theorem ToolsCall.Known.clearFlag (h : d.Known s) (hd : d.phase.countsOnCache = false) :
    d.Known { s with initialized := false } := by
  unfold ToolsCall.Known at *
  split <;> simp_all [countsOnCache, ToolsCache.generation]

theorem ToolsCall.Known.setFlag (h : d.Known s) (hcache : s.cache = some s.generation)
    (hsince : d.since ≤ s.generation) (hlock : d.phase.holdsLock = false)
    (hquiet : d.phase.resetting = false) : d.Known { s with initialized := true } := by
  unfold ToolsCall.Known at *
  split <;> simp_all [holdsLock, resetting, ToolsCache.generation]

theorem getElem?_append_of_some {ms ns : List ℤ} {k : ℕ} {m : ℤ} (h : ms[k]? = some m) :
    (ms ++ ns)[k]? = some m := by
  rw [getElem?_append_left (lt_of_getElem? h)]
  exact h

theorem ToolsCall.Known.edit {mtime : ℤ} (h : d.Known s) (hread : d.phase.readsFile = false) :
    d.Known { s with mtimes := s.mtimes ++ [mtime] } := by
  unfold ToolsCall.Known at *
  cases hp : d.phase with
  | judging m =>
    rw [hp] at h
    cases m with
    | none => exact h
    | some m =>
      obtain ⟨k, hk, hkm⟩ := h
      exact ⟨k, hk, getElem?_append_of_some hkm⟩
  | loaded g | stored | flagged =>
    rw [hp] at hread
    cases hread
  | _ =>
    rw [hp] at h
    exact h

end Globals

theorem ToolsCache.last_of_getConfigMtime {m : ℤ} (h : s.getConfigMtime = some m) :
    ∃ k, s.generation = k + 1 ∧ s.mtimes[k]? = some m := by
  have hlast : s.mtimes[s.mtimes.length - 1]? = some m := (getLast?_eq_getElem?).symm.trans h
  have hlt := lt_of_getElem? hlast
  exact ⟨s.mtimes.length - 1, by unfold generation; omega, hlast⟩

/-- A call that holds the lock: it loads the tools and assigns the globals, or has nothing to do. -/
theorem ToolsCache.Coherent.stepHolder {s' : ToolsCache} (hs : s.Coherent)
    (hi : s.calls[i]? = some c) (hquiet : s.Quiet i) (hc : c.phase.holdsLock)
    (h : s.stepCall i c = some s') : s'.Coherent := by
  have hmem := mem_of_getElem? hi
  have hknown := hs.known c hmem
  have hlock := hs.lock i c hi hc
  have hall := hquiet.all hi
  have hholder := hs.not_holds hi hc
  have hsince := hs.since c hmem
  obtain ⟨get, loop, retry, since, phase⟩ := c
  cases phase with
  | locked =>
    cases h
    split_ifs with hinit
    · exact hs.goesOn hi hquiet rfl rfl (fun _ => rfl) (hs.returns (hall rfl) hinit hknown)
    · exact hs.goesOn hi hquiet rfl rfl (fun _ => rfl) (eq_false_of_ne_true hinit)
  | loading =>
    cases h
    exact hs.goesOn hi hquiet rfl rfl (fun _ => rfl) ⟨rfl, hknown⟩
  | loaded generation =>
    cases h
    obtain ⟨rfl, hinit⟩ := hknown
    exact hs.moveTo hi hquiet rfl rfl hs.locks (fun _ => hlock)
      (fun j d hne hj => (hs.keeps j d hne hj).storeCache (hs.since d (mem_of_getElem? hj)))
      ⟨rfl, hinit⟩ nofun (fun _ h => absurd h (Bool.eq_false_iff.1 hinit))
      fun _ => hs.unset (hall rfl)
  | stored =>
    cases h
    obtain ⟨hcache, hinit⟩ := hknown
    have hmtime := hs.unset (hall rfl) hinit
    exact hs.moveTo hi hquiet rfl rfl hs.locks (fun _ => hlock)
      (fun j d hne hj => (hs.keeps j d hne hj).setFlag hcache (hs.since d (mem_of_getElem? hj))
        (hholder j d hne hj) (hquiet j d hne hj))
      ⟨hcache, rfl⟩ nofun
      (fun _ _ => ⟨s.generation, hcache, fun _ => rfl, fun m hm => by
        rw [show s.configMtime = some m from hm] at hmtime
        cases hmtime⟩) nofun
  | flagged =>
    cases h
    obtain ⟨hcache, hinit⟩ := hknown
    exact hs.moveTo hi hquiet rfl rfl hs.locks (fun _ => hlock) hs.keeps
      ⟨hinit, s.generation, hcache, hsince⟩ nofun
      (fun _ _ => ⟨s.generation, hcache, fun _ => rfl, fun m hm =>
        last_of_getConfigMtime hm⟩)
      fun _ h => absurd hinit (Bool.eq_false_iff.1 h)
  | leaving =>
    cases h
    have hleave : ∀ p : ToolsPhase, p.resetting = false → p.holdsLock = false →
        ToolsCall.Known { s with lock := none } ⟨get, loop, retry, since, p⟩ →
        ({ s with lock := none }.moveTo i ⟨get, loop, retry, since, .leaving⟩ p).Coherent := by
      intro p hp hp' hself
      exact hs.moveTo hi hquiet rfl rfl
        (fun j d hne hj hd => absurd hd (Bool.eq_false_iff.1 (hholder j d hne hj)))
        (fun h => absurd h (Bool.eq_false_iff.1 hp')) hs.keeps hself
        (fun h => absurd h (Bool.eq_false_iff.1 hp)) (fun _ => hs.cached (hall rfl))
        fun _ => hs.unset (hall rfl)
    split_ifs with hget
    · exact hleave .returning rfl rfl hknown
    · exact hleave (.done s.cache) rfl rfl fun h => absurd h hget
  | _ => cases hc

theorem ToolsCache.Coherent.stepCall {s' : ToolsCache} (hs : s.Coherent)
    (hi : s.calls[i]? = some c) (hquiet : s.Quiet i)
    (hreset : c.phase = .resetCache → s.Others i fun _ d => d.phase.countsOnCache = false)
    (hfree : c.phase = .locking → s.lock = none ∧ s.waiters = []) (h : s.stepCall i c = some s') :
    s'.Coherent := by
  have hmem := mem_of_getElem? hi
  have hknown := hs.known c hmem
  have hall := hquiet.all hi
  obtain ⟨get, loop, retry, since, phase⟩ := c
  cases phase with
  | checking =>
    cases h
    split_ifs with hinit
    · exact hs.goesOn hi hquiet rfl rfl nofun trivial
    · exact hs.goesOn hi hquiet rfl rfl nofun fun g _ hinit' => absurd hinit' hinit
  | comparing =>
    cases h
    refine hs.goesOn hi hquiet rfl rfl nofun ?_
    have hsince := hs.since _ hmem
    cases hlast : s.getConfigMtime with
    | none =>
      rw [generation, getLast?_eq_none_iff.1 hlast] at hsince
      exact Nat.le_zero.1 hsince
    | some m =>
      obtain ⟨k, hk, hkm⟩ := last_of_getConfigMtime hlast
      exact ⟨k, hk ▸ hsince, hkm⟩
  | judging mtime =>
    cases h
    split_ifs with hstale
    · exact hs.goesOn hi hquiet rfl rfl nofun trivial
    · exact hs.goesOn hi hquiet rfl rfl nofun fun g hg hinit =>
        hs.since_le_of_not_stale (hall rfl) hi rfl (eq_false_of_ne_true hstale) hg hinit
  | resetCache =>
    cases h
    exact hs.moveTo hi hquiet rfl rfl hs.locks nofun
      (fun j d hne hj => (hs.keeps j d hne hj).dropCache (hreset rfl j d hne hj)) trivial
      (fun _ => hreset rfl) nofun nofun
  | resetFlag =>
    cases h
    have halone : s.Others i fun _ d => d.phase.countsOnCache = false :=
      fun j d hne hj => (hs.alone i j _ d hi hj hne.symm rfl).1
    exact hs.moveTo hi hquiet rfl rfl hs.locks nofun
      (fun j d hne hj => (hs.keeps j d hne hj).clearFlag (halone j d hne hj)) rfl
      (fun _ => halone) nofun nofun
  | resetMtime =>
    cases h
    have hoff : s.initialized ≠ true := Bool.eq_false_iff.1 hknown
    exact hs.moveTo hi hquiet rfl rfl hs.locks nofun hs.keeps (fun g _ h => absurd h hoff) nofun
      (fun _ h => absurd h hoff) fun _ _ => rfl
  | asking =>
    cases h
    split_ifs with hinit
    · exact hs.goesOn hi hquiet rfl rfl nofun (hs.returns (hall rfl) hinit hknown)
    · exact hs.goesOn hi hquiet rfl rfl nofun fun g _ hinit' => absurd hinit' hinit
  | locking =>
    have hfree := hfree rfl
    simp only [ToolsCache.stepCall, if_pos hfree] at h
    cases h
    exact hs.moveTo hi hquiet rfl rfl
      (fun j d hne hj hd => by rw [hs.lock j d hj hd] at hfree; cases hfree.1) (fun _ => rfl)
      hs.keeps hknown nofun (fun _ => hs.cached (hall rfl)) fun _ => hs.unset (hall rfl)
  | waiting | failed => exact hknown.elim
  | returning =>
    cases h
    exact hs.goesOn hi hquiet rfl rfl nofun fun _ => hknown.2
  | done tools => cases h
  | _ => exact hs.stepHolder hi hquiet rfl h

theorem ToolsCache.Coherent.edit {mtime : ℤ} (hs : s.Coherent)
    (hwindow : ∀ c ∈ s.calls, c.phase.readsFile = false)
    (hrecorded : s.initialized → s.configMtime ≠ none)
    (hlater : s.getConfigMtime.all (· < mtime)) :
    Coherent { s with mtimes := s.mtimes ++ [mtime] } := by
  have hgrow : s.generation ≤ (s.mtimes ++ [mtime]).length := by
    rw [length_append]
    exact Nat.le_add_right _ _
  refine ⟨?_, fun c hc => Nat.le_trans (hs.since c hc) hgrow, hs.lock, fun c hc => ?_, hs.alone,
    fun hall hinit => ?_, hs.unset⟩
  · refine pairwise_concat hs.sorted fun m hm => ?_
    unfold getConfigMtime at hlater
    cases hlast : s.mtimes.getLast? with
    | none =>
      rw [getLast?_eq_none_iff.1 hlast] at hm
      cases hm
    | some last =>
      rw [hlast] at hlater
      have hlt : last < mtime := of_decide_eq_true hlater
      obtain ⟨init, hinit⟩ := getLast?_eq_some_iff.1 hlast
      have hsorted := hs.sorted
      rw [hinit] at hm hsorted
      rcases mem_append.1 hm with hm | hm
      · have := (pairwise_append.1 hsorted).2.2 m hm last (mem_singleton_self _)
        omega
      · rw [mem_singleton.1 hm]
        exact hlt
  · exact (hs.known c hc).edit (hwindow c hc)
  · obtain ⟨g, hg, hnone, hsome⟩ := hs.cached hall hinit
    refine ⟨g, hg, fun h => absurd h (hrecorded hinit), fun m hm => ?_⟩
    obtain ⟨k, hk, hkm⟩ := hsome m hm
    exact ⟨k, hk, getElem?_append_of_some hkm⟩

theorem ToolsCache.Coherent.addCall (hs : s.Coherent) (hsince : c.since ≤ s.generation)
    (hknown : c.Known s) (hlock : c.phase.holdsLock = false) (hreset : c.phase.resetting = false)
    (hcounts : c.phase.countsOnCache = false) :
    Coherent { s with calls := s.calls ++ [c] } := by
  have hall : (∀ d ∈ s.calls ++ [c], d.phase.resetting = false) →
      ∀ d ∈ s.calls, d.phase.resetting = false := fun h d hd => h d (mem_append_left _ hd)
  refine ⟨hs.sorted, forall_mem_concat hs.since hsince, fun j d hj hd => ?_,
    forall_mem_concat hs.known hknown,
    fun j k d e hj hk hne hd => ?_, fun h => hs.cached (hall h), fun h => hs.unset (hall h)⟩
  · rcases getElem?_concat_cases hj with hj | ⟨-, rfl⟩
    · exact hs.lock j d hj hd
    · rw [hlock] at hd
      cases hd
  · rcases getElem?_concat_cases hj with hj | ⟨-, rfl⟩
    · rcases getElem?_concat_cases hk with hk | ⟨-, rfl⟩
      · exact hs.alone j k d e hj hk hne hd
      · exact ⟨hcounts, hreset⟩
    · rw [hreset] at hd
      cases hd

theorem ToolsCache.Coherent.step {s' : ToolsCache} {act : ToolsAct} (hs : s.Coherent)
    (hok : undisturbedTools s act) (h : toolsCache.step s act = some s') : s'.Coherent := by
  cases act with
  | edit mtime =>
    simp only [undisturbedTools, Bool.and_eq_true, List.all_eq_true, Bool.not_eq_true',
      Bool.or_eq_true] at hok
    simp only [toolsCache] at h
    split_ifs at h with hlater
    cases h
    refine hs.edit hok.1 (fun hinit hnone => ?_) hlater
    rcases hok.2 with h | h
    · rw [hinit] at h
      cases h
    · rw [hnone] at h
      cases h
  | getCachedMcpTools loop retry =>
    cases h
    exact hs.addCall (Nat.le_refl _) trivial rfl rfl rfl
  | initializeMcpTools loop =>
    cases h
    exact hs.addCall (Nat.zero_le _) (fun _ _ _ => Nat.zero_le _) rfl rfl rfl
  | step i =>
    simp only [undisturbedTools, Bool.and_eq_true, List.all_eq_true, Bool.not_eq_true',
      Bool.or_eq_true] at hok
    obtain ⟨c, hi, h⟩ := bind_eq_some_iff.1 h
    obtain ⟨⟨hquiet, hreset⟩, hlock⟩ := hok
    refine hs.stepCall hi (fun j d hne hj => hquiet _ (mem_others hj hne))
      (fun hc j d hne hj => ?_) (fun hc => ?_) h
    · rcases hreset with h | h
      · rw [hi] at h
        exact absurd hc (of_decide_eq_true h)
      · exact h _ (mem_others hj hne)
    · simpa [hi, hc] using hlock

end Step

def ToolsCache.results (s : ToolsCache) : List (ℕ × Option ℕ) :=
  s.calls.filterMap fun c => match c.phase with
    | .done tools => some (c.since, tools)
    | _ => none

end DeerFlow

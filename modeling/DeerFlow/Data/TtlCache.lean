import DeerFlow.Data.OrdDict

/-!
# Caches whose entries expire

A dictionary from keys to values with the time each entry expires at. An entry is read while that
time is ahead; a read of a stale entry drops it.
-/

structure TtlCache (κ ν : Type) where
  entries : OrdDict κ (ℕ × ν)

namespace TtlCache

variable {κ ν : Type} [DecidableEq κ] (c : TtlCache κ ν) (now : ℕ) (k : κ)

def empty : TtlCache κ ν := ⟨.empty⟩

def get? : Option ν :=
  match c.entries.get? k with
  | none => none
  | some (expiresAt, v) => if expiresAt ≤ now then none else some v

def touch : TtlCache κ ν :=
  match c.entries.get? k with
  | none => c
  | some (expiresAt, _) => if expiresAt ≤ now then ⟨c.entries.pop k⟩ else c

def set (ttl : ℕ) (v : ν) : TtlCache κ ν := ⟨c.entries.set k (now + ttl, v)⟩

def invalidate : TtlCache κ ν := ⟨c.entries.pop k⟩

def Holds (P : ν → Prop) : Prop := ∀ e, c.entries.get? k = some e → P e.2

variable {c now k} {P : ν → Prop}

theorem Holds.get? {v : ν} (h : c.Holds k P) (hv : c.get? now k = some v) : P v := by
  unfold TtlCache.get? at hv
  split at hv
  · cases hv
  · next hent =>
    split at hv
    · cases hv
    · cases hv
      exact h _ hent

theorem Holds.touch {k' : κ} (h : c.Holds k P) : (c.touch now k').Holds k P := by
  unfold TtlCache.touch
  split
  · exact h
  · split
    · intro e he
      simp only [OrdDict.get?_pop] at he
      split at he
      · cases he
      · exact h e he
    · exact h

theorem Holds.set {k' : κ} {ttl : ℕ} {v : ν} (h : c.Holds k P) (hv : k' = k → P v) :
    (c.set now k' ttl v).Holds k P := by
  intro e he
  simp only [TtlCache.set, OrdDict.get?_set] at he
  split at he
  · next hk =>
    cases he
    exact hv hk
  · exact h e he

theorem Holds.invalidate {k' : κ} (h : c.Holds k P) : (c.invalidate k').Holds k P := by
  intro e he
  simp only [TtlCache.invalidate, OrdDict.get?_pop] at he
  split at he
  · cases he
  · exact h e he

theorem holds_invalidate : (c.invalidate k).Holds k P := by
  intro e he
  simp [TtlCache.invalidate] at he

end TtlCache

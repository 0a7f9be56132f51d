import Mathlib.Data.List.Basic
import Mathlib.Data.List.Sort
import Mathlib.Data.List.TakeWhile

/-!
# Sorted lists

Bisection finds the place in a list where a property stops to hold; where it holds of a beginning
only, the two sides of that place are the two filters. A list whose keys grow is what its
permutations are sorted to.
-/

variable {α : Type}

/-- The loop between `lo` and `hi`; it halves the range, so `hi - lo` rounds are enough. -/
def bisectLoop (p : α → Bool) (xs : List α) : ℕ → ℕ → ℕ → ℕ
  | 0, lo, _ => lo
  | n + 1, lo, hi =>
    if lo < hi then
      match xs[(lo + hi) / 2]? with
      | some x => if p x then bisectLoop p xs n ((lo + hi) / 2 + 1) hi
          else bisectLoop p xs n lo ((lo + hi) / 2)
      | none => lo
    else lo

/-- The first place where `p` does not hold. -/
def bisect (p : α → Bool) (xs : List α) : ℕ := bisectLoop p xs xs.length 0 xs.length

/-- `p` holds of a beginning of the list and of nothing after it. -/
def Splits (p : α → Bool) (xs : List α) : Prop := xs.Pairwise fun a b => p b = true → p a = true

namespace Splits

open List

variable {p : α → Bool} {xs : List α}

theorem filter_eq_nil {x : α} (h : Splits p (x :: xs)) (hx : p x = false) : xs.filter p = [] := by
  rw [filter_eq_nil_iff]
  intro y hy hp
  have := (List.pairwise_cons.1 h).1 y hy hp
  rw [hx] at this
  cases this

theorem take_count (h : Splits p xs) : xs.take (xs.countP p) = xs.filter p := by
  induction xs with
  | nil => rfl
  | cons x xs ih =>
    cases hx : p x with
    | true => simp [hx, ih (List.pairwise_cons.1 h).2]
    | false =>
      have hnil := filter_eq_nil h hx
      have hzero : xs.countP p = 0 := by rw [countP_eq_length_filter, hnil]; rfl
      simp [hx, hnil, hzero]

theorem drop_count (h : Splits p xs) : xs.drop (xs.countP p) = xs.filter fun x => !p x := by
  induction xs with
  | nil => rfl
  | cons x xs ih =>
    cases hx : p x with
    | true => simp [hx, ih (List.pairwise_cons.1 h).2]
    | false =>
      have hnil := filter_eq_nil h hx
      have hzero : xs.countP p = 0 := by rw [countP_eq_length_filter, hnil]; rfl
      have hall : xs.filter (fun x => !p x) = xs := by
        rw [filter_eq_self]
        intro y hy
        have := filter_eq_nil_iff.1 hnil y hy
        simpa using this
      simp [hx, hzero, hall]

theorem iff_lt_count (h : Splits p xs) {i : ℕ} {x : α} (hi : xs[i]? = some x) :
    p x ↔ i < xs.countP p := by
  induction xs generalizing i with
  | nil => simp at hi
  | cons y xs ih =>
    cases hy : p y with
    | true =>
      rw [countP_cons_of_pos hy]
      cases i with
      | zero =>
        rw [getElem?_cons_zero, Option.some.injEq] at hi
        simp [← hi, hy]
      | succ i =>
        rw [getElem?_cons_succ] at hi
        rw [ih (List.pairwise_cons.1 h).2 hi]
        omega
    | false =>
      have hnil := filter_eq_nil h hy
      have hzero : xs.countP p = 0 := by rw [countP_eq_length_filter, hnil]; rfl
      rw [countP_cons_of_neg (by simp [hy]), hzero]
      have hx : p x = false := by
        rcases List.mem_cons.1 (mem_of_getElem? hi) with rfl | hm
        · exact hy
        · simpa using filter_eq_nil_iff.1 hnil x hm
      simp [hx]

theorem bisectLoop_eq (h : Splits p xs) : ∀ {n lo hi : ℕ}, lo ≤ xs.countP p → xs.countP p ≤ hi →
    hi ≤ xs.length → hi - lo ≤ n → bisectLoop p xs n lo hi = xs.countP p
  | 0, lo, hi, hlo, hhi, _, hn => by
    simp only [bisectLoop]
    omega
  | n + 1, lo, hi, hlo, hhi, hlen, hn => by
    simp only [bisectLoop]
    split_ifs with hlt
    · have hmid : (lo + hi) / 2 < xs.length := by omega
      have hget : xs[(lo + hi) / 2]? = some xs[(lo + hi) / 2] := getElem?_eq_getElem hmid
      have hiff := h.iff_lt_count hget
      rw [hget]
      dsimp only
      split_ifs with hp
      · have := hiff.1 hp
        exact bisectLoop_eq h (by omega) hhi hlen (by omega)
      · have : ¬ (lo + hi) / 2 < xs.countP p := fun hc => hp (hiff.2 hc)
        exact bisectLoop_eq h hlo (by omega) (by omega) (by omega)
    · omega

theorem bisect_eq (h : Splits p xs) : bisect p xs = xs.countP p :=
  h.bisectLoop_eq (Nat.zero_le _) countP_le_length (Nat.le_refl _) (Nat.le_refl _)

theorem take_bisect (h : Splits p xs) : xs.take (bisect p xs) = xs.filter p := by
  rw [h.bisect_eq, h.take_count]

theorem drop_bisect (h : Splits p xs) : xs.drop (bisect p xs) = xs.filter fun x => !p x := by
  rw [h.bisect_eq, h.drop_count]

end Splits

section Keys

variable {κ : Type} [LinearOrder κ] {key : α → κ} {xs ys : List α}

theorem eq_of_key_eq (hs : xs.Pairwise fun a b => key a < key b) {a b : α} (ha : a ∈ xs)
    (hb : b ∈ xs) (h : key a = key b) : a = b := by
  induction xs with
  | nil => simp at ha
  | cons x xs ih =>
    obtain ⟨hx, hxs⟩ := List.pairwise_cons.1 hs
    rcases List.mem_cons.1 ha with rfl | hax <;> rcases List.mem_cons.1 hb with rfl | hbx
    · rfl
    · exact absurd h (hx b hbx).ne
    · exact absurd h (hx a hax).ne'
    · exact ih hxs hax hbx

theorem mergeSort_of_perm (hp : xs.Perm ys) (hs : ys.Pairwise fun a b => key a < key b) :
    (xs.mergeSort fun a b => key a ≤ key b) = ys := by
  have hperm := (List.mergeSort_perm xs fun a b => decide (key a ≤ key b)).trans hp
  have hle : ys.Pairwise fun a b => decide (key a ≤ key b) := hs.imp fun h => by simpa using h.le
  refine List.Perm.eq_of_pairwise ?_ ?_ hle hperm
  · intro a b ha hb hab hba
    simp only [decide_eq_true_eq] at hab hba
    exact eq_of_key_eq hs (hperm.mem_iff.1 ha) hb (le_antisymm hab hba)
  · exact List.pairwise_mergeSort (fun a b c => by simpa using fun h h' => le_trans h h')
      (fun a b => by simpa using le_total _ _) _

theorem mergeSort_of_increasing (hs : xs.Pairwise fun a b => key a < key b) :
    (xs.mergeSort fun a b => key a ≤ key b) = xs :=
  mergeSort_of_perm (List.Perm.refl _) hs

theorem mergeSort_descending (hs : xs.Pairwise fun a b => key a < key b) :
    (xs.mergeSort fun a b => key b ≤ key a) = xs.reverse :=
  @mergeSort_of_perm _ κᵒᵈ _ (fun a => OrderDual.toDual (key a)) _ _ (List.reverse_perm xs).symm
    (List.pairwise_reverse.2 hs)

end Keys

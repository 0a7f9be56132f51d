import Mathlib.Data.List.Sort

/-!
# The first of the longest

Of the elements of a list with a property, the first of those of the greatest size: a loop that
keeps the best element so far finds it, and so does the first match after a stable sort.
-/

variable {α : Type} (above : α → Bool) (size : α → ℕ)

/-- A loop that keeps the longest so far. -/
def longest : List α → Option α → Option α
  | [], best => best
  | x :: xs, best =>
    longest xs (if above x && best.all fun b => size b < size x then some x else best)

/-- What such a search is to find. -/
def FirstLongest (xs : List α) : Option α → Prop
  | none => ∀ x ∈ xs, above x = false
  | some x => above x = true ∧ ∃ ys zs, xs = ys ++ x :: zs ∧
      (∀ y ∈ ys, above y = true → size y < size x) ∧ ∀ z ∈ zs, above z = true → size z ≤ size x

namespace FirstLongest

open List

variable {above : α → Bool} {size : α → ℕ} {xs : List α} {o o' : Option α}

theorem unique (h : FirstLongest above size xs o) (h' : FirstLongest above size xs o') : o = o' := by
  rcases o with _ | x <;> rcases o' with _ | x'
  · rfl
  · obtain ⟨hx, ys, zs, rfl, -⟩ := h'
    simp [h x' (by simp)] at hx
  · obtain ⟨hx, ys, zs, rfl, -⟩ := h
    simp [h' x (by simp)] at hx
  · obtain ⟨hx, ys, zs, rfl, hys, hzs⟩ := h
    obtain ⟨hx', ys', zs', heq, hys', hzs'⟩ := h'
    rcases append_eq_append_iff.1 heq with ⟨as, rfl, has⟩ | ⟨as, rfl, has⟩ <;> cases as <;> grind

/-- The best of a list with one more element in front. -/
theorem cons (h : FirstLongest above size xs o) (a : α) : FirstLongest above size (a :: xs)
    (if above a && o.all fun b => size b ≤ size a then some a else o) := by
  rcases o with _ | x
  · cases ha : above a with
    | true => exact ⟨ha, [], xs, rfl, by simp, fun z hz hz' => by simp [h z hz] at hz'⟩
    | false => simpa [FirstLongest, ha] using h
  · obtain ⟨hx, ys, zs, rfl, hys, hzs⟩ := h
    split_ifs with ha
    · exact ⟨by grind, [], _, rfl, by simp, by grind⟩
    · exact ⟨hx, a :: ys, zs, rfl, by grind, hzs⟩

theorem longest_some (a : α) : ∀ xs : List α, longest above size xs (some a) =
    if (longest above size xs none).all fun b => size b ≤ size a then some a
    else longest above size xs none
  | [] => by simp [longest]
  | x :: xs => by
    have hx := longest_some x xs
    have ha := longest_some a xs
    simp only [longest, Option.all_none, Option.all_some, Bool.and_true]
    rcases hbest : longest above size xs none with _ | y <;> rw [hbest] at hx ha <;>
      simp only [Option.all_none, Option.all_some, decide_eq_true_eq] at hx ha <;> grind

theorem longest_eq_iff : longest above size xs none = o ↔ FirstLongest above size xs o := by
  have h : ∀ xs : List α, FirstLongest above size xs (longest above size xs none) := by
    intro xs
    induction xs with
    | nil => simp [longest, FirstLongest]
    | cons a xs ih =>
      have hcons := ih.cons a
      rw [longest]
      cases ha : above a <;> simpa [ha, longest_some] using hcons
  exact ⟨fun ho => ho ▸ h xs, fun ho => (h xs).unique ho⟩

end FirstLongest

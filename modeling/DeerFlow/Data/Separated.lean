import Mathlib.Data.List.Count

/-!
# Texts with a separator

Where the last part of a text does not contain the separator, the text can be cut there, and joined
texts are equal exactly if their parts are.
-/

namespace Separated

open List

variable {α : Type} {c : α} {p q a b : List α}

theorem eq_of_append_sep (h : p ++ c :: a = q ++ c :: b) (ha : c ∉ a) (hb : c ∉ b) : a = b := by
  rcases append_eq_append_iff.1 h with ⟨r, -, hr⟩ | ⟨r, -, hr⟩
  · cases r with
    | nil => exact (cons.inj hr).2
    | cons x xs => exact absurd ((cons.inj hr).2 ▸ by simp) ha
  · cases r with
    | nil => exact ((cons.inj hr).2).symm
    | cons x xs => exact absurd ((cons.inj hr).2 ▸ by simp) hb

theorem append_sep_inj (h : p ++ c :: a = q ++ c :: b) (ha : c ∉ a) (hb : c ∉ b) : p = q ∧ a = b := by
  obtain rfl := eq_of_append_sep h ha hb
  exact ⟨append_cancel_right h, rfl⟩

theorem join_three_inj [DecidableEq α] {r a' b' r' : List α}
    (h : a' ++ c :: (b' ++ c :: r') = a ++ c :: (b ++ c :: r)) (ha : c ∉ a) (hb : c ∉ b) (hr : c ∉ r)
    (hb' : c ∉ b') : a' = a ∧ b' = b ∧ r' = r := by
  have hcount := congrArg (count c) h
  simp only [count_append, count_cons_self, count_eq_zero_of_not_mem ha,
    count_eq_zero_of_not_mem hb, count_eq_zero_of_not_mem hr,
    count_eq_zero_of_not_mem hb'] at hcount
  have hr' : c ∉ r' := count_eq_zero.1 (by omega)
  have hcut : (a' ++ c :: b') ++ c :: r' = (a ++ c :: b) ++ c :: r := by simpa using h
  obtain ⟨hpre, rfl⟩ := append_sep_inj hcut hr' hr
  obtain ⟨rfl, rfl⟩ := append_sep_inj hpre hb' hb
  exact ⟨rfl, rfl, rfl⟩

end Separated

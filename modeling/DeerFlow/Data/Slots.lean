import Mathlib.Data.List.Basic
import Mathlib.Data.List.Nodup

/-!
# Tables of processes

A list of processes where one of them moves on: what `List.set` does to facts about all of the
processes, to how many have a property, and to what they hold together.
-/

namespace Slots

open List

variable {α β : Type} {l : List α} {i : ℕ} {x y : α}

theorem lt_of_getElem? (h : l[i]? = some x) : i < l.length := by
  obtain ⟨hi, -⟩ := List.getElem?_eq_some_iff.1 h
  exact hi

theorem mem_set (h : l[i]? = some x) : y ∈ l.set i y := List.mem_set (lt_of_getElem? h) y

theorem getElem?_set_cases {j : ℕ} {z : α} (h : (l.set i y)[j]? = some z) :
    j = i ∧ z = y ∨ j ≠ i ∧ l[j]? = some z := by
  rw [getElem?_set] at h
  split_ifs at h with hij hi
  · exact .inl ⟨hij.symm, (Option.some.inj h).symm⟩
  · exact .inr ⟨fun hji => hij hji.symm, h⟩

theorem getElem?_concat_cases {j : ℕ} {z : α} (h : (l ++ [y])[j]? = some z) :
    l[j]? = some z ∨ j = l.length ∧ z = y := by
  rcases Nat.lt_or_ge j l.length with hj | hj
  · rw [getElem?_append_left hj] at h
    exact .inl h
  · rw [getElem?_append_right hj, getElem?_singleton] at h
    split_ifs at h with h0
    exact .inr ⟨by omega, (Option.some.inj h).symm⟩

variable {P : α → Prop}

theorem forall_mem_set (h : ∀ z ∈ l, P z) (hy : P y) : ∀ z ∈ l.set i y, P z := by
  intro z hz
  rcases mem_or_eq_of_mem_set hz with hz | rfl
  · exact h z hz
  · exact hy

theorem forall_mem_concat (h : ∀ z ∈ l, P z) (hy : P y) : ∀ z ∈ l ++ [y], P z :=
  forall_mem_append.2 ⟨h, forall_mem_singleton.2 hy⟩

theorem pairwise_concat {R : α → α → Prop} (h : l.Pairwise R) (hy : ∀ z ∈ l, R z y) :
    (l ++ [y]).Pairwise R :=
  pairwise_append.2 ⟨h, pairwise_singleton _ _, fun z hz => forall_mem_singleton.2 (hy z hz)⟩

theorem mem_set_of_ne {j : ℕ} {z : α} (hne : j ≠ i) (h : l[j]? = some z) : z ∈ l.set i y := by
  refine mem_iff_getElem?.2 ⟨j, ?_⟩
  rw [getElem?_set, if_neg fun hij => hne hij.symm]
  exact h

theorem exists_set (h : l[i]? = some x) (hex : ∃ z ∈ l, P z) (hP : P x → P y) :
    ∃ z ∈ l.set i y, P z := by
  obtain ⟨z, hz, hPz⟩ := hex
  obtain ⟨j, hj⟩ := mem_iff_getElem?.1 hz
  by_cases hji : j = i
  · subst hji
    rw [h] at hj
    cases hj
    exact ⟨y, mem_set h, hP hPz⟩
  · exact ⟨z, mem_set_of_ne hji hj, hPz⟩

theorem perm_flatMap_set {f : α → List β} (h : l[i]? = some x) :
    ((l.set i y).flatMap f ++ f x).Perm (l.flatMap f ++ f y) := by
  induction l generalizing i with
  | nil => simp at h
  | cons z l ih =>
    cases i with
    | zero =>
      cases h
      simp only [set_cons_zero, flatMap_cons]
      calc (f y ++ l.flatMap f ++ f x).Perm (f x ++ (f y ++ l.flatMap f)) := perm_append_comm
        _ |>.Perm (f x ++ (l.flatMap f ++ f y)) := perm_append_comm.append_left _
        _ = f x ++ l.flatMap f ++ f y := (append_assoc _ _ _).symm
    | succ i =>
      simp only [set_cons_succ, flatMap_cons, append_assoc]
      exact (ih (by simpa using h)).append_left _

theorem flatMap_set {f : α → List β} (h : l[i]? = some x) (hf : f y = f x) :
    (l.set i y).flatMap f = l.flatMap f := by
  induction l generalizing i with
  | nil => simp at h
  | cons z l ih =>
    cases i with
    | zero =>
      cases h
      simp [hf]
    | succ i => simpa using ih (by simpa using h)

theorem countP_set {p : α → Bool} (h : l[i]? = some x) :
    (l.set i y).countP p + (if p x then 1 else 0) = l.countP p + if p y then 1 else 0 := by
  induction l generalizing i with
  | nil => simp at h
  | cons z l ih =>
    cases i with
    | zero =>
      cases h
      simp only [set_cons_zero, countP_cons]
      omega
    | succ i =>
      have := ih (by simpa using h)
      simp only [set_cons_succ, countP_cons]
      omega

theorem eq_of_countP_le_one {p : α → Bool} {j : ℕ} (hc : l.countP p ≤ 1) (h : l[i]? = some x)
    (h' : l[j]? = some y) (hx : p x) (hy : p y) : i = j := by
  induction l generalizing i j with
  | nil => simp at h
  | cons z l ih =>
    have hpos : ∀ {k : ℕ} {u : α}, l[k]? = some u → p u → 0 < l.countP p :=
      fun hk hu => countP_pos_iff.2 ⟨_, mem_of_getElem? hk, hu⟩
    rw [countP_cons] at hc
    cases i with
    | zero =>
      cases j with
      | zero => rfl
      | succ j =>
        cases h
        have := hpos (by simpa using h') hy
        rw [if_pos hx] at hc
        omega
    | succ i =>
      cases j with
      | zero =>
        cases h'
        have := hpos (by simpa using h) hx
        rw [if_pos hy] at hc
        omega
      | succ j =>
        have hij : i = j := ih (by omega) (by simpa using h) (by simpa using h')
        rw [hij]

end Slots

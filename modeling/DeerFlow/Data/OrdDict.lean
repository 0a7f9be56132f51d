import Mathlib.Algebra.BigOperators.Group.List.Basic
import Mathlib.Algebra.Group.Basic
import Mathlib.Data.List.Basic
import Mathlib.Data.List.Nodup
import Mathlib.Tactic.Abel

/-!
# Insertion-ordered dictionaries

A dictionary keeps its keys in the order they were first written: writing a key that is there
replaces the value in place, and `pop` drops it. No key stands twice (`mem_entries_iff`).
-/

structure OrdDict (κ ν : Type) where
  entries : List (κ × ν)
  nodup : (entries.map Prod.fst).Nodup

namespace OrdDict

open List

variable {κ ν : Type} [DecidableEq κ]
  {a : κ} {d : OrdDict κ ν} {b : ν}

def empty : OrdDict κ ν := ⟨[], List.nodup_nil⟩

omit [DecidableEq κ] in
def keys (d : OrdDict κ ν) : List κ := d.entries.map Prod.fst

omit [DecidableEq κ] in
def values (d : OrdDict κ ν) : List ν := d.entries.map Prod.snd

def get? (d : OrdDict κ ν) (a : κ) : Option ν := (d.entries.find? fun e => e.1 = a).map Prod.snd

/-- `entries` with the value of `a` replaced, or `a` appended. -/
def write (a : κ) (b : ν) : List (κ × ν) → List (κ × ν)
  | [] => [(a, b)]
  | e :: es => if e.1 = a then (a, b) :: es else e :: write a b es

theorem map_fst_write (a : κ) (b : ν) : ∀ es : List (κ × ν), (write a b es).map Prod.fst
      = if a ∈ es.map Prod.fst then es.map Prod.fst else es.map Prod.fst ++ [a]
  | [] => by simp [write]
  | e :: es => by
    by_cases h : e.1 = a
    · simp [write, h]
    · have h' : ¬ a = e.1 := fun h' => h h'.symm
      simp only [write, if_neg h, map_cons, map_fst_write a b es, mem_cons, h', false_or]
      split_ifs <;> simp

theorem nodup_write {es : List (κ × ν)} (h : (es.map Prod.fst).Nodup) :
    ((write a b es).map Prod.fst).Nodup := by
  rw [map_fst_write]
  split_ifs with ha
  · exact h
  · refine nodup_append.2 ⟨h, by simp, ?_⟩
    rintro c hc d hd rfl
    rw [mem_singleton] at hd
    exact ha (hd ▸ hc)

/-- `d[a] = b`. -/
def set (d : OrdDict κ ν) (a : κ) (b : ν) : OrdDict κ ν := ⟨write a b d.entries, nodup_write d.nodup⟩

/-- `d.pop(a, None)`, the dictionary that is left. -/
def pop (d : OrdDict κ ν) (a : κ) : OrdDict κ ν :=
  ⟨d.entries.filter fun e => e.1 ≠ a,
    d.nodup.sublist (List.Sublist.map Prod.fst List.filter_sublist)⟩

def popAll (d : OrdDict κ ν) (as : List κ) : OrdDict κ ν := as.foldl pop d

/-- The entries that satisfy `p`, in their order. -/
def filter (d : OrdDict κ ν) (p : κ → ν → Bool) : OrdDict κ ν :=
  ⟨d.entries.filter fun e => p e.1 e.2,
    d.nodup.sublist (List.Sublist.map Prod.fst List.filter_sublist)⟩

def mapValues (d : OrdDict κ ν) (f : κ → ν → ν) : OrdDict κ ν :=
  ⟨d.entries.map fun e => (e.1, f e.1 e.2), by simpa [Function.comp_def] using d.nodup⟩

theorem find?_write (a : κ) (b : ν) (c : κ) : ∀ es : List (κ × ν),
    ((write a b es).find? fun e => e.1 = c).map Prod.snd
      = if a = c then some b else (es.find? fun e => e.1 = c).map Prod.snd
  | [] => by by_cases h : a = c <;> simp [write, h]
  | e :: es => by
    have ih := find?_write a b c es
    by_cases h : e.1 = a
    · by_cases hc : a = c
      · simp [write, h, hc]
      · have he : ¬ e.1 = c := h ▸ hc
        simp [write, h, hc]
    · by_cases he : e.1 = c
      · have hc : ¬ a = c := fun hc => h (he.trans hc.symm)
        rw [write, if_neg h, if_neg hc]
        simp [he]
      · simpa [write, h, he] using ih

@[simp] theorem get?_set (d : OrdDict κ ν) (a : κ) (b : ν) (c : κ) :
    (d.set a b).get? c = if a = c then some b else d.get? c :=
  find?_write a b c d.entries

theorem get?_set_new {d : OrdDict κ ν} {a c : κ} {v b : ν} (h : d.get? a = none) (hne : v ≠ b) :
    (d.set a v).get? c = some b ↔ d.get? c = some b := by
  rw [get?_set]
  split_ifs with hc
  · simp [← hc, h, hne]
  · rfl

@[simp] theorem get?_empty (a : κ) : (empty : OrdDict κ ν).get? a = none := rfl

@[simp] theorem get?_pop (d : OrdDict κ ν) (a c : κ) :
    (d.pop a).get? c = if a = c then none else d.get? c := by
  unfold get? pop
  simp only [find?_filter]
  split_ifs with h
  · subst h
    rw [Option.map_eq_none_iff, find?_eq_none]
    simp
  · congr 2
    funext e
    by_cases he : e.1 = c
    · simp [he, Ne.symm h]
    · simp [he]

@[simp] theorem get?_popAll (c : κ) : ∀ (as : List κ) (d : OrdDict κ ν),
    (d.popAll as).get? c = if c ∈ as then none else d.get? c
  | [], d => by simp [popAll]
  | a :: as, d => by
    have ih : ((d.pop a).popAll as).get? c = _ := get?_popAll c as (d.pop a)
    rw [popAll, foldl_cons]
    refine ih.trans ?_
    by_cases hc : c ∈ as
    · simp [hc]
    · by_cases ha : c = a
      · simp [ha]
      · simp [hc, ha, Ne.symm ha]

theorem mem_entries_iff : (a, b) ∈ d.entries ↔ d.get? a = some b := by
  obtain ⟨es, hn⟩ := d
  unfold get?
  simp only
  induction es with
  | nil => simp
  | cons e es ih =>
    simp only [map_cons, nodup_cons] at hn
    rw [mem_cons, find?_cons]
    by_cases he : e.1 = a
    · subst he
      simp only [decide_true, Option.map_some, Option.some.injEq]
      constructor
      · rintro (h | h)
        · rw [← h]
        · exact absurd (mem_map_of_mem (f := Prod.fst) h) hn.1
      · intro h
        exact Or.inl (by rw [← h])
    · simp only [he, decide_false]
      rw [← ih hn.2]
      constructor
      · rintro (h | h)
        · exact absurd (by rw [← h]) he
        · exact h
      · exact Or.inr

@[simp] theorem get?_mapValues (d : OrdDict κ ν) (f : κ → ν → ν) (a : κ) :
    (d.mapValues f).get? a = (d.get? a).map (f a) := by
  ext b
  rw [Option.map_eq_some_iff, ← mem_entries_iff]
  simp only [mapValues, mem_map, Prod.mk.injEq, Prod.exists, ← mem_entries_iff]
  constructor
  · rintro ⟨k, v, hmem, rfl, hv⟩
    exact ⟨v, hmem, hv⟩
  · rintro ⟨v, hmem, hv⟩
    exact ⟨a, v, hmem, rfl, hv⟩

@[simp] theorem get?_filter (d : OrdDict κ ν) (p : κ → ν → Bool) (a : κ) :
    (d.filter p).get? a = (d.get? a).filter (p a) := by
  ext b
  rw [Option.filter_eq_some_iff, ← mem_entries_iff, ← mem_entries_iff]
  simp [filter]

theorem mem_keys_iff : a ∈ d.keys ↔ ∃ b, d.get? a = some b := by
  simp only [keys, mem_map, Prod.exists, exists_and_right, exists_eq_right, mem_entries_iff]

theorem mem_values_iff : b ∈ d.values ↔ ∃ a, d.get? a = some b := by
  simp only [values, mem_map, Prod.exists, exists_eq_right, mem_entries_iff]

def only (d : OrdDict κ ν) (a : κ) : OrdDict κ ν :=
  match d.get? a with
  | none => empty
  | some b => empty.set a b

theorem only_congr {d d' : OrdDict κ ν} {a : κ} (h : d.get? a = d'.get? a) : d.only a = d'.only a := by
  unfold only
  rw [h]

theorem only_of_none {d : OrdDict κ ν} {a : κ} (h : d.get? a = none) : d.only a = empty := by
  unfold only
  rw [h]

@[simp] theorem get?_only (d : OrdDict κ ν) (a : κ) : (d.only a).get? a = d.get? a := by
  unfold only
  cases h : d.get? a with
  | none => rfl
  | some b => simp

@[simp] theorem only_set (d : OrdDict κ ν) (a : κ) (b : ν) : (d.set a b).only a = (d.only a).set a b := by
  have hset : (d.set a b).get? a = some b := by simp
  unfold only
  rw [hset]
  cases h : d.get? a with
  | none => rfl
  | some c => simp [set, write, empty]

@[simp] theorem only_pop (d : OrdDict κ ν) (a : κ) : (d.pop a).only a = (d.only a).pop a := by
  have hpop : (d.pop a).get? a = none := by simp
  rw [only_of_none hpop]
  unfold only
  cases h : d.get? a with
  | none => rfl
  | some c => simp [set, pop, write, empty]

section Sums

variable {M : Type} [AddCommGroup M] (f : ν → M)

theorem sum_write (a : κ) (b : ν) : ∀ es : List (κ × ν), ((write a b es).map fun e => f e.2).sum
      = (es.map fun e => f e.2).sum
        + (f b - (((es.find? fun e => e.1 = a).map fun e => f e.2).getD 0))
  | [] => by simp [write]
  | e :: es => by
    by_cases h : e.1 = a
    · simp only [write, h, if_true, map_cons, sum_cons, find?_cons, decide_true,
        Option.map_some, Option.getD_some]
      abel
    · simp only [write, h, if_false, map_cons, sum_cons, sum_write a b es, find?_cons, decide_false]
      rw [add_assoc]

theorem sum_set (d : OrdDict κ ν) (a : κ) (b : ν) : ((d.set a b).values.map f).sum
      = (d.values.map f).sum + (f b - ((d.get? a).map f).getD 0) := by
  have h := sum_write f a b d.entries
  simpa only [values, set, get?, map_map, Function.comp_def, Option.map_map] using h

end Sums

end OrdDict

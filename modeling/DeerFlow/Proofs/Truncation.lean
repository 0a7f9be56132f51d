import DeerFlow.Sandbox.Truncation
import Mathlib.Data.List.Infix

/-!
# Truncated tool outputs fit

A smaller number has no more digits, so the marker that is written fits in the room its longest form
was given.
-/

namespace DeerFlow.Truncation

open List

variable {text : List Char} {maxChars : ℕ}

/-- `result` fits: it starts `text`, or it is the two ends of `text` with a marker that counts what
stood between them. -/
def MiddleCut (marker : ℕ → List Char) (text result : List Char) (maxChars : ℕ) : Prop :=
  result.length ≤ maxChars ∧ (result <+: text ∨ ∃ head skipped tail,
    text = head ++ skipped ++ tail ∧ result = head ++ marker skipped.length ++ tail)

/-- `result` fits: it starts `text`, or it is the start of `text` with a marker that counts it. -/
def TailCut (marker : ℕ → ℕ → List Char) (text result : List Char) (maxChars : ℕ) : Prop :=
  result.length ≤ maxChars ∧ (result <+: text ∨ ∃ head rest,
    text = head ++ rest ∧ result = head ++ marker head.length text.length)

theorem length_numbered_mono (before after : List Char) {m n : ℕ} (h : m ≤ n) :
    (numbered before after m).length ≤ (numbered before after n).length := by
  have hpos : 0 < (Nat.toDigits 10 n).length := Nat.length_toDigits_pos
  have hdigits : (Nat.toDigits 10 m).length ≤ (Nat.toDigits 10 n).length :=
    (Nat.length_toDigits_le_iff (by decide) hpos).2
      (Nat.lt_of_le_of_lt h ((Nat.length_toDigits_le_iff (by decide) hpos).1 (Nat.le_refl _)))
  simp only [numbered, length_append]
  omega

theorem middleCut_truncateMiddle (what : String) (text : List Char) (h : 0 < maxChars) :
    MiddleCut (skippedMarker what) text (truncateMiddle (skippedMarker what) text maxChars)
      maxChars := by
  simp only [truncateMiddle, if_neg h.ne']
  split_ifs with hfits hkept
  · exact ⟨hfits, .inl (prefix_refl text)⟩
  · exact ⟨length_take_le _ _, .inl ( take_prefix _ _)⟩
  · generalize hk : maxChars - (skippedMarker what text.length).length = kept at hkept ⊢
    have hmarker : (skippedMarker what (text.length - kept)).length
        ≤ (skippedMarker what text.length).length :=
      length_numbered_mono _ _ (Nat.sub_le text.length kept)
    refine ⟨?_, .inr ⟨text.take (kept / 2), (text.drop (kept / 2)).take (text.length - kept),
      text.drop (text.length - (kept - kept / 2)), ?_, ?_⟩⟩
    · simp only [length_append, length_take, length_drop]
      omega
    · have hsplit : text.length - (kept - kept / 2) = kept / 2 + (text.length - kept) := by omega
      rw [hsplit, ← drop_drop, append_assoc, take_append_drop, take_append_drop]
    · congr 3
      simp only [length_take, length_drop]
      omega

theorem tailCut_truncateTail (hint : String) (text : List Char) (h : 0 < maxChars) :
    TailCut (shownMarker hint) text (truncateTail (shownMarker hint) text maxChars) maxChars := by
  simp only [truncateTail, if_neg h.ne']
  split_ifs with hfits hkept
  · exact ⟨hfits, .inl (prefix_refl text)⟩
  · exact ⟨length_take_le _ _, .inl ( take_prefix _ _)⟩
  · generalize hk : maxChars - (shownMarker hint text.length text.length).length = kept at hkept ⊢
    have hle : kept ≤ text.length := by omega
    have hmarker : (shownMarker hint kept text.length).length
        ≤ (shownMarker hint text.length text.length).length := length_numbered_mono _ _ hle
    refine ⟨?_, .inr ⟨text.take kept, text.drop kept, (take_append_drop _ _).symm, ?_⟩⟩
    · simp only [length_append, length_take]
      omega
    · rw [length_take_of_le hle]

theorem length_formatWriteFileError_le (path detail : List Char) (h : 0 < maxChars) :
    (formatWriteFileError path detail maxChars).length ≤ maxChars := by
  simp only [formatWriteFileError, if_neg h.ne']
  generalize "Error: Failed to write file '".toList ++ path ++ "'".toList = header
  split_ifs with hbudget
  · exact (middleCut_truncateMiddle _ _ h).1
  · have hcut : (truncateWriteFileErrorDetail detail _).length ≤ _ :=
      (middleCut_truncateMiddle _ _ (Nat.pos_of_ne_zero hbudget)).1
    simp only [length_append, length_cons, length_nil]
    omega

/-- What the tools return fits its limit and says truly what it leaves out. -/
theorem tool_outputs_fit (text path : List Char) (h : 1 ≤ maxChars) :
    MiddleCut bashMarker text (truncateBashOutput text maxChars) maxChars ∧
      TailCut readFileMarker text (truncateReadFileOutput text maxChars) maxChars ∧
      TailCut lsMarker text (truncateLsOutput text maxChars) maxChars ∧
      MiddleCut writeFileMarker text (truncateWriteFileErrorDetail text maxChars) maxChars ∧
      (formatWriteFileError path text maxChars).length ≤ maxChars :=
  ⟨middleCut_truncateMiddle _ _ h, tailCut_truncateTail _ _ h, tailCut_truncateTail _ _ h,
    middleCut_truncateMiddle _ _ h, length_formatWriteFileError_le path text h⟩

/-- Ninety characters and a limit that leaves room for the marker and fourteen of them. -/
theorem output_over_limit_is_marked : truncateBashOutput (replicate 90 'a') 60
      = "aaaaaaa\n... [middle truncated: 76 chars skipped] ...\naaaaaaa".toList ∧
    MiddleCut bashMarker (replicate 90 'a') (truncateBashOutput (replicate 90 'a') 60) 60 :=
  ⟨by decide +kernel, (tool_outputs_fit (replicate 90 'a') [] (by decide)).1⟩

end DeerFlow.Truncation

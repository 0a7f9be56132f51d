import DeerFlow.JsonText

/-!
# Reading a JSON text back

`loads (dumps v) = v`. A value's text is followed by a comma, a bracket or nothing, so a number ends
where its digits end (`EndsNumber`); the length of the text is fuel enough.
-/

namespace DeerFlow

open List Option Json

theorem hexValue_hexDigit : ∀ n, n < 16 → hexValue (hexDigit n) = some n := by decide

theorem unescapeHex_control {c : Char} (h : c.toNat < 32) :
    unescapeHex '0' '0' (hexDigit (c.toNat / 16)) (hexDigit (c.toNat % 16)) = some c := by
  have h0 : hexValue '0' = some 0 := by decide
  have hv : (c.toNat).isValidChar := Or.inl (by omega)
  have hn : (((0 * 16 + 0) * 16 + c.toNat / 16) * 16 + c.toNat % 16) = c.toNat := by omega
  unfold unescapeHex
  simp only [h0, hexValue_hexDigit _ (show c.toNat / 16 < 16 by omega),
    hexValue_hexDigit _ (show c.toNat % 16 < 16 by omega), bind_eq_bind, bind_some, hn]
  rw [if_pos hv, Char.ofNat_toNat]

theorem readString_plain {c : Char} (h1 : c ≠ '"') (h2 : c ≠ '\\') (h3 : ¬ c.toNat < 32)
    (rest : List Char) :
    readString (c :: rest) = (readString rest).bind fun x => some (c :: x.1, x.2) := by
  rw [readString.eq_def]
  split
  · simp_all
  · simp_all
  · simp_all
  · simp_all
  · rename_i heq
    cases heq
    rw [if_neg h3]
    rfl

theorem readString_escapeChar (c : Char) (rest : List Char) :
    readString (escapeChar c ++ rest) = (readString rest).bind fun x => some (c :: x.1, x.2) := by
  unfold escapeChar
  split_ifs with h1 h2 h3 h4 h5 h6 h7 h8
  · subst h1; rfl
  · subst h2; rfl
  · subst h3; rfl
  · subst h4; rfl
  · subst h5; rfl
  · subst h6; rfl
  · subst h7; rfl
  · simp only [cons_append, nil_append, readString, unescapeHex_control h8]
    rfl
  · exact readString_plain h1 h2 h8 rest

theorem readString_quoted : ∀ (s rest : List Char),
    readString (s.flatMap escapeChar ++ '"' :: rest) = some (s, rest)
  | [], rest => rfl
  | c :: s, rest => by
    rw [flatMap_cons, append_assoc, readString_escapeChar, readString_quoted s rest]
    rfl

def EndsNumber (rest : List Char) : Prop :=
  ∀ c ∈ rest.head?, c.isDigit = false ∧ c ≠ '.' ∧ c ≠ 'e' ∧ c ≠ 'E'

theorem endsNumber_nil : EndsNumber [] := by simp [EndsNumber]

theorem endsNumber_cons {c : Char} (rest : List Char) (h : c ∈ [',', ']', '}']) :
    EndsNumber (c :: rest) := by
  intro d hd
  cases hd
  simp only [mem_cons, not_mem_nil, or_false] at h
  rcases h with rfl | rfl | rfl <;> decide

theorem isDigit_of_mem_toDigits {n : ℕ} {c : Char} (h : c ∈ Nat.toDigits 10 n) : c.isDigit :=
  Nat.isDigit_of_mem_toDigits (by omega) (by omega) h

theorem head_toDigits (n : ℕ) : (Nat.toDigits 10 n).head? = some '0' → Nat.toDigits 10 n = ['0'] := by
  induction n using Nat.strong_induction_on with
  | _ n ih =>
    intro h
    by_cases hn : n < 10
    · rw [Nat.toDigits_of_lt_base hn] at h ⊢
      simp only [head?_cons, some.injEq] at h
      rw [h]
    · rw [Nat.toDigits_of_base_le (by omega) (by omega)] at h
      have hne : Nat.toDigits 10 (n / 10) ≠ [] := Nat.toDigits_ne_nil
      rw [head?_append_of_ne_nil _ hne] at h
      have hz := ih (n / 10) (by omega) h
      have : n / 10 = 0 := by
        rw [← Nat.ofDigitChars_toDigits (b := 10) (n := n / 10) (by omega) (by omega), hz]
        rfl
      omega

theorem readNat_toDigits (n : ℕ) {rest : List Char} (h : EndsNumber rest) :
    readNat (Nat.toDigits 10 n ++ rest) = some (n, rest) := by
  have hstop : ∀ c ∈ rest.head?, ¬ c.isDigit := fun c hc => by simp [(h c hc).1]
  have htake : (Nat.toDigits 10 n ++ rest).takeWhile Char.isDigit = Nat.toDigits 10 n := by
    rw [takeWhile_append_of_pos fun c hc => isDigit_of_mem_toDigits hc]
    cases rest with
    | nil => simp
    | cons c rest => simp [hstop c rfl]
  have hdrop : (Nat.toDigits 10 n ++ rest).dropWhile Char.isDigit = rest := by
    rw [dropWhile_append_of_pos fun c hc => isDigit_of_mem_toDigits hc]
    cases rest with
    | nil => rfl
    | cons c rest => simp [hstop c rfl]
  unfold readNat
  rw [htake, hdrop, if_neg, Nat.ofDigitChars_toDigits (by omega) (by omega)]
  rintro (h' | h' | h')
  · exact Nat.toDigits_ne_nil h'
  · exact h'.2 (head_toDigits n h'.1)
  · simp only [mem_cons, not_mem_nil, or_false] at h'
    rcases h' with h' | h' | h'
    · exact (h '.' h').2.1 rfl
    · exact (h 'e' h').2.2.1 rfl
    · exact (h 'E' h').2.2.2 rfl

theorem readNumber_intText (n : Int) {rest : List Char} (h : EndsNumber rest) :
    readNumber (intText n ++ rest) = some (.num n, rest) := by
  cases n with
  | ofNat n =>
    have hne : ∀ cs, Nat.toDigits 10 n ++ rest ≠ '-' :: cs := by
      intro cs hcs
      have hmem : '-' ∈ Nat.toDigits 10 n := by
        cases hd : Nat.toDigits 10 n with
        | nil => exact absurd hd Nat.toDigits_ne_nil
        | cons d ds =>
          rw [hd] at hcs
          cases hcs
          exact mem_cons_self
      exact absurd (isDigit_of_mem_toDigits hmem) (by decide)
    unfold readNumber intText
    split
    · rename_i heq
      exact absurd heq (hne _)
    · rw [readNat_toDigits n h]
      rfl
  | negSucc n =>
    simp only [intText, cons_append, readNumber, readNat_toDigits (n + 1) h, map_some]
    rfl

def startsValue (c : Char) : Bool := c ∈ ['n', 't', 'f', '"', '[', '{', '-'] || c.isDigit

theorem exists_intText (n : Int) : ∃ c cs, intText n = c :: cs ∧ (c = '-' ∨ c.isDigit) := by
  cases n with
  | ofNat n =>
    cases hd : Nat.toDigits 10 n with
    | nil => exact absurd hd Nat.toDigits_ne_nil
    | cons c cs =>
      exact ⟨c, cs, hd, Or.inr (isDigit_of_mem_toDigits (hd ▸ mem_cons_self))⟩
  | negSucc n => exact ⟨'-', _, rfl, Or.inl rfl⟩

theorem exists_dumps (v : Json) : ∃ c cs, v.dumps = c :: cs ∧ startsValue c := by
  cases v with
  | null => exact ⟨_, _, rfl, by decide⟩
  | bool b => cases b <;> exact ⟨_, _, rfl, by decide⟩
  | num n =>
    obtain ⟨c, cs, hc, h⟩ := exists_intText n
    refine ⟨c, cs, by rw [Json.dumps, hc], ?_⟩
    rcases h with rfl | h
    · decide
    · simp [startsValue, h]
  | str s => exact ⟨_, _, by rw [Json.dumps, quoteText], by decide⟩
  | arr xs => cases xs <;> exact ⟨_, _, by rw [Json.dumps], by decide⟩
  | obj kvs =>
    cases kvs with
    | nil | cons kv kvs => exact ⟨_, _, by rw [Json.dumps], by decide⟩

theorem isDigit_bounds {c : Char} (h : c.isDigit) : 48 ≤ c.toNat ∧ c.toNat ≤ 57 := by
  simp only [Char.isDigit, Bool.and_eq_true, decide_eq_true_eq] at h
  exact ⟨UInt32.le_iff_toNat_le.1 h.1, UInt32.le_iff_toNat_le.1 h.2⟩

theorem not_space_of_startsValue {c : Char} (h : startsValue c) : isJsonSpace c = false := by
  simp only [startsValue, Bool.or_eq_true, decide_eq_true_eq, mem_cons, not_mem_nil, or_false] at h
  rcases h with h | h
  · rcases h with rfl | rfl | rfl | rfl | rfl | rfl | rfl <;> decide
  · have hb := isDigit_bounds h
    have hne : ∀ d : Char, d.toNat < 48 → c ≠ d := by
      rintro d hd rfl
      omega
    simp [isJsonSpace, hne ' ' (by decide), hne '\t' (by decide), hne '\n' (by decide),
      hne '\r' (by decide)]

theorem skipSpace_cons {c : Char} (h : isJsonSpace c = false) (cs : List Char) :
    skipSpace (c :: cs) = c :: cs := by
  simp [skipSpace, h]

theorem skipSpace_dumps (v : Json) (rest : List Char) :
    skipSpace (v.dumps ++ rest) = v.dumps ++ rest := by
  obtain ⟨c, cs, hv, hc⟩ := exists_dumps v
  rw [hv, cons_append]
  exact skipSpace_cons (not_space_of_startsValue hc) _

theorem skipSpace_blank (cs : List Char) : skipSpace (' ' :: cs) = skipSpace cs := by
  simp [skipSpace, isJsonSpace]

theorem dumps_ne_bracket (v : Json) (rest cs : List Char) : v.dumps ++ rest ≠ ']' :: cs := by
  obtain ⟨c, cs', hv, hc⟩ := exists_dumps v
  rw [hv, cons_append]
  rintro h
  cases h
  exact absurd hc (by decide)

theorem readValue_number {c : Char} {cs : List Char} (n : ℕ) (h : c = '-' ∨ c.isDigit) :
    readValue (n + 1) (c :: cs) = readNumber (c :: cs) := by
  have hs : skipSpace (c :: cs) = c :: cs := by
    refine skipSpace_cons (not_space_of_startsValue ?_) cs
    rcases h with rfl | h
    · decide
    · simp [startsValue, h]
  have hne : ∀ d : Char, d ≠ '-' → d.isDigit = false → c ≠ d := by
    rintro d h1 h2 rfl
    rcases h with h | h
    · exact h1 h
    · rw [h2] at h
      cases h
  rw [readValue, hs]
  split <;> rename_i heq <;> try rfl
  · cases heq; exact absurd rfl (hne 'n' (by decide) (by decide))
  · cases heq; exact absurd rfl (hne 't' (by decide) (by decide))
  · cases heq; exact absurd rfl (hne 'f' (by decide) (by decide))
  · cases heq; exact absurd rfl (hne '"' (by decide) (by decide))
  · cases heq; exact absurd rfl (hne '[' (by decide) (by decide))
  · cases heq; exact absurd rfl (hne '{' (by decide) (by decide))

theorem readField_quoted {n : ℕ} (k : String) {v : Json} {rest : List Char}
    (h : readValue n (' ' :: (v.dumps ++ rest)) = some (v, rest)) :
    readField (n + 1) (quoteText k ++ ':' :: ' ' :: (v.dumps ++ rest)) = some ((k, v), rest) := by
  have hq : quoteText k ++ ':' :: ' ' :: (v.dumps ++ rest)
      = '"' :: (k.toList.flatMap escapeChar ++ '"' :: ':' :: ' ' :: (v.dumps ++ rest)) := by
    simp [quoteText]
  rw [hq, readField, skipSpace_cons (by decide)]
  simp only [readString_quoted, bind_eq_bind, bind_some,
    skipSpace_cons (show isJsonSpace ':' = false by decide), h, String.ofList_toList]

theorem readField_space (n : ℕ) (cs : List Char) : readField n (' ' :: cs) = readField n cs := by
  cases n with
  | zero => rfl
  | succ n => rw [readField, readField, skipSpace_blank]

theorem readValue_space {n : ℕ} (v : Json) (rest : List Char) :
    readValue n (' ' :: (v.dumps ++ rest)) = readValue n (v.dumps ++ rest) := by
  cases n with
  | zero => rfl
  | succ n =>
    rw [readValue, readValue, skipSpace_blank]

theorem endsNumber_dumpsItems (xs : List Json) (rest : List Char) :
    EndsNumber (dumpsItems xs ++ rest) := by
  cases xs <;> exact endsNumber_cons _ (by simp)

theorem endsNumber_dumpsFields (kvs : List (String × Json)) (rest : List Char) :
    EndsNumber (dumpsFields kvs ++ rest) := by
  cases kvs <;> exact endsNumber_cons _ (by simp)

mutual

theorem readValue_dumps : ∀ (v : Json) (n : ℕ) (rest : List Char), v.dumps.length ≤ n →
    EndsNumber rest → readValue n (v.dumps ++ rest) = some (v, rest)
  | _, 0, _, hn, _ => by
    rename_i v _ _
    obtain ⟨c, cs, hv, -⟩ := exists_dumps v
    rw [hv] at hn
    cases hn
  | .null, _ + 1, _, _, _ => rfl
  | .bool true, _ + 1, _, _, _ => rfl
  | .bool false, _ + 1, _, _, _ => rfl
  | .num m, n + 1, rest, _, hr => by
    obtain ⟨c, cs, hc, h⟩ := exists_intText m
    rw [dumps, hc, cons_append, readValue_number n h, ← cons_append, ← hc,
      readNumber_intText m hr]
  | .str s, n + 1, rest, _, _ => by
    have hq : quoteText s ++ rest = '"' :: (s.toList.flatMap escapeChar ++ '"' :: rest) := by
      simp [quoteText]
    rw [dumps, hq, readValue, skipSpace_cons (by decide)]
    simp only [readString_quoted, map_some, String.ofList_toList]
  | .arr [], _ + 1, _, _, _ => rfl
  | .arr (x :: xs), n + 1, rest, hn, _ => by
    simp only [dumps, length_cons, length_append] at hn
    rw [dumps, cons_append, append_assoc, readValue, skipSpace_cons (by decide)]
    simp only [skipSpace_dumps]
    split
    · rename_i heq
      exact absurd heq (dumps_ne_bracket x _ _)
    · rw [readValue_dumps x n _ (by omega) (endsNumber_dumpsItems xs rest)]
      simp only [bind_eq_bind, bind_some, readItems_dumps xs n rest (by omega)]
  | .obj [], _ + 1, _, _, _ => rfl
  | .obj ((k, v) :: kvs), n + 1, rest, hn, _ => by
    simp only [dumps, length_cons, length_append] at hn
    obtain ⟨m, rfl⟩ : ∃ m, n = m + 1 := ⟨n - 1, by omega⟩
    have hv : readValue m (' ' :: (v.dumps ++ (dumpsFields kvs ++ rest)))
        = some (v, dumpsFields kvs ++ rest) := by
      rw [readValue_space]
      exact readValue_dumps v m _ (by omega) (endsNumber_dumpsFields kvs rest)
    have htext : (obj ((k, v) :: kvs)).dumps ++ rest = '{' :: (quoteText k
        ++ ':' :: ' ' :: (v.dumps ++ (dumpsFields kvs ++ rest))) := by
      simp [dumps]
    have hskip : ∀ cs, skipSpace (quoteText k ++ cs) = quoteText k ++ cs :=
      fun cs => skipSpace_cons (by decide) _
    rw [htext, readValue, skipSpace_cons (by decide)]
    simp only [hskip]
    split
    · rename_i heq
      rw [quoteText, cons_append] at heq
      cases heq
    · rw [readField_quoted k hv]
      simp only [bind_eq_bind, bind_some, readFields_dumps kvs (m + 1) rest (by omega)]

theorem readItems_dumps : ∀ (xs : List Json) (n : ℕ) (rest : List Char),
    (dumpsItems xs).length ≤ n → readItems n (dumpsItems xs ++ rest) = some (xs, rest)
  | [], 0, _, hn | _ :: _, 0, _, hn => by cases hn
  | [], _ + 1, _, _ => rfl
  | x :: xs, n + 1, rest, hn => by
    simp only [dumpsItems, length_cons, length_append] at hn
    rw [dumpsItems, cons_append, cons_append, append_assoc, readItems,
      skipSpace_cons (by decide)]
    simp only [readValue_space, readValue_dumps x n _ (by omega) (endsNumber_dumpsItems xs rest),
      bind_eq_bind, bind_some, readItems_dumps xs n rest (by omega)]

theorem readFields_dumps : ∀ (kvs : List (String × Json)) (n : ℕ) (rest : List Char),
    (dumpsFields kvs).length ≤ n →
    readFields n (dumpsFields kvs ++ rest) = some (kvs, rest)
  | [], 0, _, hn | _ :: _, 0, _, hn => by cases hn
  | [], _ + 1, _, _ => rfl
  | (k, v) :: kvs, n + 1, rest, hn => by
    simp only [dumpsFields, length_cons, length_append] at hn
    obtain ⟨m, rfl⟩ : ∃ m, n = m + 1 := ⟨n - 1, by omega⟩
    have hv : readValue m (' ' :: (v.dumps ++ (dumpsFields kvs ++ rest)))
        = some (v, dumpsFields kvs ++ rest) := by
      rw [readValue_space]
      exact readValue_dumps v m _ (by omega) (endsNumber_dumpsFields kvs rest)
    have htext : dumpsFields ((k, v) :: kvs) ++ rest = ',' :: ' ' :: (quoteText k
        ++ ':' :: ' ' :: (v.dumps ++ (dumpsFields kvs ++ rest))) := by
      simp [dumpsFields]
    rw [htext, readFields, skipSpace_cons (by decide)]
    simp only [readField_space, readField_quoted k hv, bind_eq_bind, bind_some,
      readFields_dumps kvs (m + 1) rest (by omega)]

end

theorem loads_dumps (v : Json) : loads v.dumps = some v := by
  have h := readValue_dumps v (v.dumps.length + 1) [] (by omega) endsNumber_nil
  rw [append_nil] at h
  rw [loads, h]
  rfl

end DeerFlow

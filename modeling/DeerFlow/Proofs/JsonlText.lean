import DeerFlow.Events.Jsonl
import DeerFlow.Proofs.JsonRoundTrip

/-!
# The lines of a JSONL file

A text without line boundaries comes back from `splitlines` as it is. The JSON text of a dict is
such a line unless a string in it holds a separator that `json.dumps(..., ensure_ascii=False)`
leaves as it is.
-/

namespace DeerFlow

open List Json EventRecord

section Lines

def Unbroken (cs : List Char) : Prop := ∀ c ∈ cs, isLineBreak c = false

/-- A line that neither `strip` nor `splitlines` changes. -/
structure IsLine (cs : List Char) : Prop where
  unbroken : Unbroken cs
  first : ∀ c ∈ cs.head?, isSpace c = false
  last : ∀ c ∈ cs.getLast?, isSpace c = false
  ne_nil : cs ≠ []

def joined (ls : List (List Char)) : List Char := ls.flatMap (· ++ ['\n'])

theorem joined_concat (ls : List (List Char)) (l : List Char) :
    joined (ls ++ [l]) = joined ls ++ (l ++ ['\n']) := by
  simp [joined]

theorem splitFrom_cons {line cs : List Char} {c : Char} (h : isLineBreak c = false) :
    splitFrom line (c :: cs) = splitFrom (line ++ [c]) cs := by
  have hr : c ≠ '\r' := by
    rintro rfl
    revert h
    decide
  rw [splitFrom.eq_def]
  split
  · cases ‹_ :: _ = []›
  · next heq => exact absurd (cons.inj heq).1 hr
  · next heq =>
    obtain ⟨rfl, rfl⟩ := cons.inj heq
    simp [h]

theorem splitFrom_unbroken {line cs : List Char} (h : Unbroken cs) :
    splitFrom line cs = if (line ++ cs).isEmpty then [] else [line ++ cs] := by
  induction cs generalizing line with
  | nil => simp [splitFrom]
  | cons c cs ih =>
    rw [splitFrom_cons (h c mem_cons_self), ih fun d hd => h d (mem_cons_of_mem _ hd)]
    simp

theorem splitFrom_line {line l cs : List Char} (h : Unbroken l) :
    splitFrom line (l ++ '\n' :: cs) = (line ++ l) :: splitFrom [] cs := by
  induction l generalizing line with
  | nil =>
    rw [nil_append, append_nil]
    rfl
  | cons c l ih =>
    rw [cons_append, splitFrom_cons (h c mem_cons_self), ih fun d hd => h d (mem_cons_of_mem _ hd)]
    simp

theorem splitFrom_break {line p : List Char} {c : Char} (hp : Unbroken p)
    (hc : isLineBreak c) (hprint : 32 ≤ c.toNat) (r : List Char) :
    splitFrom line (p ++ c :: r) = (line ++ p) :: splitFrom [] r := by
  induction p generalizing line with
  | nil =>
    have hr : c ≠ '\r' := by
      rintro rfl
      exact absurd hprint (by decide)
    rw [nil_append, append_nil, splitFrom.eq_def]
    split
    · cases ‹_ :: _ = []›
    · next heq => exact absurd (cons.inj heq).1 hr
    · next heq =>
      obtain ⟨rfl, rfl⟩ := cons.inj heq
      rw [if_pos hc]
  | cons d p ih =>
    rw [cons_append, splitFrom_cons (hp d mem_cons_self),
      ih fun e he => hp e (mem_cons_of_mem _ he)]
    simp

variable {ls : List (List Char)}

theorem splitlines_joined (h : ∀ l ∈ ls, Unbroken l) (cs : List Char) :
    splitlines (joined ls ++ cs) = ls ++ splitlines cs := by
  induction ls with
  | nil => rfl
  | cons l ls ih =>
    have hl := @splitFrom_line [] l (joined ls ++ cs) (h l mem_cons_self)
    have ih' := ih fun m hm => h m (mem_cons_of_mem _ hm)
    unfold splitlines at ih' ⊢
    rw [nil_append, ih'] at hl
    rw [cons_append, ← hl]
    simp [joined]

def stripEnd (cs : List Char) : List Char := (cs.reverse.dropWhile isSpace).reverse

variable {cs : List Char}

theorem strip_eq_stripEnd (h : ∀ c ∈ cs.head?, isSpace c = false) :
    strip cs = stripEnd cs := by
  unfold strip stripEnd
  cases cs with
  | nil => rfl
  | cons c cs =>
    have := h c rfl
    rw [dropWhile_cons_of_neg (by simp [this])]

theorem stripEnd_append (cs ds : List Char) :
    stripEnd (cs ++ ds) = if stripEnd ds = [] then stripEnd cs else cs ++ stripEnd ds := by
  unfold stripEnd
  rw [reverse_append, dropWhile_append]
  by_cases h : ds.reverse.dropWhile isSpace = []
  · simp [h]
  · simp [h]

theorem stripEnd_of_last (h : ∀ c ∈ cs.getLast?, isSpace c = false) :
    stripEnd cs = cs := by
  unfold stripEnd
  rw [getLast?_eq_head?_reverse] at h
  cases hr : cs.reverse with
  | nil =>
    rw [reverse_eq_nil_iff.1 hr]
    rfl
  | cons c ds =>
    rw [hr] at h
    rw [dropWhile_cons_of_neg (by simp [h c rfl]), ← hr, reverse_reverse]

theorem head?_joined (h : ∀ l ∈ ls, IsLine l)
    (hc : ∀ c ∈ cs.head?, isSpace c = false) :
    ∀ c ∈ (joined ls ++ cs).head?, isSpace c = false := by
  cases ls with
  | nil => exact hc
  | cons l ls =>
    have hl := h l mem_cons_self
    intro c hc'
    refine hl.first c ?_
    cases hl' : l with
    | nil => exact absurd hl' hl.ne_nil
    | cons d ds => simpa [joined, hl'] using hc'

theorem lines_joined (h : ∀ l ∈ ls, IsLine l)
    (hc : ∀ c ∈ cs.head?, isSpace c = false) :
    splitlines (strip (joined ls ++ cs)) = ls ++ splitlines (strip cs) := by
  have hu : ∀ l ∈ ls, Unbroken l := fun l hl => (h l hl).unbroken
  rw [strip_eq_stripEnd (head?_joined h hc), strip_eq_stripEnd hc, stripEnd_append]
  by_cases hcs : stripEnd cs = []
  · rw [if_pos hcs, hcs]
    -- the line feed of the last line is stripped
    rcases eq_nil_or_concat ls with rfl | ⟨ms, l, rfl⟩
    · rfl
    · have hl := h l (by simp)
      have hend : stripEnd (joined (ms ++ [l])) = joined ms ++ l := by
        rw [joined_concat, ← append_assoc, stripEnd_append, if_pos (by rfl),
          stripEnd_append, stripEnd_of_last hl.last, if_neg hl.ne_nil]
      rw [concat_eq_append] at *
      rw [hend, splitlines_joined fun m hm => hu m (by simp [hm])]
      have hlast : splitlines l = [l] := by
        unfold splitlines
        rw [splitFrom_unbroken hl.unbroken]
        simp [hl.ne_nil]
      rw [hlast]
      simp [splitlines, splitFrom]
  · rw [if_neg hcs, splitlines_joined hu]

end Lines

section Records

variable {J : Type} (V : JsonValues J)

def isSeparator (c : Char) : Bool :=
  let n := c.toNat
  n = 0x85 || n = 0x2028 || n = 0x2029

theorem isLineBreak_eq_false {c : Char} (hp : 32 ≤ c.toNat) (hs : isSeparator c = false) :
    isLineBreak c = false := by
  simp only [isSeparator, isLineBreak, Bool.or_eq_false_iff, Bool.and_eq_false_iff,
    decide_eq_false_iff_not] at hs ⊢
  omega

def EventRecord.text (r : EventRecord J) : List Char := V.dumps (V.dict (r.fields V))

def EventRecord.Plain (r : EventRecord J) : Prop := ∀ c ∈ r.text V, isSeparator c = false

variable {V}

theorem EventRecord.head?_text (r : EventRecord J) : (r.text V).head? = some '{' := by
  obtain ⟨body, hbody⟩ := V.dumps_dict (r.fields V)
  simp [text, hbody]

theorem EventRecord.Plain.isLine {r : EventRecord J} (h : r.Plain V) : IsLine (r.text V) where
  unbroken c hc := isLineBreak_eq_false (V.dumps_printable _ c hc) (h c hc)
  first c hc := by
    rw [r.head?_text] at hc
    cases hc
    rfl
  last c hc := by
    obtain ⟨body, hbody⟩ := V.dumps_dict (r.fields V)
    rw [text, hbody, ← cons_append, getLast?_concat] at hc
    cases hc
    rfl
  ne_nil h' := by
    have := r.head?_text (V := V)
    rw [h'] at this
    cases this

open JsonlEventStore

theorem loads_text (r : EventRecord J) : V.loads (r.text V) = some (V.dict (r.fields V)) :=
  V.loads_dumps _

theorem parsedLines_records {rs : List (EventRecord J)} (h : ∀ r ∈ rs, r.Plain V) {cs : List Char}
    (hc : ∀ c ∈ cs.head?, isSpace c = false) :
    parsedLines V (joined (rs.map (text V)) ++ cs)
      = rs.map (fun r => V.dict (r.fields V)) ++ parsedLines V cs := by
  unfold parsedLines
  have hl : ∀ l ∈ rs.map (text V), IsLine l := by
    intro l hl
    obtain ⟨r, hr, rfl⟩ := mem_map.1 hl
    exact (h r hr).isLine
  rw [lines_joined hl hc, filterMap_append, filterMap_map]
  congr 1
  rw [← filterMap_eq_map]
  exact filterMap_congr fun r _ => loads_text r

theorem parsedLines_nil : parsedLines V [] = [] := rfl

theorem seqOf_fields (r : EventRecord J) : seqOf V (r.fields V) = .ok r.seq := by
  simp [seqOf, fieldOf, fields, V.num?_num]

theorem seqAt_fields (r : EventRecord J) : seqAt V (r.fields V) = .ok r.seq := by
  rw [seqAt, if_pos (by simp [fieldOf, fields]), seqOf_fields]

theorem hasText_category (r : EventRecord J) (text : String) :
    hasText V "category" text (r.fields V) = decide (r.category = text) := by
  simp [hasText, fieldOf, fields, V.str?_str]

theorem hasText_eventType (r : EventRecord J) (text : String) :
    hasText V "event_type" text (r.fields V) = decide (r.eventType = text) := by
  simp [hasText, fieldOf, fields, V.str?_str]

theorem numbered_records (rs : List (EventRecord J)) :
    numbered V (rs.map fun r => V.dict (r.fields V)) = .ok (rs.map fun r => (r.seq, r.fields V)) := by
  induction rs with
  | nil => rfl
  | cons r rs ih =>
    have hr : numberedValue V (V.dict (r.fields V)) = .ok (r.seq, r.fields V) := by
      simp only [numberedValue, V.dict?_dict, seqOf_fields]
      rfl
    unfold numbered at ih ⊢
    simp only [map_cons, mapM_cons, ih, hr]
    rfl

end Records

section JsonTexts

mutual

def Json.strings : Json → List String
  | .str s => [s]
  | .arr xs => stringsItems xs
  | .obj kvs => stringsFields kvs
  | .null | .bool _ | .num _ => []

def Json.stringsItems : List Json → List String
  | [] => []
  | x :: xs => x.strings ++ stringsItems xs

def Json.stringsFields : List (String × Json) → List String
  | [] => []
  | (k, v) :: kvs => k :: (v.strings ++ stringsFields kvs)

end

def OfText (ss : List String) (c : Char) : Prop :=
  32 ≤ c.toNat ∧ (c.toNat < 127 ∨ ∃ s ∈ ss, c ∈ s.toList)

theorem OfText.mono {ss ts : List String} (h : ∀ s ∈ ss, s ∈ ts) {c : Char} (hc : OfText ss c) :
    OfText ts c :=
  ⟨hc.1, hc.2.imp_right fun ⟨s, hs, hcs⟩ => ⟨s, h s hs, hcs⟩⟩

variable {ss : List String}

theorem ofText_ascii {cs : List Char} {c : Char} (hc : c ∈ cs)
    (h : (cs.all fun c => 32 ≤ c.toNat && c.toNat < 127)) : OfText ss c := by
  have hascii := all_eq_true.1 h c hc
  simp only [Bool.and_eq_true, decide_eq_true_eq] at hascii
  exact ⟨hascii.1, .inl hascii.2⟩

theorem hexDigit_ascii : ∀ n, n < 16 → 32 ≤ (hexDigit n).toNat ∧ (hexDigit n).toNat < 127 := by
  decide

theorem mem_escapeChar {c d : Char} (h : d ∈ escapeChar c) :
    32 ≤ d.toNat ∧ (d.toNat < 127 ∨ d = c) := by
  unfold escapeChar at h
  have h16 : ∀ n, n < 16 → d = hexDigit n → 32 ≤ d.toNat ∧ (d.toNat < 127 ∨ d = c) :=
    fun n hn hd => hd ▸ ⟨(hexDigit_ascii n hn).1, .inl (hexDigit_ascii n hn).2⟩
  have hpair : ∀ e : Char, 32 ≤ e.toNat ∧ e.toNat < 127 → d = '\\' ∨ d = e →
      32 ≤ d.toNat ∧ (d.toNat < 127 ∨ d = c) := by
    rintro e he (rfl | rfl)
    · exact ⟨by decide, .inl (by decide)⟩
    · exact ⟨he.1, .inl he.2⟩
  split_ifs at h with h1 h2 h3 h4 h5 h6 h7 h8
  all_goals simp only [mem_cons, not_mem_nil, or_false] at h
  · exact hpair '"' (by decide) h
  · exact hpair '\\' (by decide) h
  · exact hpair 'n' (by decide) h
  · exact hpair 'r' (by decide) h
  · exact hpair 't' (by decide) h
  · exact hpair 'f' (by decide) h
  · exact hpair 'b' (by decide) h
  · rcases h with rfl | rfl | rfl | rfl | hd | hd
    · exact hpair '\\' (by decide) (.inl rfl)
    · exact hpair 'u' (by decide) (.inr rfl)
    · exact hpair '0' (by decide) (.inr rfl)
    · exact hpair '0' (by decide) (.inr rfl)
    · exact h16 _ (by omega) hd
    · exact h16 _ (by omega) hd
  · subst h
    exact ⟨by omega, .inr rfl⟩

theorem mem_quoteText {s : String} (hs : s ∈ ss) {c : Char}
    (h : c ∈ quoteText s) : OfText ss c := by
  unfold quoteText at h
  rw [mem_cons, mem_append, mem_flatMap, mem_singleton] at h
  rcases h with rfl | ⟨d, hd, hc⟩ | rfl
  · exact ⟨by decide, .inl (by decide)⟩
  · obtain ⟨hp, ha | rfl⟩ := mem_escapeChar hc
    · exact ⟨hp, .inl ha⟩
    · exact ⟨hp, .inr ⟨s, hs, hd⟩⟩
  · exact ⟨by decide, .inl (by decide)⟩

theorem mem_intText {n : Int} {c : Char} (h : c ∈ intText n) : OfText ss c := by
  have hdigit : ∀ m, c ∈ Nat.toDigits 10 m → OfText ss c := by
    intro m hm
    have := isDigit_bounds (isDigit_of_mem_toDigits hm)
    exact ⟨by omega, .inl (by omega)⟩
  cases n with
  | ofNat n => exact hdigit n h
  | negSucc n =>
    rcases mem_cons.1 h with rfl | h
    · exact ⟨by decide, .inl (by decide)⟩
    · exact hdigit _ h

mutual

theorem mem_dumps : ∀ (v : Json) {c : Char}, c ∈ v.dumps → OfText v.strings c
  | .null, c, h | .bool true, c, h | .bool false, c, h => ofText_ascii h (by decide)
  | .num n, c, h => mem_intText h
  | .str s, c, h => mem_quoteText (by simp [strings]) h
  | .arr [], c, h => ofText_ascii h (by decide)
  | .arr (x :: xs), c, h => by
    rw [dumps, mem_cons, mem_append] at h
    rcases h with rfl | h | h
    · exact ⟨by decide, .inl (by decide)⟩
    · exact (mem_dumps x h).mono fun s hs => mem_append_left _ hs
    · exact (mem_dumpsItems xs h).mono fun s hs => mem_append_right _ hs
  | .obj [], c, h => ofText_ascii h (by decide)
  | .obj ((k, v) :: kvs), c, h => by
    rw [dumps, mem_cons, mem_append, mem_cons, mem_cons, mem_append] at h
    rcases h with rfl | h | rfl | rfl | h | h
    · exact ⟨by decide, .inl (by decide)⟩
    · exact mem_quoteText (by simp [strings, stringsFields]) h
    · exact ⟨by decide, .inl (by decide)⟩
    · exact ⟨by decide, .inl (by decide)⟩
    · exact (mem_dumps v h).mono fun s hs => mem_cons_of_mem _ (mem_append_left _ hs)
    · exact (mem_dumpsFields kvs h).mono fun s hs =>
        mem_cons_of_mem _ (mem_append_right _ hs)

theorem mem_dumpsItems : ∀ (xs : List Json) {c : Char}, c ∈ dumpsItems xs →
    OfText (stringsItems xs) c
  | [], c, h => ofText_ascii h (by decide)
  | x :: xs, c, h => by
    rw [dumpsItems, mem_cons, mem_cons, mem_append] at h
    rcases h with rfl | rfl | h | h
    · exact ⟨by decide, .inl (by decide)⟩
    · exact ⟨by decide, .inl (by decide)⟩
    · exact (mem_dumps x h).mono fun s hs => mem_append_left _ hs
    · exact (mem_dumpsItems xs h).mono fun s hs => mem_append_right _ hs

theorem mem_dumpsFields : ∀ (kvs : List (String × Json)) {c : Char}, c ∈ dumpsFields kvs →
    OfText (stringsFields kvs) c
  | [], c, h => ofText_ascii h (by decide)
  | (k, v) :: kvs, c, h => by
    rw [dumpsFields, mem_cons, mem_cons, mem_append, mem_cons, mem_cons, mem_append] at h
    rcases h with rfl | rfl | h | rfl | rfl | h | h
    · exact ⟨by decide, .inl (by decide)⟩
    · exact ⟨by decide, .inl (by decide)⟩
    · exact mem_quoteText (by simp [stringsFields]) h
    · exact ⟨by decide, .inl (by decide)⟩
    · exact ⟨by decide, .inl (by decide)⟩
    · exact (mem_dumps v h).mono fun s hs => mem_cons_of_mem _ (mem_append_left _ hs)
    · exact (mem_dumpsFields kvs h).mono fun s hs =>
        mem_cons_of_mem _ (mem_append_right _ hs)

end

theorem dumpsFields_brace : ∀ kvs : List (String × Json),
    ∃ body, dumpsFields kvs = body ++ ['}']
  | [] => ⟨[], rfl⟩
  | (k, v) :: kvs => by
    obtain ⟨body, hbody⟩ := dumpsFields_brace kvs
    exact ⟨',' :: ' ' :: (quoteText k ++ ':' :: ' ' :: (v.dumps ++ body)), by
      simp [dumpsFields, hbody]⟩

def jsonValues : JsonValues Json where
  str := .str
  num := .num
  bool := .bool
  dict := .obj
  str? | .str s => some s | _ => none
  num? | .num n => some n | _ => none
  dict? | .obj kvs => some kvs | _ => none
  truthy := truthy
  dumps := dumps
  loads := loads
  str?_str _ := rfl
  str_of_str? v s h := by
    cases v <;> cases h
    rfl
  num?_num _ := rfl
  dict?_dict _ := rfl
  truthy_bool _ := rfl
  loads_dumps := loads_dumps
  dumps_printable v _ hc := (mem_dumps v hc).1
  dumps_dict fs := by
    cases fs with
    | nil => exact ⟨[], rfl⟩
    | cons f fs =>
      obtain ⟨body, hbody⟩ := dumpsFields_brace fs
      exact ⟨quoteText f.1 ++ ':' :: ' ' :: (f.2.dumps ++ body), by simp [dumps, hbody]⟩

theorem plain_of_strings {v : Json} (h : ∀ s ∈ v.strings, ∀ c ∈ s.toList, isSeparator c = false) :
    ∀ c ∈ v.dumps, isSeparator c = false := by
  intro c hc
  obtain ⟨-, ha | ⟨s, hs, hcs⟩⟩ := mem_dumps v hc
  · simp only [isSeparator, Bool.or_eq_false_iff, decide_eq_false_iff_not]
    omega
  · exact h s hs c hcs

end JsonTexts

end DeerFlow

import DeerFlow.Backup.Snapshot
import DeerFlow.Proofs.JsonlText

/-!
# The strings of a JSON text

Where a JSON text is inside a string: a text of `dumps` holds a line boundary only there, and a text
that ends there is no text `loads` reads. JSON values with sorted keys are the values rows are
written as.
-/

namespace DeerFlow

open List Option Json

theorem endsInString_inside {c : Char} (h : c ≠ '\\') (cs : List Char) :
    endsInString true (c :: cs) = endsInString (c ≠ '"') cs := by
  rw [endsInString]
  exact fun _ _ hc _ => h hc

theorem endsInString_append (ds : List Char) : ∀ {b : Bool} {cs : List Char},
    endsInString b cs = false → endsInString b (cs ++ ds) = endsInString false ds
  | b, [], h => by
    rw [endsInString] at h
    rw [h, nil_append]
  | false, c :: cs, h => endsInString_append ds (b := decide (c = '"')) h
  | true, [c], h => by
    have hc : c ≠ '\\' := by
      rintro rfl
      cases h
    rw [endsInString_inside hc] at h
    rw [singleton_append, endsInString_inside hc, h.symm.trans (by rw [endsInString])]
  | true, c :: d :: cs, h => by
    by_cases hc : c = '\\'
    · subst hc
      exact (endsInString_append ds (show endsInString true cs = false from h) :)
    · rw [endsInString_inside hc] at h
      rw [cons_append, endsInString_inside hc]
      exact endsInString_append ds h

theorem endsInString_blanks : ∀ {cs : List Char}, (∀ c ∈ cs, isSpace c) →
    endsInString false cs = false
  | [], _ => rfl
  | c :: cs, h => by
    have hc : c ≠ '"' := by
      rintro rfl
      exact absurd (h '"' mem_cons_self) (by decide)
    rw [endsInString, decide_eq_false hc]
    exact endsInString_blanks fun d hd => h d (mem_cons_of_mem _ hd)

theorem endsInString_stripEnd {cs : List Char} (h : endsInString false cs) :
    endsInString false (stripEnd cs) := by
  by_contra hend
  have hsplit : cs = stripEnd cs ++ (cs.reverse.takeWhile isSpace).reverse := by
    unfold stripEnd
    rw [← reverse_append, takeWhile_append_dropWhile, reverse_reverse]
  rw [hsplit, endsInString_append _ (eq_false_of_ne_true hend), endsInString_blanks] at h
  · cases h
  · intro c hc
    exact mem_takeWhile_imp (mem_reverse.1 hc)

theorem endsInString_skipSpace (cs : List Char) :
    endsInString false (skipSpace cs) = endsInString false cs := by
  induction cs with
  | nil => rfl
  | cons c cs ih =>
    unfold skipSpace at *
    rw [dropWhile_cons]
    split_ifs with hc
    · have hq : c ≠ '"' := by
        rintro rfl
        cases hc
      rw [ih, endsInString, decide_eq_false hq]
    · rfl

theorem hexValue_plain {c : Char} {n : ℕ} (h : hexValue c = some n) : c ≠ '"' ∧ c ≠ '\\' := by
  constructor <;> rintro rfl <;> cases h

theorem endsInString_plain {c : Char} (h : c ≠ '"' ∧ c ≠ '\\') (cs : List Char) :
    endsInString true (c :: cs) = endsInString true cs := by
  rw [endsInString_inside h.2, decide_eq_true h.1]

theorem unescapeHex_plain {a b c d x : Char} (h : unescapeHex a b c d = some x) (cs : List Char) :
    endsInString true (a :: b :: c :: d :: cs) = endsInString true cs := by
  unfold unescapeHex at h
  simp only [bind_eq_bind, bind_eq_some_iff] at h
  obtain ⟨_, ha, _, hb, _, hc, _, hd, -⟩ := h
  rw [endsInString_plain (hexValue_plain ha), endsInString_plain (hexValue_plain hb),
    endsInString_plain (hexValue_plain hc), endsInString_plain (hexValue_plain hd)]

theorem readString_closed {cs s rest : List Char} (h : readString cs = some (s, rest)) :
    endsInString true cs = endsInString false rest := by
  fun_induction readString cs generalizing s with
  | case1 => cases h
  | case2 cs =>
    cases h
    rfl
  | case3 a b c d cs ih =>
    simp only [bind_eq_bind, bind_eq_some_iff] at h
    obtain ⟨x, hx, ⟨s', rest'⟩, hs', h⟩ := h
    cases h
    rw [show endsInString true ('\\' :: 'u' :: a :: b :: c :: d :: cs) =
      endsInString true (a :: b :: c :: d :: cs) from rfl, unescapeHex_plain hx]
    exact ih hs'
  | case4 c cs _ ih =>
    simp only [bind_eq_bind, bind_eq_some_iff] at h
    obtain ⟨x, hx, ⟨s', rest'⟩, hs', h⟩ := h
    cases h
    exact ih hs'
  | case5 c cs _ _ _ hc => cases h
  | case6 c cs hquote _ hesc hc ih =>
    simp only [bind_eq_bind, bind_eq_some_iff] at h
    obtain ⟨⟨s', rest'⟩, hs', h⟩ := h
    cases h
    have hback : c ≠ '\\' := by
      rintro rfl
      cases cs with
      | nil => cases hs'
      | cons d cs => exact hesc d cs rfl rfl
    rw [endsInString_plain ⟨hquote, hback⟩]
    exact ih hs'

theorem endsInString_dropDigits (cs : List Char) :
    endsInString false (cs.dropWhile Char.isDigit) = endsInString false cs := by
  induction cs with
  | nil => rfl
  | cons c cs ih =>
    rw [dropWhile_cons]
    split_ifs with hc
    · have hq : c ≠ '"' := by
        rintro rfl
        cases hc
      rw [ih, endsInString, decide_eq_false hq]
    · rfl

theorem readNat_closed {cs rest : List Char} {n : ℕ} (h : readNat cs = some (n, rest)) :
    endsInString false cs = endsInString false rest := by
  simp only [readNat] at h
  split_ifs at h
  cases h
  exact (endsInString_dropDigits cs).symm

theorem readNumber_closed {cs rest : List Char} {v : Json} (h : readNumber cs = some (v, rest)) :
    endsInString false cs = endsInString false rest := by
  unfold readNumber at h
  split at h
  · rename_i cs'
    obtain ⟨⟨n, r⟩, hn, heq⟩ := map_eq_some_iff.1 h
    cases heq
    rw [show endsInString false ('-' :: cs') = endsInString false cs' from rfl]
    exact readNat_closed hn
  · obtain ⟨⟨n, r⟩, hn, heq⟩ := map_eq_some_iff.1 h
    cases heq
    exact readNat_closed hn

def Closes {α : Type} (read : List Char → Option (α × List Char)) : Prop :=
  ∀ cs x rest, read cs = some (x, rest) → endsInString false cs = endsInString false rest

theorem read_closes (n : ℕ) :
    Closes (readValue n) ∧ Closes (readItems n) ∧ Closes (readField n) ∧ Closes (readFields n) := by
  induction n with
  | zero =>
    refine ⟨?_, ?_, ?_, ?_⟩ <;>
      · intro _ _ _ h
        cases h
  | succ n ih =>
    obtain ⟨hvalue, hitems, hfield, hfields⟩ := ih
    refine ⟨fun cs v rest h => ?_, fun cs xs rest h => ?_, fun cs kv rest h => ?_,
      fun cs kvs rest h => ?_⟩
    · rw [readValue] at h
      rw [← endsInString_skipSpace cs]
      split at h
      · rename_i heq
        cases h
        rw [heq]
        rfl
      · rename_i heq
        cases h
        rw [heq]
        rfl
      · rename_i heq
        cases h
        rw [heq]
        rfl
      · rename_i cs' heq
        obtain ⟨⟨s, r⟩, hs, hv⟩ := map_eq_some_iff.1 h
        cases hv
        rw [heq]
        exact readString_closed hs
      · rename_i cs' heq
        rw [heq, show endsInString false ('[' :: cs') = endsInString false cs' from rfl,
          ← endsInString_skipSpace cs']
        split at h
        · rename_i heq'
          cases h
          rw [heq']
          rfl
        · simp only [bind_eq_bind, bind_eq_some_iff] at h
          obtain ⟨⟨x, r⟩, hx, ⟨xs, r'⟩, hxs, h⟩ := h
          cases h
          exact (hvalue _ _ _ hx).trans (hitems _ _ _ hxs)
      · rename_i cs' heq
        rw [heq, show endsInString false ('{' :: cs') = endsInString false cs' from rfl,
          ← endsInString_skipSpace cs']
        split at h
        · rename_i heq'
          cases h
          rw [heq']
          rfl
        · simp only [bind_eq_bind, bind_eq_some_iff] at h
          obtain ⟨⟨x, r⟩, hx, ⟨xs, r'⟩, hxs, h⟩ := h
          cases h
          exact (hfield _ _ _ hx).trans (hfields _ _ _ hxs)
      · exact readNumber_closed h
    · rw [readItems] at h
      rw [← endsInString_skipSpace cs]
      split at h
      · rename_i heq
        cases h
        rw [heq]
        rfl
      · rename_i cs' heq
        simp only [bind_eq_bind, bind_eq_some_iff] at h
        obtain ⟨⟨x, r⟩, hx, ⟨xs', r'⟩, hxs, h⟩ := h
        cases h
        rw [heq]
        exact (hvalue _ _ _ hx).trans (hitems _ _ _ hxs)
      · cases h
    · rw [readField] at h
      rw [← endsInString_skipSpace cs]
      split at h
      · rename_i cs' heq
        simp only [bind_eq_bind, bind_eq_some_iff] at h
        obtain ⟨⟨k, r⟩, hk, h⟩ := h
        rw [heq, show endsInString false ('"' :: cs') = endsInString true cs' from rfl,
          readString_closed hk, ← endsInString_skipSpace r]
        split at h
        · rename_i r' heq'
          simp only [bind_eq_some_iff] at h
          obtain ⟨⟨v, r''⟩, hv, h⟩ := h
          cases h
          rw [heq', show endsInString false (':' :: r') = endsInString false r' from rfl]
          exact hvalue _ _ _ hv
        · cases h
      · cases h
    · rw [readFields] at h
      rw [← endsInString_skipSpace cs]
      split at h
      · rename_i heq
        cases h
        rw [heq]
        rfl
      · rename_i cs' heq
        simp only [bind_eq_bind, bind_eq_some_iff] at h
        obtain ⟨⟨x, r⟩, hx, ⟨xs', r'⟩, hxs, h⟩ := h
        cases h
        rw [heq]
        exact (hfield _ _ _ hx).trans (hfields _ _ _ hxs)
      · cases h

theorem loads_closed {cs : List Char} {v : Json} (h : Json.loads cs = some v) :
    endsInString false cs = false := by
  unfold Json.loads at h
  simp only [bind_eq_bind, bind_eq_some_iff] at h
  obtain ⟨⟨x, rest⟩, hx, h⟩ := h
  split_ifs at h with hrest
  rw [(read_closes _).1 _ _ _ hx, ← endsInString_skipSpace rest, hrest]
  rfl

structure Quoted (w : List Char) : Prop where
  closed : endsInString false w = false
  inside : ∀ p c r, w = p ++ c :: r → isLineBreak c = true → endsInString false p = true

theorem Quoted.append {w w' : List Char} (h : Quoted w) (h' : Quoted w') : Quoted (w ++ w') where
  closed := (endsInString_append w' h.closed).trans h'.closed
  inside p c r heq hc := by
    rcases append_eq_append_iff.1 heq with ⟨q, rfl, hq⟩ | ⟨q, hq, hr⟩
    · rw [endsInString_append q h.closed]
      exact h'.inside q c r hq hc
    · cases q with
      | nil =>
        rw [append_nil] at hq
        have := h'.inside [] c r (by simpa using hr.symm) hc
        cases this
      | cons d q =>
        obtain ⟨rfl, -⟩ := cons.inj hr
        exact h.inside p c q hq hc

theorem quoted_plain : ∀ {w : List Char}, (∀ c ∈ w, c ≠ '"' ∧ isLineBreak c = false) → Quoted w
  | [], _ => ⟨rfl, fun p c r heq => by simp at heq⟩
  | c :: w, h => by
    obtain ⟨⟨hquote, hbreak⟩, hw⟩ := forall_mem_cons.1 h
    have ih := quoted_plain hw
    have hskip : ∀ cs, endsInString false (c :: cs) = endsInString false cs := by
      intro cs
      rw [endsInString, decide_eq_false hquote]
    refine ⟨(hskip w).trans ih.closed, fun p d r heq hd => ?_⟩
    cases p with
    | nil =>
      cases heq
      rw [hbreak] at hd
      cases hd
    | cons e p =>
      obtain ⟨rfl, htail⟩ := cons.inj heq
      rw [hskip]
      exact ih.inside p d r htail hd

theorem hexDigit_plain : ∀ n, n < 16 →
    (hexDigit n ≠ '"' ∧ hexDigit n ≠ '\\') ∧ isLineBreak (hexDigit n) = false := by decide

theorem escapeChar_cases (c : Char) :
    (escapeChar c = [c] ∧ c ≠ '"' ∧ c ≠ '\\') ∨ ∃ d ds, escapeChar c = '\\' :: d :: ds ∧
      isLineBreak d = false ∧ ∀ e ∈ ds, (e ≠ '"' ∧ e ≠ '\\') ∧ isLineBreak e = false := by
  unfold escapeChar
  split_ifs with h1 h2 h3 h4 h5 h6 h7 h8
  · exact .inr ⟨_, _, rfl, by decide, by simp⟩
  · exact .inr ⟨_, _, rfl, by decide, by simp⟩
  · exact .inr ⟨_, _, rfl, by decide, by simp⟩
  · exact .inr ⟨_, _, rfl, by decide, by simp⟩
  · exact .inr ⟨_, _, rfl, by decide, by simp⟩
  · exact .inr ⟨_, _, rfl, by decide, by simp⟩
  · exact .inr ⟨_, _, rfl, by decide, by simp⟩
  · refine .inr ⟨_, _, rfl, by decide, ?_⟩
    simp only [forall_mem_cons]
    exact ⟨by decide, by decide, hexDigit_plain _ (by omega), hexDigit_plain _ (by omega), by simp⟩
  · exact .inl ⟨rfl, h1, h2⟩

theorem endsInString_plains (cs : List Char) : ∀ {ds : List Char},
    (∀ e ∈ ds, (e ≠ '"' ∧ e ≠ '\\') ∧ isLineBreak e = false) →
    endsInString true (ds ++ cs) = endsInString true cs
  | [], _ => rfl
  | d :: ds, h => by
    obtain ⟨hd, hds⟩ := forall_mem_cons.1 h
    rw [cons_append, endsInString_plain hd.1]
    exact endsInString_plains cs hds

theorem endsInString_escapeChar (c : Char) (cs : List Char) :
    endsInString true (escapeChar c ++ cs) = endsInString true cs := by
  rcases escapeChar_cases c with ⟨heq, hc⟩ | ⟨d, ds, heq, -, hds⟩
  · rw [heq, singleton_append, endsInString_plain hc]
  · rw [heq, cons_append, cons_append]
    exact endsInString_plains cs hds

theorem inside_escapeChar {c d : Char} {p r : List Char} (h : escapeChar c = p ++ d :: r)
    (hd : isLineBreak d) : p = [] := by
  rcases escapeChar_cases c with ⟨heq, -⟩ | ⟨e, es, heq, he, hes⟩
  · rw [heq] at h
    cases p with
    | nil => rfl
    | cons e p => simp at h
  · rw [heq] at h
    have hmem : d ∈ '\\' :: e :: es := by
      rw [h]
      exact mem_append_right _ mem_cons_self
    rcases mem_cons.1 hmem with rfl | hmem
    · cases hd
    · rcases mem_cons.1 hmem with rfl | hmem
      · rw [he] at hd
        cases hd
      · rw [(hes d hmem).2] at hd
        cases hd

theorem inside_escaped {d : Char} (hd : isLineBreak d) : ∀ {cs p r : List Char},
    cs.flatMap escapeChar ++ ['"'] = p ++ d :: r → endsInString true p
  | [], p, r, h => by
    cases p with
    | nil =>
      obtain ⟨rfl, -⟩ := cons.inj h
      cases hd
    | cons e p => simp at h
  | c :: cs, p, r, h => by
    rw [flatMap_cons, append_assoc] at h
    rcases append_eq_append_iff.1 h with ⟨q, rfl, hq⟩ | ⟨q, hq, hr⟩
    · rw [endsInString_escapeChar]
      exact inside_escaped hd hq
    · cases q with
      | nil =>
        rw [append_nil] at hq
        rw [← hq, ← append_nil (escapeChar c), endsInString_escapeChar]
        rfl
      | cons e q =>
        obtain ⟨rfl, -⟩ := cons.inj hr
        rw [inside_escapeChar hq hd]
        rfl

theorem endsInString_escaped (cs ds : List Char) :
    endsInString true (cs.flatMap escapeChar ++ ds) = endsInString true ds := by
  induction cs with
  | nil => rfl
  | cons c cs ih => rw [flatMap_cons, append_assoc, endsInString_escapeChar, ih]

theorem quoted_quoteText (s : String) : Quoted (quoteText s) where
  closed := by
    rw [quoteText, endsInString]
    exact endsInString_escaped s.toList ['"']
  inside p c r h hc := by
    cases p with
    | nil =>
      obtain ⟨rfl, -⟩ := cons.inj h
      cases hc
    | cons d p =>
      obtain ⟨rfl, htail⟩ := cons.inj h
      exact inside_escaped hc htail

theorem quoted_intText (n : Int) : Quoted (intText n) := by
  refine quoted_plain fun c hc => ?_
  have hdigit : ∀ m, c ∈ Nat.toDigits 10 m → c ≠ '"' ∧ isLineBreak c = false := by
    intro m hm
    have hbounds := isDigit_bounds (isDigit_of_mem_toDigits hm)
    refine ⟨?_, isLineBreak_eq_false (by omega) ?_⟩
    · rintro rfl
      exact absurd hbounds (by decide)
    · simp only [isSeparator, Bool.or_eq_false_iff, decide_eq_false_iff_not]
      omega
  cases n with
  | ofNat n => exact hdigit n hc
  | negSucc n =>
    rcases mem_cons.1 hc with rfl | hc
    · decide
    · exact hdigit _ hc

theorem Quoted.cons {c : Char} {w : List Char} (hc : c ≠ '"' ∧ isLineBreak c = false)
    (h : Quoted w) : Quoted (c :: w) :=
  (quoted_plain (w := [c]) (by simpa using hc)).append h

theorem quoted_text {w : List Char}
    (h : (w.all fun c => decide (c ≠ '"') && !isLineBreak c)) : Quoted w :=
  quoted_plain fun c hc => by simpa using all_eq_true.1 h c hc

mutual

theorem quoted_dumps : ∀ v : Json, Quoted v.dumps
  | .null | .bool true | .bool false => quoted_text (by decide)
  | .num n => quoted_intText n
  | .str s => quoted_quoteText s
  | .arr [] => quoted_text (by decide)
  | .arr (x :: xs) => .cons (by decide) ((quoted_dumps x).append (quoted_dumpsItems xs))
  | .obj [] => quoted_text (by decide)
  | .obj ((k, v) :: kvs) => .cons (by decide) ((quoted_quoteText k).append
      (.cons (by decide) (.cons (by decide) ((quoted_dumps v).append (quoted_dumpsFields kvs)))))

theorem quoted_dumpsItems : ∀ xs : List Json, Quoted (dumpsItems xs)
  | [] => quoted_text (by decide)
  | x :: xs => .cons (by decide) (.cons (by decide)
      ((quoted_dumps x).append (quoted_dumpsItems xs)))

theorem quoted_dumpsFields : ∀ kvs : List (String × Json), Quoted (dumpsFields kvs)
  | [] => quoted_text (by decide)
  | (k, v) :: kvs => .cons (by decide) (.cons (by decide) ((quoted_quoteText k).append
      (.cons (by decide) (.cons (by decide) ((quoted_dumps v).append (quoted_dumpsFields kvs))))))

end

theorem find?_of_nodup {α β : Type} [DecidableEq β] {f : α → β} {l : List α} (h : (l.map f).Nodup)
    {x : α} (hx : x ∈ l) : l.find? (fun y => f y = f x) = some x := by
  induction l with
  | nil => cases hx
  | cons y l ih =>
    rw [map_cons, nodup_cons] at h
    rcases mem_cons.1 hx with rfl | hx
    · simp
    · have hne : f y ≠ f x := fun heq => h.1 (heq ▸ mem_map_of_mem hx)
      rw [find?_cons_of_neg (by simpa using hne)]
      exact ih h.2 hx

theorem insertionSort_keys (kvs : List (String × Json)) :
    ((kvs.insertionSort fun a b => a.1 ≤ b.1).insertionSort fun a b => a.1 ≤ b.1) =
      kvs.insertionSort fun a b => a.1 ≤ b.1 := by
  have : IsTrans (String × Json) fun a b => a.1 ≤ b.1 := ⟨fun _ _ _ h h' => String.le_trans h h'⟩
  have : Std.Total fun a b : String × Json => a.1 ≤ b.1 := ⟨fun a b => String.le_total a.1 b.1⟩
  exact (pairwise_insertionSort _ kvs).insertionSort_eq

theorem sortFields_eq_self : ∀ {kvs : List (String × Json)}, (∀ kv ∈ kvs, kv.2.sortKeys = kv.2) →
    sortFields kvs = kvs
  | [], _ => rfl
  | (k, v) :: kvs, h => by
    obtain ⟨hv, hkvs⟩ := forall_mem_cons.1 h
    rw [sortFields, hv, sortFields_eq_self hkvs]

mutual

theorem sortKeys_sortKeys : ∀ v : Json, v.sortKeys.sortKeys = v.sortKeys
  | .null | .bool _ | .num _ | .str _ => rfl
  | .arr xs => congrArg arr (sortItems_sortItems xs)
  | .obj kvs => by
    have hsorted : ∀ kv ∈ (sortFields kvs).insertionSort fun a b => a.1 ≤ b.1,
        kv.2.sortKeys = kv.2 := fun kv hkv =>
      sortKeys_sortFields kvs kv ((mem_insertionSort _).1 hkv)
    rw [sortKeys, sortKeys, sortFields_eq_self hsorted, insertionSort_keys]

theorem sortItems_sortItems : ∀ xs : List Json,
    sortItems (sortItems xs) = sortItems xs
  | [] => rfl
  | x :: xs => congrArg₂ cons (sortKeys_sortKeys x) (sortItems_sortItems xs)

theorem sortKeys_sortFields : ∀ kvs : List (String × Json), ∀ kv ∈ sortFields kvs,
    kv.2.sortKeys = kv.2
  | [], kv, h => by cases h
  | (k, v) :: kvs, kv, h => by
    rcases mem_cons.1 h with rfl | h
    · exact sortKeys_sortKeys v
    · exact sortKeys_sortFields kvs kv h

end

abbrev SortedJson := {v : Json // v.sortKeys = v}

def Json.sorted (v : Json) : SortedJson := ⟨v.sortKeys, sortKeys_sortKeys v⟩

namespace SortedJson

theorem sorted_val (v : SortedJson) : v.1.sorted = v := Subtype.ext v.2

def dict (kvs : List (String × SortedJson)) : SortedJson :=
  (obj (kvs.map fun kv => (kv.1, kv.2.1))).sorted

def str? : SortedJson → Option String
  | ⟨.str s, _⟩ => some s
  | _ => none

def get? : SortedJson → Option (String → Option SortedJson)
  | ⟨.obj kvs, _⟩ => some fun k => (kvs.find? (·.1 = k)).map fun kv => kv.2.sorted
  | _ => none

theorem dict_val (kvs : List (String × SortedJson)) : (dict kvs).1 =
    .obj ((kvs.map fun kv => (kv.1, kv.2.1)).insertionSort fun a b => a.1 ≤ b.1) := by
  have hfields : sortFields (kvs.map fun kv => (kv.1, kv.2.1)) =
      kvs.map fun kv => (kv.1, kv.2.1) :=
    sortFields_eq_self (forall_mem_map.2 fun kv _ => kv.2.2)
  rw [dict, sorted]
  dsimp only [sortKeys]
  rw [hfields]

theorem get?_dict {kvs : List (String × SortedJson)} (h : (kvs.map Prod.fst).Nodup) :
    ∃ get, get? (dict kvs) = some get ∧ ∀ k v, (k, v) ∈ kvs → get k = some v := by
  obtain ⟨v, hv⟩ : ∃ v, dict kvs = v := ⟨_, rfl⟩
  have hval := dict_val kvs
  rw [hv] at hval ⊢
  obtain ⟨v, hsorted⟩ := v
  cases hval
  refine ⟨_, rfl, fun k v hmem => ?_⟩
  have hkeys : (((kvs.map fun kv => (kv.1, kv.2.1)).insertionSort fun a b => a.1 ≤ b.1).map
      Prod.fst).Nodup := by
    refine ((perm_insertionSort ..).map Prod.fst).nodup_iff.2 ?_
    rw [List.map_map]
    exact h
  have hfind := find?_of_nodup hkeys
    ((mem_insertionSort _).2 (mem_map_of_mem hmem))
  rw [hfind]
  exact congrArg some (sorted_val v)

theorem dumps_dict (kvs : List (String × SortedJson)) :
    ∃ body, (dict kvs).1.dumps = '{' :: (body ++ ['}']) := by
  rw [dict_val]
  generalize (kvs.map fun kv => (kv.1, kv.2.1)).insertionSort (fun a b => a.1 ≤ b.1) = fields
  cases fields with
  | nil => exact ⟨[], rfl⟩
  | cons kv kvs =>
    obtain ⟨body, hbody⟩ := dumpsFields_brace kvs
    refine ⟨quoteText kv.1 ++ ':' :: ' ' :: (kv.2.dumps ++ body), ?_⟩
    rw [dumps, hbody]
    simp

def rowJson : RowJson SortedJson where
  null := ⟨.null, rfl⟩
  str s := ⟨.str s, rfl⟩
  dict := dict
  str? := str?
  get? := get?
  dumps v := v.1.dumps
  loads cs := (loads cs).map sorted
  payload rows := (arr (rows.map Subtype.val)).dumps
  str?_str _ := rfl
  str?_null := rfl
  get?_dict _ h := get?_dict h
  loads_dumps v := by rw [loads_dumps, Option.map_some, sorted_val]
  dumps_printable v _ hc := (mem_dumps v.1 hc).1
  dumps_dict := dumps_dict
  dumps_quoted v := (quoted_dumps v.1).inside
  loads_closed cs v h := by
    obtain ⟨w, hw, -⟩ := Option.map_eq_some_iff.1 h
    exact loads_closed hw

/-- Values are compared by their texts, from which they can be read back. -/
instance decidableEqSortedJson : DecidableEq SortedJson := fun v w =>
  decidable_of_iff (rowJson.dumps v = rowJson.dumps w) ⟨fun h => by
    have hload := rowJson.loads_dumps v
    rw [h, rowJson.loads_dumps] at hload
    exact (Option.some.inj hload).symm, fun h => h ▸ rfl⟩

end SortedJson

end DeerFlow

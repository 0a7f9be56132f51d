import DeerFlow.Proofs.JsonRoundTrip
import DeerFlow.Release.Idempotency

/-!
# The request hash tells requests apart

The canonical text of a request can be read back. A hash without collisions is then equal for two
requests exactly if their action, package, channel, target, workspace and reason are.
-/

namespace DeerFlow

open List Option

def hexNumber (a b c d : Char) : Option ℕ := do
  let a ← hexValue a
  let b ← hexValue b
  let c ← hexValue c
  let d ← hexValue d
  some (((a * 16 + b) * 16 + c) * 16 + d)

def readEscape : List Char → Option (Char × List Char)
  | '\\' :: 'u' :: a :: b :: c :: d :: cs => do
    let n ← hexNumber a b c d
    if 55296 ≤ n ∧ n < 56320 then
      match cs with
      | '\\' :: 'u' :: a :: b :: c :: d :: cs => do
        let m ← hexNumber a b c d
        some (Char.ofNat (65536 + (n - 55296) * 1024 + (m - 56320)), cs)
      | _ => none
    else some (Char.ofNat n, cs)
  | '\\' :: c :: cs => (unescape c).map fun x => (x, cs)
  | c :: cs => some (c, cs)
  | [] => none

theorem hexNumber_digits {n : ℕ} (h : n < 65536) :
    hexNumber (hexDigit (n / 4096 % 16)) (hexDigit (n / 256 % 16)) (hexDigit (n / 16 % 16))
      (hexDigit (n % 16)) = some n := by
  have hn : ((n / 4096 % 16 * 16 + n / 256 % 16) * 16 + n / 16 % 16) * 16 + n % 16 = n := by omega
  simp only [hexNumber, hexValue_hexDigit _ (Nat.mod_lt _ (by decide : 0 < 16)),
    bind_eq_bind, bind_some, hn]

theorem toNat_ranges (c : Char) : c.toNat < 55296 ∨ (57343 < c.toNat ∧ c.toNat < 1114112) := by
  have h := c.valid
  simpa only [Char.toNat] using h

theorem readEscape_unicode {n : ℕ} (h : n < 65536) (hs : ¬ (55296 ≤ n ∧ n < 56320))
    (rest : List Char) : readEscape (unicodeEscape n ++ rest) = some (Char.ofNat n, rest) := by
  change (hexNumber _ _ _ _).bind _ = _
  rw [hexNumber_digits h, bind_some, if_neg hs]
  rfl

theorem readEscape_surrogates {n m : ℕ} (h : 55296 ≤ n ∧ n < 56320) (hm : m < 65536)
    (rest : List Char) :
    readEscape (unicodeEscape n ++ (unicodeEscape m ++ rest))
      = some (Char.ofNat (65536 + (n - 55296) * 1024 + (m - 56320)), rest) := by
  change (hexNumber _ _ _ _).bind _ = _
  rw [hexNumber_digits (Nat.lt_trans h.2 (by decide)), bind_some, if_pos h]
  change (hexNumber _ _ _ _).bind _ = _
  rw [hexNumber_digits hm, bind_some]
  rfl

theorem readEscape_plain {c : Char} (h : c ≠ '\\') (rest : List Char) :
    readEscape (c :: rest) = some (c, rest) := by
  rw [readEscape.eq_def]
  split
  · next heq => exact absurd (cons.inj heq).1 h
  · next heq => exact absurd (cons.inj heq).1 h
  · next heq => cases heq; rfl
  · next heq => cases heq

theorem readEscape_asciiEscape (c : Char) (rest : List Char) :
    readEscape (asciiEscape c ++ rest) = some (c, rest) := by
  have hrange := toNat_ranges c
  unfold asciiEscape
  by_cases h1 : c = '"'
  · subst h1; rfl
  rw [if_neg h1]
  by_cases h2 : c = '\\'
  · subst h2; rfl
  rw [if_neg h2]
  by_cases h3 : c = '\n'
  · subst h3; rfl
  rw [if_neg h3]
  by_cases h4 : c = '\r'
  · subst h4; rfl
  rw [if_neg h4]
  by_cases h5 : c = '\t'
  · subst h5; rfl
  rw [if_neg h5]
  by_cases h6 : c = '\x0c'
  · subst h6; rfl
  rw [if_neg h6]
  by_cases h7 : c = '\x08'
  · subst h7; rfl
  rw [if_neg h7]
  by_cases h8 : 32 ≤ c.toNat ∧ c.toNat ≤ 126
  · rw [if_pos h8]
    exact readEscape_plain h2 rest
  rw [if_neg h8]
  by_cases h9 : c.toNat < 65536
  · rw [if_pos h9, readEscape_unicode h9 (by omega), Char.ofNat_toNat]
  · have hn : 65536 + (55296 + (c.toNat - 65536) / 1024 - 55296) * 1024
        + (56320 + (c.toNat - 65536) % 1024 - 56320) = c.toNat := by omega
    rw [if_neg h9, append_assoc, readEscape_surrogates (by omega) (by omega), hn, Char.ofNat_toNat]

theorem asciiEscape_ne_quote (c : Char) (u v : List Char) : asciiEscape c ++ u ≠ '"' :: v := by
  intro h
  have hread := readEscape_asciiEscape c u
  rw [h, readEscape_plain (by decide)] at hread
  cases hread
  have hquote : '\\' :: '"' :: u = '"' :: u := h
  exact absurd (cons.inj hquote).1 (by decide)

theorem flatMap_asciiEscape_inj : ∀ (s t u v : List Char),
    s.flatMap asciiEscape ++ '"' :: u = t.flatMap asciiEscape ++ '"' :: v → s = t ∧ u = v
  | [], [], u, v, h => ⟨rfl, (cons.inj h).2⟩
  | [], d :: t, u, v, h => by
    rw [flatMap_cons, append_assoc] at h
    exact absurd h.symm (asciiEscape_ne_quote d _ _)
  | c :: s, [], u, v, h => by
    rw [flatMap_cons, append_assoc] at h
    exact absurd h (asciiEscape_ne_quote c _ _)
  | c :: s, d :: t, u, v, h => by
    rw [flatMap_cons, flatMap_cons, append_assoc, append_assoc] at h
    have hread := congrArg readEscape h
    rw [readEscape_asciiEscape, readEscape_asciiEscape, some.injEq, Prod.mk.injEq] at hread
    obtain ⟨rfl, hrest⟩ := hread
    obtain ⟨rfl, rfl⟩ := flatMap_asciiEscape_inj s t u v hrest
    exact ⟨rfl, rfl⟩

theorem asciiQuote_inj {s t : String} {u v : List Char}
    (h : asciiQuote s ++ u = asciiQuote t ++ v) : s = t ∧ u = v := by
  simp only [asciiQuote, cons_append, append_assoc, nil_append, cons.injEq, true_and] at h
  obtain ⟨hs, hu⟩ := flatMap_asciiEscape_inj _ _ _ _ h
  exact ⟨String.toList_inj.1 hs, hu⟩

theorem asciiNullable_inj {s t : Option String} {u v : List Char}
    (h : asciiNullable s ++ u = asciiNullable t ++ v) : s = t ∧ u = v := by
  cases s with
  | none =>
    cases t with
    | none => exact ⟨rfl, append_cancel_left h⟩
    | some t => simp [asciiNullable, asciiQuote] at h
  | some s =>
    cases t with
    | none => simp [asciiNullable, asciiQuote] at h
    | some t =>
      obtain ⟨rfl, hu⟩ := asciiQuote_inj h
      exact ⟨rfl, hu⟩

def MoveArgs.identity (a : MoveArgs) :
    ReleaseAction × String × ReleaseChannel × VersionId × Option String × Option String :=
  (a.action, a.packageId, a.channel, a.targetVersionId, a.workspaceId, a.reason)

theorem MoveArgs.canonical_inj {a b : MoveArgs} (h : a.canonical = b.canonical) :
    a.identity = b.identity := by
  unfold MoveArgs.canonical at h
  simp only [append_assoc] at h
  obtain ⟨haction, h⟩ := asciiQuote_inj (append_cancel_left h)
  obtain ⟨hchannel, h⟩ := asciiQuote_inj (append_cancel_left h)
  obtain ⟨hpackage, h⟩ := asciiQuote_inj (append_cancel_left h)
  obtain ⟨hreason, h⟩ := asciiNullable_inj (append_cancel_left h)
  obtain ⟨htarget, h⟩ := asciiQuote_inj (append_cancel_left h)
  obtain ⟨hworkspace, -⟩ := asciiNullable_inj (append_cancel_left h)
  have haction' : ∀ x y : ReleaseAction, x.text = y.text → x = y := by
    intro x y
    cases x <;> cases y <;> decide
  have hchannel' : ∀ x y : ReleaseChannel, x.text = y.text → x = y := by
    intro x y
    cases x <;> cases y <;> decide
  have htarget' : a.targetVersionId = b.targetVersionId := by
    cases ha : a.targetVersionId
    cases hb : b.targetVersionId
    rw [ha, hb] at htarget
    cases htarget
    rfl
  simp only [MoveArgs.identity, haction' _ _ haction, hchannel' _ _ hchannel, hpackage, hreason,
    htarget', hworkspace]

theorem computeRequestHash_inj {sha256 : List Char → String} (hinj : Function.Injective sha256)
    {a b : MoveArgs} (h : computeRequestHash sha256 a = computeRequestHash sha256 b) :
    a.identity = b.identity :=
  MoveArgs.canonical_inj (hinj h)

end DeerFlow

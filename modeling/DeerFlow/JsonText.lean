import DeerFlow.Types
import Mathlib.Data.List.Sort
import Mathlib.Data.List.TakeWhile

/-!
# JSON texts

`json.dumps(v, ensure_ascii=False)` and `json.loads`, on lists of characters. The encoder escapes
the quote, the backslash and the control characters below U+0020. Numbers are integers here, and the
decoder takes no escaped surrogate.
-/

namespace DeerFlow

def hexDigit (n : ℕ) : Char := if n < 10 then Char.ofNat (48 + n) else Char.ofNat (87 + n)

def escapeChar (c : Char) : List Char :=
  if c = '"' then ['\\', '"']
  else if c = '\\' then ['\\', '\\']
  else if c = '\n' then ['\\', 'n']
  else if c = '\r' then ['\\', 'r']
  else if c = '\t' then ['\\', 't']
  else if c = '\x0c' then ['\\', 'f']
  else if c = '\x08' then ['\\', 'b']
  else if c.toNat < 32 then ['\\', 'u', '0', '0', hexDigit (c.toNat / 16), hexDigit (c.toNat % 16)]
  else [c]

def quoteText (s : String) : List Char := '"' :: (s.toList.flatMap escapeChar ++ ['"'])

def intText : Int → List Char
  | .ofNat n => Nat.toDigits 10 n
  | .negSucc n => '-' :: Nat.toDigits 10 (n + 1)

mutual

/-- `json.dumps(v, ensure_ascii=False)`. -/
def Json.dumps : Json → List Char
  | .null => ['n', 'u', 'l', 'l']
  | .bool true => ['t', 'r', 'u', 'e']
  | .bool false => ['f', 'a', 'l', 's', 'e']
  | .num n => intText n
  | .str s => quoteText s
  | .arr [] => ['[', ']']
  | .arr (x :: xs) => '[' :: (x.dumps ++ dumpsItems xs)
  | .obj [] => ['{', '}']
  | .obj ((k, v) :: kvs) => '{' :: (quoteText k ++ ':' :: ' ' :: (v.dumps ++ dumpsFields kvs))

def Json.dumpsItems : List Json → List Char
  | [] => [']']
  | x :: xs => ',' :: ' ' :: (x.dumps ++ dumpsItems xs)

def Json.dumpsFields : List (String × Json) → List Char
  | [] => ['}']
  | (k, v) :: kvs => ',' :: ' ' :: (quoteText k ++ ':' :: ' ' :: (v.dumps ++ dumpsFields kvs))

end

def unicodeEscape (n : ℕ) : List Char :=
  ['\\', 'u', hexDigit (n / 4096 % 16), hexDigit (n / 256 % 16), hexDigit (n / 16 % 16),
    hexDigit (n % 16)]

/-- Everything but printable ASCII is escaped, what does not fit into four digits as two
surrogates. -/
def asciiEscape (c : Char) : List Char :=
  if c = '"' then ['\\', '"']
  else if c = '\\' then ['\\', '\\']
  else if c = '\n' then ['\\', 'n']
  else if c = '\r' then ['\\', 'r']
  else if c = '\t' then ['\\', 't']
  else if c = '\x0c' then ['\\', 'f']
  else if c = '\x08' then ['\\', 'b']
  else if 32 ≤ c.toNat ∧ c.toNat ≤ 126 then [c]
  else if c.toNat < 65536 then unicodeEscape c.toNat
  else unicodeEscape (55296 + (c.toNat - 65536) / 1024)
    ++ unicodeEscape (56320 + (c.toNat - 65536) % 1024)

def asciiQuote (s : String) : List Char := '"' :: (s.toList.flatMap asciiEscape ++ ['"'])

/-- A text of `json.dumps` as it is without `ensure_ascii=False`. -/
def asciiText (cs : List Char) : List Char :=
  cs.flatMap fun c => if c.toNat ≤ 126 then [c] else asciiEscape c

mutual

/-- The value with the keys of every dict in it sorted, as `sort_keys=True` writes it. -/
def Json.sortKeys : Json → Json
  | .arr xs => .arr (sortItems xs)
  | .obj kvs => .obj ((sortFields kvs).insertionSort fun a b => a.1 ≤ b.1)
  | v => v

def Json.sortItems : List Json → List Json
  | [] => []
  | x :: xs => x.sortKeys :: sortItems xs

def Json.sortFields : List (String × Json) → List (String × Json)
  | [] => []
  | (k, v) :: kvs => (k, v.sortKeys) :: sortFields kvs

end

def isJsonSpace (c : Char) : Bool := c = ' ' || c = '\t' || c = '\n' || c = '\r'

def skipSpace (cs : List Char) : List Char := cs.dropWhile isJsonSpace

def hexValue (c : Char) : Option ℕ :=
  if '0' ≤ c ∧ c ≤ '9' then some (c.toNat - 48)
  else if 'a' ≤ c ∧ c ≤ 'f' then some (c.toNat - 87)
  else if 'A' ≤ c ∧ c ≤ 'F' then some (c.toNat - 55)
  else none

def unescape (c : Char) : Option Char :=
  if c = '"' ∨ c = '\\' ∨ c = '/' then some c
  else if c = 'n' then some '\n'
  else if c = 'r' then some '\r'
  else if c = 't' then some '\t'
  else if c = 'f' then some '\x0c'
  else if c = 'b' then some '\x08'
  else none

def unescapeHex (a b c d : Char) : Option Char := do
  let a ← hexValue a
  let b ← hexValue b
  let c ← hexValue c
  let d ← hexValue d
  let n := ((a * 16 + b) * 16 + c) * 16 + d
  if n.isValidChar then some (Char.ofNat n) else none

def readString : List Char → Option (List Char × List Char)
  | [] => none
  | '"' :: cs => some ([], cs)
  | '\\' :: 'u' :: a :: b :: c :: d :: cs => do
    let x ← unescapeHex a b c d
    let (s, cs) ← readString cs
    some (x :: s, cs)
  | '\\' :: c :: cs => do
    let x ← unescape c
    let (s, cs) ← readString cs
    some (x :: s, cs)
  | c :: cs =>
    if c.toNat < 32 then none
    else do
      let (s, cs) ← readString cs
      some (c :: s, cs)

def readNat (cs : List Char) : Option (ℕ × List Char) :=
  let ds := cs.takeWhile Char.isDigit
  let rest := cs.dropWhile Char.isDigit
  if ds = [] ∨ (ds.head? = some '0' ∧ ds ≠ ['0']) ∨ rest.head? ∈ [some '.', some 'e', some 'E'] then
    none
  else some (Nat.ofDigitChars 10 ds 0, rest)

def readNumber : List Char → Option (Json × List Char)
  | '-' :: cs => (readNat cs).map fun x => (.num (-(x.1 : Int)), x.2)
  | cs => (readNat cs).map fun x => (.num x.1, x.2)

mutual

def readValue : ℕ → List Char → Option (Json × List Char)
  | 0, _ => none
  | n + 1, cs =>
    match skipSpace cs with
    | 'n' :: 'u' :: 'l' :: 'l' :: cs => some (.null, cs)
    | 't' :: 'r' :: 'u' :: 'e' :: cs => some (.bool true, cs)
    | 'f' :: 'a' :: 'l' :: 's' :: 'e' :: cs => some (.bool false, cs)
    | '"' :: cs => (readString cs).map fun x => (.str (String.ofList x.1), x.2)
    | '[' :: cs =>
      match skipSpace cs with
      | ']' :: cs => some (.arr [], cs)
      | cs => do
        let (x, cs) ← readValue n cs
        let (xs, cs) ← readItems n cs
        some (.arr (x :: xs), cs)
    | '{' :: cs =>
      match skipSpace cs with
      | '}' :: cs => some (.obj [], cs)
      | cs => do
        let (kv, cs) ← readField n cs
        let (kvs, cs) ← readFields n cs
        some (.obj (kv :: kvs), cs)
    | cs => readNumber cs

def readItems : ℕ → List Char → Option (List Json × List Char)
  | 0, _ => none
  | n + 1, cs =>
    match skipSpace cs with
    | ']' :: cs => some ([], cs)
    | ',' :: cs => do
      let (x, cs) ← readValue n cs
      let (xs, cs) ← readItems n cs
      some (x :: xs, cs)
    | _ => none

def readField : ℕ → List Char → Option ((String × Json) × List Char)
  | 0, _ => none
  | n + 1, cs =>
    match skipSpace cs with
    | '"' :: cs => do
      let (k, cs) ← readString cs
      match skipSpace cs with
      | ':' :: cs => do
        let (v, cs) ← readValue n cs
        some ((String.ofList k, v), cs)
      | _ => none
    | _ => none

def readFields : ℕ → List Char → Option (List (String × Json) × List Char)
  | 0, _ => none
  | n + 1, cs =>
    match skipSpace cs with
    | '}' :: cs => some ([], cs)
    | ',' :: cs => do
      let (kv, cs) ← readField n cs
      let (kvs, cs) ← readFields n cs
      some (kv :: kvs, cs)
    | _ => none

end

/-- `json.loads`; `none` for a `JSONDecodeError`. -/
def Json.loads (cs : List Char) : Option Json := do
  let (v, rest) ← readValue (cs.length + 1) cs
  if skipSpace rest = [] then some v else none

end DeerFlow

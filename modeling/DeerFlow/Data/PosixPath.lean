import Mathlib.Data.List.Basic
import Mathlib.Data.List.DropRight
import Mathlib.Data.List.Infix

/-!
# Paths

POSIX paths as texts and as `pathlib` has them: an anchor and the parts between slashes. Where no
directory is a symbolic link, a path is resolved by walking its parts from the root, to an absolute
path with proper names for parts (`IsName`).
-/

namespace PosixPath

open List

instance lawfulBEqText : LawfulBEq (List Char) := inferInstance

/-- `p.split("/")`. -/
def split : List Char → List (List Char)
  | [] => [[]]
  | c :: cs =>
    if c = '/' then [] :: split cs
    else
      match split cs with
      | [] => [[c]]
      | part :: parts => (c :: part) :: parts

/-- `"/".join(parts)`. -/
def join : List (List Char) → List Char
  | [] => []
  | [part] => part
  | part :: parts => part ++ '/' :: join parts

/-- `p.lstrip("/")`. -/
def lstrip (p : List Char) : List Char := p.dropWhile (· = '/')

/-- `p.rstrip("/")`. -/
def rstrip (p : List Char) : List Char := p.rdropWhile (· = '/')

/-- `p == dir or p.startswith(dir + "/")`. -/
def isAtOrUnder (dir p : List Char) : Bool := p = dir || (dir ++ ['/']).isPrefixOf p

theorem split_ne_nil (p : List Char) : split p ≠ [] := by
  cases p with
  | nil => simp [split]
  | cons c cs =>
    rw [split]
    split_ifs
    · simp
    · split <;> simp

theorem split_append (p q : List Char) : split (p ++ '/' :: q) = split p ++ split q := by
  induction p with
  | nil => simp [split]
  | cons c p ih =>
    rw [cons_append, split, split, ih]
    split_ifs
    · rfl
    · cases hp : split p with
      | nil => exact absurd hp (split_ne_nil p)
      | cons part parts => rfl

theorem split_of_not_mem {p : List Char} (h : '/' ∉ p) : split p = [p] := by
  induction p with
  | nil => rfl
  | cons c p ih =>
    rw [mem_cons, not_or] at h
    rw [split, if_neg (Ne.symm h.1), ih h.2]

theorem not_mem_of_mem_split {p part : List Char} (h : part ∈ split p) : '/' ∉ part := by
  induction p generalizing part with
  | nil => simp_all [split]
  | cons c p ih =>
    rw [split] at h
    split_ifs at h with hc
    · rcases mem_cons.1 h with rfl | h
      · simp
      · exact ih h
    · cases hp : split p with
      | nil => exact absurd hp (split_ne_nil p)
      | cons first parts =>
        rw [hp] at h ih
        rcases mem_cons.1 h with rfl | h
        · rw [mem_cons, not_or]
          exact ⟨Ne.symm hc, ih mem_cons_self⟩
        · exact ih (mem_cons_of_mem _ h)

theorem split_join : ∀ {parts : List (List Char)}, parts ≠ [] → (∀ part ∈ parts, '/' ∉ part) →
    split (join parts) = parts
  | [], h, _ => absurd rfl h
  | [part], _, h => split_of_not_mem (h part mem_cons_self)
  | part :: next :: parts, _, h => by
    obtain ⟨hpart, hparts⟩ := forall_mem_cons.1 h
    rw [join, split_append, split_of_not_mem hpart, split_join (cons_ne_nil _ _) hparts]
    · rfl
    · simp

structure IsName (part : List Char) : Prop where
  nonempty : part ≠ []
  noDot : part ≠ ['.']
  noDots : part ≠ ['.', '.']
  noSlash : '/' ∉ part

instance decidableIsName (part : List Char) : Decidable (IsName part) :=
  decidable_of_iff (part ≠ [] ∧ part ≠ ['.'] ∧ part ≠ ['.', '.'] ∧ '/' ∉ part)
    ⟨fun h => ⟨h.1, h.2.1, h.2.2.1, h.2.2.2⟩, fun h => ⟨h.1, h.2, h.3, h.4⟩⟩

/-- `pathlib.PurePosixPath`. -/
structure PurePath where
  anchor : List Char
  parts : List (List Char)
  deriving DecidableEq

namespace PurePath

def anchorOf : List Char → List Char
  | '/' :: '/' :: '/' :: _ => ['/']
  | '/' :: '/' :: _ => ['/', '/']
  | '/' :: _ => ['/']
  | _ => []

def ofText (p : List Char) : PurePath :=
  ⟨anchorOf p, (split p).filter fun part => part ≠ [] && part ≠ ['.']⟩

/-- `str(path)`. -/
def text (p : PurePath) : List Char :=
  if p.anchor = [] ∧ p.parts = [] then ['.'] else p.anchor ++ join p.parts

/-- `path / other`, for an `other` that is not absolute. -/
def div (p q : PurePath) : PurePath := ⟨p.anchor, p.parts ++ q.parts⟩

def parent (p : PurePath) : PurePath := ⟨p.anchor, p.parts.dropLast⟩

def name (p : PurePath) : List Char := p.parts.getLastD []

/-- `path.relative_to(root)` does not raise. -/
def isRelativeTo (p root : PurePath) : Bool :=
  p.anchor = root.anchor && root.parts.isPrefixOf p.parts

def walk (dir : List (List Char)) (part : List Char) : List (List Char) :=
  if part = ['.', '.'] then dir.dropLast else dir ++ [part]

/-- `path.resolve()` where nothing is a symbolic link. -/
def resolve (cwd : List (List Char)) (p : PurePath) : PurePath :=
  ⟨['/'], p.parts.foldl walk (if p.anchor = [] then cwd else [])⟩

end PurePath

def rooted (names : List (List Char)) : List Char := '/' :: join names

section Resolved

variable {names : List (List Char)} {cwd : List (List Char)}

theorem head?_join : ∀ {names : List (List Char)}, (∀ n ∈ names, IsName n) →
    (join names).head? ≠ some '/'
  | [], _ => by simp [join]
  | n :: names, h => by
    have hn := h n mem_cons_self
    obtain ⟨c, cs, rfl⟩ := exists_cons_of_ne_nil hn.nonempty
    have hc : c ≠ '/' := fun hc => hn.noSlash (hc ▸ mem_cons_self)
    cases names with
    | nil => simpa [join] using hc
    | cons m names => simpa [join] using hc

theorem anchorOf_rooted (h : ∀ n ∈ names, IsName n) : PurePath.anchorOf (rooted names) = ['/'] := by
  have hhead := head?_join h
  unfold rooted
  cases hj : join names with
  | nil => rfl
  | cons c cs =>
    rw [hj] at hhead
    have hc : c ≠ '/' := by simpa using hhead
    unfold PurePath.anchorOf
    split
    · simp_all
    · simp_all
    · rfl
    · simp_all

theorem split_rooted (hne : names ≠ []) (h : ∀ n ∈ names, IsName n) :
    split (rooted names) = [] :: names := by
  have := split_append [] (join names)
  rw [nil_append, split_join hne fun n hn => (h n hn).noSlash] at this
  exact this

theorem filter_names (h : ∀ n ∈ names, IsName n) :
    names.filter (fun part => part ≠ [] && part ≠ ['.']) = names := by
  refine filter_eq_self.2 fun n hn => ?_
  simp [(h n hn).nonempty, (h n hn).noDot]

theorem ofText_rooted (h : ∀ n ∈ names, IsName n) : PurePath.ofText (rooted names) = ⟨['/'], names⟩ := by
  rw [PurePath.ofText, anchorOf_rooted h]
  congr 1
  cases names with
  | nil => rfl
  | cons n names =>
    rw [split_rooted (cons_ne_nil _ _) h, filter_cons_of_neg (by simp), filter_names h]

theorem foldl_walk_names : ∀ {names : List (List Char)} (dir : List (List Char)),
    (∀ n ∈ names, IsName n) → names.foldl PurePath.walk dir = dir ++ names
  | [], dir, _ => (append_nil dir).symm
  | n :: names, dir, h => by
    obtain ⟨hn, hnames⟩ := forall_mem_cons.1 h
    rw [foldl_cons, PurePath.walk, if_neg hn.noDots, foldl_walk_names _ hnames, append_assoc]
    rfl

theorem isName_foldl_walk : ∀ {parts dir : List (List Char)}, (∀ n ∈ dir, IsName n) →
    (∀ part ∈ parts, part ≠ [] ∧ part ≠ ['.'] ∧ '/' ∉ part) →
    ∀ n ∈ parts.foldl PurePath.walk dir, IsName n
  | [], _, hdir, _ => hdir
  | part :: parts, dir, hdir, h => by
    obtain ⟨⟨hnil, hdot, hslash⟩, hparts⟩ := forall_mem_cons.1 h
    rw [foldl_cons]
    refine isName_foldl_walk ?_ hparts
    unfold PurePath.walk
    split_ifs with hdots
    · exact fun n hn => hdir n (mem_of_mem_dropLast hn)
    · exact forall_mem_append.2 ⟨hdir, forall_mem_singleton.2 ⟨hnil, hdot, hdots, hslash⟩⟩

theorem mem_parts_ofText {p part : List Char} (h : part ∈ (PurePath.ofText p).parts) :
    part ≠ [] ∧ part ≠ ['.'] ∧ '/' ∉ part := by
  obtain ⟨hsplit, hkeep⟩ := mem_filter.1 h
  simp only [ne_eq, Bool.and_eq_true, decide_eq_true_eq] at hkeep
  exact ⟨hkeep.1, hkeep.2, not_mem_of_mem_split hsplit⟩

theorem resolve_eq_rooted (hcwd : ∀ n ∈ cwd, IsName n) (p : List Char) :
    ∃ names, (∀ n ∈ names, IsName n) ∧ ((PurePath.ofText p).resolve cwd).text = rooted names := by
  refine ⟨((PurePath.ofText p).resolve cwd).parts, ?_, by simp [PurePath.text, PurePath.resolve, rooted]⟩
  refine isName_foldl_walk ?_ fun part hpart => mem_parts_ofText hpart
  split_ifs
  · exact hcwd
  · simp

theorem resolve_rooted (h : ∀ n ∈ names, IsName n) :
    ((PurePath.ofText (rooted names)).resolve cwd).text = rooted names := by
  rw [ofText_rooted h, PurePath.resolve, if_neg (by simp), foldl_walk_names _ h, nil_append]
  simp [PurePath.text, rooted]

theorem isName_split_suffix (h : ∀ n ∈ names, IsName n) {dir rest : List Char}
    (heq : rooted names = dir ++ '/' :: rest) (hrest : rest ≠ []) : ∀ n ∈ split rest, IsName n := by
  cases names with
  | nil =>
    have hlength := congrArg length heq
    simp only [rooted, join, length_cons, length_nil, length_append] at hlength
    have : rest.length = 0 := by omega
    exact absurd (length_eq_zero_iff.1 this) hrest
  | cons m names =>
    have hsplit := congrArg split heq
    rw [split_rooted (cons_ne_nil _ _) h, split_append] at hsplit
    cases hdir : split dir with
    | nil => exact absurd hdir (split_ne_nil dir)
    | cons first parts =>
      rw [hdir, cons_append] at hsplit
      intro n hn
      exact h n ((cons.inj hsplit).2 ▸ mem_append_right _ hn)

theorem lstrip_of_names {rest : List Char} (h : ∀ n ∈ split rest, IsName n) : lstrip rest = rest := by
  cases rest with
  | nil => rfl
  | cons c rest =>
    have hc : c ≠ '/' := by
      rintro rfl
      have hnil : [] ∈ split ('/' :: rest) := by
        rw [split, if_pos rfl]
        exact mem_cons_self
      exact (h [] hnil).nonempty rfl
    exact dropWhile_cons_of_neg (by simpa using hc)

theorem parts_ofText_of_names {rest : List Char} (h : ∀ n ∈ split rest, IsName n) :
    (PurePath.ofText rest).parts = split rest := filter_names h

end Resolved

end PosixPath

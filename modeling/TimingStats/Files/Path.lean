import TimingStats.Text.Split

/-! # Paths

A path is a list of names from the root or from the working directory. -/

namespace TimingStats

structure Path where
  absolute : Bool
  names : List String
  /-- Whether a slash follows the last name, which then stands for a directory. -/
  slash : Bool := false
  deriving DecidableEq, Repr

namespace Path

/-- The path that a text spells. Slashes in a row count as one. -/
def ofString (text : String) : Path where
  absolute := text.toList.head? = some '/'
  names := (Text.split '/' text.toList).filterMap fun name =>
    if name.isEmpty then none else some (String.ofList name)
  slash := text.toList.getLast? = some '/'

protected def toString (p : Path) : String :=
  (if p.absolute then "/" else "") ++ String.intercalate "/" p.names ++
    if p.slash && !p.names.isEmpty then "/" else ""

def ofRoot (names : List String) : Path := ⟨true, names, false⟩

def child (p : Path) (name : String) : Path := ⟨p.absolute, p.names ++ [name], false⟩

/-- A directory, as names from the root, and those above it, nearest first. -/
def ancestors (directory : List String) : List (List String) :=
  (List.range (directory.length + 1)).map fun k => directory.take (directory.length - k)

/-- Takes the points off the front of some names. The point that a relative path starts with is a
name and stays. -/
def skipPoints (absolute : Bool) : List String → List String
  | [] => []
  | name :: names =>
    if name = "." ∧ (absolute ∨ names ≠ []) then skipPoints absolute names else name :: names

/-- The names of a path, last first, without the last one and the points around it. -/
def namesAbove? (absolute : Bool) (names : List String) : Option (List String) :=
  match skipPoints absolute names with
  | [] => none
  | _ :: rest => some (skipPoints absolute rest)

/-- The path without its last name, whatever that name leads to. There is none for the root and for
the path of the working directory. -/
def parent? (p : Path) : Option Path :=
  (namesAbove? p.absolute p.names.reverse).map fun names => ⟨p.absolute, names.reverse, false⟩

theorem skipPoints_suffix (absolute : Bool) (names : List String) :
    skipPoints absolute names <:+ names := by
  induction names with
  | nil => exact List.suffix_rfl
  | cons name names ih =>
    rw [skipPoints]
    split
    · exact ih.trans (List.suffix_cons name names)
    · exact List.suffix_rfl

theorem suffix_of_namesAbove? {absolute : Bool} {names above : List String}
    (h : namesAbove? absolute names = some above) :
    above <:+ names ∧ above.length < names.length := by
  unfold namesAbove? at h
  split at h
  · cases h
  · rename_i name rest hskip
    cases h
    have hall := hskip ▸ skipPoints_suffix absolute names
    have habove := skipPoints_suffix absolute rest
    exact ⟨habove.trans ((List.suffix_cons name rest).trans hall),
      Nat.lt_of_le_of_lt habove.length_le hall.length_le⟩

/-- What stands above a path starts with fewer of its names. -/
theorem prefix_of_parent? {p q : Path} (h : p.parent? = some q) :
    q.absolute = p.absolute ∧ q.slash = false ∧ q.names <+: p.names ∧
      q.names.length < p.names.length := by
  unfold parent? at h
  cases habove : namesAbove? p.absolute p.names.reverse with
  | none =>
    rw [habove] at h
    cases h
  | some above =>
    rw [habove] at h
    cases h
    obtain ⟨hsuffix, hlength⟩ := suffix_of_namesAbove? habove
    refine ⟨rfl, rfl, ?_, ?_⟩
    · simpa using List.reverse_prefix.mpr hsuffix
    · simpa using hlength

end Path
end TimingStats

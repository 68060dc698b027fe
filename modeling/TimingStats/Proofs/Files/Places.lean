import Mathlib.Algebra.Order.Ring.Nat
import Mathlib.Data.List.Infix
import TimingStats.Files.Tree

/-! # Places in a tree

What stands above a path is read off its names. A path without two points leads down, and then it
leads from directory to directory to the place of its names, points left out. It can be followed if
there are directories above its end, and if the system takes such names and such a path. So what is
found at a path depends on the nodes along it and on nothing else in the tree. -/

namespace TimingStats

theorem FileSystem.decode_eq_ok_iff {bytes : ByteArray} {text : String} :
    decode bytes = .ok text ↔ bytes = text.toUTF8 := by
  unfold decode String.fromUTF8?
  by_cases hvalid : bytes.IsValidUTF8
  · rw [dif_pos hvalid]
    exact ⟨fun heq => Except.ok.inj heq ▸ rfl,
      fun heq => congrArg Except.ok (String.toByteArray_inj.mp heq)⟩
  · rw [dif_neg hvalid]
    exact iff_of_false nofun fun heq => hvalid (heq ▸ text.isValidUTF8)

namespace Path

variable {p q r : Path} {absolute : Bool} {names above : List String}

/-! ## Names that lead on -/

/-- The names that lead away from where they stand; a point does not. -/
def plain (names : List String) : List String := names.filter (· ≠ ".")

/-- A path that nowhere leads back up. -/
def Descends (p : Path) : Prop := ".." ∉ p.names

instance (p : Path) : Decidable p.Descends := inferInstanceAs (Decidable (¬ _))

theorem plain_append (names more : List String) :
    plain (names ++ more) = plain names ++ plain more :=
  List.filter_append ..

theorem plain_reverse (names : List String) : plain names.reverse = (plain names).reverse :=
  List.filter_reverse

theorem plain_of_ne {name : String} (h : name ≠ ".") : plain [name] = [name] := by
  simp [plain, h]

theorem plain_skipPoints (absolute : Bool) (names : List String) :
    plain (skipPoints absolute names) = plain names := by
  induction names with
  | nil => rfl
  | cons name names ih =>
    rw [skipPoints]
    split
    · rename_i hpoint
      rw [ih, hpoint.1]
      rfl
    · rfl

theorem plain_of_namesAbove? (h : namesAbove? absolute names = some above) :
    plain names = plain above ∨ ∃ name, plain names = name :: plain above := by
  unfold namesAbove? at h
  split at h
  · cases h
  · rename_i name rest hskip
    cases h
    rw [← plain_skipPoints absolute names, hskip, plain_skipPoints]
    by_cases hname : name = "."
    · exact .inl (by simp [plain, hname])
    · exact .inr ⟨name, by simp [plain, hname]⟩

theorem plain_of_parent? (h : p.parent? = some q) :
    plain p.names = plain q.names ∨ ∃ name, plain p.names = plain q.names ++ [name] := by
  unfold parent? at h
  obtain ⟨above, habove, rfl⟩ := Option.map_eq_some_iff.mp h
  rw [plain_reverse]
  have hplain := plain_of_namesAbove? habove
  rw [plain_reverse] at hplain
  rcases hplain with heq | ⟨name, heq⟩
  · exact .inl (List.reverse_eq_iff.mp heq)
  · exact .inr ⟨name, by rw [← List.reverse_cons, List.reverse_eq_iff.mp heq]⟩

theorem plain_of_parent?_none (h : p.parent? = none) : plain p.names = [] := by
  unfold parent? namesAbove? at h
  have hskip : skipPoints p.absolute p.names.reverse = [] := by
    split at h
    · assumption
    · cases h
  have hplain := plain_skipPoints p.absolute p.names.reverse
  rw [hskip, plain_reverse] at hplain
  exact List.reverse_eq_nil_iff.mp hplain.symm

/-! ## Upwards -/

/-- What stands at a path or above it. -/
inductive Upward : Path → Path → Prop
  | self (p : Path) : Upward p p
  | step {p q r : Path} (h : p.parent? = some q) (above : Upward q r) : Upward p r

/-- Induction along the way up. -/
theorem parent_induction {motive : Path → Prop}
    (step : ∀ p, (∀ q, p.parent? = some q → motive q) → motive p) (p : Path) : motive p :=
  step p fun q _h => parent_induction step q
termination_by p.names.length
decreasing_by exact (prefix_of_parent? _h).2.2.2

namespace Upward

theorem trans (h : Upward p q) (h' : Upward q r) : Upward p r := by
  induction h with
  | self p => exact h'
  | step hparent _ ih => exact .step hparent (ih h')

theorem absolute_eq (h : Upward p q) : q.absolute = p.absolute := by
  induction h with
  | self p => rfl
  | step hparent _ ih => exact ih.trans (prefix_of_parent? hparent).1

theorem names_prefix (h : Upward p q) : q.names <+: p.names := by
  induction h with
  | self p => exact List.prefix_rfl
  | step hparent _ ih => exact ih.trans (prefix_of_parent? hparent).2.2.1

theorem descends (h : Upward p q) (hp : p.Descends) : q.Descends :=
  fun hmem => hp (h.names_prefix.subset hmem)

theorem antisymm (h : Upward p q) (h' : Upward q p) : p = q := by
  cases h with
  | self p => rfl
  | @step _ above _ hparent habove =>
    have hup := habove.names_prefix.length_le
    have hback := h'.names_prefix.length_le
    have hless := (prefix_of_parent? hparent).2.2.2
    exact absurd (hback.trans hup) (Nat.not_le.mpr hless)

theorem linear (hq : Upward p q) (hr : Upward p r) : Upward q r ∨ Upward r q := by
  induction hq with
  | self p => exact .inl hr
  | step hparent habove ih =>
    cases hr with
    | self p => exact .inr (.step hparent habove)
    | step hparent' hr =>
      cases hparent.symm.trans hparent'
      exact ih hr

end Upward

/-! ## Sizes -/

theorem size_intercalate (names : List String) (name : String) :
    (String.intercalate "/" (names ++ [name])).utf8ByteSize =
      (names.map (·.utf8ByteSize + 1)).sum + name.utf8ByteSize := by
  induction names with
  | nil =>
    rw [List.nil_append, String.intercalate_singleton]
    exact (Nat.zero_add _).symm
  | cons first names ih =>
    have hslash : "/".utf8ByteSize = 1 := rfl
    have happend := String.intercalate_append_of_ne_nil (s := "/") (List.cons_ne_nil first [])
      (List.append_ne_nil_of_right_ne_nil names (List.cons_ne_nil name []))
    rw [List.cons_append, ← List.singleton_append, happend, String.utf8ByteSize_append,
      String.utf8ByteSize_append, ih, String.intercalate_singleton, List.map_cons, List.sum_cons,
      hslash]
    omega

/-- A path has the bytes of its names, and one for each slash. -/
theorem size_child (p : Path) (name : String) :
    (p.child name).toString.utf8ByteSize =
      (if p.absolute then 1 else 0) + (p.names.map (·.utf8ByteSize + 1)).sum +
        name.utf8ByteSize := by
  unfold Path.toString child
  dsimp only
  rw [String.utf8ByteSize_append, String.utf8ByteSize_append, size_intercalate, ← Nat.add_assoc]
  cases p.absolute <;> rfl

theorem size_child_le (habsolute : q.absolute = p.absolute) (hnames : q.names <+: p.names)
    (name : String) :
    (q.child name).toString.utf8ByteSize ≤ (p.child name).toString.utf8ByteSize := by
  obtain ⟨rest, hrest⟩ := hnames
  rw [size_child, size_child, habsolute, ← hrest, List.map_append, List.sum_append]
  omega

end Path

namespace FileTree

open TimingStats.Path (plain)

variable {t t' : FileTree} {p q : Path} {names base place : List String} {name : String}

/-! ## Following a path -/

/-- Where the names of a path lead away from. -/
def origin (t : FileTree) (p : Path) : List String := if p.absolute then [] else t.directory

/-- Where a path leads that does not lead back up. -/
def placeOf (t : FileTree) (p : Path) : List String := t.origin p ++ plain p.names

/-- A path can be followed to its last name. -/
structure Leads (t : FileTree) (p : Path) : Prop where
  directories : ∀ names, names <+: p.names → names ≠ p.names →
    t.node? (t.origin p ++ plain names) = some .directory
  namesFit : ∀ name ∈ p.names, name.utf8ByteSize ≤ maxNameSize
  pathFits : p.toString.utf8ByteSize < maxPathSize

theorem above_concat_iff {above : List String} :
    (above <+: names ++ [name] ∧ above ≠ names ++ [name]) ↔ above <+: names := by
  rw [List.prefix_concat_iff]
  constructor
  · rintro ⟨heq | habove, hne⟩
    · exact absurd heq hne
    · exact habove
  · intro habove
    refine ⟨.inr habove, fun heq => ?_⟩
    have hle := habove.length_le
    rw [heq, List.length_append, List.length_singleton] at hle
    exact Nat.not_succ_le_self _ hle

/-- A name is entered from a directory, and lies in it; a point stays there. -/
theorem enter_eq_ok_iff (h : name ≠ "..") {next : List String} :
    t.enter place name = .ok next ↔
      t.node? place = some .directory ∧ name.utf8ByteSize ≤ maxNameSize ∧
        next = place ++ plain [name] := by
  unfold enter
  cases hnode : t.node? place with
  | none => simp
  | some node =>
    cases node with
    | file content => simp
    | directory =>
      dsimp only
      by_cases hpoint : name = "."
      · have hfits : ".".utf8ByteSize ≤ maxNameSize := by decide
        rw [if_pos hpoint, hpoint]
        simp [plain, hfits, eq_comm]
      · rw [if_neg hpoint, if_neg h, Path.plain_of_ne hpoint]
        split
        · rename_i hlong
          simp [Nat.not_le.mpr hlong]
        · rename_i hshort
          simp [Nat.le_of_not_lt hshort, eq_comm]

/-- Names lead down from directory to directory. -/
theorem walk_eq_ok_iff (h : ".." ∉ names) :
    names.foldlM t.enter base = .ok place ↔
      (∀ above, above <+: names → above ≠ names →
          t.node? (base ++ plain above) = some .directory) ∧
        (∀ name ∈ names, name.utf8ByteSize ≤ maxNameSize) ∧ place = base ++ plain names := by
  induction names using List.reverseRecOn generalizing place with
  | nil =>
    have hbase : base ++ plain [] = base := List.append_nil base
    rw [hbase]
    constructor
    · intro hok
      cases hok
      exact ⟨fun above habove hne => absurd (List.prefix_nil.mp habove) hne,
        fun _ hmem => (nomatch hmem), rfl⟩
    · rintro ⟨-, -, rfl⟩
      rfl
  | append_singleton names name ih =>
    have hnames : ".." ∉ names := fun hmem => h (List.mem_append_left _ hmem)
    have hname : name ≠ ".." := fun heq => h (heq ▸ List.mem_append_right _ List.mem_cons_self)
    have hstep : (names ++ [name]).foldlM t.enter base =
        names.foldlM t.enter base >>= (t.enter · name) := by
      rw [List.foldlM_append]
      exact bind_congr fun _ => bind_pure _
    rw [hstep, Path.plain_append, ← List.append_assoc]
    constructor
    · intro hok
      cases hwalk : names.foldlM t.enter base with
      | error e =>
        rw [hwalk] at hok
        cases hok
      | ok reached =>
        rw [hwalk] at hok
        obtain ⟨habove, hfit, rfl⟩ := (ih hnames).mp hwalk
        obtain ⟨hdir, hsize, hplace⟩ := (enter_eq_ok_iff hname).mp hok
        refine ⟨fun above hp hne => ?_, fun x hx => ?_, hplace⟩
        -- The place that the last name is entered from is a directory too.
        · by_cases hlast : above = names
          · rw [hlast, hdir]
          · exact habove above (above_concat_iff.mp ⟨hp, hne⟩) hlast
        · rcases List.mem_append.mp hx with hx | hx
          · exact hfit x hx
          · rwa [List.mem_singleton.mp hx]
    · rintro ⟨habove, hfit, rfl⟩
      have hbelow := fun above (hp : above <+: names) =>
        habove above (above_concat_iff.mpr hp).1 (above_concat_iff.mpr hp).2
      rw [(ih hnames).mpr ⟨fun above hp _ => hbelow above hp,
        fun x hx => hfit x (List.mem_append_left _ hx), rfl⟩]
      exact (enter_eq_ok_iff hname).mpr
        ⟨hbelow names List.prefix_rfl, hfit name (List.mem_append_right _ List.mem_cons_self), rfl⟩

theorem locate_eq_ok_iff (h : p.Descends) :
    t.locate p = .ok place ↔ t.Leads p ∧ place = t.placeOf p := by
  unfold locate
  split
  · rename_i hlong
    exact iff_of_false nofun fun hleads =>
      absurd hleads.1.pathFits (Nat.not_lt.mpr hlong)
  · rename_i hshort
    refine (walk_eq_ok_iff h).trans ⟨?_, ?_⟩
    · rintro ⟨habove, hfit, hplace⟩
      exact ⟨⟨habove, hfit, Nat.lt_of_not_le hshort⟩, hplace⟩
    · rintro ⟨hleads, hplace⟩
      exact ⟨hleads.directories, hleads.namesFit, hplace⟩

/-- A path shows what stands at its place, if it can be followed. -/
theorem contains_iff (h : p.Descends) (hslash : p.slash = false) :
    t.contains p = true ↔ t.Leads p ∧ (t.node? (t.placeOf p)).isSome = true := by
  unfold contains
  cases hlocate : t.locate p with
  | error e =>
    refine iff_of_false nofun fun hleads => ?_
    rw [(locate_eq_ok_iff h).mpr ⟨hleads.1, rfl⟩] at hlocate
    cases hlocate
  | ok place =>
    obtain ⟨hleads, rfl⟩ := (locate_eq_ok_iff h).mp hlocate
    rw [and_iff_right hleads]
    dsimp only
    cases t.node? (t.placeOf p) with
    | none => rfl
    | some node =>
      cases node with
      | directory => rfl
      | file content => simp [hslash]

theorem read_eq_ok_iff (h : p.Descends) (hslash : p.slash = false) {content : ByteArray} :
    t.read p = .ok content ↔ t.Leads p ∧ t.node? (t.placeOf p) = some (.file content) := by
  unfold read
  cases hlocate : t.locate p with
  | error e =>
    refine iff_of_false nofun fun hleads => ?_
    rw [(locate_eq_ok_iff h).mpr ⟨hleads.1, rfl⟩] at hlocate
    cases hlocate
  | ok place =>
    obtain ⟨hleads, rfl⟩ := (locate_eq_ok_iff h).mp hlocate
    rw [and_iff_right hleads]
    dsimp only [bind, Except.bind]
    cases t.node? (t.placeOf p) with
    | none => exact iff_of_false nofun nofun
    | some node =>
      cases node with
      | directory => exact iff_of_false nofun nofun
      | file found => simp [hslash]

/-! ## The way up -/

theorem origin_eq (h : p.Upward q) (t : FileTree) : t.origin q = t.origin p :=
  congrArg (fun absolute : Bool => if absolute then [] else t.directory) h.absolute_eq

/-- The path above leads to the same place or to the one above it. -/
theorem placeOf_of_parent? (h : p.parent? = some q) (t : FileTree) :
    t.placeOf p = t.placeOf q ∨ ∃ name, t.placeOf p = t.placeOf q ++ [name] := by
  have horigin := t.origin_eq (.step h (.self q))
  unfold placeOf
  rw [horigin]
  rcases Path.plain_of_parent? h with heq | ⟨name, heq⟩
  · exact .inl (congrArg _ heq)
  · exact .inr ⟨name, by rw [heq, List.append_assoc]⟩

theorem placeOf_prefix (h : p.Upward q) (t : FileTree) : t.placeOf q <+: t.placeOf p := by
  induction h with
  | self p => exact List.prefix_rfl
  | step hparent _ ih =>
    rcases t.placeOf_of_parent? hparent with heq | ⟨name, heq⟩
    · exact heq ▸ ih
    · exact heq ▸ ih.trans (List.prefix_append _ _)

/-- The paths above lead to all places from the end of the path up to where it starts. -/
theorem exists_upward (hplace : t.origin p <+: place) (h : place <+: t.placeOf p) :
    ∃ q, p.Upward q ∧ t.placeOf q = place := by
  induction p using Path.parent_induction with
  | step p ih =>
    cases hparent : p.parent? with
    | none =>
      have htop : t.placeOf p = t.origin p := by
        unfold placeOf
        rw [Path.plain_of_parent?_none hparent, List.append_nil]
      exact ⟨p, .self p, (htop ▸ hplace).eq_of_length_le h.length_le⟩
    | some q =>
      have hup : p.Upward q := .step hparent (.self q)
      have above : place <+: t.placeOf q → ∃ r, p.Upward r ∧ t.placeOf r = place := fun hq => by
        obtain ⟨r, hr, heq⟩ := ih q hparent (t.origin_eq hup ▸ hplace) hq
        exact ⟨r, .step hparent hr, heq⟩
      rcases t.placeOf_of_parent? hparent with heq | ⟨name, heq⟩
      · exact above (heq ▸ h)
      · rcases List.prefix_concat_iff.mp (heq ▸ h) with hself | hq
        · exact ⟨p, .self p, heq.trans hself.symm⟩
        · exact above hq

/-! ## Names in the directories on the way -/

theorem placeOf_child (t : FileTree) (p : Path) (h : name ≠ ".") :
    t.placeOf (p.child name) = t.placeOf p ++ [name] := by
  unfold placeOf Path.child
  rw [Path.plain_append, Path.plain_of_ne h, ← List.append_assoc]
  rfl

/-- From a directory that a path leads to, the names in all directories above can be looked up, if
the longest of these paths fits. -/
theorem Leads.child (h : t.Leads p) (hdirectory : t.node? (t.placeOf p) = some .directory)
    (hfits : (p.child name).toString.utf8ByteSize < maxPathSize)
    (hname : name.utf8ByteSize ≤ maxNameSize) (hq : p.Upward q) : t.Leads (q.child name) where
  directories above habove hne := by
    have hbase : t.origin (q.child name) = t.origin p := t.origin_eq hq
    have hprefix := (above_concat_iff.mp ⟨habove, hne⟩).trans hq.names_prefix
    rw [hbase]
    by_cases hlast : above = p.names
    · rw [hlast]
      exact hdirectory
    · exact h.directories above hprefix hlast
  namesFit x hx := by
    rcases List.mem_append.mp hx with hx | hx
    · exact h.namesFit x (hq.names_prefix.subset hx)
    · rwa [List.mem_singleton.mp hx]
  pathFits := Nat.lt_of_le_of_lt (Path.size_child_le hq.absolute_eq hq.names_prefix name) hfits

end FileTree
end TimingStats

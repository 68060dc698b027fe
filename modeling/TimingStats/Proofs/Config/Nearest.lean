import TimingStats.Proofs.Config.Lookup

/-! # The nearest configuration

Discovery goes up a path, so it finds what is nearest by the names of the path. From a directory
that a path leads down to, that is the file of the nearest directory, provided that the path of the
file is short enough, and up to the working directory if the path is relative. -/

namespace TimingStats.Config

open TimingStats.Path (Upward plain)

variable {t t' : FileTree} {start p : Path} {place : List String} {found : Option Config}

/-! ## Discovery in a tree -/

theorem run_load (t : FileTree) (p : Path) :
    (load (pathIn p) : StateM FileTree (Option Config)).run t = ((byPath t).config? p, t) := by
  change ((t.read (pathIn p) >>= FileSystem.decode).toOption.bind ofText, t) =
    ((t.read (pathIn p)).toOption.bind ofBytes, t)
  cases t.read (pathIn p) <;> rfl

/-- One step of the way up: the file at the path is loaded, or the search goes on above. -/
theorem run_discoverFrom (t : FileTree) (start : Path) :
    (discoverFrom start : StateM FileTree (Option Config)).run t =
      if t.contains (pathIn start) then ((byPath t).config? start, t)
      else
        match start.parent? with
        | some above => (discoverFrom above : StateM FileTree (Option Config)).run t
        | none => (none, t) := by
  rw [discoverFrom]
  change (if t.contains (pathIn start) then load (pathIn start) else _ :
    StateM FileTree (Option Config)).run t = _
  split
  · exact run_load t start
  · cases start.parent? <;> rfl

/-- The way up ends, at the file that decides, and leaves the tree as it is. -/
theorem discoverFrom_decided (t : FileTree) (start : Path) :
    ∃ found, (discoverFrom start : StateM FileTree (Option Config)).run t = (found, t) ∧
      (byPath t).Decided start found := by
  induction start using Path.parent_induction with
  | step start ih =>
    rw [run_discoverFrom]
    split
    · rename_i hfile
      exact ⟨_, rfl, .nearest (Search.nearest_self (.self start) hfile)⟩
    · rename_i hnone
      have hnone : (byPath t).hasFile start = false := Bool.eq_false_iff.mpr hnone
      cases hparent : start.parent? with
      | none =>
        refine ⟨none, rfl, .absent fun p hp => ?_⟩
        cases hp with
        | self => exact hnone
        | step h _ => exact nomatch hparent.symm.trans h
      | some next =>
        obtain ⟨found, hrun, hdecided⟩ := ih next hparent
        refine ⟨found, hrun, hdecided.step (fun p => ⟨fun hp => ?_, ?_⟩) hnone⟩
        · cases hp with
          | self => exact .inl rfl
          | step h habove =>
            cases hparent.symm.trans h
            exact .inr habove
        · rintro (rfl | habove)
          · exact .self p
          · exact .step hparent habove

theorem discoverFrom_congr (hsame : (byPath t).SameUpward (byPath t') start)
    (h : (discoverFrom start : StateM FileTree (Option Config)).run t = (found, t)) :
    (discoverFrom start : StateM FileTree (Option Config)).run t' = (found, t') := by
  obtain ⟨first, hrun, hdecided⟩ := discoverFrom_decided t start
  obtain ⟨second, hrun', hdecided'⟩ := discoverFrom_decided t' start
  obtain rfl : first = found := congrArg Prod.fst (hrun.symm.trans h)
  rw [hrun', hdecided'.unique upward_line (hdecided.congr upward_line hsame)]

/-! ## The result -/

/-- **The nearest file decides.** From any path, discovery ends and leaves the tree as it is. Its
result is that of the first file that is seen through the path and those above it, and no other file
makes a difference. If the path leads down to a directory where a file can be looked up, it is the
result of the nearest directory with a file, up to the root or to the working directory that a
relative path starts from. -/
theorem discoverFrom_nearest (t : FileTree) (start : Path) :
    ∃ found, (discoverFrom start : StateM FileTree (Option Config)).run t = (found, t) ∧
      (byPath t).Decided start found ∧
      (∀ t', (byPath t).SameUpward (byPath t') start →
        (discoverFrom start : StateM FileTree (Option Config)).run t' = (found, t')) ∧
      (start.Descends → ∀ p, Upward start p → Seen t p) ∧
      ∀ place, Reaches t start place →
        (byDirectory t (t.origin start)).Decided place found ∧
        ∀ t', t'.origin start = t.origin start →
          (∀ d, Within (t.origin start) place d → t'.node? d = t.node? d) →
          (byDirectory t (t.origin start)).SameUpward (byDirectory t' (t.origin start)) place →
          (discoverFrom start : StateM FileTree (Option Config)).run t' = (found, t') := by
  obtain ⟨found, hrun, hdecided⟩ := discoverFrom_decided t start
  refine ⟨found, hrun, hdecided, fun t' hsame => discoverFrom_congr hsame hrun,
    fun hdescends p hp => seen_of_descends t (hp.descends hdescends), fun place hreaches => ?_⟩
  have hplace : (byDirectory t (t.origin start)).Decided place found :=
    hreaches.placeOf_eq ▸ hdecided.carried upward_line hreaches.carried
  refine ⟨hplace, fun t' horigin hway hsame => ?_⟩
  obtain ⟨found', hrun', hdecided'⟩ := discoverFrom_decided t' start
  have hreaches' := hreaches.congr horigin hway
  have hplace' : (byDirectory t' (t.origin start)).Decided place found' :=
    horigin ▸ hreaches'.placeOf_eq ▸ hdecided'.carried upward_line hreaches'.carried
  have hline := within_line (t.origin start)
  rw [hrun', hplace'.unique hline (hplace.congr hline hsame)]

/-- A file that is no configuration, below one that is. -/
def shadowing : FileTree where
  nodes := [(["home"], .directory), (["home", "user"], .directory),
    (["home", fileName], .file "[output".toUTF8),
    ([fileName], .file "[output]\nformat = \"json\"\n".toUTF8)]

/-- The tree without the upper file. -/
def unshadowed : FileTree := { nodes := shadowing.nodes.take 3 }

/-- The upper file could be loaded, but the lower one hides it, so it makes no difference. -/
theorem discoverFrom_nearest_shadowing :
    Reaches shadowing (.ofRoot ["home", "user"]) ["home", "user"] ∧
      (byDirectory shadowing []).config? [] = some { format := "json" } ∧
      (byDirectory shadowing []).Nearest ["home", "user"] ["home"] ∧
      (discoverFrom (.ofRoot ["home", "user"]) : StateM FileTree (Option Config)).run shadowing =
        (none, shadowing) ∧
      (discoverFrom (.ofRoot ["home", "user"]) : StateM FileTree (Option Config)).run unshadowed =
        (none, unshadowed) := by
  have hway : ∀ {d}, d <+: ["home", "user"] → d = [] ∨ d = ["home"] ∨ d = ["home", "user"] := by
    intro d hd
    rw [← List.mem_inits] at hd
    simpa using hd
  have hreaches : Reaches shadowing (.ofRoot ["home", "user"]) ["home", "user"] :=
    ⟨by decide, by decide +kernel, rfl, by decide +kernel⟩
  have hupper : (byDirectory shadowing []).config? [] = some { format := "json" } :=
    (config?_of_node rfl).trans rfl
  have hlower : (byDirectory shadowing []).config? ["home"] = none :=
    (config?_of_node rfl).trans rfl
  have hnearest : (byDirectory shadowing []).Nearest ["home", "user"] ["home"] := by
    refine ⟨⟨List.nil_prefix, by decide⟩, rfl, fun d hd hfile => ⟨List.nil_prefix, ?_⟩⟩
    rcases hway hd.2 with rfl | rfl | rfl
    · exact List.nil_prefix
    · exact List.prefix_rfl
    · cases hfile
  obtain ⟨found, hrun, -, -, -, hplaces⟩ :=
    discoverFrom_nearest shadowing (.ofRoot ["home", "user"])
  obtain ⟨hdecided, hframe⟩ := hplaces _ hreaches
  obtain rfl : found = none :=
    (hdecided.unique (within_line []) (.nearest hnearest)).trans hlower
  refine ⟨hreaches, hupper, hnearest, hrun, hframe unshadowed rfl (fun d hd => ?_) ?_⟩
  · rcases hway hd.2 with rfl | rfl | rfl <;> rfl
  · intro d hd hbelow
    rcases hway hd.2 with rfl | rfl | rfl
    · exact absurd (hbelow _ hnearest).2 (by decide)
    · exact ⟨rfl, rfl⟩
    · exact ⟨rfl, rfl⟩

/-! ## Where the nearest directory does not decide -/

/-- Whatever directory a path leads to, the nearest directory with a file decides, of that one and
those above it up to the root. -/
def NearestDirectoryDecides (t : FileTree) (start : Path) : Prop :=
  ∀ place found, t.locate start = .ok place → t.node? place = some .directory →
    (discoverFrom start : StateM FileTree (Option Config)).run t = (found, t) →
    (byDirectory t []).Decided place found

theorem not_nearestDirectoryDecides {other : Option Config} (hlocate : t.locate start = .ok place)
    (hdirectory : t.node? place = some .directory)
    (hrun : (discoverFrom start : StateM FileTree (Option Config)).run t = (found, t))
    (hdecided : (byDirectory t []).Decided place other) (hne : found ≠ other) :
    ¬ NearestDirectoryDecides t start := fun h =>
  hne ((h place found hlocate hdirectory hrun).unique (within_line []) hdecided)

theorem eq_of_within {name : String} (h : Within [] [name] place) : place = [] ∨ place = [name] :=
  List.mem_pair.mp ((List.mem_inits place [name]).mpr h.2)

/-- A file in a directory of a directory. -/
def lower : FileTree where
  nodes := [(["a"], .directory), (["a", "b"], .directory),
    (["a", "b", fileName], .file "[output]\nformat = \"json\"\n".toUTF8)]

/-- Two points are a name as any other, so a file decides that is below the directory. -/
theorem lower_decides :
    (discoverFrom ⟨true, ["a", "b", ".."], false⟩ : StateM FileTree (Option Config)).run lower =
      (some { format := "json" }, lower) := by
  rw [run_discoverFrom, if_neg (by decide +kernel)]
  change (discoverFrom ⟨true, ["a", "b"], false⟩ : StateM FileTree (Option Config)).run lower = _
  rw [run_discoverFrom, if_pos (by decide +kernel)]
  have hread : lower.read (pathIn ⟨true, ["a", "b"], false⟩) =
      .ok "[output]\nformat = \"json\"\n".toUTF8 := by rfl
  rw [config?_of_read hread]
  rfl

/-- A file of the root, and a working directory below it. -/
def upper : FileTree where
  nodes := [(["a"], .directory), ([fileName], .file "".toUTF8)]
  directory := ["a"]

/-- The search of a relative path ends at the working directory. -/
theorem upper_unseen : (discoverFrom ⟨false, ["."], false⟩ :
    StateM FileTree (Option Config)).run upper = (none, upper) := by
  rw [run_discoverFrom, if_neg (by decide +kernel)]
  change (discoverFrom ⟨false, [], false⟩ : StateM FileTree (Option Config)).run upper = _
  rw [run_discoverFrom, if_neg (by decide +kernel)]
  rfl

/-- Directories in each other, and a file in the last one. -/
def deep (n : Nat) : FileTree where
  nodes := (List.replicate n "a" ++ [fileName], .file "".toUTF8) ::
    ((List.range (n + 1)).map (List.replicate · "a")).map (·, .directory)

section Deep

variable {n k : Nat}

theorem lookup_directories {places : List (List String)} (h : place ∈ places) :
    (places.map (·, Node.directory)).lookup place = some .directory := by
  induction places with
  | nil => cases h
  | cons first places ih =>
    rw [List.map_cons, List.lookup_cons]
    split
    · rfl
    · rename_i hne
      rcases List.mem_cons.mp h with rfl | h
      · simp at hne
      · exact ih h

theorem concat_ne_replicate (place : List String) (k : Nat) :
    place ++ [fileName] ≠ List.replicate k "a" := fun heq => by
  have hmem : fileName ∈ List.replicate k "a" :=
    heq ▸ List.mem_append_right place List.mem_cons_self
  exact absurd (List.eq_of_mem_replicate hmem) (by decide)

theorem deep_directory (h : k ≤ n) : (deep n).node? (List.replicate k "a") = some .directory := by
  unfold FileTree.node?
  split
  · rfl
  · rw [deep, List.lookup_cons, beq_false_of_ne (concat_ne_replicate _ k).symm]
    exact lookup_directories (List.mem_map.mpr ⟨k, List.mem_range.mpr (Nat.lt_succ_of_le h), rfl⟩)

theorem deep_without_file (h : k < n) :
    (deep n).node? (List.replicate k "a" ++ [fileName]) = none := by
  unfold FileTree.node?
  rw [if_neg (by simp), List.lookup_eq_none_iff]
  intro node hnode
  refine bne_iff_ne.mpr fun heq => ?_
  rcases List.mem_cons.mp hnode with rfl | hnode
  · have hlength := congrArg List.length heq
    rw [List.length_append, List.length_append, List.length_replicate, List.length_replicate]
      at hlength
    omega
  · obtain ⟨place, hplace, rfl⟩ := List.mem_map.mp hnode
    obtain ⟨j, -, rfl⟩ := List.mem_map.mp hplace
    exact concat_ne_replicate _ j heq

theorem deep_file (n : Nat) :
    (deep n).node? (List.replicate n "a" ++ [fileName]) = some (.file "".toUTF8) := by
  unfold FileTree.node?
  rw [if_neg (by simp), deep, List.lookup_cons, beq_self_eq_true]

theorem deep_decided (n : Nat) :
    (byDirectory (deep n) []).Decided (List.replicate n "a") (some {}) := by
  have hconfig : (byDirectory (deep n) []).config? (List.replicate n "a") = some {} :=
    (config?_of_node (deep_file n)).trans rfl
  have hfile : (byDirectory (deep n) []).hasFile (List.replicate n "a") = true :=
    Option.isSome_iff_exists.mpr ⟨_, deep_file n⟩
  exact hconfig ▸ .nearest (Search.nearest_self ⟨List.nil_prefix, List.prefix_rfl⟩ hfile)

theorem size_child_of_replicate (habsolute : p.absolute = true)
    (hnames : p.names = List.replicate n "a") (name : String) :
    (p.child name).toString.utf8ByteSize = 1 + 2 * n + name.utf8ByteSize := by
  have hsize : "a".utf8ByteSize = 1 := rfl
  rw [Path.size_child, habsolute, hnames]
  simp [hsize, Nat.mul_comm]

theorem plain_replicate (k : Nat) : plain (List.replicate k "a") = List.replicate k "a" :=
  List.filter_eq_self.mpr fun name hname => by simp [List.eq_of_mem_replicate hname]

theorem descends_replicate (n : Nat) : (Path.ofRoot (List.replicate n "a")).Descends :=
  fun hmem => absurd (List.eq_of_mem_replicate hmem) (by decide)

theorem deep_locate (h : 2 * n < FileTree.maxPathSize) :
    (deep n).locate (.ofRoot (List.replicate n "a")) = .ok (List.replicate n "a") := by
  refine (FileTree.locate_eq_ok_iff (descends_replicate n)).mpr
    ⟨⟨fun names hnames _ => ?_, fun name hname => ?_, ?_⟩, (plain_replicate n).symm⟩
  · obtain ⟨hle, hnames⟩ := List.prefix_replicate_iff.mp hnames
    rw [hnames, plain_replicate]
    exact deep_directory hle
  · rw [List.eq_of_mem_replicate hname]
    decide
  · cases n with
    | zero => decide
    | succ n =>
      have hchild : Path.ofRoot (List.replicate (n + 1) "a") =
          (Path.ofRoot (List.replicate n "a")).child "a" :=
        congrArg Path.ofRoot List.replicate_succ'
      have hsize : "a".utf8ByteSize = 1 := rfl
      rw [hchild, size_child_of_replicate rfl rfl, hsize]
      omega

/-- The path of a file can be too long although that of its directory is not. -/
theorem deep_unseen (h : FileTree.maxPathSize ≤ 1 + 2 * n + fileName.utf8ByteSize) :
    (discoverFrom (.ofRoot (List.replicate n "a")) : StateM FileTree (Option Config)).run (deep n) =
      (none, deep n) := by
  obtain ⟨found, hrun, hdecided⟩ := discoverFrom_decided (deep n) (.ofRoot (List.replicate n "a"))
  have habsent : ∀ p, Upward (.ofRoot (List.replicate n "a")) p →
      (byPath (deep n)).hasFile p = false := by
    intro p hp
    refine Bool.eq_false_iff.mpr fun hfile => ?_
    obtain ⟨hleads, hnode⟩ := (FileTree.contains_iff
      (descends_pathIn (hp.descends (descends_replicate n))) rfl).mp hfile
    obtain ⟨hle, hnames⟩ := List.prefix_replicate_iff.mp hp.names_prefix
    rcases Nat.lt_or_eq_of_le hle with hlt | heq
    · have hplace : (deep n).placeOf p = List.replicate p.names.length "a" := by
        rw [FileTree.placeOf, (deep n).origin_eq hp, hnames, plain_replicate,
          List.length_replicate]
        rfl
      rw [placeOf_pathIn, hplace, deep_without_file hlt] at hnode
      cases hnode
    · have hfits := hleads.pathFits
      rw [pathIn, size_child_of_replicate hp.absolute_eq (heq ▸ hnames)] at hfits
      omega
  rw [hrun, hdecided.unique upward_line (.absent habsent)]

end Deep

/-- A start that leads down and back up, one that is relative, and one that is as deep as paths can
be: in each of these trees another file, or none, decides than that of the nearest directory. -/
theorem nearest_directory_not_decisive :
    ¬ NearestDirectoryDecides lower ⟨true, ["a", "b", ".."], false⟩ ∧
      ¬ NearestDirectoryDecides upper ⟨false, ["."], false⟩ ∧
      ¬ NearestDirectoryDecides (deep 2047) (.ofRoot (List.replicate 2047 "a")) := by
  refine ⟨?_, ?_, ?_⟩
  · have hlocate : lower.locate ⟨true, ["a", "b", ".."], false⟩ = .ok ["a"] := by decide +kernel
    have hnearest : (byDirectory lower []).Decided ["a"] none := by
      refine .absent fun d hd => ?_
      rcases eq_of_within hd with rfl | rfl <;> rfl
    exact not_nearestDirectoryDecides hlocate rfl lower_decides hnearest nofun
  · have hlocate : upper.locate ⟨false, ["."], false⟩ = .ok ["a"] := by decide +kernel
    have hnearest : (byDirectory upper []).Decided ["a"] (some {}) := by
      have hconfig : (byDirectory upper []).config? [] = some {} := (config?_of_node rfl).trans rfl
      refine hconfig ▸ .nearest ⟨⟨List.prefix_rfl, List.nil_prefix⟩, rfl, fun d hd hfile => ?_⟩
      rcases eq_of_within hd with rfl | rfl
      · exact ⟨List.prefix_rfl, List.prefix_rfl⟩
      · cases hfile
    exact not_nearestDirectoryDecides hlocate rfl upper_unseen hnearest nofun
  · exact not_nearestDirectoryDecides (deep_locate (by decide)) (deep_directory (Nat.le_refl 2047))
      (deep_unseen (by decide)) (deep_decided 2047) nofun

end TimingStats.Config

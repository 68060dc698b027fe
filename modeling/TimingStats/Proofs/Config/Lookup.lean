import TimingStats.Config.Discovery
import TimingStats.Proofs.Config.Search
import TimingStats.Proofs.Files.Places

/-! # Looking for a configuration

The file of a directory can be looked up through a path, or it can be read off the nodes of the
tree. Both come to the same at a directory that a path leads down to, and at those above it,
provided that the path of the file is short enough. -/

namespace TimingStats.Config

open TimingStats.Path (Upward plain)
open Search (Carried)

variable {t t' : FileTree} {start p : Path} {base place : List String} {bytes : ByteArray}
  {config : Config}

/-! ## Texts of configurations -/

/-- The configuration that some bytes are the text of. -/
def ofBytes (bytes : ByteArray) : Option Config := (FileSystem.decode bytes).toOption.bind ofText

theorem ofBytes_toUTF8 (text : String) : ofBytes text.toUTF8 = ofText text := by
  unfold ofBytes
  rw [FileSystem.decode_eq_ok_iff.mpr rfl]
  rfl

theorem ofBytes_eq_some_iff :
    ofBytes bytes = some config ↔ ∃ text, bytes = text.toUTF8 ∧ ofText text = some config := by
  constructor
  · intro h
    unfold ofBytes at h
    obtain ⟨text, hdecode, htext⟩ := Option.bind_eq_some_iff.mp h
    cases hresult : FileSystem.decode bytes with
    | error e =>
      rw [hresult] at hdecode
      cases hdecode
    | ok decoded =>
      rw [hresult] at hdecode
      cases hdecode
      exact ⟨text, FileSystem.decode_eq_ok_iff.mp hresult, htext⟩
  · rintro ⟨text, rfl, htext⟩
    exact (ofBytes_toUTF8 text).trans htext

/-! ## Two ways to look -/

/-- What can be seen through the paths from one path upwards. -/
def byPath (t : FileTree) : Search Upward where
  hasFile p := t.contains (pathIn p)
  config? p := (t.read (pathIn p)).toOption.bind ofBytes

/-- A directory on the way from one directory up to a base. -/
def Within (base d e : List String) : Prop := base <+: e ∧ e <+: d

/-- What stands in the directories up to a base. -/
def byDirectory (t : FileTree) (base : List String) : Search (Within base) where
  hasFile d := (t.node? (d ++ [fileName])).isSome
  config? d :=
    match t.node? (d ++ [fileName]) with
    | some (.file content) => ofBytes content
    | _ => none

theorem upward_line : Line Upward where
  refl _ := ⟨.self _, .self _⟩
  antisymm := Upward.antisymm
  linear := Upward.linear

theorem within_line (base : List String) : Line (Within base) where
  refl h := ⟨⟨h.1.trans h.2, List.prefix_rfl⟩, h.1, List.prefix_rfl⟩
  antisymm h h' := h'.2.eq_of_length_le h.2.length_le
  linear h h' := by
    rcases List.prefix_or_prefix_of_prefix h.2 h'.2 with hup | hup
    · exact .inr ⟨h.1, hup⟩
    · exact .inl ⟨h'.1, hup⟩

theorem config?_of_read {text : String} (h : t.read (pathIn p) = .ok text.toUTF8) :
    (byPath t).config? p = ofText text := by
  change (t.read (pathIn p)).toOption.bind ofBytes = _
  rw [h]
  exact ofBytes_toUTF8 text

theorem config?_of_node {text : String}
    (h : t.node? (place ++ [fileName]) = some (.file text.toUTF8)) :
    (byDirectory t base).config? place = ofText text := by
  unfold byDirectory
  dsimp only
  rw [h]
  exact ofBytes_toUTF8 text

theorem config?_byDirectory_iff :
    (byDirectory t base).config? place = some config ↔
      ∃ text, t.node? (place ++ [fileName]) = some (.file text.toUTF8) ∧
        ofText text = some config := by
  unfold byDirectory
  dsimp only
  split
  · rename_i content hnode
    rw [hnode, ofBytes_eq_some_iff]
    exact exists_congr fun text => and_congr_left fun _ =>
      ⟨fun heq => heq ▸ rfl, fun heq => Node.file.inj (Option.some.inj heq)⟩
  · rename_i hnode
    exact iff_of_false nofun fun ⟨text, htext, _⟩ => hnode text.toUTF8 htext

theorem descends_pathIn (h : p.Descends) : (pathIn p).Descends := by
  intro hmem
  rcases List.mem_append.mp hmem with hmem | hmem
  · exact h hmem
  · exact absurd (List.mem_singleton.mp hmem) (by decide)

theorem placeOf_pathIn (t : FileTree) (p : Path) :
    t.placeOf (pathIn p) = t.placeOf p ++ [fileName] :=
  t.placeOf_child p (by decide)

/-- Through a path the file of the directory there is seen, if the path can be followed. -/
structure Seen (t : FileTree) (p : Path) : Prop where
  hasFile : (byPath t).hasFile p = true ↔
    t.Leads (pathIn p) ∧ (t.node? (t.placeOf p ++ [fileName])).isSome = true
  config? : ∀ config, (byPath t).config? p = some config ↔
    t.Leads (pathIn p) ∧ ∃ text, t.node? (t.placeOf p ++ [fileName]) = some (.file text.toUTF8) ∧
      ofText text = some config

theorem seen_of_descends (t : FileTree) (h : p.Descends) : Seen t p where
  hasFile := placeOf_pathIn t p ▸ FileTree.contains_iff (descends_pathIn h) rfl
  config? config := by
    have hread : ∀ content, t.read (pathIn p) = .ok content ↔
        t.Leads (pathIn p) ∧ t.node? (t.placeOf p ++ [fileName]) = some (.file content) :=
      fun content => placeOf_pathIn t p ▸ FileTree.read_eq_ok_iff (descends_pathIn h) rfl
    change (t.read (pathIn p)).toOption.bind ofBytes = some config ↔ _
    constructor
    · intro hconfig
      cases hresult : t.read (pathIn p) with
      | error e =>
        rw [hresult] at hconfig
        cases hconfig
      | ok content =>
        rw [hresult] at hconfig
        obtain ⟨text, rfl, htext⟩ := ofBytes_eq_some_iff.mp hconfig
        obtain ⟨hleads, hnode⟩ := (hread _).mp hresult
        exact ⟨hleads, text, hnode, htext⟩
    · rintro ⟨hleads, text, hnode, htext⟩
      rw [(hread _).mpr ⟨hleads, hnode⟩]
      exact (ofBytes_toUTF8 text).trans htext

/-! ## Directories -/

/-- A path leads down to a directory from where its file can be looked up. -/
structure Reaches (t : FileTree) (start : Path) (place : List String) : Prop where
  descends : start.Descends
  leads : t.locate start = .ok place
  directory : t.node? place = some .directory
  fits : (pathIn start).toString.utf8ByteSize < FileTree.maxPathSize

theorem Reaches.placeOf_eq (h : Reaches t start place) : t.placeOf start = place :=
  ((FileTree.locate_eq_ok_iff h.descends).mp h.leads).2.symm

/-- From a directory, the files of all directories above can be looked up. -/
theorem Reaches.leads_pathIn (h : Reaches t start place) (hp : Upward start p) :
    t.Leads (pathIn p) := by
  have hleads := (FileTree.locate_eq_ok_iff h.descends).mp h.leads
  exact hleads.1.child (hleads.2 ▸ h.directory) h.fits (by decide) hp

theorem Reaches.hasFile_eq (h : Reaches t start place) (hp : Upward start p) (base : List String) :
    (byDirectory t base).hasFile (t.placeOf p) = (byPath t).hasFile p := by
  have hseen := (seen_of_descends t (hp.descends h.descends)).hasFile
  rw [and_iff_right (h.leads_pathIn hp)] at hseen
  exact Bool.eq_iff_iff.mpr hseen.symm

theorem Reaches.config?_eq (h : Reaches t start place) (hp : Upward start p)
    (base : List String) :
    (byDirectory t base).config? (t.placeOf p) = (byPath t).config? p := by
  refine Option.ext fun config => ?_
  have hseen := (seen_of_descends t (hp.descends h.descends)).config? config
  rw [and_iff_right (h.leads_pathIn hp)] at hseen
  exact config?_byDirectory_iff.trans hseen.symm

/-- The search by path is the search by directory, at the places that the paths lead to. -/
theorem Reaches.carried (h : Reaches t start place) :
    (byPath t).Carried (byDirectory t (t.origin start)) t.placeOf start where
  above hp hq := by
    refine ⟨?_, t.placeOf_prefix hq⟩
    rw [← t.origin_eq (hp.trans hq)]
    exact List.prefix_append _ _
  onto h := FileTree.exists_upward h.1 h.2
  hasFile hp := h.hasFile_eq hp _
  config? hp := h.config?_eq hp _

/-- A tree with the same nodes on the way is entered the same way. -/
theorem Reaches.congr (h : Reaches t start place) (horigin : t'.origin start = t.origin start)
    (hsame : ∀ d, Within (t.origin start) place d → t'.node? d = t.node? d) :
    Reaches t' start place := by
  obtain ⟨hleads, hplace⟩ := (FileTree.locate_eq_ok_iff h.descends).mp h.leads
  have hwithin : ∀ {names}, names <+: start.names →
      Within (t.origin start) place (t.origin start ++ plain names) := fun hnames =>
    ⟨List.prefix_append _ _, hplace ▸ (List.prefix_append_right_inj _).mpr (hnames.filter _)⟩
  have hplace' : place = t'.placeOf start := by
    rw [hplace, FileTree.placeOf, FileTree.placeOf, horigin]
  refine ⟨h.descends, (FileTree.locate_eq_ok_iff h.descends).mpr ⟨⟨fun names hnames hne => ?_,
    hleads.namesFit, hleads.pathFits⟩, hplace'⟩, ?_, h.fits⟩
  · rw [horigin, hsame _ (hwithin hnames)]
    exact hleads.directories names hnames hne
  · rw [hsame place (hplace ▸ hwithin List.prefix_rfl)]
    exact h.directory

end TimingStats.Config

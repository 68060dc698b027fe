import Mathlib.Data.List.DropRight
import Mathlib.Data.List.Forall2
import TimingStats.Text.Blank
import TimingStats.Text.Split

/-! # Lines and the blank around a text

A line ends with a line feed, and a carriage return before the line feed belongs to the end.
Splitting at line feeds gives the same lines, but that a carriage return stays, and that there is an
empty piece after the last end. -/

namespace TimingStats.Text

variable {cs before after line piece : List Char} {mark : Char}

/-- The lines of a text. The last one need not have an end. -/
def textLines : List Char → List (List Char)
  | [] => []
  | c :: cs =>
    if c = '\n' then [] :: textLines cs
    else if c = '\r' ∧ cs.head? = some '\n' then textLines cs
    else match textLines cs with
      | [] => [[c]]
      | line :: rest => (c :: line) :: rest

/-! ## Splitting -/

theorem split_append_mark (h : mark ∉ piece) (cs : List Char) :
    split mark (piece ++ mark :: cs) = piece :: split mark cs := by
  induction piece with
  | nil => rw [List.nil_append, split, if_pos rfl]
  | cons c piece ih =>
    obtain ⟨hc, hpiece⟩ := List.ne_and_not_mem_of_not_mem_cons h
    rw [List.cons_append, split, if_neg (Ne.symm hc), ih hpiece]

theorem split_of_not_mem (h : mark ∉ cs) : split mark cs = [cs] := by
  induction cs with
  | nil => rfl
  | cons c cs ih =>
    obtain ⟨hc, hcs⟩ := List.ne_and_not_mem_of_not_mem_cons h
    rw [split, if_neg (Ne.symm hc), ih hcs]

theorem split_append (cs ds : List Char) :
    split mark (cs ++ mark :: ds) = split mark cs ++ split mark ds := by
  induction cs with
  | nil => simp [split]
  | cons c cs ih =>
    rw [List.cons_append, split, split, ih]
    split
    · rfl
    · cases hcs : split mark cs with
      | nil => exact absurd hcs (split_ne_nil mark cs)
      | cons piece pieces => rfl

/-! ## Lines among the pieces -/

/-- A piece is a line, or a line with the carriage return of its end. -/
def PieceOf (piece line : List Char) : Prop := piece = line ∨ piece = line ++ ['\r']

theorem PieceOf.cons (h : PieceOf piece line) (c : Char) : PieceOf (c :: piece) (c :: line) :=
  h.imp (congrArg (c :: ·)) (congrArg (c :: ·))

theorem textLines_crlf (cs : List Char) :
    textLines ('\r' :: '\n' :: cs) = [] :: textLines cs := by
  rw [textLines, if_neg (by decide), if_pos ⟨rfl, rfl⟩, textLines, if_pos rfl]

theorem textLines_ne_nil (h : cs ≠ []) : textLines cs ≠ [] := by
  induction cs with
  | nil => exact absurd rfl h
  | cons c cs ih =>
    rw [textLines]
    split
    · exact List.cons_ne_nil _ _
    · split
      · rename_i hcr
        exact ih fun hnil => by simp [hnil] at hcr
      · split <;> exact List.cons_ne_nil _ _

/-- The pieces between line feeds are the lines. After the last end there is an empty piece. -/
theorem pieces_of_lines (cs : List Char) :
    ∃ last, (last = [] ∨ last = [[]]) ∧
      List.Forall₂ PieceOf (split '\n' cs) (textLines cs ++ last) := by
  induction cs with
  | nil => exact ⟨[[]], .inr rfl, .cons (.inl rfl) .nil⟩
  | cons c cs ih =>
    obtain ⟨last, hlast, hpieces⟩ := ih
    by_cases hc : c = '\n'
    · rw [split, textLines, if_pos hc, if_pos hc]
      exact ⟨last, hlast, .cons (.inl rfl) hpieces⟩
    by_cases hcr : c = '\r' ∧ cs.head? = some '\n'
    · obtain ⟨rfl, hhead⟩ := hcr
      obtain ⟨cs, rfl⟩ := List.head?_eq_some_iff.mp hhead
      rw [split, textLines, if_pos rfl, if_pos rfl] at hpieces
      obtain ⟨-, hrest⟩ := List.forall₂_cons.mp hpieces
      rw [textLines_crlf, split, if_neg hc, split, if_pos rfl]
      exact ⟨last, hlast, .cons (.inr rfl) hrest⟩
    rw [split, textLines, if_neg hc, if_neg hc, if_neg hcr]
    cases hsplit : split '\n' cs with
    | nil => exact absurd hsplit (split_ne_nil '\n' cs)
    | cons piece pieces =>
      cases hlines : textLines cs with
      | nil =>
        have hnil : cs = [] := by_contra fun hne => textLines_ne_nil hne hlines
        subst hnil
        obtain ⟨rfl, rfl⟩ := List.cons.inj hsplit
        exact ⟨[], .inl rfl, .cons (.inl rfl) .nil⟩
      | cons line rest =>
        rw [hsplit, hlines, List.cons_append] at hpieces
        obtain ⟨hpiece, hrest⟩ := List.forall₂_cons.mp hpieces
        exact ⟨last, hlast, .cons (hpiece.cons c) hrest⟩

/-! ## Trimming -/

/-- A text without blank characters at its ends. -/
structure Trimmed (cs : List Char) : Prop where
  first : ∀ c ∈ cs.head?, isBlank c = false
  last : ∀ c ∈ cs.getLast?, isBlank c = false

def Blank (cs : List Char) : Prop := ∀ c ∈ cs, isBlank c = true

theorem trim_eq_rdropWhile (cs : List Char) :
    trim cs = (cs.dropWhile isBlank).rdropWhile isBlank := rfl

theorem trimmed_trim (cs : List Char) : Trimmed (trim cs) := by
  refine ⟨fun c hc => ?_, not_isBlank_getLast_trim cs⟩
  -- The second pass only takes characters off the end, so the first one stays.
  have hfirst := List.head?_dropWhile_not isBlank cs
  obtain ⟨rest, hrest⟩ := List.rdropWhile_prefix isBlank (l := cs.dropWhile isBlank)
  rw [← trim_eq_rdropWhile] at hrest
  rw [← hrest, List.head?_append, Option.mem_def.mp hc] at hfirst
  exact hfirst

/-- Trimming takes off nothing but blank characters. -/
theorem exists_trim (cs : List Char) :
    ∃ before after, Blank before ∧ Blank after ∧ cs = before ++ trim cs ++ after := by
  refine ⟨cs.takeWhile isBlank, (cs.dropWhile isBlank).rtakeWhile isBlank,
    fun c hc => List.mem_takeWhile_imp hc, fun c hc => List.mem_rtakeWhile_imp hc, ?_⟩
  rw [trim_eq_rdropWhile, List.append_assoc, List.rdropWhile_append_rtakeWhile,
    List.takeWhile_append_dropWhile]

theorem dropWhile_blank (hbefore : Blank before) (h : ∀ c ∈ cs.head?, isBlank c = false) :
    (before ++ cs).dropWhile isBlank = cs := by
  rw [List.dropWhile_append_of_pos hbefore]
  cases cs with
  | nil => rfl
  | cons c cs => exact List.dropWhile_cons_of_neg (by simpa using h c rfl)

theorem trim_append (hbefore : Blank before) (hafter : Blank after) (h : Trimmed cs) :
    trim (before ++ cs ++ after) = cs := by
  unfold trim
  rw [List.append_assoc]
  cases hcs : cs with
  | nil =>
    have hall : Blank (before ++ ([] ++ after)) := List.forall_mem_append.mpr ⟨hbefore, hafter⟩
    rw [List.dropWhile_eq_nil_iff.mpr hall]
    rfl
  | cons c rest =>
    rw [← hcs]
    have hfirst : ∀ a ∈ (cs ++ after).head?, isBlank a = false := by
      rw [hcs]
      exact fun a ha => h.first a (hcs ▸ ha)
    have hlast : ∀ a ∈ cs.reverse.head?, isBlank a = false := by
      rw [List.head?_reverse]
      exact h.last
    have hreverse : Blank after.reverse := fun a ha => hafter a (List.mem_reverse.mp ha)
    rw [dropWhile_blank hbefore hfirst, List.reverse_append, dropWhile_blank hreverse hlast,
      List.reverse_reverse]

end TimingStats.Text

import Mathlib.Data.List.ReduceOption
import TimingStats.Proofs.Text.Lines
import TimingStats.Proofs.Text.Numerals
import TimingStats.Samples

/-! # The language of listings

A line holds nothing or one sample, whatever is blank or a comment about it. A listing is read if
every line holds one or the other, and the error is about the first line that does not. -/

namespace TimingStats.Samples

open Text (textLines split PieceOf Trimmed Blank Numeral)

variable {line text : List Char} {ls ls' : List (List Char)} {value : Option Int64}
  {samples : List Int64} {k : Nat}

/-! ## Lines -/

/-- A comment is empty, or it starts with a number sign. -/
def Comment (cs : List Char) : Prop := ∀ c ∈ cs.head?, c = '#'

/-- What a line says: a trimmed text without a number sign, with blank characters around it and a
comment after them. -/
structure Says (line text : List Char) : Prop where
  trimmed : Trimmed text
  unmarked : '#' ∉ text
  parts : ∃ before after comment, Blank before ∧ Blank after ∧ Comment comment ∧
    line = before ++ text ++ after ++ comment

/-- What a line holds: nothing, or a sample. -/
inductive Holds (line : List Char) : Option Int64 → Prop
  | nothing (h : Says line []) : Holds line none
  | sample {text : List Char} {v : Int64} (h : Says line text) (hv : Numeral text v.toInt) :
    Holds line (some v)

theorem takeWhile_comment {cs comment : List Char} (h : '#' ∉ cs) (hc : Comment comment) :
    (cs ++ comment).takeWhile (· != '#') = cs := by
  have hall : ∀ c ∈ cs, (c != '#') = true := fun c hmem => bne_iff_ne.mpr fun heq => h (heq ▸ hmem)
  rw [List.takeWhile_append_of_pos hall]
  cases comment with
  | nil => exact List.append_nil cs
  | cons c comment =>
    obtain rfl : c = '#' := hc c rfl
    exact List.append_nil cs

theorem comment_dropWhile (cs : List Char) : Comment (cs.dropWhile (· != '#')) := by
  intro c hc
  have hfirst := List.head?_dropWhile_not (· != '#') cs
  rw [Option.mem_def.mp hc] at hfirst
  simpa using hfirst

theorem unmarked_of_blank {cs : List Char} (h : Blank cs) : '#' ∉ cs :=
  fun hmem => absurd (h '#' hmem) (by decide +kernel)

theorem content_eq_iff : content line = text ↔ Says line text := by
  constructor
  · rintro rfl
    obtain ⟨before, after, hbefore, hafter, hcut⟩ := Text.exists_trim (line.takeWhile (· != '#'))
    have hmark : '#' ∉ line.takeWhile (· != '#') := fun hmem => by
      simpa using List.mem_takeWhile_imp hmem
    refine ⟨Text.trimmed_trim _, fun hmem => hmark ?_, before, after, _, hbefore, hafter,
      comment_dropWhile line, ?_⟩
    · rw [hcut]
      exact List.mem_append_left _ (List.mem_append_right _ hmem)
    · exact List.takeWhile_append_dropWhile.symm.trans (congrArg (· ++ _) hcut)
  · rintro ⟨htrim, hmark, before, after, comment, hbefore, hafter, hcomment, rfl⟩
    have hclean : '#' ∉ before ++ text ++ after := by
      rw [List.mem_append, List.mem_append]
      rintro ((hb | ht) | ha)
      · exact unmarked_of_blank hbefore hb
      · exact hmark ht
      · exact unmarked_of_blank hafter ha
    rw [content, takeWhile_comment hclean hcomment, Text.trim_append hbefore hafter htrim]

theorem says_content (line : List Char) : Says line (content line) := content_eq_iff.mp rfl

theorem holds_none_iff : Holds line none ↔ content line = [] := by
  rw [content_eq_iff]
  constructor
  · rintro ⟨h⟩
    exact h
  · exact .nothing

theorem holds_some_iff {v : Int64} :
    Holds line (some v) ↔ Text.readInt64 (content line) = .ok v := by
  rw [Text.readInt64_eq_ok]
  constructor
  · rintro (_ | ⟨h, hv⟩)
    rwa [content_eq_iff.mpr h]
  · exact .sample (says_content line)

/-- A carriage return at the end of a line is blank, or it belongs to the comment. -/
theorem says_append_cr (h : Says line text) : Says (line ++ ['\r']) text := by
  obtain ⟨htrim, hmark, before, after, comment, hbefore, hafter, hcomment, rfl⟩ := h
  refine ⟨htrim, hmark, ?_⟩
  cases comment with
  | nil =>
    have hcr : Blank ['\r'] := List.forall_mem_singleton.mpr (by decide +kernel)
    exact ⟨before, after ++ ['\r'], [], hbefore, List.forall_mem_append.mpr ⟨hafter, hcr⟩, hcomment,
      by simp⟩
  | cons c comment =>
    exact ⟨before, after, c :: comment ++ ['\r'], hbefore, hafter, hcomment, by simp⟩

theorem Holds.append_cr (h : Holds line value) : Holds (line ++ ['\r']) value := by
  rcases h with h | ⟨h, hv⟩
  · exact .nothing (says_append_cr h)
  · exact .sample (says_append_cr h) hv

theorem content_of_pieceOf {piece : List Char} (h : PieceOf piece line) :
    content piece = content line := by
  rcases h with rfl | rfl
  · rfl
  · exact content_eq_iff.mpr (says_append_cr (says_content line))

/-! ## Reading lines -/

theorem parseLines_cons (h : Holds line value) :
    parseLines k (line :: ls) = (value.toList ++ ·) <$> parseLines (k + 1) ls := by
  rw [parseLines]
  cases value with
  | none =>
    rw [holds_none_iff.mp h]
    cases parseLines (k + 1) ls <;> rfl
  | some v =>
    have hread := holds_some_iff.mp h
    have hne : (content line).isEmpty = false := by
      cases hc : content line with
      | nil =>
        rw [hc] at hread
        cases hread
      | cons c cs => rfl
    rw [hne, hread]
    rfl

theorem parseLines_offence (k : Nat) (ls : List (List Char)) (h : ∀ v, ¬ Holds line v) :
    ∃ cause, parseLines k (line :: ls) = .error ⟨k, content line, cause⟩ := by
  have hne : (content line).isEmpty = false := by
    cases hc : content line with
    | nil => exact absurd (holds_none_iff.mpr hc) (h none)
    | cons c cs => rfl
  rw [parseLines, hne]
  cases hread : Text.readInt64 (content line) with
  | error cause => exact ⟨cause, rfl⟩
  | ok v => exact absurd (holds_some_iff.mpr hread) (h (some v))

theorem parseLines_ok {values : List (Option Int64)} (h : List.Forall₂ Holds ls values) (k : Nat) :
    parseLines k ls = .ok values.reduceOption := by
  induction h generalizing k with
  | nil => rfl
  | @cons line value ls values hvalue _ ih =>
    rw [parseLines_cons hvalue, ih]
    cases value <;> rfl

/-- The first line that holds nothing that can be read is the one in the error. -/
theorem parseLines_error {before : List (List Char)}
    (hbefore : ∀ l ∈ before, ∃ value, Holds l value) (hline : ∀ value, ¬ Holds line value)
    (k : Nat) (after : List (List Char)) :
    ∃ cause, parseLines k (before ++ line :: after) =
      .error ⟨k + before.length, content line, cause⟩ := by
  induction before generalizing k with
  | nil => exact parseLines_offence k after hline
  | cons l before ih =>
    obtain ⟨⟨value, hvalue⟩, hrest⟩ := List.forall_mem_cons.mp hbefore
    obtain ⟨cause, herror⟩ := ih hrest (k + 1)
    refine ⟨cause, ?_⟩
    rw [List.cons_append, parseLines_cons hvalue, herror, List.length_cons, Nat.add_right_comm]
    rfl

theorem holds_or_offence (ls : List (List Char)) :
    (∃ values, List.Forall₂ Holds ls values) ∨
      ∃ before line after, ls = before ++ line :: after ∧
        (∀ l ∈ before, ∃ value, Holds l value) ∧ ∀ value, ¬ Holds line value := by
  induction ls with
  | nil => exact .inl ⟨[], .nil⟩
  | cons line ls ih =>
    by_cases hline : ∃ value, Holds line value
    · obtain ⟨value, hvalue⟩ := hline
      rcases ih with ⟨values, hvalues⟩ | ⟨before, bad, after, rfl, hbefore, hbad⟩
      · exact .inl ⟨value :: values, .cons hvalue hvalues⟩
      · exact .inr ⟨line :: before, bad, after, rfl,
          List.forall_mem_cons.mpr ⟨⟨value, hvalue⟩, hbefore⟩, hbad⟩
    · exact .inr ⟨[], line, ls, rfl, List.forall_mem_nil _, not_exists.mp hline⟩

theorem parseLines_eq_ok :
    parseLines k ls = .ok samples ↔
      ∃ values, List.Forall₂ Holds ls values ∧ samples = values.reduceOption := by
  constructor
  · intro hok
    rcases holds_or_offence ls with ⟨values, hvalues⟩ | ⟨before, line, after, rfl, hbefore, hline⟩
    · exact ⟨values, hvalues, Except.ok.inj (hok.symm.trans (parseLines_ok hvalues k))⟩
    · obtain ⟨cause, herror⟩ := parseLines_error hbefore hline k after
      rw [herror] at hok
      cases hok
  · rintro ⟨values, hvalues, rfl⟩
    exact parseLines_ok hvalues k

theorem parseLines_congr (h : ls.map content = ls'.map content) :
    parseLines k ls = parseLines k ls' := by
  induction ls generalizing k ls' with
  | nil =>
    obtain rfl := List.map_eq_nil_iff.mp h.symm
    rfl
  | cons line ls ih =>
    obtain ⟨line', rest, rfl, hline, hrest⟩ := List.map_eq_cons_iff.mp h.symm
    rw [parseLines, parseLines, hline, ih hrest.symm]

theorem parseLines_append_blank (k : Nat) (ls : List (List Char)) :
    parseLines k (ls ++ [[]]) = parseLines k ls := by
  induction ls generalizing k with
  | nil => rfl
  | cons line ls ih => rw [List.cons_append, parseLines, parseLines, ih]

theorem parse_eq (text : String) : parse text = parseLines 1 (textLines text.toList) := by
  obtain ⟨last, hlast, hpieces⟩ := Text.pieces_of_lines text.toList
  have hcontent : (lines text.toList).map content =
      (textLines text.toList ++ last).map content := by
    rw [← List.forall₂_eq_eq_eq, List.forall₂_map_left_iff, List.forall₂_map_right_iff]
    exact hpieces.imp fun _ _ => content_of_pieceOf
  rw [parse, parseLines_congr hcontent]
  rcases hlast with rfl | rfl
  · rw [List.append_nil]
  · exact parseLines_append_blank 1 _

/-! ## Printing -/

/-- A line to be printed: a sample or nothing, with blank characters around it and a comment. -/
structure Row where
  value : Option Int64
  before : List Char
  after : List Char
  comment : List Char
  /-- Whether the line ends with a carriage return and a line feed. -/
  carriageReturn : Bool
  blank_before : Blank before
  blank_after : Blank after
  comment_marked : Comment comment
  one_line : '\n' ∉ before ++ after ++ comment

def Row.numeral (r : Row) : List Char :=
  r.value.elim [] fun v => (Decimal.intText v.toInt).toList

def Row.printed (r : Row) : List Char := r.before ++ r.numeral ++ r.after ++ r.comment

/-- A printed row with what comes before the line feed. -/
def Row.ended (r : Row) : List Char := r.printed ++ if r.carriageReturn then ['\r'] else []

/-- Rows one after another. The last one need not have an end. -/
def printRows (rows : List Row) (last : Option Row) : String :=
  String.ofList (rows.flatMap (fun r => r.ended ++ ['\n']) ++ last.elim [] Row.printed)

theorem Row.mem_numeral (r : Row) : ∀ c ∈ r.numeral, c.isDigit = true ∨ c = '+' ∨ c = '-' := by
  unfold numeral
  cases r.value with
  | none => exact List.forall_mem_nil _
  | some v => exact (Text.numeral_intText v.toInt).mem

theorem not_isBlank_of_isDigit {c : Char} (h : c.isDigit = true) : Text.isBlank c = false := by
  obtain ⟨hlow, hhigh⟩ : 48 ≤ c.toNat ∧ c.toNat ≤ 57 := Char.isDigit_iff_toNat.mp h
  have hclear : ∀ range ∈ Text.blankRanges, range.2 < 48 ∨ 57 < range.1 := by decide
  rw [Text.isBlank, Text.Ranges.contains, Array.any_eq_false']
  intro range hrange hin
  have hapart := hclear range hrange
  simp only [Bool.and_eq_true, decide_eq_true_eq] at hin
  omega

theorem Row.not_isBlank_of_mem (r : Row) : ∀ c ∈ r.numeral, Text.isBlank c = false := by
  intro c hc
  rcases r.mem_numeral c hc with h | rfl | rfl
  · exact not_isBlank_of_isDigit h
  · decide +kernel
  · decide +kernel

theorem Row.says (r : Row) : Says r.printed r.numeral := by
  have hclean := r.not_isBlank_of_mem
  refine ⟨⟨fun c hc => ?_, fun c hc => ?_⟩, fun hmem => ?_,
    r.before, r.after, r.comment, r.blank_before, r.blank_after, r.comment_marked, rfl⟩
  · exact hclean c (List.mem_of_mem_head? hc)
  · exact hclean c (List.mem_of_mem_getLast? hc)
  · exact absurd (r.mem_numeral '#' hmem) (by decide)

theorem Row.holds (r : Row) : Holds r.printed r.value := by
  have hsays := r.says
  unfold numeral at hsays
  cases hv : r.value with
  | none =>
    rw [hv] at hsays
    exact .nothing hsays
  | some v =>
    rw [hv] at hsays
    exact .sample hsays (Text.numeral_intText v.toInt)

theorem Row.holds_ended (r : Row) : Holds r.ended r.value := by
  unfold ended
  split
  · exact r.holds.append_cr
  · rw [List.append_nil]
    exact r.holds

theorem Row.newline_not_mem (r : Row) : '\n' ∉ r.printed := by
  have hone := r.one_line
  have hnumeral : '\n' ∉ r.numeral := fun hmem => absurd (r.mem_numeral '\n' hmem) (by decide)
  unfold printed
  simp only [List.mem_append, not_or] at hone ⊢
  exact ⟨⟨⟨hone.1.1, hnumeral⟩, hone.1.2⟩, hone.2⟩

theorem Row.newline_not_mem_ended (r : Row) : '\n' ∉ r.ended := by
  unfold ended
  rw [List.mem_append, not_or]
  exact ⟨r.newline_not_mem, by split <;> decide⟩

theorem split_printRows (rows : List Row) (cs : List Char) :
    split '\n' (rows.flatMap (fun r => r.ended ++ ['\n']) ++ cs) =
      rows.map Row.ended ++ split '\n' cs := by
  induction rows with
  | nil => rfl
  | cons r rows ih =>
    rw [List.flatMap_cons, List.append_assoc, List.append_assoc, List.singleton_append,
      Text.split_append_mark r.newline_not_mem_ended, ih]
    rfl

theorem parse_printRows (rows : List Row) (last : Option Row) :
    parse (printRows rows last) = .ok ((rows ++ last.toList).filterMap Row.value) := by
  have hlast : List.Forall₂ Holds (split '\n' (last.elim [] Row.printed))
      [last.bind Row.value] := by
    cases last with
    | none => exact .cons (holds_none_iff.mpr rfl) .nil
    | some r =>
      rw [Option.elim_some, Text.split_of_not_mem r.newline_not_mem]
      exact .cons r.holds .nil
  have hrows : List.Forall₂ Holds (rows.map Row.ended) (rows.map Row.value) := by
    rw [List.forall₂_map_left_iff, List.forall₂_map_right_iff, List.forall₂_same]
    exact fun r _ => r.holds_ended
  rw [parse, parseLines_eq_ok, printRows, String.toList_ofList, lines, split_printRows]
  refine ⟨rows.map Row.value ++ [last.bind Row.value], List.rel_append hrows hlast, ?_⟩
  rw [List.reduceOption_append, List.filterMap_append, List.reduceOption, List.filterMap_map]
  cases last <;> rfl

/-! ## Joining -/

theorem parse_append {a b : String} {xs ys : List Int64} (ha : a.toList.getLast? = some '\n')
    (hxs : parse a = .ok xs) (hys : parse b = .ok ys) : parse (a ++ b) = .ok (xs ++ ys) := by
  obtain ⟨cs, hcs⟩ := List.getLast?_eq_some_iff.mp ha
  have hjoin : lines (a ++ b).toList = split '\n' cs ++ lines b.toList := by
    rw [lines, lines, String.toList_append, hcs, List.append_assoc, List.singleton_append,
      Text.split_append]
  have hfirst : lines a.toList = split '\n' cs ++ [[]] := by
    rw [lines, hcs, Text.split_append]
    rfl
  rw [parse, hfirst, parseLines_append_blank, parseLines_eq_ok] at hxs
  rw [parse, parseLines_eq_ok] at hys
  obtain ⟨values, hvalues, rfl⟩ := hxs
  obtain ⟨values', hvalues', rfl⟩ := hys
  rw [parse, hjoin, parseLines_eq_ok]
  exact ⟨values ++ values', List.rel_append hvalues hvalues',
    (List.reduceOption_append values values').symm⟩

/-! ## Listings -/

/-- **The language of listings.** A text is read if each of its lines holds nothing or a sample, and
as these samples in order. Otherwise the error names the first line that does not, counted from one.
So samples that have been printed are read back, whatever is blank or a comment around them, and two
texts of which the first ends with a line feed are read one after the other. -/
theorem parse_listing :
    (∀ text samples, parse text = .ok samples ↔
      ∃ values, List.Forall₂ Holds (textLines text.toList) values ∧
        samples = values.reduceOption) ∧
    (∀ text, (¬ ∃ values, List.Forall₂ Holds (textLines text.toList) values) →
      ∃ e before line after, parse text = .error e ∧
        textLines text.toList = before ++ line :: after ∧
        (∀ l ∈ before, ∃ value, Holds l value) ∧ (∀ value, ¬ Holds line value) ∧
        e.line = before.length + 1 ∧ Says line e.text ∧
        e.messages.head? = some ("line " ++ Decimal.digitText (before.length + 1) ++
          ": invalid sample " ++ Text.quoted e.text)) ∧
    (∀ rows last, parse (printRows rows last) =
      .ok ((rows ++ last.toList).filterMap Row.value)) ∧
    (∀ a b xs ys, a.toList.getLast? = some '\n' → parse a = .ok xs → parse b = .ok ys →
      parse (a ++ b) = .ok (xs ++ ys)) := by
  refine ⟨fun text samples => ?_, fun text hnone => ?_, parse_printRows,
    fun a b xs ys => parse_append⟩
  · rw [parse_eq, parseLines_eq_ok]
  · obtain ⟨before, line, after, hlines, hbefore, hline⟩ :=
      (holds_or_offence (textLines text.toList)).resolve_left hnone
    obtain ⟨cause, herror⟩ := parseLines_error hbefore hline 1 after
    rw [← hlines, ← parse_eq, Nat.add_comm] at herror
    exact ⟨_, before, line, after, herror, hlines, hbefore, hline, rfl, says_content line, rfl⟩

/-- Two texts read together, with blanks of several kinds, and one with an error in its third
line. -/
theorem parse_listing_joined :
    parse ("# warm run\r\n\u00a0100\u3000\r\n" ++ "\t+007 # slow\n\n-9223372036854775808") =
        .ok [100, 7, -9223372036854775808] ∧
      ∃ e, parse "100\n\n --5#\n6x\n" = .error e ∧
        e.messages.head? = some ("line 3: invalid sample " ++ Text.quoted "--5".toList) := by
  obtain ⟨hread, herror, -, hjoin⟩ := parse_listing
  refine ⟨hjoin _ _ [100] [7, -9223372036854775808] (by decide +kernel) (by decide +kernel)
    (by decide +kernel), ?_⟩
  have hparse : parse "100\n\n --5#\n6x\n" = .error ⟨3, "--5".toList, .invalidDigit⟩ := by
    decide +kernel
  obtain ⟨e, before, line, after, he, -, -, -, hnumber, -, hmessage⟩ :=
    herror "100\n\n --5#\n6x\n" fun ⟨values, hvalues⟩ => by
      have hok := (hread _ _).mpr ⟨values, hvalues, rfl⟩
      rw [hparse] at hok
      cases hok
  obtain rfl := Except.error.inj (hparse.symm.trans he)
  have hstart : "line " ++ Decimal.digitText 3 ++ ": invalid sample " =
      "line 3: invalid sample " := by decide +kernel
  rw [← hnumber, hstart] at hmessage
  exact ⟨_, he, hmessage⟩

end TimingStats.Samples

/-! # Splitting a text

A text is split at every mark of some kind. There is always one piece more than there are
marks. -/

namespace TimingStats.Text

/-- The pieces of a text between its marks. -/
def split (mark : Char) : List Char → List (List Char)
  | [] => [[]]
  | c :: cs =>
    if c = mark then [] :: split mark cs
    else match split mark cs with
      | [] => [[c]]
      | piece :: pieces => (c :: piece) :: pieces

theorem split_ne_nil (mark : Char) (cs : List Char) : split mark cs ≠ [] := by
  cases cs with
  | nil => simp [split]
  | cons c cs => simp only [split]; split <;> (try split) <;> simp

end TimingStats.Text

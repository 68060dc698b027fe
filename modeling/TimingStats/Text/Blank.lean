import TimingStats.Text.Ranges

/-! # Blank characters

The characters with the Unicode property White_Space, and trimming. -/

namespace TimingStats.Text

def blankRanges : Ranges := #[(0x9, 0xd), (0x20, 0x20), (0x85, 0x85), (0xa0, 0xa0),
  (0x1680, 0x1680), (0x2000, 0x200a), (0x2028, 0x2029), (0x202f, 0x202f), (0x205f, 0x205f),
  (0x3000, 0x3000)]

def isBlank (c : Char) : Bool := blankRanges.contains c

def trim (cs : List Char) : List Char :=
  ((cs.dropWhile isBlank).reverse.dropWhile isBlank).reverse

theorem not_isBlank_getLast_trim (cs : List Char) (c : Char) (h : (trim cs).getLast? = some c) :
    isBlank c = false := by
  unfold trim at h
  rw [List.getLast?_reverse] at h
  have := List.head?_dropWhile_not isBlank (cs.dropWhile isBlank).reverse
  rw [h] at this
  simpa using this

end TimingStats.Text

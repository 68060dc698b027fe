import TimingStats.Decimal.Shortest
import TimingStats.Text.Blank
import TimingStats.Text.Integer
import TimingStats.Text.Quoted
import TimingStats.Text.Split

/-! # Listings of samples

A listing holds one integer a line. A number sign starts a comment, blank lines are passed over,
and blank characters around an integer do not count; the carriage return of a line that ends in
one is such a character. -/

namespace TimingStats.Samples

/-- The first line that holds something else, counted from one, with its text. -/
structure ParseError where
  line : Nat
  text : List Char
  cause : Text.IntegerError
  deriving DecidableEq, Repr

def ParseError.messages (e : ParseError) : List String :=
  ["line " ++ Decimal.digitText e.line ++ ": invalid sample " ++ Text.quoted e.text,
    e.cause.message]

/-- The lines of a text without their line feeds. -/
def lines (cs : List Char) : List (List Char) := Text.split '\n' cs

/-- A line without its comment and the blank characters around it. -/
def content (line : List Char) : List Char := Text.trim (line.takeWhile (· != '#'))

/-- Reads the samples of the lines from some number on. -/
def parseLines : Nat → List (List Char) → Except ParseError (List Int64)
  | _, [] => .ok []
  | number, line :: rest =>
    let text := content line
    if text.isEmpty then parseLines (number + 1) rest
    else match Text.readInt64 text with
      | .error cause => .error ⟨number, text, cause⟩
      | .ok v => (v :: ·) <$> parseLines (number + 1) rest

def parse (text : String) : Except ParseError (List Int64) := parseLines 1 (lines text.toList)

end TimingStats.Samples

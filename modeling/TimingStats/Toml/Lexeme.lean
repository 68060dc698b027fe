import TimingStats.Binary64
import TimingStats.Text.Real
import TimingStats.Toml.Value

/-! # Words of a configuration text

Keys, strings, numbers, and dates. A reader takes them from the head of a text and returns what
is left, or nothing where the text does not begin with one. -/

namespace TimingStats.Toml

abbrev Reader (α : Type) := List Char → Option (α × List Char)

def isSpace (c : Char) : Bool := c == ' ' || c == '\t'

def skipSpaces (cs : List Char) : List Char := cs.dropWhile isSpace

/-- A control character, tabs excepted. -/
def isControl (c : Char) : Bool := c.toNat < 0x20 && c != '\t' || c == '\x7f'

def newline? : List Char → Option (List Char)
  | '\n' :: cs => some cs
  | '\r' :: '\n' :: cs => some cs
  | _ => none

def skipComment : List Char → List Char
  | '#' :: cs => cs.dropWhile (!isControl ·)
  | cs => cs

section Strings

def hexValue (c : Char) : Option Nat :=
  if '0' ≤ c ∧ c ≤ '9' then some (c.toNat - '0'.toNat)
  else if 'a' ≤ c ∧ c ≤ 'f' then some (c.toNat - 'a'.toNat + 10)
  else if 'A' ≤ c ∧ c ≤ 'F' then some (c.toNat - 'A'.toNat + 10)
  else none

/-- The character whose number is written in some count of hexadecimal digits. -/
def numberedChar (count : Nat) (cs : List Char) : Option (Char × List Char) := do
  let digits := cs.take count
  if digits.length < count then none
  let n ← digits.foldlM (fun n c => return 16 * n + (← hexValue c)) 0
  if n.isValidChar then return (Char.ofNat n, cs.drop count) else none

/-- The character that an escape stands for; the backslash has been taken. -/
def escape : Reader Char
  | 'b' :: cs => some ('\x08', cs)
  | 't' :: cs => some ('\t', cs)
  | 'n' :: cs => some ('\n', cs)
  | 'f' :: cs => some ('\x0c', cs)
  | 'r' :: cs => some ('\r', cs)
  | '"' :: cs => some ('"', cs)
  | '\\' :: cs => some ('\\', cs)
  | 'u' :: cs => numberedChar 4 cs
  | 'U' :: cs => numberedChar 8 cs
  | _ => none

/-- The rest of a string on one line; its opening quote has been taken. -/
def lineString (quote : Char) (escapes : Bool) : Nat → Reader (List Char)
  | 0, _ => none
  | fuel + 1, cs =>
    match cs with
    | [] => none
    | c :: cs =>
      if c = quote then some ([], cs)
      else if c = '\\' ∧ escapes then do
        let (e, cs) ← escape cs
        let (rest, cs) ← lineString quote escapes fuel cs
        return (e :: rest, cs)
      else if isControl c then none
      else do
        let (rest, cs) ← lineString quote escapes fuel cs
        return (c :: rest, cs)

def skipLines : Nat → List Char → List Char
  | 0, cs => cs
  | fuel + 1, cs =>
    let cs := skipSpaces cs
    match newline? cs with
    | some cs => skipLines fuel cs
    | none => cs

/-- The rest of a string over several lines. Three quotes close it; one or two more right before
them belong to it. A backslash at the end of a line takes away the blanks and ends of lines that
follow. -/
def longString (quote : Char) (escapes : Bool) : Nat → Reader (List Char)
  | 0, _ => none
  | fuel + 1, cs =>
    match newline? cs with
    | some cs => do
      let (rest, cs) ← longString quote escapes fuel cs
      return ('\n' :: rest, cs)
    | none =>
      match cs with
      | [] => none
      | c :: cs =>
        if c = quote then
          let more := (cs.takeWhile (· == quote)).length
          if more < 2 then do
            let (rest, cs) ← longString quote escapes fuel cs
            return (c :: rest, cs)
          else
            let inside := min (more - 2) 2
            some (List.replicate inside quote, cs.drop (inside + 2))
        else if c = '\\' ∧ escapes then
          match newline? (skipSpaces cs) with
          | some after => longString quote escapes fuel (skipLines after.length after)
          | none => do
            let (e, cs) ← escape cs
            let (rest, cs) ← longString quote escapes fuel cs
            return (e :: rest, cs)
        else if isControl c then none
        else do
          let (rest, cs) ← longString quote escapes fuel cs
          return (c :: rest, cs)

/-- The quotes of a string, and whether backslashes escape inside them. -/
def quoteMark (c : Char) : Option Bool :=
  if c = '"' then some true else if c = '\'' then some false else none

def shortString : Reader String
  | [] => none
  | c :: cs => do
    let escapes ← quoteMark c
    let (text, cs) ← lineString c escapes (cs.length + 1) cs
    return (String.ofList text, cs)

/-- A string in single or triple quotes. The end of a line right after triple quotes does not
count. -/
def stringValue : Reader String
  | a :: b :: c :: cs =>
    if a = b ∧ b = c then do
      let escapes ← quoteMark a
      let cs := (newline? cs).getD cs
      let (text, cs) ← longString a escapes (cs.length + 1) cs
      return (String.ofList text, cs)
    else shortString (a :: b :: c :: cs)
  | cs => shortString cs

end Strings

section Keys

def isBareKeyChar (c : Char) : Bool := c.isAlphanum || c == '_' || c == '-'

def keyPart (cs : List Char) : Option (String × List Char) := do
  let cs := skipSpaces cs
  let bare := cs.takeWhile isBareKeyChar
  let (part, cs) ←
    if bare.isEmpty then shortString cs else some (String.ofList bare, cs.drop bare.length)
  return (part, skipSpaces cs)

/-- A key never has more parts than this. -/
def maxDepth : Nat := 79

def keyParts : Nat → Reader (List String)
  | 0, _ => none
  | depth + 1, cs => do
    let (part, cs) ← keyPart cs
    match cs with
    | '.' :: cs =>
      let (parts, cs) ← keyParts depth cs
      return (part :: parts, cs)
    | cs => return ([part], cs)

/-- A key as the path to a table and a name in it. -/
def key (cs : List Char) : Option ((List String × String) × List Char) := do
  let (parts, cs) ← keyParts maxDepth cs
  let last ← parts.getLast?
  return ((parts.dropLast, last), cs)

end Keys

section Numbers

/-- Digits of some kind, with single underscores between them; the underscores are left out. -/
def digitRun (isDigit : Char → Bool) : List Char → Option (List Char × List Char)
  | [] => none
  | c :: cs =>
    if isDigit c then
      match cs with
      | '_' :: d :: rest =>
        if isDigit d then do
          let (ds, rest) ← digitRun isDigit (d :: rest)
          return (c :: ds, rest)
        else none
      | ['_'] => none
      | d :: rest =>
        if isDigit d then do
          let (ds, rest) ← digitRun isDigit (d :: rest)
          return (c :: ds, rest)
        else some ([c], d :: rest)
      | [] => some ([c], [])
    else none

def isDecimalDigit (c : Char) : Bool := c.isDigit

/-- Decimal digits without a needless zero at the front. -/
def wholeDigits (cs : List Char) : Option (List Char × List Char) :=
  match cs with
  | '0' :: rest => some (['0'], rest)
  | cs => digitRun isDecimalDigit cs

def sign : List Char → Bool × List Char
  | '-' :: cs => (true, cs)
  | '+' :: cs => (false, cs)
  | cs => (false, cs)

def fraction : Reader (List Char)
  | '.' :: cs => do
    let (ds, cs) ← digitRun isDecimalDigit cs
    return ('.' :: ds, cs)
  | _ => none

def exponent : Reader (List Char)
  | c :: cs =>
    if c = 'e' ∨ c = 'E' then do
      let (negative, cs) := sign cs
      let (ds, cs) ← digitRun isDecimalDigit cs
      return ('e' :: (if negative then '-' :: ds else ds), cs)
    else none
  | [] => none

/-- What makes a decimal number a real one: a fraction, an exponent, or both. -/
def realTail (cs : List Char) : Option (List Char × List Char) :=
  match fraction cs with
  | some (f, cs) =>
    match exponent cs with
    | some (e, cs) => some (f ++ e, cs)
    | none => some (f, cs)
  | none => exponent cs

def meansReal : List Char → Bool
  | '.' :: _ | 'e' :: _ | 'E' :: _ => true
  | _ => false

def integerValue (n : Int) : Option Value := if fitsInt64 n then some (.integer n) else none

/-- A positive number too great for a double is refused. -/
def realValue (x : Float) : Option Value :=
  if Binary64.isFinite x || Binary64.negative x then some (.float x) else none

def decimalNumber (negative : Bool) (cs : List Char) : Option (Value × List Char) := do
  let (whole, rest) ← wholeDigits cs
  if meansReal rest then
    let (tail, rest) ← realTail rest
    let x ← Text.readUnsigned (whole ++ tail)
    return (← realValue (if negative then -x else x), rest)
  else
    let n : Int := Text.digitsNat whole
    return (← integerValue (if negative then -n else n), rest)

def isHexDigit (c : Char) : Bool := (hexValue c).isSome
def isOctalDigit (c : Char) : Bool := '0' ≤ c && c ≤ '7'
def isBinaryDigit (c : Char) : Bool := c == '0' || c == '1'

/-- An integer in another base, after the letter that names the base. -/
def basedInteger (base : Nat) (isDigit : Char → Bool) (cs : List Char) :
    Option (Value × List Char) := do
  let (ds, cs) ← digitRun isDigit cs
  let n := ds.foldl (fun n c => base * n + (hexValue c).getD 0) 0
  return (← integerValue n, cs)

def word (w : String) (cs : List Char) : Option (List Char) :=
  if w.toList.isPrefixOf cs then some (cs.drop w.length) else none

def namedReal (negative : Bool) (cs : List Char) : Option (Value × List Char) :=
  let signed (x : Float) := if negative then -x else x
  match word "inf" cs with
  | some cs => some (.float (signed (Binary64.powerOfTwo 1024)), cs)
  | none => (word "nan" cs).map fun cs =>
    (.float (signed (Float.ofBits 0x7ff8000000000000)), cs)

def number : Reader Value
  | '0' :: 'x' :: cs => basedInteger 16 isHexDigit cs
  | '0' :: 'o' :: cs => basedInteger 8 isOctalDigit cs
  | '0' :: 'b' :: cs => basedInteger 2 isBinaryDigit cs
  | cs =>
    let (negative, cs) := sign cs
    (namedReal negative cs).or (decimalNumber negative cs)

end Numbers

section Dates

def fixedDigits (count : Nat) (cs : List Char) : Option (Nat × List Char) :=
  let ds := cs.take count
  if ds.length = count ∧ ds.all isDecimalDigit then
    some (Text.digitsNat ds, cs.drop count)
  else none

def twoDigits (low high : Nat) (cs : List Char) : Option (Nat × List Char) := do
  let (n, cs) ← fixedDigits 2 cs
  if low ≤ n ∧ n ≤ high then return (n, cs) else none

def isLeapYear (y : Nat) : Bool := y % 4 == 0 && (y % 100 != 0 || y % 400 == 0)

def daysIn (year month : Nat) : Nat :=
  if month = 2 then if isLeapYear year then 29 else 28
  else if month = 4 ∨ month = 6 ∨ month = 9 ∨ month = 11 then 30
  else 31

def date (cs : List Char) : Option (List Char) := do
  let (year, cs) ← fixedDigits 4 cs
  let cs ← word "-" cs
  let (month, cs) ← twoDigits 1 12 cs
  let cs ← word "-" cs
  let (_, cs) ← twoDigits 1 (daysIn year month) cs
  return cs

/-- A time of day, to the second or finer. -/
def time (cs : List Char) : Option (List Char) := do
  let (_, cs) ← twoDigits 0 23 cs
  let cs ← word ":" cs
  let (_, cs) ← twoDigits 0 59 cs
  let cs ← word ":" cs
  let (_, cs) ← twoDigits 0 60 cs
  match cs with
  | '.' :: rest =>
    let digits := rest.takeWhile isDecimalDigit
    if digits.isEmpty then return cs else return rest.drop digits.length
  | cs => return cs

def offset (cs : List Char) : Option (List Char) :=
  match cs with
  | 'Z' :: cs | 'z' :: cs => some cs
  | c :: rest =>
    if c = '+' ∨ c = '-' then do
      let (_, cs) ← twoDigits 0 23 rest
      let cs ← word ":" cs
      let (_, cs) ← twoDigits 0 59 cs
      return cs
    else some cs
  | [] => some []

def datetime (cs : List Char) : Option (Value × List Char) :=
  match date cs with
  | some cs =>
    match cs with
    | c :: rest =>
      if c = 'T' ∨ c = 't' ∨ c = ' ' then
        match time rest with
        | some rest => (offset rest).map fun rest => (.datetime, rest)
        | none => some (.datetime, cs)
      else some (.datetime, cs)
    | [] => some (.datetime, [])
  | none => (time cs).map fun cs => (.datetime, cs)

end Dates

/-- A value that holds no other. -/
def scalar (cs : List Char) : Option (Value × List Char) :=
  match cs with
  | [] => none
  | c :: _ =>
    if (quoteMark c).isSome then (stringValue cs).map fun (s, cs) => (.string s, cs)
    else if c = 't' then (word "true" cs).map fun cs => (.boolean true, cs)
    else if c = 'f' then (word "false" cs).map fun cs => (.boolean false, cs)
    else (datetime cs).or (number cs)

end TimingStats.Toml

import TimingStats.Decimal.Shortest

/-! # JSON documents

A document is written over several lines with two blanks for each level. Fields keep their
order. Doubles are written in the fewest digits that read back, always with a point or an
exponent; those that are no finite number are null. -/

namespace TimingStats

inductive Json where
  | bool (b : Bool)
  | int (n : Int)
  | float (x : Float)
  | string (s : String)
  | object (fields : List (String × Json))

namespace Json

/-- The greatest power of ten, and the least, that are written without an exponent. -/
def positionalPoint (k : Int) : Bool := -5 < k && k ≤ 16

/-- A decimal with a point or an exponent. -/
def decimalText (d : Decimal) : String :=
  if positionalPoint d.point then
    if 0 ≤ d.exponent then d.positional ++ ".0" else d.positional
  else
    let power := d.point - 1
    let exponent := if power < 0 then "e-" ++ Decimal.digitText power.natAbs
      else "e+" ++ Decimal.digitText power.natAbs
    match Nat.toDigits 10 d.digits with
    | [] => exponent
    | [c] => String.ofList [c] ++ exponent
    | c :: cs => String.ofList (c :: '.' :: cs) ++ exponent

def floatText (x : Float) : String :=
  if !Binary64.isFinite x then "null"
  else
    let sign := if Binary64.negative x then "-" else ""
    if Binary64.magnitude x = 0 then sign ++ "0.0"
    else sign ++ decimalText (Decimal.shortest x .toEven)

def escapedChar (c : Char) : List Char :=
  if c = '"' then ['\\', '"']
  else if c = '\\' then ['\\', '\\']
  else if c = '\x08' then ['\\', 'b']
  else if c = '\x0c' then ['\\', 'f']
  else if c = '\n' then ['\\', 'n']
  else if c = '\r' then ['\\', 'r']
  else if c = '\t' then ['\\', 't']
  else if c.toNat < 0x20 then
    let digits := Nat.toDigits 16 c.toNat
    ['\\', 'u'] ++ List.replicate (4 - digits.length) '0' ++ digits
  else [c]

def stringText (s : String) : String :=
  String.ofList ('"' :: (s.toList.flatMap escapedChar ++ ['"']))

def indent (level : Nat) : String := "".pushn ' ' (2 * level)

mutual

/-- A document whose opening line stands at some level. -/
def render (level : Nat) : Json → String
  | .bool b => if b then "true" else "false"
  | .int n => Decimal.intText n
  | .float x => floatText x
  | .string s => stringText s
  | .object [] => "\x7b\x7d"
  | .object fields =>
    "\x7b\n" ++ String.intercalate ",\n" (fieldLines (level + 1) fields) ++ "\n" ++
      indent level ++ "\x7d"

/-- The fields of an object, each from the line that opens it on. -/
def fieldLines (level : Nat) : List (String × Json) → List String
  | [] => []
  | (key, value) :: fields =>
    (indent level ++ stringText key ++ ": " ++ render level value) :: fieldLines level fields

end

/-- A document from its first line on, without a line feed at the end. -/
def pretty (j : Json) : String := j.render 0

end Json
end TimingStats

import TimingStats.Toml.Lexeme

/-! # Reading a configuration text

A text is a list of statements, one a line: a key with its value, or a header. The values are
read with a bound on how deep arrays and braced tables stand in one another. -/

namespace TimingStats.Toml

/-- Passes over blanks, ends of lines, and comments, each with the end of its line. -/
def skipBlankLines : Nat → List Char → Option (List Char)
  | 0, cs => some cs
  | fuel + 1, cs =>
    let cs := skipSpaces cs
    match newline? cs, cs with
    | some cs, _ => skipBlankLines fuel cs
    | none, '#' :: _ => (newline? (skipComment cs)).bind (skipBlankLines fuel)
    | none, _ => some cs

/-- The values of an array and its closing bracket. A comma may follow the last. -/
def arrayItems (value : Reader Value) : Nat → Reader (List Value)
  | 0, _ => none
  | fuel + 1, cs => do
    let cs ← skipBlankLines cs.length cs
    match cs with
    | ']' :: cs => return ([], cs)
    | cs =>
      let (v, cs) ← value cs
      let cs ← skipBlankLines cs.length cs
      match cs with
      | ',' :: cs =>
        let (vs, cs) ← arrayItems value fuel cs
        return (v :: vs, cs)
      | ']' :: cs => return ([v], cs)
      | _ => none

def pair (value : Reader Value) (cs : List Char) :
    Option ((List String × String × Value) × List Char) := do
  let ((path, name), cs) ← key cs
  match cs with
  | '=' :: cs =>
    let (v, cs) ← value (skipSpaces cs)
    return ((path, name, v), skipSpaces cs)
  | _ => none

/-- The pairs of a braced table and its closing brace. They stand on one line, and no comma
follows the last. -/
def bracedPairs (value : Reader Value) : Nat → Reader (List (List String × String × Value))
  | 0, _ => none
  | fuel + 1, cs => do
    let (p, cs) ← pair value cs
    match cs with
    | ',' :: cs =>
      let (ps, cs) ← bracedPairs value fuel cs
      return (p :: ps, cs)
    | '\x7d' :: cs => return ([p], cs)
    | _ => none

def bracedTable (value : Reader Value) : Reader Value := fun cs => do
  match skipSpaces cs with
  | '\x7d' :: cs => return (.braced [], cs)
  | cs =>
    let (pairs, cs) ← bracedPairs value (cs.length + 1) cs
    return (.braced (← Fields.ofPairs pairs), cs)

/-- A value in which arrays and braced tables stand at most so deep. -/
def value : Nat → Reader Value
  | 0, cs => if cs.head? = some '[' ∨ cs.head? = some '\x7b' then none else scalar cs
  | depth + 1, cs =>
    match cs with
    | '[' :: cs => do
      let (items, cs) ← arrayItems (value depth) (cs.length + 1) cs
      return (.array items, cs)
    | '\x7b' :: cs => bracedTable (value depth) cs
    | cs => scalar cs

def header : Reader Statement
  | '[' :: '[' :: cs => do
    let ((path, name), cs) ← key cs
    return (.elementHeader path name, ← word "]]" cs)
  | '[' :: cs => do
    let ((path, name), cs) ← key cs
    return (.header path name, ← word "]" cs)
  | _ => none

def statement (cs : List Char) : Option (Statement × List Char) :=
  if cs.head? = some '[' then header cs
  else (pair (value maxDepth) cs).map fun ((path, name, v), cs) => (.pair path name v, cs)

/-- What may follow a statement on its line. -/
def endOfLine (cs : List Char) : Option (List Char) :=
  match skipComment (skipSpaces cs) with
  | [] => some []
  | cs => newline? cs

def statements : Nat → List Char → Option (List Statement)
  | 0, _ => none
  | fuel + 1, cs => do
    match skipSpaces cs with
    | [] => return []
    | '#' :: cs => statements fuel (← endOfLine ('#' :: cs))
    | cs =>
      match newline? cs with
      | some cs => statements fuel cs
      | none =>
        let (s, cs) ← statement cs
        let rest ← statements fuel (← endOfLine cs)
        return s :: rest

/-- The root table of a text. A mark of byte order before it does not count. -/
def parse (text : String) : Option Fields := do
  let cs := match text.toList with
    | '\ufeff' :: cs => cs
    | cs => cs
  Fields.ofStatements (← statements (cs.length + 1) cs)

end TimingStats.Toml

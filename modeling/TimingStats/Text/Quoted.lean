import TimingStats.Text.Escaped

/-! # Quoted text

Text in double quotes, in a form that shows every character. Quotes and backslashes take a
backslash; a few control characters have letters; what cannot be shown is named by its number
in hexadecimal. -/

namespace TimingStats.Text

def quotedChar (c : Char) : List Char :=
  if c = '\x00' then ['\\', '0']
  else if c = '\t' then ['\\', 't']
  else if c = '\r' then ['\\', 'r']
  else if c = '\n' then ['\\', 'n']
  else if c = '"' then ['\\', '"']
  else if c = '\\' then ['\\', '\\']
  else if isNumbered c then
    ['\\', 'u', '\x7b'] ++ Nat.toDigits 16 c.toNat ++ ['\x7d']
  else [c]

def quoted (cs : List Char) : String :=
  String.ofList ('"' :: (cs.flatMap quotedChar ++ ['"']))

end TimingStats.Text

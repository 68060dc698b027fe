import TimingStats.Decimal.Shortest
import TimingStats.Files.Path

/-! # Access to files

What a program needs of the files around it, whether they are those of the system or of a tree
in memory. -/

namespace TimingStats

inductive FileError where
  | notFound
  | notDirectory
  | isDirectory
  | nameTooLong
  /-- The content is not text. -/
  | invalidText
  /-- Another error of the system, with its number and text. -/
  | other (number : Nat) (text : String)
  deriving DecidableEq, Repr

namespace FileError

def systemMessage (text : String) (number : Nat) : String :=
  text ++ " (os error " ++ Decimal.digitText number ++ ")"

def message : FileError → String
  | notFound => systemMessage "No such file or directory" 2
  | notDirectory => systemMessage "Not a directory" 20
  | isDirectory => systemMessage "Is a directory" 21
  | nameTooLong => systemMessage "File name too long" 36
  | invalidText => "stream did not contain valid UTF-8"
  | other number text => systemMessage text number

end FileError

class FileSystem (m : Type → Type) where
  readBytes : Path → m (Except FileError ByteArray)
  /-- Whether there is a file or a directory. -/
  isThere : Path → m Bool
  /-- Makes a file, or replaces the content of the one that is there. -/
  writeBytes : Path → ByteArray → m (Except FileError Unit)

namespace FileSystem

def decode (bytes : ByteArray) : Except FileError String :=
  match String.fromUTF8? bytes with
  | some text => .ok text
  | none => .error .invalidText

def readText {m : Type → Type} [Functor m] [FileSystem m] (p : Path) :
    m (Except FileError String) :=
  (· >>= decode) <$> readBytes p

def writeText {m : Type → Type} [FileSystem m] (p : Path) (text : String) :
    m (Except FileError Unit) :=
  writeBytes p text.toUTF8

end FileSystem
end TimingStats

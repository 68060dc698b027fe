import TimingStats.Program

/-! # The executable

The program on the files, the arguments, and the terminal of the system. -/

namespace TimingStats

/-- The number and the text of a system error. -/
def FileError.ofSystem : IO.Error → FileError
  | .noFileOrDirectory _ _ _ => .notFound
  | .alreadyExists _ number text | .invalidArgument _ number text
  | .permissionDenied _ number text | .resourceExhausted _ number text
  | .inappropriateType _ number text | .noSuchThing _ number text
  | .interrupted _ number text | .otherError number text | .resourceBusy number text
  | .resourceVanished number text | .unsupportedOperation number text
  | .hardwareFault number text | .unsatisfiedConstraints number text
  | .illegalOperation number text | .protocolError number text | .timeExpired number text =>
    .other number.toNat text
  | .unexpectedEof => .other 0 "unexpected end of file"
  | .userError text => .other 0 text

def systemResult {α : Type} (call : IO α) : IO (Except FileError α) := do
  match ← call.toBaseIO with
  | .ok a => return .ok a
  | .error e => return .error (.ofSystem e)

instance : FileSystem IO where
  readBytes p := systemResult (IO.FS.readBinFile p.toString)
  isThere p := do return ← (← IO.FS.realPath p.toString).pathExists
  writeBytes p content := systemResult (IO.FS.writeBinFile p.toString content)

/-- A seed that differs from run to run. -/
def freshSeed : IO UInt64 := do
  return (← IO.getRandomBytes 8).foldl (fun n byte => n <<< 8 ||| byte.toUInt64) 0

end TimingStats

open TimingStats in
def main (arguments : List String) : IO UInt32 := do
  let directory := (Path.ofString (← IO.currentDir).toString).names
  let outcome ← Program.run directory (← freshSeed) arguments
  IO.print outcome.output
  IO.eprint outcome.diagnosis
  return UInt32.ofNat outcome.exitCode

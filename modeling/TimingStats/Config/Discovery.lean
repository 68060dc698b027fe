import TimingStats.Config
import TimingStats.Files.Access

/-! # Finding the configuration

The configuration at a path is the file in the directory there, or else the file in the nearest
directory above it that has one. What stands above is read off the path, name by name. A file that
cannot be read is as good as none, and hides those above. -/

namespace TimingStats.Config

variable {m : Type → Type} [Monad m] [FileSystem m]

def load (p : Path) : m (Option Config) := do
  return (← FileSystem.readText p).toOption.bind ofText

def pathIn (directory : Path) : Path := directory.child fileName

/-- Goes up from a path to the first directory that has the file, and loads it. -/
def discoverFrom (start : Path) : m (Option Config) := do
  if ← FileSystem.isThere (pathIn start) then load (pathIn start)
  else
    match _h : start.parent? with
    | some above => discoverFrom above
    | none => return none
termination_by start.names.length
decreasing_by exact (Path.prefix_of_parent? _h).2.2.2

/-- The configuration of the working directory, given as names from the root. -/
def discover (directory : List String) : m (Option Config) := discoverFrom (.ofRoot directory)

end TimingStats.Config

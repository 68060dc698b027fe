import TimingStats.Files.Access

/-! # A tree of files in memory

A tree holds directories and files under their names from the root. A path is followed name by
name: each name must stand in a directory, a point stays there, and two points go up. -/

namespace TimingStats

inductive Node where
  | directory
  | file (content : ByteArray)

/-- Directories and files, and the directory that relative paths start from. -/
structure FileTree where
  nodes : List (List String × Node) := []
  directory : List String := []

namespace FileTree

/-- What stands at a place. The root is always there. -/
def node? (t : FileTree) (place : List String) : Option Node :=
  if place.isEmpty then some .directory else t.nodes.lookup place

def put (t : FileTree) (place : List String) (n : Node) : FileTree :=
  { t with nodes := (place, n) :: t.nodes.filter (·.1 != place) }

/-- Adds a directory and those above it, where there are none. -/
def addDirectory (t : FileTree) (place : List String) : FileTree :=
  (Path.ancestors place).foldl
    (fun t d => if (t.node? d).isSome then t else t.put d .directory) t

def addFile (t : FileTree) (place : List String) (content : ByteArray) : FileTree :=
  (t.addDirectory place.dropLast).put place (.file content)

/-- A name is no longer than this, in bytes. -/
def maxNameSize : Nat := 255

/-- A path is shorter than this, in bytes. -/
def maxPathSize : Nat := 4096

def enter (t : FileTree) (place : List String) (name : String) :
    Except FileError (List String) :=
  match t.node? place with
  | none => .error .notFound
  | some (.file _) => .error .notDirectory
  | some .directory =>
    if name = "." then .ok place
    else if name = ".." then .ok place.dropLast
    else if maxNameSize < name.utf8ByteSize then .error .nameTooLong
    else .ok (place ++ [name])

def locate (t : FileTree) (p : Path) : Except FileError (List String) :=
  if maxPathSize ≤ p.toString.utf8ByteSize then .error .nameTooLong
  else p.names.foldlM t.enter (if p.absolute then [] else t.directory)

def read (t : FileTree) (p : Path) : Except FileError ByteArray := do
  match t.node? (← t.locate p) with
  | none => .error .notFound
  | some .directory => .error .isDirectory
  | some (.file content) => if p.slash then .error .notDirectory else .ok content

def contains (t : FileTree) (p : Path) : Bool :=
  match t.locate p with
  | .error _ => false
  | .ok place =>
    match t.node? place with
    | none => false
    | some .directory => true
    | some (.file _) => !p.slash

def write (t : FileTree) (p : Path) (content : ByteArray) : Except FileError FileTree := do
  let place ← t.locate p
  match t.node? place with
  | some .directory => .error .isDirectory
  | _ => if p.slash then .error .isDirectory else .ok (t.put place (.file content))

instance : FileSystem (StateM FileTree) where
  readBytes p := fun t => (t.read p, t)
  isThere p := fun t => (t.contains p, t)
  writeBytes p content := fun t =>
    match t.write p content with
    | .ok t' => (.ok (), t')
    | .error e => (.error e, t)

end FileTree
end TimingStats

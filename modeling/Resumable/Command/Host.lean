import Resumable.Text.Bytes

/-!
# `Command.Host`: what commands need from outside

Commands read and write files, and want to know whether they write to a terminal. `Disk` is a host whose
files are kept in memory.

**Contents**
* `FileFault`: why a file cannot be used.
* `Host`: the operations.
* `Disk`: files in memory.
-/

namespace Resumable.Command

/-- Why a file cannot be used. -/
inductive FileFault where
  | absent | isFolder | notFolder
  | other (text : String)
  deriving DecidableEq, Repr, Inhabited

namespace FileFault

def text : FileFault → String
  | .absent => "no such file or directory"
  | .isFolder => "is a directory"
  | .notFolder => "not a directory"
  | .other s => s

/-- What is said when an operation on a path fails. -/
def message (f : FileFault) (operation path : String) : String :=
  operation ++ " " ++ path ++ ": " ++ f.text

end FileFault

/-- What commands need from outside. -/
class Host (m : Type → Type) where
  /-- The folder that paths start from. -/
  folder : m String
  read : String → m (Except FileFault Bytes)
  /-- Writes a file, which is made if it is missing. -/
  write : String → Bytes → m (Except FileFault Unit)
  /-- Makes a folder and those above it. -/
  makeFolder : String → m (Except FileFault Unit)
  /-- The names of the files in a folder; none when there is no such folder. -/
  names : String → m (List String)
  remove : String → m Unit
  /-- The folder of what may be thrown away. -/
  cacheHome : m String
  /-- Whether the output goes to a terminal. -/
  terminal : m Bool

namespace Path

/-- A name in a folder. -/
def join (folder name : String) : String :=
  if folder.isEmpty then name else if folder.endsWith "/" then folder ++ name else folder ++ "/" ++ name

/-- The parts of a path without empty ones and single dots; two dots take away the part before them. -/
def parts (path : String) : List String :=
  (path.splitOn "/").foldl (fun out p =>
    if p.isEmpty || p == "." then out
    else if p == ".." then out.dropLast
    else out ++ [p]) []

/-- Whether a path starts at the top. -/
def isAbsolute (path : String) : Bool := path.startsWith "/"

/-- The folders from one up to the top, the innermost first. -/
def upward (folder : String) : List String :=
  let front := if isAbsolute folder then "/" else ""
  let ps := parts folder
  ((List.range (ps.length + 1)).map fun n => front ++ "/".intercalate (ps.take n)).reverse

end Path

/-- Files in memory, by the parts of their paths. -/
structure Disk where
  /-- The folder that paths start from. -/
  folder : String
  files : List (List String × Bytes) := []
  folders : List (List String) := []
  deriving Inhabited

namespace Disk

/-- The parts of the full path of a file. -/
def full (d : Disk) (path : String) : List String :=
  if Path.isAbsolute path then Path.parts path else Path.parts (Path.join d.folder path)

/-- Whether there is a folder with a path: one that was made or that something is in. -/
def hasFolder (d : Disk) (ps : List String) : Bool :=
  ps.isPrefixOf (Path.parts d.folder) || d.folders.any ps.isPrefixOf ||
    d.files.any fun (f, _) => ps.isPrefixOf f && ps.length < f.length

def hasFile (d : Disk) (ps : List String) : Bool := d.files.any (·.1 == ps)

/-- Whether one of the folders above a path is a file. -/
def passesFile (d : Disk) (ps : List String) : Bool :=
  (List.range ps.length).any fun n => d.hasFile (ps.take n)

def read (d : Disk) (path : String) : Except FileFault Bytes :=
  let ps := d.full path
  if path.isEmpty then .error .absent
  else match d.files.lookup ps with
    | some bs => .ok bs
    | none =>
      if d.passesFile ps then .error .notFolder
      else if d.hasFolder ps then .error .isFolder
      else .error .absent

def write (d : Disk) (path : String) (bs : Bytes) : Except FileFault Unit × Disk :=
  let ps := d.full path
  if path.isEmpty then (.error .absent, d)
  else if d.passesFile ps then (.error .notFolder, d)
  else if d.hasFile ps then
    (.ok (), { d with files := d.files.map fun (f, old) => (f, if f == ps then bs else old) })
  else if d.hasFolder ps then (.error .isFolder, d)
  else if !d.hasFolder ps.dropLast then (.error .absent, d)
  else (.ok (), { d with files := d.files ++ [(ps, bs)] })

def makeFolder (d : Disk) (path : String) : Except FileFault Unit × Disk :=
  let ps := d.full path
  if d.hasFile ps || d.passesFile ps then (.error .notFolder, d)
  else (.ok (), { d with folders := ps :: d.folders })

/-- The names of the files in a folder. -/
def names (d : Disk) (path : String) : List String :=
  let ps := d.full path
  d.files.filterMap fun (f, _) => if f.dropLast == ps then f.getLast? else none

def remove (d : Disk) (path : String) : Disk :=
  let ps := d.full path
  { d with files := d.files.filter (·.1 != ps) }

instance : Host (StateM Disk) where
  folder := return (← get).folder
  read path := return (← get).read path
  write path bs := modifyGet (·.write path bs)
  makeFolder path := modifyGet (·.makeFolder path)
  names path := return (← get).names path
  remove path := modify (·.remove path)
  cacheHome := pure "/cache"
  terminal := pure false

end Disk

end Resumable.Command

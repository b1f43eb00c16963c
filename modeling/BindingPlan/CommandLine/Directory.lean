/-!
# Directories of texts

What a run of the program sees of a file system: texts below the top directory, in which the run
takes place, some devices, and the reasons why a path cannot be read or written. A directory exists
if it is the top, if it is above the top, if a file or a device is below it, or if every system has
it. The top itself lies in `/tmp`, under a name that no path uses.

A path is walked name by name. Every step needs a directory to stand in, also the step that stays
there (`.` or nothing at all, as behind a final `/`) and the one that goes up (`..`).

Main definitions:

* `Directory.walk`: the place that a path leads to.
* `Directory.read`: the text at a path.
* `Directory.target`: the file or the device that a text for a path goes to.
-/

namespace BindingPlan

/-- Why a file cannot be read or written. -/
inductive FileError where
  | notFound
  /-- A file or a device stands where a directory is needed. -/
  | notDirectory
  | isDirectory
  | nameTooLong
  /-- A device holds no more. -/
  | noSpace
  /-- Any other reason, in the words of the system. -/
  | other (reason : String)
deriving DecidableEq, Repr

def FileError.message : FileError → String
  | .notFound => "No such file or directory (os error 2)"
  | .notDirectory => "Not a directory (os error 20)"
  | .isDirectory => "Is a directory (os error 21)"
  | .nameTooLong => "File name too long (os error 36)"
  | .noSpace => "No space left on device (os error 28)"
  | .other reason => reason

/-- Greatest length of a name in bytes. -/
def longestName : Nat := 255

/-- Greatest length of a path in bytes. -/
def longestPath : Nat := 4095

/-- The names along a path; some of them may be empty. -/
def pathNames (path : String) : List String :=
  path.splitOn "/"

/-! ## Places -/

/-- Where a path starts, or gets by going up. -/
inductive Base where
  /-- The directory of the run. -/
  | top
  /-- The uppermost directory, where paths with a leading `/` start. -/
  | root
deriving DecidableEq, Repr

/-- A place in the file system: names below a base, the last one first. -/
structure Place where
  base : Base
  names : List String
deriving DecidableEq, Repr

namespace Place

def top : Place := ⟨.top, []⟩

def root : Place := ⟨.root, []⟩

def enter (place : Place) (name : String) : Place :=
  ⟨place.base, name :: place.names⟩

/-- The directory above: `/tmp` for the top, and the uppermost directory for itself. -/
def up (place : Place) : Place :=
  match place.names, place.base with
  | _ :: names, base => ⟨base, names⟩
  | [], .top => root.enter "tmp"
  | [], .root => root

/-- Where the walk along a path starts: nothing stands before a leading `/`. -/
def start (path : String) : Place :=
  if path.startsWith "/" then root else top

/-- Something strictly inside a directory. -/
def isBelow (place directory : Place) : Bool :=
  place.base == directory.base && directory.names.isSuffixOf place.names
    && place.names != directory.names

end Place

/-! ## Devices -/

/-- What takes texts without being a file. Nothing can be read from it. -/
inductive Device where
  /-- Takes any text and keeps none. -/
  | null
  /-- Has no space for any text. -/
  | full
  /-- The standard output of the run. -/
  | output
  /-- The standard error output of the run. -/
  | errors
deriving DecidableEq, Repr

/-- The devices by their names in the directory `/dev`. -/
def deviceNames : List (String × Device) :=
  [ ("null", .null), ("zero", .null), ("full", .full),
    ("stdin", .null), ("stdout", .output), ("stderr", .errors) ]

/-- All devices by their places. The outputs have numbers as well as names. -/
def devices : List (Place × Device) :=
  let dev := Place.root.enter "dev"
  let numbered := dev.enter "fd"
  deviceNames.map (fun (name, device) => (dev.enter name, device)) ++
    [ (numbered.enter "0", .null), (numbered.enter "1", .output),
      (numbered.enter "2", .errors) ]

/-- The names in the uppermost directory that stand for a directory on every system. -/
def commonDirectories : List String :=
  ["dev", "etc", "home", "opt", "root", "tmp", "usr", "var"]

/-- What is at a place. -/
inductive Entry where
  | nothing
  | directory
  | device (device : Device)
  | file (text : String)
deriving DecidableEq, Repr

/-- What a text can be written to. -/
inductive Target where
  /-- A file that holds this text and no other from then on. -/
  | file (place : Place)
  | device (device : Device)
deriving DecidableEq, Repr

/-- Files by their places, latest first: an earlier one hides the later ones of its place. -/
structure Directory where
  files : List (Place × String)
deriving DecidableEq, Repr

namespace Directory

def add (directory : Directory) (place : Place) (text : String) : Directory :=
  ⟨(place, text) :: directory.files⟩

/-- A directory with some files by their paths below the top. -/
def ofFiles (files : List (String × String)) : Directory :=
  ⟨(files.map fun (path, text) => (⟨.top, (pathNames path).reverse⟩, text)).reverse⟩

/-- A directory is at a place. -/
def isDirectory (directory : Directory) (place : Place) : Bool :=
  place.names.isEmpty || commonDirectories.any (place == Place.root.enter ·)
    || devices.any (·.1.isBelow place) || directory.files.any (·.1.isBelow place)

def entry (directory : Directory) (place : Place) : Entry :=
  match devices.lookup place, directory.files.lookup place with
  | some device, _ => .device device
  | none, some text => .file text
  | none, none => if directory.isDirectory place then .directory else .nothing

/-- A directory must be at a place. -/
def requireDirectory (directory : Directory) (place : Place) : Except FileError Unit :=
  match directory.entry place with
  | .directory => .ok ()
  | .device _ | .file _ => .error .notDirectory
  | .nothing => .error .notFound

/-- One step of a walk. -/
def step (directory : Directory) (place : Place) (name : String) : Except FileError Place := do
  directory.requireDirectory place
  if name = "" ∨ name = "." then return place
  else if name = ".." then return place.up
  else if longestName < name.utf8ByteSize then throw .nameTooLong
  else return place.enter name

/-- The place that some names lead to. -/
def walk (directory : Directory) (place : Place) (names : List String) : Except FileError Place :=
  names.foldlM directory.step place

/-- An empty path leads nowhere, and a path may be too long as a whole. -/
def checkPath (path : String) : Except FileError Unit :=
  if path = "" then .error .notFound
  else if longestPath < path.utf8ByteSize then .error .nameTooLong
  else .ok ()

/-! ## Reading and writing -/

def read (directory : Directory) (path : String) : Except FileError String := do
  checkPath path
  let place ← directory.walk (.start path) (pathNames path)
  match directory.entry place with
  | .file text => return text
  | .device _ => return ""
  | .directory => throw .isDirectory
  | .nothing => throw .notFound

/-- What a text for a path is written to. The directory of it must exist, and the path must end in
a name of its own. -/
def target (directory : Directory) (path : String) : Except FileError Target := do
  checkPath path
  match (pathNames path).reverse.dropWhile (· = "") with
  | [] => throw .isDirectory
  | last :: parents => do
    let parent ← directory.walk (.start path) parents.reverse
    directory.requireDirectory parent
    if last = "." ∨ last = ".." ∨ path.endsWith "/" then throw .isDirectory
    let place ← directory.step parent last
    match directory.entry place with
    | .directory => throw .isDirectory
    | .device device => return .device device
    | .file _ | .nothing => return .file place

end Directory
end BindingPlan

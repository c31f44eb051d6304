/-!
The files of a host, as far as cgroups need them: which directories and plain files there are, where
a path leads, and how directories and files come to be. A path leads somewhere only if each of its
steps is taken from a directory, so `file/` and `file/..` lead nowhere.
-/

namespace LoadableSched

abbrev Place := List String

inductive PathStep where
  | stay
  | up
  | down (name : String)
deriving DecidableEq, Repr

def PathStep.ofComponent (component : String) : PathStep :=
  if component = "" || component = "." then .stay
  else if component = ".." then .up
  else .down component

structure Path where
  text : String
deriving DecidableEq, Repr

namespace Path

def isAbsolute (p : Path) : Bool := p.text.startsWith "/"

def steps (p : Path) : List PathStep := (p.text.splitOn "/").map PathStep.ofComponent

def child (p : Path) (name : String) : Path :=
  if p.text = "" || p.text.endsWith "/" then ⟨p.text ++ name⟩ else ⟨p.text ++ "/" ++ name⟩

end Path

/-- The directories and plain files that exist; the root always does. -/
structure FileTree where
  /-- The directory where a path that is not absolute starts. -/
  start : Place
  directories : List Place
  files : List Place
deriving DecidableEq, Repr

namespace FileTree

def standard : FileTree where
  start := ["tmp", ".cgroups.0"]
  directories :=
    [["bin"], ["dev"], ["etc"], ["home"], ["lib"], ["media"], ["mnt"], ["opt"], ["proc"], ["root"],
      ["run"], ["sbin"], ["srv"], ["sys"], ["sys", "fs"], ["sys", "fs", "cgroup"], ["tmp"],
      ["tmp", ".cgroups.0"], ["usr"], ["var"]]
  files := [["dev", "null"], ["etc", "passwd"]]

def isDirectory (t : FileTree) (place : Place) : Bool :=
  place.isEmpty || t.directories.contains place

def isFile (t : FileTree) (place : Place) : Bool := t.files.contains place

def maxPathSize : Nat := 4095

def maxNameSize : Nat := 255

def pathSize (t : FileTree) (p : Path) : Nat :=
  let start := t.start.foldl (fun n name => n + name.utf8ByteSize + 1) 1
  let before := if p.isAbsolute then 0 else start
  before + p.text.utf8ByteSize

def admits (t : FileTree) (p : Path) : Bool :=
  !p.text.contains '\x00' && t.pathSize p ≤ maxPathSize

def origin (t : FileTree) (p : Path) : Place := if p.isAbsolute then [] else t.start

/-- Where some steps lead: each of them is taken from a directory, and the last one to something that
exists. -/
def walk? (t : FileTree) (place : Place) : List PathStep → Option Place
  | [] => if t.isDirectory place || t.isFile place then some place else none
  | step :: rest =>
    if !t.isDirectory place then none
    else
      match step with
      | .stay => t.walk? place rest
      | .up => t.walk? place.dropLast rest
      | .down name => t.walk? (place ++ [name]) rest

def resolve? (t : FileTree) (p : Path) : Option Place :=
  if t.admits p then t.walk? (t.origin p) p.steps else none

/-- The directory of a name directly under the one that a path leads to. It is found only if the path
with the name after it can be followed as well. -/
def child? (t : FileTree) (p : Path) (name : String) : Option Place :=
  match t.resolve? p with
  | none => none
  | some place =>
    let child := place ++ [name]
    if t.isDirectory place && t.isDirectory child && t.admits (p.child name) then some child else none

def createAlong (t : FileTree) (place : Place) : List PathStep → FileTree
  | [] => t
  | .stay :: rest => t.createAlong place rest
  | .up :: rest => t.createAlong place.dropLast rest
  | .down name :: rest =>
    let child := place ++ [name]
    if t.isDirectory child then t.createAlong child rest
    else if t.isFile child || name.utf8ByteSize > maxNameSize then t
    else { t with directories := t.directories ++ [child] }.createAlong child rest

def createDirectory (t : FileTree) (p : Path) : FileTree :=
  if t.admits p then t.createAlong (t.origin p) p.steps else t

def newPlace? (t : FileTree) (place : Place) (steps : List PathStep) : Option Place :=
  match steps.getLast?, t.walk? place steps.dropLast with
  | some (.down name), some above =>
    if t.isDirectory above && name.utf8ByteSize ≤ maxNameSize then some (above ++ [name]) else none
  | _, _ => none

def createFile (t : FileTree) (p : Path) : FileTree :=
  if t.admits p then
    match t.newPlace? (t.origin p) p.steps with
    | none => t
    | some place =>
      if t.isDirectory place || t.isFile place then t else { t with files := t.files ++ [place] }
  else t

end FileTree

end LoadableSched

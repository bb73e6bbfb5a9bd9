import PhraseStructure.Input.Error

/-! Trees of files and the paths into them.  A place is given by the names that lead to it from the
root, and every place on the way to another one is a directory.  A path is followed step by step,
from the root if it begins with a slash and from the tree's own directory otherwise.  Each step
needs a directory to start from, also the empty one after a slash at the end: so a path through a
file leads nowhere, even if a step back follows, and a missing name is noticed before anything
after it.  A link is replaced by the path that it stands for, so that a step back after a link leads
out of the directory behind it. -/

namespace PhraseStructure

/-- The names that lead to a place from the root. -/
abbrev Place := List String

/-- What can be found.  Nothing is kept for a stream: reading it takes what was typed.  A terminal
cannot be read, because a run does not have one. -/
inductive Content where
  | directory
  | file (bytes : List UInt8)
  | stream
  | terminal
deriving DecidableEq

/-- What is at a place: something that can be found there, or a link to somewhere else. -/
inductive Entry where
  | content (content : Content)
  | link (target : String)
deriving DecidableEq

/-- What is at which place, the directory at which relative paths begin, and the directories below
which there is no limit to the length of a name. -/
structure FileTree where
  entries : List (Place × Entry)
  here : Place
  unlimited : List Place
deriving DecidableEq

namespace FileTree

/-- The greatest number of bytes in a name, where there is a limit. -/
def longestName : Nat := 255

/-- The greatest number of bytes in a path. -/
def longestPath : Nat := 4095

/-- The greatest number of links on the way to a place. -/
def mostLinks : Nat := 40

/-- The steps of a path: what stands between its slashes. -/
def steps (path : String) : List String := (path.toList.splitOn '/').map String.ofList

/-- The place at which a path begins that is given at `place`. -/
def base (path : String) (place : Place) : Place := if path.startsWith "/" then [] else place

/-- What is at a place, if anything is. -/
def entryAt? (t : FileTree) (place : Place) : Option Entry :=
  match t.entries.lookup place with
  | some entry => some entry
  | none =>
    if place <+: t.here ∨ ∃ entry ∈ t.entries, place <+: entry.1 then
      some (.content .directory)
    else
      none

/-- Whether there is a directory at a place. -/
def isDirectory (t : FileTree) (place : Place) : Bool :=
  t.entryAt? place == some (.content .directory)

/-- Whether a name is refused in a directory for its length. -/
def refuses (t : FileTree) (place : Place) (name : String) : Bool :=
  longestName < name.utf8ByteSize && !t.unlimited.any fun top => top.isPrefixOf place

/-- The place to which steps lead.  `follow` says where a link leads: it is given the place at which
the link's path begins, and the steps of that path and those after the link. -/
def walkWith (t : FileTree) (follow : Place → List String → Except ReadError Place)
    (place : Place) : List String → Except ReadError Place
  | [] => .ok place
  | step :: rest =>
    if !t.isDirectory place then .error .notDirectory
    else if step = "" ∨ step = "." then t.walkWith follow place rest
    else if step = ".." then t.walkWith follow place.dropLast rest
    else if t.refuses place step then .error .nameTooLong
    else
      match t.entryAt? (place ++ [step]) with
      | none => .error .notFound
      | some (.content _) => t.walkWith follow (place ++ [step]) rest
      | some (.link target) => follow (base target place) (steps target ++ rest)

/-- The place to which steps lead, with no more than the given number of links on the way. -/
def walk (t : FileTree) : Nat → Place → List String → Except ReadError Place
  | 0 => t.walkWith fun _ _ => .error .tooManyLinks
  | links + 1 => t.walkWith (t.walk links)

/-- The place to which a path leads. -/
def locate (t : FileTree) (path : String) : Except ReadError Place :=
  if path = "" then .error .notFound
  else if longestPath < path.utf8ByteSize then .error .nameTooLong
  else t.walk mostLinks (base path t.here) (steps path)

/-- What is at the end of a path. -/
def find (t : FileTree) (path : String) : Except ReadError Content :=
  match t.locate path with
  | .error cause => .error cause
  | .ok place =>
    match t.entryAt? place with
    | some (.content content) => .ok content
    | _ => .error .notFound

/-- The directory of a run. -/
def workplace : Place := ["tmp", "work"]

/-- The place of what is known about a run while it lasts. -/
def process : Place := ["proc", "4711"]

/-- Directories that can be counted on. -/
def systemDirectories : List Place :=
  [["boot"], ["dev", "pts"], ["dev", "shm"], ["etc"], ["home"], ["media"], ["mnt"], ["opt"],
    ["root"], ["run", "lock"], ["srv"], ["sys"], ["tmp"], ["usr", "bin"], ["usr", "include"],
    ["usr", "lib"], ["usr", "lib64"], ["usr", "local"], ["usr", "sbin"], ["usr", "share"],
    ["usr", "src"], ["var", "cache"], ["var", "lib"], ["var", "log"], ["var", "tmp"],
    process ++ ["task"]]

/-- Links that can be counted on. -/
def systemLinks : List (Place × String) :=
  [(["bin"], "usr/bin"), (["lib"], "usr/lib"), (["lib64"], "usr/lib64"), (["sbin"], "usr/sbin"),
    (["var", "lock"], "/run/lock"), (["var", "run"], "/run"), (["dev", "fd"], "/proc/self/fd"),
    (["dev", "stdin"], "/proc/self/fd/0"), (["proc", "self"], "4711"),
    (process ++ ["fd", "0"], "pipe:[0]"), (process ++ ["cwd"], "/tmp/work"),
    (process ++ ["root"], "/")]

/-- What can be counted on beside directories and links: the file that is always empty, the
terminal, what was typed, and the running program, of which nothing matters but that it is no
text. -/
def systemContents : List (Place × Content) :=
  [(["dev", "null"], .file []), (["dev", "tty"], .terminal),
    (process ++ ["fd", "pipe:[0]"], .stream), (process ++ ["exe"], .file [0xFF])]

/-- What can be counted on. -/
def system : List (Place × Entry) :=
  (systemDirectories.map fun place => (place, .content .directory)) ++
    (systemLinks.map fun (place, target) => (place, .link target)) ++
    systemContents.map fun (place, content) => (place, .content content)

/-- The tree in which a run finds the given files, each under its path from the directory of the
run. -/
def ofFiles (files : List (String × Content)) : FileTree where
  entries := files.map (fun (path, content) =>
    (workplace ++ (steps path).filter fun step => step != "" && step != ".", .content content)) ++
      system
  here := workplace
  unlimited := [["proc"], ["sys"]]

end FileTree

end PhraseStructure

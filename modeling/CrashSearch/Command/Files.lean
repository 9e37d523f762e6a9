/-!
# Files in memory

A tree of files, as commands see it from the directory they work in. It has the devices that every
such tree has, and the usual limits on names and paths.

## Main definitions

* `Files`: the files by the names on the way to them, and the working directory.
* `Files.place?`: where a path leads.
* `Files.read?`, `Files.write?`: reading and writing a file.
-/

namespace CrashSearch

/-- The names on the way from the root of the tree. -/
abbrev Place := List String

/-- Files with their contents, and the working directory. -/
structure Files where
  entries : List (Place × String)
  /-- Where paths begin that do not begin at the root. -/
  home : Place

namespace Files

/-- The parts of a path between its slashes. -/
def parts (path : String) : List String :=
  (path.toList.splitOnP (· = '/')).map String.ofList

/-- The working directory of a tree of its own: one in the directory for temporary files. -/
def usualHome : Place := ["tmp", "work"]

/-- The directory of the devices. -/
def devices : Place := ["dev"]

/-- A working directory with some files in it, given by paths without a slash in front. -/
def ofList (files : List (String × String)) : Files where
  entries := files.map fun (path, content) =>
    (usualHome ++ (parts path).filter fun part => part ≠ "" ∧ part ≠ ".", content)
  home := usualHome

/-- The directories are those that files, devices and the working directory lie in. -/
def isDirectory (files : Files) (place : Place) : Bool :=
  place.isPrefixOf files.home ∨ place.isPrefixOf devices ∨
    files.entries.any fun f => place.isPrefixOf f.1 ∧ place ≠ f.1

/-- How many bytes a name may have. -/
def nameLimit : Nat := 255

/-- How many bytes a path may have. -/
def pathLimit : Nat := 4095

/-- Walks a path from a place. Only directories are walked through; above the root is the root. -/
def walk (files : Files) (place : Place) : List String → Option Place
  | [] => some place
  | part :: rest =>
    if !files.isDirectory place ∨ nameLimit < part.utf8ByteSize then none
    else if part = "" ∨ part = "." then files.walk place rest
    else if part = ".." then files.walk place.dropLast rest
    else files.walk (place ++ [part]) rest

/-- The place that a path leads to. A path with a slash in front begins at the root. -/
def place? (files : Files) (path : String) : Option Place :=
  if pathLimit < path.utf8ByteSize then none
  else files.walk (if path.toList.head? = some '/' then [] else files.home) (parts path)

/-- What can be read from a device. -/
def deviceInput? (name : String) : Option String :=
  if name ∈ ["null", "stdin"] then some "" else none

/-- What appears on the output when a text is written to a device. -/
def deviceOutput? (name content : String) : Option String :=
  if name = "stdout" then some content
  else if name ∈ ["null", "zero", "random", "urandom", "stdin", "stderr"] then some ""
  else none

/-- The content of a file. -/
def read? (files : Files) (path : String) : Option String := do
  match ← files.place? path with
  | ["dev", name] => deviceInput? name
  | place => files.entries.lookup place

/-- Files can be made in the working directory, in the directories below it, and in the one around
it. -/
def isWritable (files : Files) (directory : Place) : Bool :=
  files.isDirectory directory ∧
    (files.home.isPrefixOf directory ∨ directory = files.home.dropLast)

/-- Writes a text to a file. The answer holds the files afterwards, and what of the text appears on
the output. -/
def write? (files : Files) (path content : String) : Option (Files × String) := do
  match ← files.place? path with
  | ["dev", name] => (deviceOutput? name content).map (files, ·)
  | place =>
    if files.isDirectory place ∨ !files.isWritable place.dropLast then none
    else some ({ files with entries := (place, content) :: files.entries.filter (·.1 ≠ place) }, "")

end Files

end CrashSearch

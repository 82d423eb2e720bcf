/-
# Working directories

The program reads and writes files through `Files`.  A `Directory` is a set of files with their
contents.  A path is followed piece by piece, and only a folder can be left for the next piece: an
empty piece or `.` stays there, `..` goes back.  Paths that lead out of the directory reach nothing,
except that the null device is there for all: it is empty and keeps nothing of what is written.
-/

namespace GuildRating
namespace Command

/-- What can be done with paths. -/
structure Files where
  /-- The contents of a file, if it can be read and they are text in UTF-8.  A file that breaks off
  being UTF-8 further on has no contents here, not even its first lines. -/
  read : String → Option String
  /-- A file can be written there. -/
  canWrite : String → Bool

/-- Files by their names. -/
abbrev Directory := List (String × String)

namespace Directory

/-- The pieces of a name that lead somewhere. -/
def parts (name : String) : List String :=
  (name.splitOn "/").filter fun piece => piece ≠ "" && piece ≠ "."

/-- The contents of the file at a place. -/
def file? (directory : Directory) (place : List String) : Option String :=
  (directory.find? fun file => parts file.1 = place).map (·.2)

/-- The place is the directory itself, or some file lies below it. -/
def isFolder (directory : Directory) (place : List String) : Bool :=
  place.isEmpty || directory.any fun file =>
    place.length < (parts file.1).length && (parts file.1).take place.length = place

/-- Follows one more piece of a path. -/
def follow? (directory : Directory) (place : List String) (piece : String) :
    Option (List String) :=
  if !directory.isFolder place then none
  else if piece = "" || piece = "." then some place
  else if piece ≠ ".." then some (place ++ [piece])
  else if place.isEmpty then none
  else some place.dropLast

/-- The place that a path leads to, whether or not something is there. -/
def locate? (directory : Directory) (path : String) : Option (List String) :=
  if path.startsWith "/" then none else (path.splitOn "/").foldlM directory.follow? []

/-- The path of the null device. -/
def nullDevice : String := "/dev/null"

/-- What the program can read and write in a directory: its files, any place that is no folder, and
the null device. -/
def files (directory : Directory) : Files where
  read := fun path =>
    if path = nullDevice then some "" else (directory.locate? path).bind directory.file?
  canWrite := fun path =>
    path = nullDevice || (directory.locate? path).any fun place => !directory.isFolder place

end Directory
end Command
end GuildRating

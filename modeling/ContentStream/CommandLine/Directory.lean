/-!
# Files at hand

A directory that holds files and no other directories, and the paths that lead to them. A path is a
row of names with slashes between them; empty names and `.` stay where they are, and `..` leaves the
directory.
-/

namespace ContentStream

/-- Why a path cannot be used as a file. -/
inductive PathError where
  | absent
  | noDevice
  | notDirectory
  | isDirectory

def PathError.message : PathError → String
  | absent => "No such file or directory (os error 2)"
  | noDevice => "No such device (os error 19)"
  | notDirectory => "Not a directory (os error 20)"
  | isDirectory => "Is a directory (os error 21)"

/-- Where a path leads. -/
inductive Place where
  /-- To an entry of the directory at hand. -/
  | entry (name : String)
  /-- To something inside an entry. It is `bare` if only slashes follow the name. -/
  | inside (name : String) (bare : Bool)
  /-- To the directory itself, or to one that holds it. -/
  | directory
  | elsewhere

namespace Place

/-- Follows a path from the directory at hand. -/
def ofPath (path : String) : Place :=
  let names := path.splitOn "/"
  if path.isEmpty then elsewhere
  else if names.all fun name => name.isEmpty || name == "." || name == ".." then directory
  else if path.startsWith "/" then elsewhere
  else
    match names.dropWhile fun name => name.isEmpty || name == "." with
    | [] => directory
    | name :: rest =>
      if name = ".." then elsewhere
      else if rest.isEmpty then entry name
      else inside name (rest.all String.isEmpty)

end Place

/-- The files at hand by their names, and where paths lead from here. -/
structure Directory where
  files : List (String × List UInt8)
  place : String → Place := Place.ofPath

namespace Directory

def has (dir : Directory) (name : String) : Bool := dir.files.any fun file => file.1 == name

/-- Whether a path leads to anything. -/
def leads (dir : Directory) (path : String) : Bool :=
  match dir.place path with
  | .entry name => dir.has name
  | .directory => true
  | .inside .. | .elsewhere => false

def read (dir : Directory) (path : String) : Except PathError (List UInt8) :=
  match dir.place path with
  | .entry name =>
    match dir.files.lookup name with
    | some data => .ok data
    | none => .error .absent
  | .inside name _ => .error (if dir.has name then .notDirectory else .absent)
  | .directory => .error .noDevice
  | .elsewhere => .error .absent

/-- Makes a file, in place of one of the same name. -/
def create (dir : Directory) (path : String) (data : List UInt8) : Except PathError Directory :=
  match dir.place path with
  | .entry name =>
    .ok { dir with files := (name, data) :: dir.files.filter fun file => file.1 != name }
  | .inside name bare =>
    .error (if bare then .isDirectory else if dir.has name then .notDirectory else .absent)
  | .directory => .error .isDirectory
  | .elsewhere => .error .absent

end Directory

end ContentStream

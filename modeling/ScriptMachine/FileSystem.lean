import ScriptMachine.Path

/-!
# Files

The machine reads scripts from a tree of files and directories that its host provides.  A
path is walked segment by segment from the working directory or the root, and every way
in which reading can fail has its own error.

Main results:

- {lit}`FileSystem.read`: the text of a file, or why it cannot be read.
-/

namespace ScriptMachine

/-! ## Errors -/

/-- Why a file cannot be read. -/
inductive ReadError where
  | notFound
  | isDirectory
  | notDirectory
  | nameTooLong
  | invalidText
  | nulByte
deriving Repr, DecidableEq

/-- The text of a read error. -/
def ReadError.message : ReadError → String
  | .notFound => "No such file or directory (os error 2)"
  | .isDirectory => "Is a directory (os error 21)"
  | .notDirectory => "Not a directory (os error 20)"
  | .nameTooLong => "File name too long (os error 36)"
  | .invalidText => "stream did not contain valid UTF-8"
  | .nulByte => "file name contained an unexpected NUL byte"

/-! ## Trees of files -/

/-- The names from the root to a file or directory. -/
abbrev Location : Type := List (List Char)

/-- A file with its bytes, or a directory. -/
inductive FileEntry where
  | file (content : ByteArray)
  | directory

/-- The files and directories below the root, and the working directory.  The root itself
and the working directory always exist. -/
structure FileSystem where
  workingDirectory : Location
  entries : List (Location × FileEntry)

namespace FileSystem

/-- No files besides an empty working directory. -/
def empty : FileSystem := ⟨["work".toList], []⟩

/-- The entry at a location. -/
def entry? (files : FileSystem) (location : Location) : Option FileEntry :=
  if location.isPrefixOf files.workingDirectory then some .directory
  else (files.entries.find? fun (other, _) => other == location).map Prod.snd

/-- The greatest byte size of a file name. -/
def maxNameSize : Nat := 255

/-- The greatest byte size of a path. -/
def maxPathSize : Nat := 4095

/-- Walks the remaining segments of a path from a location. -/
def walk (files : FileSystem) (location : Location) :
    List (List Char) → Except ReadError (Location × FileEntry)
  | [] =>
    match files.entry? location with
    | some entry => .ok (location, entry)
    | none => .error .notFound
  | segment :: rest =>
    match files.entry? location with
    | none => .error .notFound
    | some (.file _) => .error .notDirectory
    | some .directory =>
      if segment.isEmpty || segment == ['.'] then walk files location rest
      else if segment == ['.', '.'] then walk files location.dropLast rest
      else if maxNameSize < Text.byteSize segment then .error .nameTooLong
      else walk files (location ++ [segment]) rest

/-- The entry that a path leads to. -/
def find (files : FileSystem) (path : List Char) : Except ReadError (Location × FileEntry) :=
  if path.contains '\x00' then .error .nulByte
  else if path.isEmpty then .error .notFound
  else if maxPathSize < Text.byteSize path then .error .nameTooLong
  else files.walk (if Path.isAbsolute path then [] else files.workingDirectory) (Path.segments path)

/-- Whether a path leads anywhere. -/
def pathExists (files : FileSystem) (path : List Char) : Bool :=
  (files.find path).isOk

/-- The text of a file. -/
def read (files : FileSystem) (path : List Char) : Except ReadError String :=
  match files.find path with
  | .error e => .error e
  | .ok (_, .directory) => .error .isDirectory
  | .ok (_, .file content) =>
    match String.fromUTF8? content with
    | some text => .ok text
    | none => .error .invalidText

/-! ## Changes by the host -/

/-- The location that a path names, whether anything is there or not. -/
def locate (files : FileSystem) (path : List Char) : Location :=
  let start := if Path.isAbsolute path then [] else files.workingDirectory
  (Path.segments path).foldl
    (fun location segment =>
      if segment.isEmpty || segment == ['.'] then location
      else if segment == ['.', '.'] then location.dropLast
      else location ++ [segment])
    start

/-- Puts an entry at a location. -/
def putAt (files : FileSystem) (location : Location) (entry : FileEntry) : FileSystem :=
  { files with
    entries := (location, entry) :: files.entries.filter fun (other, _) => other != location }

/-- Puts an entry at a path and makes the directories above it. -/
def put (files : FileSystem) (path : List Char) (entry : FileEntry) : FileSystem :=
  let location := files.locate path
  let parents := (List.range location.length).map location.take
  let withParents := parents.foldl
    (fun files parent => if (files.entry? parent).isSome then files else files.putAt parent .directory)
    files
  withParents.putAt location entry

/-- Deletes the file at a path; nothing else can be deleted. -/
def delete? (files : FileSystem) (path : List Char) : Option FileSystem :=
  match files.find path with
  | .ok (location, .file _) =>
    some { files with entries := files.entries.filter fun (other, _) => other != location }
  | _ => none

end FileSystem
end ScriptMachine

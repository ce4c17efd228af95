/-
  ShaderLoom.Log.Files — a tree of text files.

  A path is the row of names from the working directory down; the working directory is the empty
  path. What a text means as a path depends on the tree: its names are followed one by one
  (`follow`), an empty name or a dot stays where it is, two dots go up, and any other name must
  lead to a folder. The last name is that of the file.
  - `extend` appends to a file in a folder that is there.
  - `append` makes the folders of a path first, and fails when a file is where one of them
    should be. When it fails no file has changed, though folders may have been made.
-/

import ShaderLoom.Fault
import ShaderLoom.Text.Blank
import ShaderLoom.Text.Lines

namespace ShaderLoom

/-- The names from the working directory down. -/
abbrev Path := List String

structure Files where
  contents : List (Path × String) := []
  folders : List Path := []
  deriving DecidableEq

namespace Path

/-- The names between the slashes of a text. -/
def names (s : String) : List String := (Text.pieces '/' s.toList).map String.ofList

def text (p : Path) : String := "/".intercalate p

/-- A text without the slashes at its end. -/
def withoutSlashes (s : String) : String := String.ofList (Text.trimEnd (· == '/') s.toList)

/-- A name has at most 255 bytes. -/
def isTooLong (name : String) : Bool := 255 < name.utf8ByteSize

/-- Names that lead nowhere new. -/
def staysPut (name : String) : Bool := name == "" || name == "."

end Path

namespace Files

def empty : Files := {}

def read? (p : Path) (files : Files) : Option String :=
  (files.contents.find? (·.1 == p)).map (·.2)

def isFile (p : Path) (files : Files) : Bool := (files.read? p).isSome

def isFolder (p : Path) (files : Files) : Bool := p == [] || files.folders.contains p

/-- The folder that names lead to from a folder. -/
def follow (files : Files) (here : Path) : List String → Except Fault Path
  | [] => .ok here
  | name :: rest =>
    if Path.staysPut name then follow files here rest
    else if name = ".." then follow files here.dropLast rest
    else if Path.isTooLong name then .error .nameTooLong
    else if files.isFile (here ++ [name]) then .error .notADirectory
    else if files.isFolder (here ++ [name]) then follow files (here ++ [name]) rest
    else .error .noSuchFile

/-- The path that a text gives to a file; a folder's is refused. -/
def locate (path : String) (files : Files) : Except Fault Path := do
  if Text.hasNull path then throw .nullCharacter
  if path = "" then throw .noSuchFile
  let names := Path.names path
  let folder ← files.follow [] names.dropLast
  let name := names.getLast?.getD ""
  if Path.staysPut name || name == ".." || files.isFolder (folder ++ [name]) then
    throw .isDirectory
  if Path.isTooLong name then throw .nameTooLong
  return folder ++ [name]

/-- Opens a file by the text of its path and reads it. -/
def read (path : String) (files : Files) : Except Fault String := do
  match files.read? (← files.locate path) with
  | some text => return text
  | none => throw .noSuchFile

/-! ## Writing -/

def put (p : Path) (text : String) : List (Path × String) → List (Path × String)
  | [] => [(p, text)]
  | (q, old) :: rest => if q = p then (q, old ++ text) :: rest else (q, old) :: put p text rest

/-- The path of a file to be written: one that ends in slashes would have to be a folder's. -/
def locateNew (path : String) (files : Files) : Except Fault Path := do
  let bare := Path.withoutSlashes path
  if path = bare then files.locate path
  else
    if Text.hasNull path then throw .nullCharacter
    let _ ← files.follow [] (Path.names bare).dropLast
    throw .isDirectory

/-- Appends to a file, which is made if need be. -/
def extend (path text : String) (files : Files) : Except Fault Files := do
  let p ← files.locateNew path
  return { files with contents := put p text files.contents }

/-- Makes the folders that names lead to from a folder, where they are not there yet. -/
def makeFolders (here : Path) : List String → Files → Except Fault Unit × Files
  | [], files => (.ok (), files)
  | name :: rest, files =>
    if Path.staysPut name then makeFolders here rest files
    else if name = ".." then makeFolders here.dropLast rest files
    else
      let next := here ++ [name]
      if Text.hasNull name then (.error .nullCharacter, files)
      else if Path.isTooLong name then (.error .nameTooLong, files)
      else if files.isFile next then
        (.error (if rest.all (· == "") then .fileInTheWay else .notADirectory), files)
      else if files.isFolder next then makeFolders next rest files
      else makeFolders next rest { files with folders := next :: files.folders }

/-- Appends to a file in a folder that is made if need be. -/
def append (path text : String) (files : Files) : Except Fault Unit × Files :=
  match makeFolders [] (Path.names path).dropLast files with
  | (.error fault, files) => (.error fault, files)
  | (.ok (), files) =>
    match files.extend path text with
    | .error fault => (.error fault, files)
    | .ok files => (.ok (), files)

end Files

end ShaderLoom

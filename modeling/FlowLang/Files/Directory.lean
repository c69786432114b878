import FlowLang.Files.Basic
import FlowLang.Files.Path

/-!
# A directory held in memory

* `Directory` : the files of a directory and of those inside it, by their paths.
* `Place` : where a path has led so far, which may be above the directory.
* `Directory.walk` : what is at the end of a path.
* `Directory.files` : access to the files, without effects.

Nothing is known of what surrounds the directory but that there are directories above it.
-/

namespace FlowLang

/-- Files by the names of the directories that lead to them and their own name. -/
abbrev Directory := List (List String × ByteArray)

/-- Where a path has led. -/
inductive Place where
  /-- To the end of these names. -/
  | inside (names : List String)
  /-- To a directory above. -/
  | outside
deriving DecidableEq, Repr

/-- The directory that holds this place. -/
def Place.parent : Place → Place
  | inside [] | outside => outside
  | inside names => inside names.dropLast

namespace Directory

/-- What is at a place. -/
inductive Node where
  | file (content : ByteArray)
  | directory

/-- A directory from the paths and contents of its files. -/
def ofPaths (files : List (String × ByteArray)) : Directory :=
  files.map fun f => ((Path.parts f.1).filter (!Path.isIdle ·), f.2)

/-- What is at a place, if anything is. -/
def node? (d : Directory) : Place → Option Node
  | .outside => some .directory
  | .inside place =>
    match d.find? fun f => f.1 == place with
    | some f => some (.file f.2)
    | none => if place = [] ∨ d.any (fun f => place.isPrefixOf f.1) then some .directory else none

/-- The most bytes that a name may have. -/
def nameLimit : Nat := 255

/-- The most bytes that a path may have. -/
def pathLimit : Nat := 4095

/-- The place of a name in the directory at a place. -/
def enter (place : Place) (name : String) : Except ReadFailure Place :=
  if nameLimit < name.utf8ByteSize then .error .nameTooLong
  else
    match place with
    | .inside names => .ok (.inside (names ++ [name]))
    | .outside => .error .notFound

/-- Follows names from a place on. -/
def walk (d : Directory) (place : Place) : List String → Except ReadFailure Node
  | [] =>
    match d.node? place with
    | some node => .ok node
    | none => .error .notFound
  | name :: later =>
    match d.node? place with
    | none => .error .notFound
    | some (.file _) => .error .notADirectory
    | some .directory =>
      if Path.isIdle name then d.walk place later
      else if name = ".." then d.walk place.parent later
      else
        match enter place name with
        | .error failure => .error failure
        | .ok place => d.walk place later

/-- What a path leads to.  A path that begins with `/` starts at the root, and the empty path leads
nowhere. -/
def lookup (d : Directory) (path : String) : Except ReadFailure Node :=
  if path = "" then .error .notFound
  else if pathLimit < path.utf8ByteSize then .error .nameTooLong
  else d.walk (if "/".isPrefixOf path then .outside else .inside []) (Path.parts path)

/-- The content of a file. -/
def read (d : Directory) (path : String) : Except ReadFailure ByteArray :=
  match d.lookup path with
  | .error failure => .error failure
  | .ok .directory => .error .isADirectory
  | .ok (.file content) => .ok content

/-- Access to the files of the directory. -/
def files (d : Directory) : Files Id where
  isFile path :=
    match d.lookup path with
    | .ok (.file _) => true
    | _ => false
  read path := d.read path

end Directory

end FlowLang

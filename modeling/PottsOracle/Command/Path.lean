import PottsOracle.Text.Basic

/-!
# Paths

A path is a root and the names between its slashes.  Empty names and single dots are left out; two
dots are kept, because what they lead to depends on the directories.

A folder holds files with their paths.  Its directories are the beginnings of these paths, and those
that are named as such.  Names and paths have a largest length, which is counted in bytes.
-/

namespace PottsOracle

/-- A path in its plain form. -/
structure Path where
  /-- Nothing, one slash, or exactly two slashes. -/
  root : Text
  names : List Text
  deriving DecidableEq, Repr

/-- What a path leads to. -/
inductive Found where
  | file (content : Text)
  | directory
  | nothing
  /-- The path, or a name in it, is too long to be looked up. -/
  | tooLong
  deriving DecidableEq, Repr

namespace Text

/-- The number of bytes that a code point takes in a path.  Of the surrogates that stand alone only
some have a byte. -/
def bytes? (c : CodePoint) : Option Nat :=
  if c < 0x80 then some 1
  else if c < 0x800 then some 2
  else if 0xDC80 ≤ c ∧ c < 0xDD00 then some 1
  else if 0xD800 ≤ c ∧ c < 0xE000 then none
  else if c < 0x10000 then some 3
  else some 4

/-- The number of bytes of a text in a path, where no byte may be zero. -/
def byteLength? (t : Text) : Option Nat :=
  if t.contains 0 then none else (t.mapM bytes?).map (List.foldl (· + ·) 0)

/-- A text takes at most a number of bytes. -/
def hasBytes (t : Text) (limit : Nat) : Bool := (byteLength? t).any (· ≤ limit)

end Text

namespace Path

/-- The pieces of a text between slashes. -/
def pieces : Text → List Text
  | [] => [[]]
  | c :: rest =>
    match c == 47, pieces rest with
    | true, ps => [] :: ps
    | false, p :: ps => (c :: p) :: ps
    | false, [] => [[c]]

/-- The path that a text stands for.  More than two slashes at the start count as one. -/
def ofText (t : Text) : Path :=
  let slashes := (t.takeWhile (· = 47)).length
  { root := if slashes = 2 then [47, 47] else if slashes = 0 then [] else [47]
    names := (pieces t).filter fun name => name ≠ [] ∧ name ≠ [46] }

/-- A path as it is printed; the path without names is a dot. -/
def toText (p : Path) : Text :=
  if p.root = [] ∧ p.names = [] then [46] else p.root ++ Text.joined [47] p.names

/-- The most bytes of a path. -/
def maxBytes : Nat := 4095

/-- The most bytes of a name. -/
def maxNameBytes : Nat := 255

end Path

/-- Files with their paths and directories, relative to the folder. -/
structure Folder where
  files : List (Path × Text)
  directories : List (List Text)

namespace Folder

/-- The folder of some files. -/
def ofFiles (files : List (Path × Text)) : Folder := ⟨files, []⟩

/-- What every system has at its root. -/
def system : Folder where
  files := [(Path.ofText (Text.ofString "dev/null"), [])]
  directories := [["bin"], ["dev"], ["etc"], ["home"], ["proc"], ["root"], ["sys"], ["tmp"],
    ["usr"], ["usr", "bin"], ["usr", "lib"], ["var"], ["var", "tmp"]].map (·.map Text.ofString)

/-- What names lead to without any steps upwards. -/
def lookUp (folder : Folder) (names : List Text) : Found :=
  match folder.files.find? fun (path, _) => path.names = names with
  | some (_, content) => .file content
  | none =>
    if names = [] ∨ folder.directories.contains names
      ∨ folder.files.any (fun (path, _) => names.isPrefixOf path.names)
    then .directory else .nothing

/-- The directory above one that is given by its own names.  Above the folder there is `top`, unless
nothing is known of it. -/
def parent (top : Option (List Text)) (here : List Text) : Option (List Text) :=
  if here = [] then top else some here.dropLast

/-- Follows names from a directory of the folder, or from one above it of which only the length of
its names is known. -/
def follow (folder : Folder) (top : Option (List Text)) (here : Option (List Text)) :
    List Text → Found
  | [] => .directory
  | name :: rest =>
    if name = [46, 46] then folder.follow top (here.bind (parent top)) rest
    else if !name.hasBytes Path.maxNameBytes then .tooLong
    else
      match here.map fun names => (names ++ [name], folder.lookUp (names ++ [name])) with
      | some (names, .directory) => folder.follow top (some names) rest
      | some (_, .file content) => if rest = [] then .file content else .nothing
      | _ => .nothing

/-- What a path leads to.  A path with a root starts at the root of the system. -/
def find (folder : Folder) (path : Path) : Found :=
  match Text.byteLength? path.toText with
  | none => .nothing
  | some length =>
    if Path.maxBytes < length then .tooLong
    else if path.root = [] then folder.follow none (some []) path.names
    else system.follow (some []) (some []) path.names

end Folder

end PottsOracle

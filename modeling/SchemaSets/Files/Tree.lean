import SchemaSets.Files.Basic

/-!
# Trees of files

A file system as a value: the files and directories below a working directory.
A place is the list of names on the way from there.  What lies above the
working directory is only known to be there, and so is the root; places outside
begin with `..` or with `/`.

Going along a name asks for a directory at every step, also where the step
leads nowhere, as an empty part or a single point does.
-/

namespace SchemaSets

/-- A file with its text, or a directory. -/
inductive FileNode
  | file (text : String)
  | directory
deriving DecidableEq, Repr

/-- The files and directories below a working directory, by place, and the most bytes
that a part of a name may have, if there is such a bound. -/
structure FileTree where
  nodes : List (List String × FileNode) := []
  partLimit : Option Nat := some 255
deriving Repr

namespace FileTree

/-- What is at a place. -/
def find? (tree : FileTree) (place : List String) : Option FileNode :=
  if place.all (· = "..") || place = ["/"] then some .directory
  else (tree.nodes.find? fun node => node.1 = place).map (·.2)

/-- The tree with something at a place, instead of what was there. -/
def set (tree : FileTree) (place : List String) (node : FileNode) : FileTree :=
  { tree with nodes := (place, node) :: tree.nodes.filter fun other => other.1 ≠ place }

/-- The place around a place. -/
def above (place : List String) : List String :=
  if place = ["/"] then place
  else if place.all (· = "..") then ".." :: place
  else place.dropLast

/-- Whether a part of a name is not longer than the tree permits. -/
def admits (tree : FileTree) (part : String) : Bool :=
  tree.partLimit.all (part.utf8ByteSize ≤ ·)

/-- Goes along the parts of a name.  Only the last of them need not be there. -/
def walk (tree : FileTree) (place : List String) : List String → Except FileError (List String)
  | [] => .ok place
  | part :: rest =>
    match tree.find? place with
    | none => .error .notFound
    | some (.file _) => .error .notADirectory
    | some .directory =>
      if part = "" ∨ part = "." then walk tree place rest
      else if part = ".." then walk tree (above place) rest
      else if tree.admits part then walk tree (place ++ [part]) rest
      else .error .nameTooLong

/-- The place of a name. -/
def locate (tree : FileTree) (name : String) : Except FileError (List String) :=
  if name.toList.contains '\x00' then .error .embeddedNul
  else if name.isEmpty then .error .notFound
  else tree.walk (if Files.isAbsolute name then ["/"] else []) (Files.pieces name)

/-- The text of a file. -/
def readText (tree : FileTree) (name : String) : Except FileError String := do
  match tree.find? (← tree.locate name) with
  | some (.file text) => .ok text
  | some .directory => .error .isADirectory
  | none => .error .notFound

/-- The tree with a text in a file. -/
def writeText (tree : FileTree) (name text : String) : Except FileError FileTree := do
  let place ← tree.locate name
  match tree.find? place with
  | some .directory => .error .isADirectory
  | _ => .ok (tree.set place (.file text))

/-- A name without slashes at its end. -/
def trimSlashes (name : String) : String :=
  let cs := (name.toList.reverse.dropWhile (· = '/')).reverse
  if cs.isEmpty then name else .ofList cs

/-- The tree with one more directory. -/
def makeDirectory (tree : FileTree) (name : String) : Except FileError FileTree := do
  let place ← tree.locate (trimSlashes name)
  match tree.find? place with
  | some _ => .error .alreadyExists
  | none => .ok (tree.set place .directory)

/-- What a name leads to. -/
def at? (tree : FileTree) (name : String) : Option FileNode :=
  (tree.locate name).toOption.bind tree.find?

/-- Whether a name leads to a file. -/
def isFile (tree : FileTree) (name : String) : Bool :=
  match tree.at? name with
  | some (.file _) => true
  | _ => false

/-- Whether a name leads to a directory. -/
def isDirectory (tree : FileTree) (name : String) : Bool :=
  match tree.at? name with
  | some .directory => true
  | _ => false

/-- Keeps the change of an operation that did not fail. -/
def update (change : FileTree → Except FileError FileTree) :
    StateM FileTree (Except FileError Unit) := fun tree =>
  match change tree with
  | .ok tree => (.ok (), tree)
  | .error refusal => (.error refusal, tree)

instance : Files (StateM FileTree) where
  readText name := fun tree => (tree.readText name, tree)
  writeText name text := update (·.writeText name text)
  makeDirectory name := update (·.makeDirectory name)
  isFile name := fun tree => (tree.isFile name, tree)
  isDirectory name := fun tree => (tree.isDirectory name, tree)

/-- The tree with a file below the working directory, and the directories
around it. -/
def addFile (tree : FileTree) (name text : String) : FileTree :=
  let place := (Files.parts name).filter (· ≠ ".")
  let around := (List.range place.length).map place.take
  let tree := around.foldl
    (fun (tree : FileTree) place =>
      match tree.find? place with
      | none => tree.set place .directory
      | some _ => tree)
    tree
  tree.set place (.file text)

/-- The files of a tree that are below the working directory, by place. -/
def files (tree : FileTree) : List (List String × String) :=
  tree.nodes.filterMap fun node =>
    match node.1.head?, node.2 with
    | some first, .file text => if first = ".." ∨ first = "/" then none else some (node.1, text)
    | _, _ => none

end FileTree
end SchemaSets

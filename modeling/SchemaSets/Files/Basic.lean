/-!
# Files

What commands ask of a file system: to read and write texts, to make
directories, and to tell files from directories.  A file system that answers
is given as an instance of `Files`, so that what a command does can be studied
on a tree of files that is a plain value.

File names are texts with slashes between their parts.
-/

namespace SchemaSets

/-- Why a file system refuses. -/
inductive FileError
  | notFound
  | alreadyExists
  | notADirectory
  | isADirectory
  | nameTooLong
  | embeddedNul
  | other (reason : String)
deriving DecidableEq, Repr

/-- The words of a refusal. -/
def FileError.text : FileError → String
  | .notFound => "No such file or directory (os error 2)"
  | .alreadyExists => "File exists (os error 17)"
  | .notADirectory => "Not a directory (os error 20)"
  | .isADirectory => "Is a directory (os error 21)"
  | .nameTooLong => "File name too long (os error 36)"
  | .embeddedNul => "file name contained an unexpected NUL byte"
  | .other reason => reason

/-- A file system. -/
class Files (m : Type → Type) where
  readText : String → m (Except FileError String)
  writeText : String → String → m (Except FileError Unit)
  makeDirectory : String → m (Except FileError Unit)
  isFile : String → m Bool
  isDirectory : String → m Bool

namespace Files

/-- Whether a name starts at the root of the file system. -/
def isAbsolute (name : String) : Bool := name.toList.head? = some '/'

/-- The name of something in a directory.  A name that starts at the root stays
as it is. -/
def join (directory name : String) : String :=
  if isAbsolute name || directory.isEmpty then name
  else if directory.toList.getLast? = some '/' then directory ++ name
  else directory ++ "/" ++ name

/-- What stands between the slashes of a name; there is one piece more than there
are slashes. -/
def pieces (name : String) : List String := (name.toList.splitOn '/').map String.ofList

/-- The parts of a name, without those that lead nowhere. -/
def parts (name : String) : List String :=
  match (pieces name).filter fun part => !part.isEmpty with
  | "." :: rest =>
    let rest := rest.filter (· ≠ ".")
    if isAbsolute name then rest else "." :: rest
  | parts => parts.filter (· ≠ ".")

/-- The name of the directory around a file or directory. -/
def parent? (name : String) : Option String :=
  match parts name with
  | [] => none
  | all => some ((if isAbsolute name then "/" else "") ++ "/".intercalate all.dropLast)

/-- What follows the last point of a name's last part, if something stands
before that point. -/
def suffix? (name : String) : Option String :=
  match (parts name).getLast? with
  | none => none
  | some last =>
    match (last.splitOn ".").reverse with
    | suffix :: before :: more => if more = [] ∧ before = "" then none else some suffix
    | _ => none

/-- The reversed characters of a name, without what leads nowhere at its end:
slashes, and single points after a slash. -/
def trimEnd : List Char → List Char
  | '/' :: rest => trimEnd rest
  | '.' :: '/' :: rest => trimEnd rest
  | cs => cs

/-- A name with a suffix added to its last part, if that part names something:
`.` and `..` only lead somewhere. -/
def withSuffix? (name suffix : String) : Option String :=
  let trimmed := String.ofList (trimEnd name.toList.reverse).reverse
  match (pieces trimmed).getLast? with
  | none | some "" | some "." | some ".." => none
  | some _ => some (trimmed ++ "." ++ suffix)

/-- Makes a directory and those around it, if they are missing; `fuel` bounds
how many. -/
def makeDirectoriesWithin {m : Type → Type} [Monad m] [Files m] :
    Nat → String → m (Except FileError Unit)
  | 0, _ => pure (.error (.other "failed to create whole tree"))
  | fuel + 1, name => do
    let settle (refusal : FileError) : m (Except FileError Unit) := do
      if ← isDirectory name then pure (.ok ()) else pure (.error refusal)
    if name.isEmpty then pure (.ok ())
    else
      match ← makeDirectory name with
      | .ok () => pure (.ok ())
      | .error .notFound =>
        match parent? name with
        | none => pure (.error (.other "failed to create whole tree"))
        | some parent =>
          match ← makeDirectoriesWithin fuel parent with
          | .error refusal => pure (.error refusal)
          | .ok () =>
            match ← makeDirectory name with
            | .ok () => pure (.ok ())
            | .error refusal => settle refusal
      | .error refusal => settle refusal

/-- Makes a directory and those around it, if they are missing. -/
def makeDirectories {m : Type → Type} [Monad m] [Files m] (name : String) :
    m (Except FileError Unit) :=
  makeDirectoriesWithin (name.length + 1) name

end Files
end SchemaSets

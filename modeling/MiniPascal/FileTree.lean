/-!
# File trees

The files and directories below a working directory, and what reading a path in it gives. A path
is walked name by name: each name is looked up in the directory that the names before it lead to.
Of what lies outside the working directory, only the directories on the way out are known.
-/

namespace MiniPascal

/-- What a path can lead to. -/
inductive Entry where
  | file (bytes : List UInt8)
  | directory
  deriving Repr

/-- Why a path cannot be read. -/
inductive ReadError where
  | notFound
  | notDirectory
  | isDirectory
  | nameTooLong
  | badName
  deriving DecidableEq, Repr

/-- The operating system's words. -/
def ReadError.message : ReadError → String
  | notFound => "No such file or directory (os error 2)"
  | notDirectory => "Not a directory (os error 20)"
  | isDirectory => "Is a directory (os error 21)"
  | nameTooLong => "File name too long (os error 36)"
  | badName => "file name contained an unexpected NUL byte"

/-- Where a walk has come to. -/
inductive Place where
  /-- Below the working directory, along these names. -/
  | below (names : List String)
  /-- In a directory that is not below it. -/
  | outside
  deriving DecidableEq, Repr

/-- The entries below a working directory, by the names that lead to them. -/
structure FileTree where
  entries : List (List String × Entry) := []
  deriving Repr, Inhabited

namespace FileTree

/-- The names in a path. An empty name stands before a leading slash, behind a trailing one, and
between two in a row. -/
def namesOf (path : String) : List String := path.splitOn "/"

/-- The names that lead to a path's end, if all the directories on the way are made. -/
def resolve (names : List String) : List String :=
  names.foldl (fun soFar name =>
    if name = "" ∨ name = "." then soFar
    else if name = ".." then soFar.dropLast
    else soFar ++ [name]) []

/-- The tree with one more entry, and with the directories on the way to it. -/
def insert (t : FileTree) (path : String) (e : Entry) : FileTree :=
  let names := namesOf path
  let way := (List.range names.length).map fun n => (resolve (names.take n), Entry.directory)
  ⟨(resolve names, e) :: way ++ t.entries⟩

/-- What the names lead to. No names at all lead to the working directory. -/
def entry? (t : FileTree) (names : List String) : Option Entry :=
  if names.isEmpty then some .directory else t.entries.lookup names

/-- The place that a name leads to from a place, which has to be a directory. -/
def step (t : FileTree) (place : Place) (name : String) : Except ReadError Place :=
  match place with
  | .below names =>
    match t.entry? names with
    | some .directory =>
      if name = "" ∨ name = "." then .ok place
      else if name = ".." then
        .ok (if names.isEmpty then .outside else .below names.dropLast)
      else if 255 < name.utf8ByteSize then .error .nameTooLong
      else
        match t.entry? (names ++ [name]) with
        | some _ => .ok (.below (names ++ [name]))
        | none => .error .notFound
    | some (.file _) => .error .notDirectory
    | none => .error .notFound
  | .outside =>
    if name = "" ∨ name = "." ∨ name = ".." then .ok .outside
    else if 255 < name.utf8ByteSize then .error .nameTooLong
    else .error .notFound

/-- What is read from the place that a walk ends at. -/
def readAt (t : FileTree) : Place → Except ReadError (List UInt8)
  | .below names =>
    match t.entry? names with
    | some (.file bytes) => .ok bytes
    | some .directory => .error .isDirectory
    | none => .error .notFound
  | .outside => .error .isDirectory

/-- The content of the file at a path. -/
def read (t : FileTree) (path : String) : Except ReadError (List UInt8) :=
  if path.contains '\x00' then .error .badName
  else if path = "" then .error .notFound
  else if 4096 ≤ path.utf8ByteSize then .error .nameTooLong
  else do
    let start := if path.startsWith "/" then Place.outside else .below []
    let place ← (namesOf path).foldlM t.step start
    t.readAt place

end FileTree

end MiniPascal

import LambdaCalculus.Command.Files

/-!
# File trees

A file tree is a directory with all that is below it.  Paths are relative to
that directory and are followed name by name; a dot stays, two dots go up, and
only a directory can be gone through.

A tree describes the files that the program sees where there is no file system
to ask: `FileTree.toFiles` gives the program the files of a tree, and so a whole
run can be evaluated and compared with a real one.
-/

namespace LambdaCalculus

/-- The byte between the names of a path. -/
def slash : UInt8 := 47

/-- The parts of a path between its slashes, empty ones included. -/
def pathPieces : Text -> List Text
  | [] => [[]]
  | byte :: rest =>
      if byte = slash then
        [] :: pathPieces rest
      else
        match pathPieces rest with
        | [] => [[byte]]
        | first :: others => (byte :: first) :: others

/-- The name of the directory itself. -/
def dot : Text := "."

/-- The name of the directory above. -/
def dotDot : Text := ".."

/-- A directory with all that is below it. -/
structure FileTree where
  /-- How the directory itself is shown. -/
  root : Text
  /-- The files: the names that lead to each, and its bytes. -/
  files : List (List Text × Text)
  /-- The names that lead to directories that need not hold anything. -/
  directories : List (List Text)

namespace FileTree

/-- What a sequence of names leads to. -/
inductive Node
  | file (content : Text)
  | directory

/-- Some file or directory lies below these names, or a directory is there. -/
def isDirectory
    (tree : FileTree)
    (names : List Text) : Bool :=
  names.isEmpty ||
    tree.directories.any (fun directory => names.isPrefixOf directory) ||
    tree.files.any fun (file, _) =>
      names.isPrefixOf file && names.length < file.length

/-- What a sequence of names leads to. -/
def node?
    (tree : FileTree)
    (names : List Text) : Option Node :=
  match tree.files.lookup names with
  | some content => some (.file content)
  | none => if tree.isDirectory names then some .directory else none

/-- Where a path leads. -/
inductive Place
  /-- To the entry with these names. -/
  | inside (names : List Text)
  /-- To a directory above the root, about which nothing else is known. -/
  | above

/-- The longest name that a directory can hold. -/
def nameLimit : Nat := 255

/-- A path of so many bytes is too long. -/
def pathLimit : Nat := 4096

/-- Follows the pieces of a path from a place. -/
def walk
    (tree : FileTree) : List Text -> Place -> Except FileError Place
  | [], place => .ok place
  | piece :: rest, .above =>
      if piece.isEmpty || piece == dot || piece == dotDot then
        walk tree rest .above
      else if nameLimit < piece.length then
        .error .nameTooLong
      else
        .error .missing
  | piece :: rest, .inside names =>
      if tree.isDirectory names then
        if piece.isEmpty || piece == dot then
          walk tree rest (.inside names)
        else if piece == dotDot then
          if names.isEmpty then
            walk tree rest .above
          else
            walk tree rest (.inside names.dropLast)
        else if nameLimit < piece.length then
          .error .nameTooLong
        else if (tree.node? (names ++ [piece])).isSome then
          walk tree rest (.inside (names ++ [piece]))
        else
          .error .missing
      else
        .error .notDirectory

/-- Where a path leads.  A path ends at its first NUL byte. -/
def resolve
    (tree : FileTree)
    (path : Text) : Except FileError Place :=
  let path := path.beforeNul
  if path.isEmpty then .error .missing
  else if pathLimit <= path.length then .error .nameTooLong
  else if path.head? = some slash then .error .missing
  else tree.walk (pathPieces path) (.inside [])

/-- The bytes of the file with a path. -/
def read
    (tree : FileTree)
    (path : Text) : Except FileError Text :=
  match tree.resolve path with
  | .error error => .error error
  | .ok .above => .error .notRegular
  | .ok (.inside names) =>
      match tree.node? names with
      | some (.file content) => .ok content
      | _ => .error .notRegular

/-! ## Canonical paths -/

/-- A path as it is simplified without looking at files. -/
structure LexicalPath where
  /-- The text in front of an absolute path. -/
  root : Option Text
  /-- The names of the path. -/
  names : List Text
  /-- A slash stands behind the last name. -/
  trailing : Bool

namespace LexicalPath

/-- Adds an element: dots vanish, and two dots take the name before them
away. -/
def push
    (path : LexicalPath)
    (element : Text) : LexicalPath :=
  if element.isEmpty || element == dot then
    { path with trailing := path.root.isSome || !path.names.isEmpty }
  else if element == dotDot then
    match path.names.getLast? with
    | none =>
        if path.root.isSome then path
        else { path with names := [dotDot], trailing := false }
    | some last =>
        if last == dotDot then
          { path with names := path.names ++ [dotDot], trailing := false }
        else
          { path with
            names := path.names.dropLast
            trailing := path.root.isSome || 1 < path.names.length }
  else
    { path with names := path.names ++ [element], trailing := false }

/-- The text of a simplified path. -/
def text (path : LexicalPath) : Text :=
  let names :=
    match path.root with
    | some root => root :: path.names
    | none => path.names
  if names.isEmpty then
    dot
  else
    List.intercalate [slash] names ++
      if path.trailing && path.names.getLast? != some dotDot then [slash]
      else []

end LexicalPath

/-- The elements of a path: its pieces without empty ones, except that a last
empty piece stands for a slash at the end. -/
def pathElements (path : Text) : List Text :=
  let pieces := pathPieces path
  pieces.dropLast.filter (fun piece => !piece.isEmpty) ++
    pieces.getLast?.toList

/-- A path with one more element. -/
def joinElement
    (path element : Text) : Text :=
  if path.isEmpty then element else path ++ [slash] ++ element

/-- Splits the elements of a path, read behind those in `taken`, where the
path stops leading anywhere. -/
def existingPart
    (tree : FileTree)
    (taken : Text) : List Text -> Except FileError (Text × List Text)
  | [] => .ok (taken, [])
  | element :: rest =>
      match tree.resolve (joinElement taken element) with
      | .ok _ => existingPart tree (joinElement taken element) rest
      | .error .nameTooLong => .error .nameTooLong
      | .error _ => .ok (taken, element :: rest)

/-- The simplified form of a path that leads somewhere. -/
def canonicalPlace
    (tree : FileTree) : Place -> LexicalPath
  | .inside names => ⟨some tree.root, names, false⟩
  | .above => ⟨some (tree.root ++ [slash] ++ dotDot), [], false⟩

/-- The canonical form of a path: the part that leads somewhere is replaced
by where it leads, and the rest is simplified.  A path with a name that is too
long stays as it is. -/
def canonical
    (tree : FileTree)
    (path : Text) : Text :=
  if path.isEmpty then
    path
  else
    match tree.resolve path with
    | .ok place => (tree.canonicalPlace place).text
    | .error .nameTooLong => path
    | .error _ =>
        match tree.existingPart [] (pathElements path) with
        | .error _ => path
        | .ok (taken, rest) =>
            let start :=
              match tree.resolve taken with
              | .ok place => tree.canonicalPlace place
              | .error _ => ⟨none, [], false⟩
            (rest.foldl LexicalPath.push start).text

/-- The tree as the files that the program can see. -/
def toFiles (tree : FileTree) : Files where
  read := tree.read
  canonical := tree.canonical

end FileTree
end LambdaCalculus

/-
  Offside/CommandLine/FileTree.lean
  =================================
  **Files by path.**  A file tree has files with their contents; the directories are those
  that the files lie in.  Paths are resolved component by component from the root of the
  tree, as an operating system does it: `.` stays, `..` goes up, and each component before
  the last must be a directory.  Above the root nothing is known, and nothing is found.
-/
namespace Offside

/-- Why a file cannot be read or written. -/
inductive FileError where
  | notFound
  | notDirectory
  | isDirectory
  | nameTooLong
  | notUtf8
  | other (message : String)
deriving DecidableEq, Repr

def FileError.message : FileError → String
  | notFound => "No such file or directory (os error 2)"
  | notDirectory => "Not a directory (os error 20)"
  | isDirectory => "Is a directory (os error 21)"
  | nameTooLong => "File name too long (os error 36)"
  | notUtf8 => "stream did not contain valid UTF-8"
  | other message => message

/-- A file: the components of its path from the root, and its bytes. -/
structure FileEntry where
  path : List String
  bytes : List UInt8
deriving DecidableEq, Repr

/-- A set of files. -/
structure FileTree where
  files : List FileEntry
deriving DecidableEq, Repr

namespace FileTree

/-- The components of a path: what stands between slashes. -/
def components (path : String) : List String :=
  ((path.splitOn "/").filter (· ≠ ""))

/-- A file tree with the given files. -/
def ofFiles (files : List (String × List UInt8)) : FileTree :=
  ⟨files.map fun (path, bytes) => ⟨(components path).filter (· ≠ "."), bytes⟩⟩

/-- A directory: one of the tree, by its components, or one outside of it. -/
inductive Directory where
  | inside (path : List String)
  | outside
deriving DecidableEq, Repr

/-- What a name stands for in a directory. -/
inductive Found where
  | file (bytes : List UInt8)
  | directory (d : Directory)
  | nothing
deriving DecidableEq, Repr

/-- The file with the given components. -/
def file? (t : FileTree) (path : List String) : Option FileEntry :=
  t.files.find? (·.path = path)

/-- Holds if a file lies below the given components. -/
def isDirectory (t : FileTree) (path : List String) : Bool :=
  t.files.any fun f => path.isPrefixOf f.path && path ≠ f.path

/-- The longest name of a file, in bytes. -/
def nameLimit : Nat := 255

/-- The longest path, in bytes. -/
def pathLimit : Nat := 4095

/-- What a component stands for in a directory. -/
def look (t : FileTree) (d : Directory) (name : String) : Except FileError Found :=
  if name = "." then .ok (.directory d)
  else if name = ".." then
    match d with
    | .inside (c :: cs) => .ok (.directory (.inside (c :: cs).dropLast))
    | _ => .ok (.directory .outside)
  else if nameLimit < name.utf8ByteSize then .error .nameTooLong
  else
    match d with
    | .outside => .ok .nothing
    | .inside path =>
      let below := path ++ [name]
      match t.file? below with
      | some f => .ok (.file f.bytes)
      | none => .ok (if t.isDirectory below then .directory (.inside below) else .nothing)

/-- The directory that components lead to. -/
def walk (t : FileTree) (d : Directory) : List String → Except FileError Directory
  | [] => .ok d
  | name :: more => do
    match ← t.look d name with
    | .directory d' => t.walk d' more
    | .file _ => throw .notDirectory
    | .nothing => throw .notFound

/-- A path resolved up to its last component. -/
structure Target where
  parent : Directory
  /-- The last component, unless the path is that of the outermost directory. -/
  name : Option String
  /-- A slash follows, so that only a directory will do. -/
  slash : Bool

/-- Resolves a path up to its last component. -/
def resolve (t : FileTree) (path : String) : Except FileError Target := do
  if path = "" then throw .notFound
  else if pathLimit < path.utf8ByteSize then throw .nameTooLong
  else
    let cs := components path
    let start := if path.toList.head? = some '/' then .outside else .inside []
    let parent ← t.walk start cs.dropLast
    return ⟨parent, cs.getLast?, path.toList.getLast? = some '/'⟩

/-- The bytes of the file at a path. -/
def read (t : FileTree) (path : String) : Except FileError (List UInt8) := do
  let target ← t.resolve path
  match target.name with
  | none => throw .isDirectory
  | some name =>
    match ← t.look target.parent name with
    | .directory _ => throw .isDirectory
    | .nothing => throw .notFound
    | .file bytes => if target.slash then throw .notDirectory else return bytes

/-- Puts a file in place of what was there before. -/
def put (t : FileTree) (path : List String) (bytes : List UInt8) : FileTree :=
  ⟨t.files.filter (·.path ≠ path) ++ [⟨path, bytes⟩]⟩

/-- Writes a file at a path, where there may be one already. -/
def write (t : FileTree) (path : String) (bytes : List UInt8) : Except FileError FileTree := do
  let target ← t.resolve path
  match target.name with
  | none => throw .isDirectory
  | some name =>
    if target.slash then throw .isDirectory
    else
      match ← t.look target.parent name with
      | .directory _ => throw .isDirectory
      | _ =>
        match target.parent with
        | .outside => return t
        | .inside parent => return t.put (parent ++ [name]) bytes

/-- The files that are new or have other bytes than in `old`, by path. -/
def changesFrom (t old : FileTree) : List (String × List UInt8) :=
  (t.files.filter fun f => old.file? f.path ≠ some f).map fun f =>
    ("/".intercalate f.path, f.bytes)

end FileTree
end Offside

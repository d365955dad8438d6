/-
  Offside/CommandLine/Path.lean
  =============================
  **Paths as texts.**  The name of a path is its last component, unless that is the parent
  directory; slashes and `.` components behind the name do not count.  The extension of a
  name is what follows its last dot, except that a dot the name begins with is part of
  the name.
-/
namespace Offside.Path

/-- A path cut around its name. -/
structure Parts where
  before : List Char
  name : List Char
  after : List Char

/-- Drops what has no name from the end of a path, which is given backwards. -/
def dropNameless : List Char → List Char
  | '/' :: cs => dropNameless cs
  | '.' :: '/' :: cs => dropNameless cs
  | ['.'] => []
  | cs => cs

/-- Cuts a path around its name, if it has one. -/
def parts? (path : List Char) : Option Parts :=
  let named := dropNameless path.reverse
  let name := (named.takeWhile (· ≠ '/')).reverse
  if name = [] ∨ name = ['.', '.'] then none
  else some ⟨(named.dropWhile (· ≠ '/')).reverse, name, path.drop named.length⟩

/-- Cuts a name into its stem and its extension, if it has one. -/
def splitExtension? (name : List Char) : Option (List Char × List Char) :=
  let backwards := name.reverse
  match backwards.dropWhile (· ≠ '.') with
  | [] | [_] => none
  | _ :: stem => some (stem.reverse, (backwards.takeWhile (· ≠ '.')).reverse)

/-- The name without its extension. -/
def stem (name : List Char) : List Char :=
  match splitExtension? name with
  | some (stem, _) => stem
  | none => name

/-- Gives the name of a path the extension in place of its own.  A path without a name is
    left as it is. -/
def setExtension (path extension : List Char) : List Char :=
  match parts? path with
  | none => path
  | some p => p.before ++ stem p.name ++ '.' :: extension

/-- Cuts the extension off a path that ends with it; the dot stays. -/
def cutExtension (path : List Char) : List Char :=
  match parts? path with
  | some ⟨before, name, []⟩ =>
    match splitExtension? name with
    | some (stem, _) => before ++ stem ++ ['.']
    | none => path
  | _ => path

/-- The path with another extension: the old one is cut off first, and what remains gets
    the new one if it still has a name. -/
def withExtension (path extension : String) : String :=
  String.ofList (setExtension (cutExtension path.toList) extension.toList)

end Offside.Path

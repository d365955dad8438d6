/-
  Offside/CommandLine/Run.lean
  ============================
  **What the command does:** read a file, compile it, write the result.  Arguments that
  are not understood and files that cannot be read or written end it with code two, a
  program that is refused with code one.
-/
import Offside.CommandLine.FileTree
import Offside.CommandLine.Options
import Offside.Compile
import Offside.Report

namespace Offside.CommandLine

/-- How the command ends when it does not succeed: its code and what it says. -/
structure Failure where
  code : UInt8
  message : String
deriving DecidableEq, Repr

def usageFailure (e : UsageError) : Failure := ⟨2, e.message ++ "\n"⟩

def readFailure (path : String) (e : FileError) : Failure :=
  ⟨2, "Failed to read " ++ path ++ ": " ++ e.message ++ "\n"⟩

def writeFailure (path : String) (e : FileError) : Failure :=
  ⟨2, "Failed to write " ++ path ++ ": " ++ e.message ++ "\n"⟩

def refusal (path source : String) (d : Diagnostic) : Failure := ⟨1, d.report source path⟩

/-- Reads arguments. -/
def options (arguments : List String) : Except Failure Options :=
  (Options.ofArguments arguments).mapError usageFailure

/-- The text of a file that was read. -/
def sourceText (path : String) (content : Except FileError (List UInt8)) :
    Except Failure String :=
  match content with
  | .error e => .error (readFailure path e)
  | .ok bytes =>
    match String.fromUTF8? bytes.toByteArray with
    | some text => .ok text
    | none => .error (readFailure path .notUtf8)

/-- The log of compiling a file, and the bytes to be written. -/
def compileText (path source : String) : List LogRecord × Except Failure (List UInt8) :=
  let (log, result) := compileLogged source
  (log, result.mapError (refusal path source))

/-- Runs the command on a file tree. -/
def execute (arguments : List String) (tree : FileTree) : Except Failure FileTree := do
  let o ← options arguments
  let source ← sourceText o.input (tree.read o.input)
  let bytes ← (compileText o.input source).2
  (tree.write o.output bytes).mapError (writeFailure o.output)

/-- What can be seen of a run: its code, what it said, and the files it changed. -/
structure Outcome where
  code : UInt8
  said : String
  written : List (String × List UInt8)
deriving DecidableEq, Repr

/-- Runs the command on a file tree and tells what can be seen of it. -/
def run (arguments : List String) (tree : FileTree) : Outcome :=
  match execute arguments tree with
  | .error f => ⟨f.code, f.message, []⟩
  | .ok after => ⟨0, "", after.changesFrom tree⟩

end Offside.CommandLine

/-
  Offside/CommandLine/Options.lean
  ================================
  **The arguments of the command.**  One input path, an output path, and whether to tell
  more.  The output defaults to the input with the extension `wasm`.
-/
import Offside.CommandLine.Path

namespace Offside

/-- What the command is asked to do. -/
structure Options where
  input : String
  output : String
  verbose : Bool
deriving DecidableEq, Repr

/-- Why arguments are not understood. -/
inductive UsageError where
  | usage
  | missingPath (flag : String)
  | unknownOption (flag : String)
  | unexpectedArgument (path : String)
deriving DecidableEq, Repr

def UsageError.message : UsageError → String
  | usage => "usage: corepython <input.py> [-o <output.wasm>] [--verbose]"
  | missingPath flag => s!"missing path after `{flag}`"
  | unknownOption flag => s!"unknown option `{flag}`"
  | unexpectedArgument path => s!"unexpected argument `{path}`"

namespace Options

/-- What the arguments so far have said. -/
structure Draft where
  input : Option String
  output : Option String
  verbose : Bool
deriving DecidableEq, Repr

/-- Reads arguments from left to right. -/
def readFrom (d : Draft) : List String → Except UsageError Draft
  | [] => .ok d
  | arg :: rest =>
    if arg = "-o" ∨ arg = "--output" then
      match rest with
      | [] => .error (.missingPath arg)
      | path :: more => readFrom { d with output := some path } more
    else if arg = "-v" ∨ arg = "--verbose" then readFrom { d with verbose := true } rest
    else if arg = "-h" ∨ arg = "--help" then .error .usage
    else if arg.toList.head? = some '-' then .error (.unknownOption arg)
    else if d.input.isSome then .error (.unexpectedArgument arg)
    else readFrom { d with input := some arg } rest

/-- The options that arguments say. -/
def ofArguments (arguments : List String) : Except UsageError Options := do
  let d ← readFrom ⟨none, none, false⟩ arguments
  match d.input with
  | none => throw .usage
  | some input =>
    return ⟨input, d.output.getD (Path.withExtension input "wasm"), d.verbose⟩

end Options
end Offside

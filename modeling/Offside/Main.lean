/-
  Offside/Main.lean
  =================
  **The command.**  Reads and writes the real files; what it does with them is decided in
  `Offside.CommandLine`.
-/
import Offside.CommandLine.Run

namespace Offside.CommandLine

/-- The number of an error of the operating system, which may be told as its negative. -/
def errorNumber (code : UInt32) : UInt32 := if code < 0x80000000 then code else 0 - code

/-- The error of the operating system as the command tells it. -/
def fileError (e : IO.Error) : FileError :=
  match e with
  | .noFileOrDirectory _ _ _ => .notFound
  | .inappropriateType _ code _ =>
    if errorNumber code = 20 then .notDirectory
    else if errorNumber code = 21 then .isDirectory
    else .other (toString e)
  | _ => .other (toString e)

/-- Performs an action on files and keeps its error. -/
def attempt {α : Type} (action : IO α) : IO (Except FileError α) := do
  match ← action.toBaseIO with
  | .ok a => return .ok a
  | .error e => return .error (fileError e)

/-- Says why the command did not succeed. -/
def fail (f : Failure) : IO UInt32 := do
  IO.eprint f.message
  return f.code.toUInt32

/-- Tells the records of a log, the detailed ones only if asked to. -/
def tell (verbose : Bool) (log : List LogRecord) : IO Unit :=
  for r in log do
    if verbose || r.level == .info then IO.println (r.level.name ++ " " ++ r.message)

/-- Runs the command with the given options. -/
def perform (o : Options) : IO UInt32 := do
  tell o.verbose [.info ("Reading " ++ o.input)]
  let content ← attempt (IO.FS.readBinFile o.input)
  match sourceText o.input (content.map (·.data.toList)) with
  | .error f => fail f
  | .ok source =>
    let (log, result) := compileText o.input source
    tell o.verbose log
    match result with
    | .error f => fail f
    | .ok bytes =>
      tell o.verbose [.info ("Writing WebAssembly to " ++ o.output)]
      match ← attempt (IO.FS.writeBinFile o.output bytes.toByteArray) with
      | .error e => fail (writeFailure o.output e)
      | .ok () =>
        tell o.verbose [.info s!"Compiled {bytes.length} bytes"]
        return 0

end Offside.CommandLine

def main (arguments : List String) : IO UInt32 :=
  match Offside.CommandLine.options arguments with
  | .error f => Offside.CommandLine.fail f
  | .ok o => Offside.CommandLine.perform o

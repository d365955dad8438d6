/-
  Offside/Compile.lean
  ====================
  **The whole way** from a source text to the bytes of a WebAssembly module.  The first
  stage that refuses decides the result.  `compileLogged` also gives the log: what was
  done up to the end or up to the refusal.
-/
import Offside.Lowering
import Offside.Surface.Definition
import Offside.Token.Scan
import Offside.Typed.Check
import Offside.Wasm.Binary

namespace Offside

/-- A result and the records made on the way to it. -/
abbrev Logged (α : Type) := List LogRecord × Except Diagnostic α

/-- Goes on with a result, if there is one. -/
def Logged.andThen {α β : Type} (x : Logged α) (next : α → Logged β) : Logged β :=
  match x with
  | (log, .error why) => (log, .error why)
  | (log, .ok a) =>
    let (more, result) := next a
    (log ++ more, result)

/-- Adds the record that a stage has come to its result. -/
def Logged.closing {α : Type} (x : Logged α) (message : α → String) : Logged α :=
  x.andThen fun a => ([.info (message a)], .ok a)

/-! ### Stages -/

/-- The tokens of a text. -/
def scanStage (source : String) : Logged (List Token) :=
  match Token.ofSource source with
  | .error why => ([], .error why)
  | .ok tokens =>
    let lines := source.toList.count '\n' + 1
    ([.debug s!"Lexed {tokens.length} tokens over {lines} lines"], .ok tokens)

/-- The records of an item that was read. -/
def itemRecords : Surface.Item → List LogRecord
  | .imports line => line.map fun i => .debug ("Parsed import " ++ i.module ++ "." ++ i.name)
  | .function f =>
    [.debug ("Parsed function " ++ f.name ++ " with " ++ toString f.body.body.length ++
      " statements")]

/-- The program that tokens say. -/
def parseStage (tokens : List Token) : Logged Surface.Program :=
  let (items, failure) := Surface.itemsOf tokens
  (items.flatMap itemRecords,
   match failure with
   | some why => .error why
   | none => .ok (Surface.Program.ofItems items))

/-- The record of a section. -/
def sectionRecord (s : Wasm.Section) : LogRecord :=
  .debug s!"Section {s.id} with {s.count} entries, {s.contents.length} bytes"

/-- The bytes of a module. -/
def encodeStage (m : Wasm.Module) : Logged (List UInt8) :=
  (m.sections.map sectionRecord, .ok m.encode)

/-! ### The pipeline -/

/-- Compiles a source text and keeps the log. -/
def compileLogged (source : String) : Logged (List UInt8) :=
  let tokens := (scanStage source).closing fun ts => s!"Tokenized {ts.length} tokens"
  let program := (tokens.andThen parseStage).closing fun p =>
    s!"Parsed {p.imports.length} imports and {p.functions.length} functions"
  let typed := (program.andThen Typed.Module.check).closing fun m =>
    s!"Type checked {m.functions.length} functions"
  let module := (typed.andThen lowerModule).closing fun w =>
    s!"Generated code for {w.functions.length} functions"
  (module.andThen encodeStage).closing fun bytes => s!"Emitted {bytes.length} bytes"

/-- Compiles a source text. -/
def compile (source : String) : Except Diagnostic (List UInt8) := do
  let tokens ← Token.ofSource source
  let program ← Surface.Program.ofTokens tokens
  let typed ← Typed.Module.ofProgram program
  let module ← (lowerModule typed).2
  return module.encode

end Offside

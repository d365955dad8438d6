/-
  Offside/Surface/Definition.lean
  ===============================
  **Reading a program.**  A program is a sequence of items: lines of imports and function
  definitions.  `items` keeps those it has read when it comes to one that it cannot read,
  so that what was done before a failure can be told.
-/
import Offside.Surface.Statement

namespace Offside.Surface

/-! ### Types -/

/-- Reads a type name. -/
def typeName (c : Cursor) : Reading TypeExpr c.left :=
  if h : c.kind = .identifier then
    .done ⟨c.current.value, c.current.span⟩ c.advance (Cursor.advance_lt_of_identifier h)
  else .stuck (c.unexpected (.kind .identifier)) c

/-- Reads a type annotation. -/
def typeExpr (g : Grammar) (c : Cursor) : Reading TypeExpr c.left :=
  if g.type c.kind then typeName c else .stuck (c.unexpected .typeName) c

/-- Reads the result type behind an arrow, if there is an arrow. -/
def resultType (g : Grammar) (c : Cursor) : Reading (Option TypeExpr) (c.left + 1) :=
  if c.kind = .arrow then
    ((typeExpr g c.advance).andThen fun t c' _ => .pure (some t) c').weaken c.advance_le_succ
  else .pure none c

/-! ### Imports -/

/-- Reads the parameter types of an import up to the closing parenthesis. -/
def importTypes (g : Grammar) (c : Cursor) : Reading (List TypeExpr) (c.left + 1) :=
  if c.kind = .closeParen then .pure [] c
  else
    ((typeExpr g c).andThen fun t c₁ _ =>
      (c₁.separator .importSignatureEnd).andThen fun _ c₂ _ =>
        (importTypes g c₂).andThen fun ts c₃ _ => .pure (t :: ts) c₃).weaken c.left_le_succ
termination_by c.left

/-- Reads the signature behind an imported name, if there is one. -/
def importSignature (g : Grammar) (c : Cursor) :
    Reading (Option ImportSignature) (c.left + 1) :=
  if c.kind = .openParen then
    ((importTypes g c.advance).andThen fun params c₁ _ =>
      (c₁.expect .closeParen).andThen fun _ c₂ _ =>
        (resultType g c₂).andThen fun result c₃ _ =>
          .pure (some ⟨params, result⟩) c₃).weaken
            c.advance_succ_le_succ
  else .pure none c

/-- Reads the imported names, separated by commas. -/
def importedNames (g : Grammar) (module : String) (c : Cursor) :
    Reading (List Import) (c.left + 1) :=
  (c.expectAs .identifier .importName).andThen fun name c₁ _ =>
    (importSignature g c₁).andThen fun signature c₂ _ =>
      let item : Import := ⟨module, name.value, signature, ⟨name.span.start, c₂.previousEnd⟩⟩
      if _h : c₂.kind = .comma then
        ((importedNames g module c₂.advance).andThen fun more c₃ _ =>
          .pure (item :: more) c₃).weaken c₂.advance_succ_le_succ
      else .pure [item] c₂
termination_by c.left
decreasing_by
  have := Cursor.left_pos_of_kind _h (by decide)
  simp only [Cursor.advance_left] at *
  omega

/-- Reads a line of imports. -/
def importLine (g : Grammar) (c : Cursor) : Reading (List Import) c.room :=
  (c.expectFirst .fromWord).andThen fun _ c₁ _ =>
    (c₁.expectAs .identifier .moduleName).andThen fun module c₂ _ =>
      (c₂.expect .importWord).andThen fun _ c₃ _ =>
        (importedNames g module.value c₃).andThen fun imports c₄ _ =>
          c₄.endOfLine.andThen fun _ c₅ _ => .pure imports c₅

/-! ### Functions -/

/-- Reads parameters up to the closing parenthesis.  A comma may stand behind the last. -/
def parameters (g : Grammar) (c : Cursor) : Reading (List Parameter) (c.left + 1) :=
  if _h : c.kind = .closeParen then .pure [] c
  else
    (c.expectAs .identifier .parameterName).andThen fun name c₁ _ =>
      (c₁.expectAs .colon .parameterType).andThen fun _ c₂ _ =>
        ((typeExpr g c₂).andThen fun type c₃ _ =>
          (c₃.separator .parameterEnd).andThen fun _ c₄ _ =>
            (parameters g c₄).andThen fun more c₅ _ =>
              .pure (⟨name.value, type, name.span.cover type.span⟩ :: more) c₅).weaken
                c₂.left_le_succ
termination_by c.left
decreasing_by omega

/-- Reads a function definition. -/
def functionDef (g : Grammar) (c : Cursor) : Reading Function c.room :=
  (c.expectFirst .defWord).andThen fun opening c₁ _ =>
    (c₁.expectAs .identifier .functionName).andThen fun name c₂ _ =>
      (c₂.expect .openParen).andThen fun _ c₃ _ =>
        (parameters g c₃).andThen fun params c₄ _ =>
          (c₄.expect .closeParen).andThen fun _ c₅ _ =>
            (resultType g c₅).andThen fun result c₆ _ =>
              (block g c₆).andThen fun body c₇ _ =>
                .pure ⟨name.value, params, result, body, opening.span.cover body.span⟩ c₇

/-! ### Programs -/

/-- An item of a program. -/
inductive Item where
  | imports (line : List Import)
  | function (definition : Function)

/-- The items up to the end of the input, or up to the first that cannot be read and why. -/
def items (g : Grammar) (c : Cursor) : List Item × Option Diagnostic :=
  if _h : c.kind = .eof then ([], none)
  else if c.kind = .newline then items g c.advance
  else if c.kind = .fromWord then
    match importLine g c with
    | .stuck why _ => ([], some why)
    | .done line rest _ =>
      let (more, failure) := items g rest
      (.imports line :: more, failure)
  else if c.kind = .defWord then
    match functionDef g c with
    | .stuck why _ => ([], some why)
    | .done definition rest _ =>
      let (more, failure) := items g rest
      (.function definition :: more, failure)
  else ([], some (c.unexpected .importOrDefinition))
termination_by c.left
decreasing_by
  all_goals
    have := Cursor.left_pos _h
    simp only [Cursor.room, Cursor.advance_left] at *
    omega

/-- The imports of an item. -/
def Item.importList : Item → List Import
  | imports line => line
  | function _ => []

/-- The function of an item. -/
def Item.functionList : Item → List Function
  | imports _ => []
  | function definition => [definition]

/-- The program made up of the items. -/
def Program.ofItems (items : List Item) : Program :=
  ⟨items.flatMap Item.importList, items.flatMap Item.functionList⟩

/-- The items of a token list, read with the grammar of the language. -/
def itemsOf (tokens : List Token) : List Item × Option Diagnostic :=
  items Grammar.standard (Cursor.ofTokens tokens)

/-- The program that the tokens say. -/
def Program.ofTokens (tokens : List Token) : Except Diagnostic Program :=
  match itemsOf tokens with
  | (items, none) => .ok (Program.ofItems items)
  | (_, some why) => .error why

end Offside.Surface

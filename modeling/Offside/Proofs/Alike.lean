/-
  Offside/Proofs/Alike.lean
  =========================
  **Positions are reported and nothing else.**  Tokens are compiled by what they say: if two
  token lists say the same, then either both are compiled, to the same bytes, or both are
  refused, by the same stage and for the same cause
  (`compileTokens_of_same_spelling`).

  The stages behind the scan are put in sequence once more here, so that a refusal tells the
  stage it comes from (`compileTokens`).
-/
import Offside.Compile
import Offside.Proofs.Lowering.Alike
import Offside.Proofs.Surface.ReadAlike

namespace Offside

/-- A result, or a refusal and the stage it comes from. -/
abbrev Staged (α : Type) := Except (Stage × Diagnostic) α

/-- The step of a stage. -/
def Stage.step {α : Type} (stage : Stage) (x : Except Diagnostic α) : Staged α :=
  x.mapError (stage, ·)

/-- Compiles tokens, stage by stage. -/
def compileTokens (tokens : List Token) : Staged (List UInt8) := do
  let program ← Stage.parse.step (Surface.Program.ofTokens tokens)
  let typed ← Stage.type.step (Typed.Module.ofProgram program)
  let module ← Stage.codegen.step (lowerModule typed).2
  return module.encode

/-- The result without the stage. -/
def Staged.unstaged {α : Type} (x : Staged α) : Except Diagnostic α := x.mapError (·.2)

theorem unstaged_step_bind {α β : Type} (stage : Stage) (x : Except Diagnostic α)
    (next : α → Staged β) :
    Staged.unstaged (stage.step x >>= next) = x >>= fun a => Staged.unstaged (next a) := by
  cases x with
  | ok a => rfl
  | error d => rfl

/-- A text is compiled by compiling its tokens. -/
theorem compile_eq_compileTokens (source : String) :
    compile source =
      Token.ofSource source >>= fun tokens => (compileTokens tokens).unstaged := by
  simp only [compileTokens, unstaged_step_bind]
  rfl

/-! ### The same bytes or the same refusal -/

variable {R : Position → Position → Prop}

/-- Both are compiled to the same bytes, or both are refused by the same stage, for the same
    cause and at related positions. -/
inductive StagedAlike (R : Position → Position → Prop) :
    Staged (List UInt8) → Staged (List UInt8) → Prop where
  | ok (bytes : List UInt8) : StagedAlike R (.ok bytes) (.ok bytes)
  | error (stage : Stage) {d d' : Diagnostic} (why : d.Alike R d') :
      StagedAlike R (.error (stage, d)) (.error (stage, d'))

theorem ResultAlike.step {α β : Type} {S : α → β → Prop} {x : Except Diagnostic α}
    {y : Except Diagnostic β} (h : ResultAlike R S x y) (stage : Stage)
    {next : α → Staged (List UInt8)} {next' : β → Staged (List UInt8)}
    (hnext : ∀ a b, S a b → StagedAlike R (next a) (next' b)) :
    StagedAlike R (stage.step x >>= next) (stage.step y >>= next') := by
  cases h with
  | ok value => exact hnext _ _ value
  | error why => exact .error stage why

theorem compileTokens_alike {ts ts' : List Token}
    (h : (Surface.Cursor.ofTokens ts).Alike R (Surface.Cursor.ofTokens ts')) :
    StagedAlike R (compileTokens ts) (compileTokens ts') := by
  refine (Surface.Program.ofTokens_alike h).step .parse ?_
  intro p p' hp
  refine (Typed.Module.ofProgram_alike hp).step .type ?_
  intro m m' hm
  refine (lowerModule_alike hm).step .codegen ?_
  rintro w _ rfl
  exact .ok w.encode

/-! ### Tokens that say the same -/

/-- Where tokens stand is no part of what they say. -/
theorem forall₂_alike_of_spelling {ts ts' : List Token}
    (h : ts.map Token.spelling = ts'.map Token.spelling) :
    List.Forall₂ (Token.Alike fun _ _ => True) ts ts' := by
  induction ts generalizing ts' with
  | nil =>
    cases ts' with
    | nil => exact .nil
    | cons t' ts' => cases h
  | cons t ts ih =>
    cases ts' with
    | nil => cases h
    | cons t' ts' =>
      obtain ⟨ht, hts⟩ := List.cons.inj h
      obtain ⟨hkind, hvalue⟩ := Spelling.mk.inj ht
      exact .cons ⟨hkind, hvalue, trivial⟩ (ih hts)

/-- Positions never influence what is compiled, nor which stage refuses and why. -/
theorem compileTokens_of_same_spelling {ts ts' : List Token}
    (h : ts.map Token.spelling = ts'.map Token.spelling) :
    (∃ bytes, compileTokens ts = .ok bytes ∧ compileTokens ts' = .ok bytes) ∨
      ∃ stage cause p p', compileTokens ts = .error (stage, ⟨cause, p⟩) ∧
        compileTokens ts' = .error (stage, ⟨cause, p'⟩) := by
  have halike := compileTokens_alike
    (Surface.Cursor.ofTokens_alike (forall₂_alike_of_spelling h) trivial)
  generalize compileTokens ts = x, compileTokens ts' = y at halike
  cases halike with
  | ok bytes => exact .inl ⟨bytes, rfl, rfl⟩
  | @error stage d d' why =>
    obtain ⟨cause, p⟩ := d
    obtain ⟨cause', p'⟩ := d'
    obtain rfl : cause = cause' := why.cause
    exact .inr ⟨stage, cause, p, p', rfl, rfl⟩

/-- The tokens of a function whose only statement is a `break`, each where it is placed. -/
def strayBreak (place : Nat → Span) : List Token :=
  [⟨.defWord, "def", place 0⟩, ⟨.identifier, "f", place 1⟩, ⟨.openParen, "(", place 2⟩,
    ⟨.closeParen, ")", place 3⟩, ⟨.colon, ":", place 4⟩, ⟨.breakWord, "break", place 5⟩,
    ⟨.newline, "\n", place 6⟩, ⟨.eof, "", place 7⟩]

theorem compileTokens_strayBreak :
    let side := strayBreak fun index => ⟨⟨index, 1, index + 1⟩, ⟨index + 1, 1, index + 2⟩⟩
    let below := strayBreak fun index => ⟨⟨index, index + 1, 1⟩, ⟨index + 1, index + 1, 2⟩⟩
    side ≠ below ∧ side.map Token.spelling = below.map Token.spelling ∧
      ((∃ bytes, compileTokens side = .ok bytes ∧ compileTokens below = .ok bytes) ∨
        ∃ stage cause p p', compileTokens side = .error (stage, ⟨cause, p⟩) ∧
          compileTokens below = .error (stage, ⟨cause, p'⟩)) :=
  ⟨by decide, rfl, compileTokens_of_same_spelling rfl⟩

end Offside

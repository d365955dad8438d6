/-
  Offside/Proofs/Termination.lean
  ===============================
  **The front end always ends.**  A step of the scan uses up bytes of the text, or it measures a
  fresh line and the line is not fresh any more.  A reader that the loops of the parser call uses
  up a token, or it fails.  So the loops of the scan and of the readers end on every text and on
  every list of tokens, wherever the end of the input stands in it and whether it is there at all
  (`frontEnd_ends`).

  The loops are run without a measure.  They are told how many turns or nested calls there may
  be, twice as many as the text has characters, or eight times as many as there are tokens, and
  a loop for which that is not enough gives nothing.
-/
import Mathlib.Data.Prod.Lex
import Offside.Proofs.Surface.WalkEnds
import Offside.Proofs.Token.Move

namespace Offside

/-! ### Scans -/

namespace Token.Scan

/-- What is left for a scan: the bytes to come, and whether a fresh line has to be measured. -/
def remaining (s : Scan) : Nat × Nat := (Text.byteLength s.rest, if s.fresh then 1 else 0)

/-- The loop of a scan, for at most `n` turns.  The tokens given so far are `given`. -/
def loop (n : Nat) (given : List Token) (s : Scan) : Option (Except Diagnostic (List Token)) :=
  match n with
  | 0 => none
  | n + 1 =>
    match s.rest with
    | [] => some (.ok (given ++ s.finish))
    | _ :: _ =>
      match s.step with
      | .error d => some (.error d)
      | .ok (ts, s') => loop n (given ++ ts) s'

variable {s t : Scan} {ts : List Token}

/-- A step uses up bytes, or the line is fresh no more. -/
theorem step_remaining (h : s.step = .ok (ts, t)) :
    Prod.Lex (· < ·) (· < ·) t.remaining s.remaining := by
  have hlexeme : ∀ {l : Lexeme}, Lexeme.read s.rest = some l →
      Text.byteLength l.rest < Text.byteLength s.rest := by
    intro l hread
    obtain ⟨happend, hne⟩ := Lexeme.read_append hread
    have hpos := Text.byteLength_pos hne
    rw [← happend, Text.byteLength_append]
    omega
  have hleading : s.AtLine →
      Prod.Lex (· < ·) (· < ·) s.afterLeading.remaining s.remaining := by
    intro hline
    have hbytes := congrArg Text.byteLength
      (List.takeWhile_append_dropWhile (p := isLeading) (l := s.rest))
    rw [Text.byteLength_append] at hbytes
    rw [remaining, remaining, hline.1, Prod.lex_iff]
    change Text.byteLength (s.rest.dropWhile isLeading) < _ ∨
      Text.byteLength (s.rest.dropWhile isLeading) = _ ∧ 0 < 1
    omega
  have hmove := s.step_move
  rw [h] at hmove
  cases hmove with
  | blank hline => exact hleading hline
  | measured hline _ hnest =>
    rcases nest_ok hnest with ⟨-, -, rfl⟩ | ⟨-, -, -, rfl⟩
    · exact hleading hline
    · exact hleading hline
  | skipped _ hread | ended _ hread | emitted _ _ hread => exact .left _ _ (hlexeme hread)

/-- The loop ends with the tokens of the scan. -/
theorem loop_eq {n : Nat} (h : s.weight < n) (given : List Token) :
    loop n given s = some (s.tokens.map (given ++ ·)) := by
  induction n generalizing s given with
  | zero => omega
  | succ n ih =>
    rw [loop]
    cases hrest : s.rest with
    | nil =>
      rw [tokens_of_end hrest]
      rfl
    | cons c cs =>
      have hne : s.rest ≠ [] := by simp [hrest]
      cases hstep : s.step with
      | error d =>
        rw [tokens_of_refused hne hstep]
        rfl
      | ok result =>
        obtain ⟨us, s'⟩ := result
        have hless := step_weight hstep
        change loop n (given ++ us) s' = _
        rw [tokens_of_step hne hstep, ih (by omega)]
        cases s'.tokens with
        | error d => rfl
        | ok more => exact congrArg (some ∘ Except.ok) (List.append_assoc given us more)

end Token.Scan

/-! ### The front end -/

open Surface.Walk (closed GetsOn)

/-- The scan ends on every text, and reading on every list of tokens: each step of the scan leaves
    less, each reader that a loop calls steps past a token or fails, and the loops come to what
    the scan and the readers give. -/
theorem frontEnd_ends :
    (∀ (s : Token.Scan) (us : List Token) (t : Token.Scan), s.step = .ok (us, t) →
      Prod.Lex (· < ·) (· < ·) t.remaining s.remaining) ∧
    (∀ (source : String) (n : Nat), 2 * source.toList.length + 1 < n →
      Token.Scan.loop n [] (.start source.toList) = some (Token.ofSource source)) ∧
    ∀ (tokens : List Token) (n : Nat), 8 * (closed tokens).length + 1 < n →
      (∃ i < (closed tokens).length,
        (Surface.Walk.program (closed tokens) .standard n).runAt 0 =
          some (Surface.Program.ofTokens tokens, i)) ∧
      (∀ floor, GetsOn (closed tokens) (Surface.Walk.expr (closed tokens) .standard n floor)) ∧
      (∀ tail strength left, GetsOn (closed tokens)
        (Surface.Walk.tailed (closed tokens) .standard n tail strength left)) ∧
      GetsOn (closed tokens) (Surface.Walk.stmt (closed tokens) .standard n) ∧
      GetsOn (closed tokens) (Surface.Walk.typeExpr (closed tokens) .standard) ∧
      GetsOn (closed tokens) (Surface.Walk.importLine (closed tokens) .standard n) ∧
      GetsOn (closed tokens) (Surface.Walk.functionDef (closed tokens) .standard n) := by
  refine ⟨fun _ _ _ => Token.Scan.step_remaining, ?_, ?_⟩
  · intro source n hn
    have hweight : (Token.Scan.start source.toList).weight < n := hn
    rw [Token.Scan.loop_eq hweight, Token.ofSource]
    cases (Token.Scan.start source.toList).tokens with
    | error d => rfl
    | ok ts => rfl
  · intro tokens n hn
    exact ⟨Surface.Walk.program_runAt tokens hn, Surface.Walk.expr_getsOn hn,
      Surface.Walk.tailed_getsOn hn, Surface.Walk.stmt_getsOn hn,
      Surface.Walk.typeExpr_getsOn tokens, Surface.Walk.importLine_getsOn hn,
      Surface.Walk.functionDef_getsOn hn⟩

/-- A call that is cut off, with an end of the input in the middle and none behind. -/
def strayTokens : List Token :=
  [⟨.newline, "", .nowhere⟩, ⟨.defWord, "", .nowhere⟩, ⟨.eof, "", .nowhere⟩,
    ⟨.openParen, "", .nowhere⟩]

theorem frontEnd_ends_strayTokens :
    Token.Scan.loop 16 [] (.start "x = \\\n\n".toList) = some (Token.ofSource "x = \\\n\n") ∧
    (closed strayTokens).length = 5 ∧
    ∃ i < 5, (Surface.Walk.program (closed strayTokens) .standard 42).runAt 0 =
      some (Surface.Program.ofTokens strayTokens, i) := by
  obtain ⟨-, hscan, hread⟩ := frontEnd_ends
  exact ⟨hscan "x = \\\n\n" 16 (by decide), rfl, (hread strayTokens 42 (by decide)).1⟩

end Offside

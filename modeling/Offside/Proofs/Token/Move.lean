/-
  Offside/Proofs/Token/Move.lean
  ==============================
  **What one step of a scan can do.**  A fresh line is passed over or measured.  Anywhere
  else a lexeme is refused, skipped, ends a line or becomes a token.  `Scan.Move` has a rule
  for each, with what the text must look like for it, and every step is one of them
  (`Scan.step_move`).  What is proved of scans below goes by these rules, and no proof has
  to open a step again.

  A scan that succeeds is a run of steps up to the end of the text, and what it gives is
  what the steps give and the tokens at the end (`Scan.exists_runs`).
-/
import Offside.Token.Scan

namespace Offside

/-- Holds for the kinds that only say how the text is laid out. -/
def Kind.isLayout (k : Kind) : Bool := k = .newline || k = .indent || k = .dedent || k = .eof

/-- Holds for the kinds of the marks where a block opens or closes. -/
def Kind.isBlockMark (k : Kind) : Bool := k = .indent || k = .dedent

theorem Kind.not_isBlockMark {k : Kind} (h : k.isLayout = false) : k.isBlockMark = false := by
  cases hk : k.isBlockMark with
  | false => rfl
  | true =>
    have hmark : k = .indent ∨ k = .dedent := by simpa [isBlockMark] using hk
    rcases hmark with rfl | rfl <;> cases h

namespace Token

/-! ### Lexemes -/

namespace Lexeme

/-- The kind of the token that a lexeme becomes, if it becomes one. -/
def kind? (l : Lexeme) : Option Kind :=
  match l.form with
  | .joint | .lineEnd | .gap => none
  | .quoted _ _ => some .char
  | .plain kind => some kind

/-- Holds for the lexemes that are not refused: a literal must be closed and stand for one
    character. -/
def isSound (l : Lexeme) : Bool :=
  match l.form with
  | .quoted body closed => closed && (decodeChar? body).isSome
  | .joint | .lineEnd | .gap | .plain _ => true

/-- A word is an identifier or reserved. -/
theorem ofWord_mem (word : String) :
    Kind.ofWord word = .identifier ∨ (word, Kind.ofWord word) ∈ Kind.reserved := by
  rw [Kind.ofWord, Kind.ofReserved?]
  cases hword : Kind.reserved.lookup word with
  | none => exact .inl rfl
  | some kind =>
    obtain ⟨before, after, hreserved, -⟩ := List.lookup_eq_some_iff.mp hword
    rw [hreserved]
    exact .inr (by simp)

theorem ofWord_not_layout (word : String) : (Kind.ofWord word).isLayout = false := by
  rcases ofWord_mem word with hword | hword
  · rw [hword]
    rfl
  · have hall : Kind.reserved.all (fun p => !p.2.isLayout) = true := by decide
    simpa using List.all_eq_true.mp hall _ hword

theorem numberText_kind (cs : List Char) :
    (numberText cs).1 = .integer ∨ (numberText cs).1 = .float := by
  have hdecimal : ∀ ds, (decimalText ds).1 = .integer ∨ (decimalText ds).1 = .float := by
    intro ds
    unfold decimalText
    split
    · exact .inr rfl
    · exact .inl rfl
  unfold numberText
  split
  · split
    · exact .inl rfl
    · exact hdecimal _
  · exact hdecimal _

theorem numberText_not_layout (cs : List Char) : (numberText cs).1.isLayout = false := by
  rcases numberText_kind cs with hkind | hkind <;> rw [hkind] <;> rfl

theorem literal_kind? (quote : Char) (cs : List Char) :
    (literal quote cs).kind? = some .char := by
  unfold literal
  split
  split
  · split <;> rfl
  · rfl

theorem readBy_not_layout {c : Char} {cs : List Char} {l : Lexeme} {k : Kind}
    (h : readBy c cs = some l) (hkind : l.kind? = some k) : k.isLayout = false := by
  unfold readBy at h
  split at h
  · cases h
    cases hkind
  split at h
  · cases h
    cases hkind
  split at h
  · cases h
    cases hkind
    exact ofWord_not_layout _
  split at h
  · cases h
    cases hkind
    exact numberText_not_layout _
  split at h
  · cases h
    rw [literal_kind?] at hkind
    cases hkind
    rfl
  · unfold sign? at h
    split at h <;> cases h <;> cases hkind <;> rfl

/-- No lexeme becomes a token for the layout. -/
theorem read_not_layout {cs : List Char} {l : Lexeme} {k : Kind} (h : read cs = some l)
    (hkind : l.kind? = some k) : k.isLayout = false := by
  unfold read at h
  split at h
  · cases h
  · cases h
    cases hkind
  · cases h
    cases hkind
  · cases h
    cases hkind
  · cases h
    cases hkind
  · exact readBy_not_layout h hkind

end Lexeme

namespace Scan

/-! ### Steps -/

/-- Holds of a scan that is about to look at a fresh line. -/
def AtLine (s : Scan) : Prop := s.fresh = true ∧ s.depth = 0

/-- What a step can do. -/
inductive Move (s : Scan) : Except Diagnostic (List Token × Scan) → Prop where
  /-- A line without a token is not measured. -/
  | blank (hline : s.AtLine) (hempty : isEmptyLine (s.rest.dropWhile isLeading) = true) :
      Move s (.ok ([], s.afterLeading))
  | measured {result : Except Diagnostic (List Token × Scan)} (hline : s.AtLine)
      (hempty : isEmptyLine (s.rest.dropWhile isLeading) = false)
      (hnest : s.afterLeading.nest (width (s.rest.takeWhile isLeading)) = result) :
      Move s result
  | refused (d : Diagnostic) (hline : ¬ s.AtLine)
      (hread : ∀ l, Lexeme.read s.rest = some l → l.isSound = false)
      (hcause : ∀ width, d.cause ≠ .inconsistentIndentation width) : Move s (.error d)
  | skipped {l : Lexeme} {place : Place} (hline : ¬ s.AtLine)
      (hread : Lexeme.read s.rest = some l) (hsound : l.isSound = true) (hkind : l.kind? = none)
      (hform : l.form ≠ .lineEnd)
      (hplace : place.offset = s.place.offset + Text.byteLength l.text) :
      Move s (.ok ([], { s.past l.text l.rest with place := place }))
  | ended {l : Lexeme} (hline : ¬ s.AtLine) (hread : Lexeme.read s.rest = some l)
      (hsound : l.isSound = true) (hform : l.form = .lineEnd) :
      Move s (.ok ((s.endLine l.text l.rest).1, (s.endLine l.text l.rest).2))
  | emitted {l : Lexeme} {kind : Kind} (value : List Char) (hline : ¬ s.AtLine)
      (hread : Lexeme.read s.rest = some l) (hsound : l.isSound = true)
      (hkind : l.kind? = some kind) :
      Move s (.ok ([s.token kind value l.text],
        { s.past l.text l.rest with depth := depthAfter s.depth kind, busy := true }))

variable {s s' s'' : Scan} {ts us : List Token}

theorem measureLine_move (hline : s.AtLine) : s.Move s.measureLine := by
  unfold measureLine
  dsimp only
  cases hempty : isEmptyLine s.afterLeading.rest with
  | true =>
    rw [if_pos rfl]
    exact .blank hline hempty
  | false =>
    rw [if_neg Bool.false_ne_true]
    exact .measured hline hempty rfl

theorem emitLiteral_move (hline : ¬ s.AtLine) {body text rest : List Char} {closed : Bool}
    (hread : Lexeme.read s.rest = some ⟨.quoted body closed, text, rest⟩) :
    s.Move (s.emitLiteral body closed text rest) := by
  have hrefused : (closed && (decodeChar? body).isSome) = false →
      ∀ l, Lexeme.read s.rest = some l → l.isSound = false := by
    intro hsound l hl
    rw [hread] at hl
    cases hl
    exact hsound
  unfold emitLiteral
  cases closed with
  | false =>
    rw [if_neg Bool.false_ne_true]
    exact .refused _ hline (hrefused rfl) (fun width => by simp [refuse])
  | true =>
    rw [if_pos rfl]
    cases hchar : decodeChar? body with
    | none => exact .refused _ hline (hrefused (by simp [hchar])) (fun width => by simp [refuse])
    | some c =>
      exact Move.emitted (l := ⟨.quoted body true, text, rest⟩) [c] hline hread
        (by simp [Lexeme.isSound, hchar]) rfl

theorem takeLexeme_move (hline : ¬ s.AtLine) : s.Move s.takeLexeme := by
  unfold takeLexeme
  split
  next hnone =>
    refine .refused _ hline ?_ (fun width => by simp [refuse])
    intro l hl
    rw [hnone] at hl
    cases hl
  next form text rest hread =>
    cases form with
    | joint => exact Move.skipped hline hread rfl rfl (by simp) rfl
    | lineEnd => exact Move.ended hline hread rfl rfl
    | gap => exact Move.skipped hline hread rfl rfl (by simp) rfl
    | quoted body closed => exact emitLiteral_move hline hread
    | plain kind => exact Move.emitted text hline hread rfl rfl

theorem step_move (s : Scan) : s.Move s.step := by
  unfold step
  split
  next hline => exact measureLine_move hline
  next hline => exact takeLexeme_move hline

/-- How a line fits into the open blocks, if it does: it opens one, or it closes those that
    are wider and the next one is as wide. -/
theorem nest_ok {width : Nat} (h : s.nest width = .ok (ts, s')) :
    (s.blocks.headD 0 < width ∧ ts = [s.mark .indent] ∧
      s' = { s with blocks := width :: s.blocks }) ∨
    (¬ s.blocks.headD 0 < width ∧ (s.blocks.dropWhile (width < ·)).headD 0 = width ∧
      ts = List.replicate (s.blocks.takeWhile (width < ·)).length (s.mark .dedent) ∧
      s' = { s with blocks := s.blocks.dropWhile (width < ·) }) := by
  unfold nest at h
  dsimp only at h
  split at h
  next hlt =>
    cases h
    exact .inl ⟨hlt, rfl, rfl⟩
  next hlt =>
    split at h
    next hwidth =>
      cases h
      exact .inr ⟨hlt, hwidth, rfl, rfl⟩
    next => cases h

/-- Blocks open and close where the scan is. -/
theorem nest_marks {width : Nat} (h : s.nest width = .ok (ts, s')) :
    s'.place = s.place ∧ ∀ t ∈ ts, t.span.start = s.place.position := by
  rcases nest_ok h with ⟨-, rfl, rfl⟩ | ⟨-, -, rfl, rfl⟩
  · refine ⟨rfl, fun t ht => ?_⟩
    rw [List.mem_singleton.mp ht]
    rfl
  · refine ⟨rfl, fun t ht => ?_⟩
    rw [List.eq_of_mem_replicate ht]
    rfl

/-- The end of a line gives its newline or nothing. -/
theorem eq_newline_of_mem_endLine {text rest : List Char} {t : Token}
    (h : t ∈ (s.endLine text rest).1) : t = s.token .newline ['\\', 'n'] text := by
  unfold endLine at h
  dsimp only at h
  split at h
  · exact List.mem_singleton.mp h
  · cases h

/-- The end of the text gives marks for the layout, where the scan is. -/
theorem mem_finish {t : Token} (h : t ∈ s.finish) :
    ∃ kind, kind.isLayout = true ∧ t = s.mark kind := by
  rw [finish, List.mem_append, List.mem_append, List.mem_singleton] at h
  rcases h with (h | h) | h
  · split at h
    · exact ⟨.newline, rfl, List.mem_singleton.mp h⟩
    · cases h
  · exact ⟨.dedent, rfl, List.eq_of_mem_replicate h⟩
  · exact ⟨.eof, rfl, h⟩

/-! ### Runs -/

/-- The tokens of a scan that has taken a step. -/
theorem tokens_of_step (hrest : s.rest ≠ []) (h : s.step = .ok (us, s')) :
    s.tokens = s'.tokens.map (us ++ ·) := by
  rw [Scan.tokens]
  split
  next hnil => exact absurd hnil hrest
  next =>
    split
    next d herror =>
      rw [h] at herror
      cases herror
    next vs s₁ hstep =>
      rw [h] at hstep
      cases hstep
      cases s'.tokens with
      | error d => rfl
      | ok more => rfl

theorem tokens_of_refused {d : Diagnostic} (hrest : s.rest ≠ []) (h : s.step = .error d) :
    s.tokens = .error d := by
  rw [Scan.tokens]
  split
  next hnil => exact absurd hnil hrest
  next =>
    split
    next d' herror =>
      rw [h] at herror
      cases herror
      rfl
    next vs s₁ hstep =>
      rw [h] at hstep
      cases hstep

theorem tokens_of_end (h : s.rest = []) : s.tokens = .ok s.finish := by
  rw [Scan.tokens]
  split
  next => rfl
  next c cs hcons =>
    rw [h] at hcons
    cases hcons

/-- Steps lead from one scan to the other and give the tokens. -/
inductive Runs : Scan → List Token → Scan → Prop where
  | refl (s : Scan) : Runs s [] s
  | step {s s' s'' : Scan} {ts us : List Token} (hrest : s.rest ≠ []) (h : s.step = .ok (ts, s'))
      (hs : Runs s' us s'') : Runs s (ts ++ us) s''

/-- A scan that succeeds runs to the end of the text. -/
theorem exists_runs (h : s.tokens = .ok ts) :
    ∃ us s', s.Runs us s' ∧ s'.rest = [] ∧ ts = us ++ s'.finish := by
  fun_induction Scan.tokens s generalizing ts with
  | case1 s hrest =>
    cases h
    exact ⟨[], s, .refl s, hrest, rfl⟩
  | case2 | case3 => cases h
  | case4 s c cs hrest us s' hstep more hmore ih =>
    cases h
    obtain ⟨vs, s'', hruns, hend, rfl⟩ := ih hmore
    refine ⟨us ++ vs, s'', .step (by simp [hrest]) hstep hruns, hend, ?_⟩
    rw [List.append_assoc]

theorem Runs.trans (h : s.Runs ts s') (h' : s'.Runs us s'') : s.Runs (ts ++ us) s'' := by
  induction h with
  | refl => exact h'
  | step hrest hstep _ ih =>
    rw [List.append_assoc]
    exact .step hrest hstep (ih h')

/-- The tokens of a scan that has come some way. -/
theorem Runs.tokens (h : s.Runs ts s') : s.tokens = s'.tokens.map (ts ++ ·) := by
  induction h with
  | refl s =>
    cases s.tokens with
    | error d => rfl
    | ok more => rfl
  | @step s s' s'' ts us hrest hstep _ ih =>
    rw [tokens_of_step hrest hstep, ih]
    cases s''.tokens with
    | error d => rfl
    | ok more => exact congrArg Except.ok (List.append_assoc ts us more).symm

/-! ### Fresh lines -/

/-- Where a fresh line begins, the last one is over and nothing of the new one is taken. -/
def Settled (s : Scan) : Prop :=
  s.fresh = true → s.depth = 0 ∧ s.busy = false ∧ s.place.lineStart = s.place.offset

theorem settled_start (text : List Char) : (start text).Settled := fun _ => ⟨rfl, rfl, rfl⟩

theorem Settled.step (h : s.Settled) (hstep : s.step = .ok (ts, s')) : s'.Settled := by
  have hinside : ¬ s.AtLine → s.fresh = false := fun hline =>
    Bool.eq_false_iff.mpr fun hfresh => hline ⟨hfresh, (h hfresh).1⟩
  have hmove := s.step_move
  rw [hstep] at hmove
  intro hfresh
  cases hmove with
  | blank => cases hfresh
  | measured hline hempty hnest =>
    rcases nest_ok hnest with ⟨-, -, rfl⟩ | ⟨-, -, -, rfl⟩ <;> cases hfresh
  | skipped hline => exact absurd hfresh (by simp [past, hinside hline])
  | ended hline hread hsound hform =>
    have hdepth : s.depth = 0 := of_decide_eq_true hfresh
    exact ⟨hdepth, by simp [endLine, hdepth], rfl⟩
  | emitted value hline => exact absurd hfresh (by simp [past, hinside hline])

theorem Settled.runs (h : s.Settled) (hruns : s.Runs ts s') : s'.Settled := by
  induction hruns with
  | refl => exact h
  | step _ hstep _ ih => exact ih (h.step hstep)

end Scan
end Token
end Offside

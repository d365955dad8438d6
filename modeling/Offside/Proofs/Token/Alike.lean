/-
  Offside/Proofs/Token/Alike.lean
  ===============================
  **Where a scan stands makes no difference to what it finds.**  A scan remembers the open
  blocks, the depth of parentheses and what the line is like; its place goes into spans and
  diagnostics only.  Two scans that remember the same take alike steps over lexemes of the
  same form and text, whatever text is behind them (`Scan.Alike.stepOver`), and alike measures of
  lines with the same leading characters (`Scan.Alike.measureLine`).

  As the readers do, the scan makes up no place.  So any relation between the places of two
  scans that holds on as they go (`Carried`) comes out between the starts of their tokens.
-/
import Offside.Proofs.Surface.Alike
import Offside.Proofs.Token.Lookahead

namespace Offside.Token

namespace Scan

/-! ### One scan -/

/-- Steps over the lexeme. -/
def stepOver (s : Scan) (l : Lexeme) : Except Diagnostic (List Token × Scan) :=
  match l.form with
  | .joint =>
    let after := s.past l.text l.rest
    .ok ([], { after with place := after.place.newLine })
  | .lineEnd => .ok (s.endLine l.text l.rest)
  | .gap => .ok ([], s.past l.text l.rest)
  | .quoted body closed => s.emitLiteral body closed l.text l.rest
  | .plain kind => .ok (s.emit kind l.text l.text l.rest)

variable {s s' : Scan}

theorem takeLexeme_eq_stepOver {l : Lexeme} (h : Lexeme.read s.rest = some l) :
    s.takeLexeme = s.stepOver l := by
  rw [takeLexeme, h]
  rfl

theorem step_of_atLine (h : s.AtLine) : s.step = s.measureLine := if_pos h

theorem step_of_not_atLine (h : ¬ s.AtLine) : s.step = s.takeLexeme := if_neg h

theorem step_of_read (h : ¬ s.AtLine) {l : Lexeme} (hread : Lexeme.read s.rest = some l) :
    s.step = s.stepOver l := (step_of_not_atLine h).trans (takeLexeme_eq_stepOver hread)

/-! ### Two scans -/

/-- The relation between places holds on when both scans go on, and `P` holds between the
    positions of related places. -/
structure Carried (R : Place → Place → Prop) (P : Position → Position → Prop) : Prop where
  position : ∀ {p p' : Place}, R p p' → P p.position p'.position
  advance : ∀ {p p' : Place} (bytes : Nat), R p p' → R (p.advance bytes) (p'.advance bytes)
  newLine : ∀ {p p' : Place}, R p p' → R p.newLine p'.newLine

/-- The scans remember the same and are at related places. -/
structure Alike (R : Place → Place → Prop) (s s' : Scan) : Prop where
  place : R s.place s'.place
  blocks : s.blocks = s'.blocks
  depth : s.depth = s'.depth
  fresh : s.fresh = s'.fresh
  busy : s.busy = s'.busy

/-- Both steps give tokens that say the same and lead to scans that remember the same, with
    texts in `Q` to come, or both refuse for the same cause. -/
inductive StepAlike (R : Place → Place → Prop) (P : Position → Position → Prop)
    (Q : List Char → List Char → Prop) :
    Except Diagnostic (List Token × Scan) → Except Diagnostic (List Token × Scan) → Prop where
  | ok {ts ts' : List Token} {t t' : Scan} (tokens : List.Forall₂ (Token.Alike P) ts ts')
      (next : t.Alike R t') (rest : Q t.rest t'.rest) :
      StepAlike R P Q (.ok (ts, t)) (.ok (ts', t'))
  | error {d d' : Diagnostic} (why : d.Alike P d') : StepAlike R P Q (.error d) (.error d')

namespace Alike

variable {R : Place → Place → Prop} {P : Position → Position → Prop}
  {Q : List Char → List Char → Prop}

theorem past (h : s.Alike R s') (hR : Carried R P) (text rest rest' : List Char) :
    (s.past text rest).Alike R (s'.past text rest') :=
  ⟨hR.advance _ h.place, h.blocks, h.depth, h.fresh, h.busy⟩

theorem mark (h : s.Alike R s') (hR : Carried R P) (kind : Kind) :
    (s.mark kind).Alike P (s'.mark kind) :=
  ⟨rfl, rfl, hR.position h.place⟩

theorem marks (h : s.Alike R s') (hR : Carried R P) (kind : Kind) (n : Nat) :
    List.Forall₂ (Token.Alike P) (List.replicate n (s.mark kind))
      (List.replicate n (s'.mark kind)) := by
  induction n with
  | zero => exact .nil
  | succ n ih => exact .cons (h.mark hR kind) ih

theorem refuse (h : s.Alike R s') (hR : Carried R P) (cause : Cause) :
    (s.refuse cause).Alike P (s'.refuse cause) :=
  ⟨rfl, hR.position h.place⟩

theorem emit (h : s.Alike R s') (hR : Carried R P) (kind : Kind) (value text : List Char)
    {rest rest' : List Char} (hrest : Q rest rest') :
    StepAlike R P Q (.ok (s.emit kind value text rest)) (.ok (s'.emit kind value text rest')) := by
  refine .ok (.cons ⟨rfl, rfl, hR.position h.place⟩ .nil) ?_ hrest
  exact ⟨hR.advance _ h.place, h.blocks, congrArg (depthAfter · kind) h.depth, h.fresh, rfl⟩

theorem emitLiteral (h : s.Alike R s') (hR : Carried R P) (body : List Char) (closed : Bool)
    (text : List Char) {rest rest' : List Char} (hrest : Q rest rest') :
    StepAlike R P Q (s.emitLiteral body closed text rest)
      (s'.emitLiteral body closed text rest') := by
  unfold Scan.emitLiteral
  cases closed with
  | false => exact .error (h.refuse hR _)
  | true =>
    rw [if_pos rfl, if_pos rfl]
    cases decodeChar? body with
    | none => exact .error (h.refuse hR _)
    | some c => exact h.emit hR .char [c] text hrest

/-- A line begins anew wherever the last one ended, and the scans may come level there. -/
theorem afterLine {R' : Place → Place → Prop} (h : s.Alike R s') {text text' rest rest' : List Char}
    (hplace : R' (s.past text rest).place.newLine (s'.past text' rest').place.newLine) :
    (s.endLine text rest).2.Alike R' (s'.endLine text' rest').2 := by
  refine ⟨hplace, h.blocks, h.depth, ?_, ?_⟩
  · exact congrArg (fun depth : Nat => decide (depth = 0)) h.depth
  · change (s.busy && s.depth ≠ 0) = (s'.busy && s'.depth ≠ 0)
    rw [h.depth, h.busy]

theorem endLine (h : s.Alike R s') (hR : Carried R P) (text : List Char) {rest rest' : List Char}
    (hrest : Q rest rest') :
    StepAlike R P Q (.ok (s.endLine text rest)) (.ok (s'.endLine text rest')) := by
  refine .ok ?_ (h.afterLine (hR.newLine (hR.advance _ h.place))) hrest
  rw [← h.depth, ← h.busy]
  split
  · exact .cons ⟨rfl, rfl, hR.position h.place⟩ .nil
  · exact .nil

theorem stepOver (h : s.Alike R s') (hR : Carried R P) {l l' : Lexeme} (hform : l.form = l'.form)
    (htext : l.text = l'.text) (hrest : Q l.rest l'.rest) :
    StepAlike R P Q (s.stepOver l) (s'.stepOver l') := by
  obtain ⟨form, text, rest⟩ := l
  obtain ⟨form', text', rest'⟩ := l'
  obtain rfl : form = form' := hform
  obtain rfl : text = text' := htext
  cases form with
  | joint =>
    exact .ok .nil ⟨hR.newLine (hR.advance _ h.place), h.blocks, h.depth, h.fresh, h.busy⟩ hrest
  | lineEnd => exact h.endLine hR text hrest
  | gap => exact .ok .nil (h.past hR text rest rest') hrest
  | quoted body closed => exact h.emitLiteral hR body closed text hrest
  | plain kind => exact h.emit hR kind text text hrest

theorem nest (h : s.Alike R s') (hR : Carried R P) (hrest : Q s.rest s'.rest) (width : Nat) :
    StepAlike R P Q (s.nest width) (s'.nest width) := by
  unfold Scan.nest
  rw [← h.blocks]
  split
  · exact .ok (.cons (h.mark hR .indent) .nil) ⟨h.place, rfl, h.depth, h.fresh, h.busy⟩ hrest
  dsimp only
  split
  · exact .ok (h.marks hR .dedent _) ⟨h.place, rfl, h.depth, h.fresh, h.busy⟩ hrest
  · exact .error (h.refuse hR _)

theorem measureLine (h : s.Alike R s') (hR : Carried R P)
    (hleading : s.rest.takeWhile isLeading = s'.rest.takeWhile isLeading)
    (hempty : isEmptyLine (s.rest.dropWhile isLeading) = isEmptyLine (s'.rest.dropWhile isLeading))
    (hrest : Q (s.rest.dropWhile isLeading) (s'.rest.dropWhile isLeading)) :
    StepAlike R P Q s.measureLine s'.measureLine := by
  have hafter : s.afterLeading.Alike R s'.afterLeading := by
    refine ⟨?_, h.blocks, h.depth, rfl, h.busy⟩
    change R (s.place.advance _) (s'.place.advance _)
    rw [hleading]
    exact hR.advance _ h.place
  unfold Scan.measureLine
  change StepAlike R P Q (if isEmptyLine (s.rest.dropWhile isLeading) = true then _ else _)
    (if isEmptyLine (s'.rest.dropWhile isLeading) = true then _ else _)
  rw [hempty, hleading]
  split
  · exact .ok .nil hafter hrest
  · exact hafter.nest hR hrest _

/-- A line is measured up to its end at most, whichever way it ends. -/
theorem measureLine_upTo_end (h : s.Alike R s') (hR : Carried R P) {line rest rest' : List Char}
    (hrest : s.rest = line ++ rest) (hrest' : s'.rest = line ++ rest')
    (hend : Lexeme.AtLineEnd rest) (hend' : Lexeme.AtLineEnd rest')
    (hQ : Q (line.dropWhile isLeading ++ rest) (line.dropWhile isLeading ++ rest')) :
    StepAlike R P Q s.measureLine s'.measureLine := by
  have hempty : ∀ {more}, Lexeme.AtLineEnd more → isEmptyLine more = true := by
    intro more hmore
    cases more with
    | nil => rfl
    | cons c cs =>
      rcases List.mem_pair.mp (hmore c rfl) with rfl | rfl <;> rfl
  have hstop : StopsAt isLeading rest := hend.stopsAt (by decide)
  have hstop' : StopsAt isLeading rest' := hend'.stopsAt (by decide)
  apply h.measureLine hR
  · rw [hrest, hrest', takeWhile_append_stop hstop, takeWhile_append_stop hstop']
  · rw [hrest, hrest', dropWhile_append_stop hstop, dropWhile_append_stop hstop']
    cases line.dropWhile isLeading with
    | nil => exact (hempty hend).trans (hempty hend').symm
    | cons c cs => rfl
  · rwa [hrest, hrest', dropWhile_append_stop hstop, dropWhile_append_stop hstop']

theorem finish (h : s.Alike R s') (hR : Carried R P) :
    List.Forall₂ (Token.Alike P) s.finish s'.finish := by
  rw [Scan.finish, Scan.finish, ← h.busy, ← h.blocks]
  refine List.rel_append (List.rel_append ?_ (h.marks hR .dedent _)) (.cons (h.mark hR .eof) .nil)
  split
  · exact .cons (h.mark hR .newline) .nil
  · exact .nil

theorem atLine (h : s.Alike R s') : s.AtLine ↔ s'.AtLine := by
  rw [AtLine, AtLine, h.fresh, h.depth]

/-- Scans that remember the same and have the same text to come take alike steps. -/
theorem step (h : s.Alike R s') (hR : Carried R P) (hrest : s.rest = s'.rest) :
    StepAlike R P Eq s.step s'.step := by
  by_cases hline : s.AtLine
  · rw [step_of_atLine hline, step_of_atLine (h.atLine.mp hline)]
    exact h.measureLine hR (by rw [hrest]) (by rw [hrest]) (by rw [hrest])
  · rw [step_of_not_atLine hline, step_of_not_atLine (fun h' => hline (h.atLine.mpr h'))]
    cases hread : Lexeme.read s.rest with
    | none =>
      unfold takeLexeme
      rw [← hrest, hread]
      exact .error (h.refuse hR _)
    | some l =>
      rw [takeLexeme_eq_stepOver hread, takeLexeme_eq_stepOver (hrest ▸ hread)]
      exact h.stepOver hR rfl rfl rfl

/-- Scans that remember the same and have the same text to come give tokens that say the
    same. -/
theorem tokens (h : s.Alike R s') (hR : Carried R P) (hrest : s.rest = s'.rest) :
    ResultAlike P (List.Forall₂ (Token.Alike P)) s.tokens s'.tokens := by
  fun_induction Scan.tokens s generalizing s' with
  | case1 s hnil =>
    rw [tokens_of_end (hrest ▸ hnil)]
    exact .ok (h.finish hR)
  | case2 s c cs hcons d hstep =>
    have hne : s'.rest ≠ [] := by simp [← hrest, hcons]
    have hboth := h.step hR hrest
    rw [hstep] at hboth
    generalize hstep' : s'.step = x at hboth
    cases hboth with
    | error why =>
      rw [tokens_of_refused hne hstep']
      exact .error why
  | case3 s c cs hcons us t hstep d hmore ih =>
    have hne : s'.rest ≠ [] := by simp [← hrest, hcons]
    have hboth := h.step hR hrest
    rw [hstep] at hboth
    generalize hstep' : s'.step = x at hboth
    cases hboth with
    | ok tokens next rest =>
      have hall := ih next rest
      rw [hmore] at hall
      rw [tokens_of_step hne hstep']
      generalize Scan.tokens _ = y at hall
      cases hall with
      | error why => exact .error why
  | case4 s c cs hcons us t hstep more hmore ih =>
    have hne : s'.rest ≠ [] := by simp [← hrest, hcons]
    have hboth := h.step hR hrest
    rw [hstep] at hboth
    generalize hstep' : s'.step = x at hboth
    cases hboth with
    | ok tokens next rest =>
      have hall := ih next rest
      rw [hmore] at hall
      rw [tokens_of_step hne hstep']
      generalize Scan.tokens _ = y at hall
      cases hall with
      | ok value => exact .ok (List.rel_append tokens value)

end Alike

/-- Scans that have given tokens that say the same, and go on to, give such tokens as a
    whole. -/
theorem Runs.resultAlike {P : Position → Position → Prop} {t t' : Scan} {ts ts' : List Token}
    (h : s.Runs ts t) (h' : s'.Runs ts' t') (htokens : List.Forall₂ (Token.Alike P) ts ts')
    (hmore : ResultAlike P (List.Forall₂ (Token.Alike P)) t.tokens t'.tokens) :
    ResultAlike P (List.Forall₂ (Token.Alike P)) s.tokens s'.tokens := by
  rw [h.tokens, h'.tokens]
  generalize t.tokens = x, t'.tokens = y at hmore
  cases hmore with
  | error why => exact .error why
  | ok value => exact .ok (List.rel_append htokens value)

end Scan
end Offside.Token

/-
  Offside/Proofs/Surface/ReadAlike.lean
  =====================================
  **What says the same is read in the same way.**  Every reader, started where the same is
  ahead, gives trees that differ in their spans alone or fails for the same cause
  (`Program.ofTokens_alike` for whole programs).

  Each reader has its lemma, which goes through the reader's steps and cites those of the
  readers it calls.  Readers that call themselves do so on fewer tokens, and their lemmas
  with them, by the same measure.
-/
import Offside.Proofs.Surface.Alike

namespace Offside.Surface

open Number

variable {R : Position → Position → Prop}

/-! ### Single tokens -/

section Tokens

variable {c c' : Cursor}

theorem expectAs_alike (h : c.Alike R c') (k : Kind) (expected : Expected) :
    (c.expectAs k expected).Alike R (Token.Alike R) (c'.expectAs k expected) := by
  rw [Cursor.expectAs, Cursor.expectAs]
  apply Reading.Alike.ite (by rw [h.kind])
  · intro _
    exact .done h.current h.advance
  · intro _
    exact .stuck (h.unexpected expected)

theorem expect_alike (h : c.Alike R c') (k : Kind) :
    (c.expect k).Alike R (Token.Alike R) (c'.expect k) := expectAs_alike h k _

theorem expectFirst_alike (h : c.Alike R c') (k : Kind) :
    (c.expectFirst k).Alike R (Token.Alike R) (c'.expectFirst k) := by
  rw [Cursor.expectFirst, Cursor.expectFirst]
  apply Reading.Alike.ite (by rw [h.kind])
  · intro _
    exact .done h.current h.advance
  · intro _
    exact .stuck (h.unexpected _)

theorem endOfLine_alike (h : c.Alike R c') :
    c.endOfLine.Alike R (fun _ _ => True) c'.endOfLine := by
  rw [Cursor.endOfLine, Cursor.endOfLine]
  apply Reading.Alike.ite (by rw [h.kind])
  · intro _
    exact .done trivial h.advance
  intro _
  apply Reading.Alike.ite (by rw [h.kind])
  · intro _
    exact .pure trivial h
  · intro _
    exact .stuck (h.unexpected _)

theorem separator_alike (h : c.Alike R c') (expected : Expected) :
    (c.separator expected).Alike R (fun _ _ => True) (c'.separator expected) := by
  rw [Cursor.separator, Cursor.separator]
  apply Reading.Alike.ite (by rw [h.kind])
  · intro _
    exact .done trivial h.advance
  intro _
  apply Reading.Alike.ite (by rw [h.kind])
  · intro _
    exact .pure trivial h
  · intro _
    exact .stuck (h.unexpected _)

theorem badNumber_alike (text : String) {p p' : Position} (h : R p p') :
    (badNumber text p).Alike R (badNumber text p') := ⟨rfl, h⟩

theorem literal_alike (h : c.Alike R c') :
    (literal c).Alike R (Expr.Alike R) (literal c') := by
  have ht := h.current
  rw [literal, literal, ← ht.value]
  apply Reading.Alike.dite (by rw [h.kind])
  · intro _ _
    cases integer? c.current.value with
    | none => exact .stuck (badNumber_alike _ ht.span)
    | some value => exact .done (.number value ht.span) h.advance
  intro _ _
  apply Reading.Alike.dite (by rw [h.kind])
  · intro _ _
    cases Binary64.ofText? c.current.value with
    | none => exact .stuck (badNumber_alike _ ht.span)
    | some value => exact .done (.float value ht.span) h.advance
  intro _ _
  apply Reading.Alike.dite (by rw [h.kind])
  · intro _ _
    exact .done (.symbol _ ht.span) h.advance
  · intro _ _
    exact .stuck (h.unexpected _)

theorem negatedMagnitude_alike {t t' : Token} (ht : t.Alike R t') {minus minus' : Span}
    (hminus : minus.Alike R minus') :
    (∃ value, negatedMagnitude minus t = .ok value ∧ negatedMagnitude minus' t' = .ok value) ∨
      ∃ d d', negatedMagnitude minus t = .error d ∧ negatedMagnitude minus' t' = .error d' ∧
        d.Alike R d' := by
  rw [negatedMagnitude, negatedMagnitude, ← ht.value]
  by_cases hhex : (afterHexMark? t.value.toList).isSome
  · rw [if_pos hhex, if_pos hhex]
    cases integer? t.value with
    | none => exact .inr ⟨_, _, rfl, rfl, badNumber_alike _ ht.span⟩
    | some value => exact .inl ⟨_, rfl, rfl⟩
  · rw [if_neg hhex, if_neg hhex]
    cases magnitude? t.value with
    | none => exact .inr ⟨_, _, rfl, rfl, badNumber_alike _ hminus⟩
    | some value => exact .inl ⟨_, rfl, rfl⟩

theorem negatedInteger_alike (h : c.Alike R c') {minus minus' : Span}
    (hminus : minus.Alike R minus') (hint : c.kind = .integer) (hint' : c'.kind = .integer) :
    (negatedInteger minus c hint).Alike R (Expr.Alike R) (negatedInteger minus' c' hint') := by
  rw [negatedInteger, negatedInteger]
  rcases negatedMagnitude_alike h.current hminus with ⟨value, hv, hv'⟩ | ⟨d, d', hd, hd', hwhy⟩
  · rw [hv, hv']
    exact .done (.number _ hminus) h.advance
  · rw [hd, hd']
    exact .stuck hwhy

theorem negation_alike {e e' : Expr} (he : e.Alike R e') {s s' : Span} (hs : s.Alike R s') :
    (negation e s).Alike R (negation e' s') := by
  cases he with
  | float value _ => exact .float value.neg hs
  | number value he => exact .negate (.number value he) hs
  | char value he => exact .negate (.char value he) hs
  | symbol name he => exact .negate (.symbol name he) hs
  | binary op hl hr he => exact .negate (.binary op hl hr he) hs
  | compare op hl hr he => exact .negate (.compare op hl hr he) hs
  | logic op hl hr he => exact .negate (.logic op hl hr he) hs
  | negate he' he => exact .negate (.negate he' he) hs
  | call callee hes he => exact .negate (.call callee hes he) hs

theorem charOf_alike {t t' : Token} (h : t.Alike R t') : charOf t = charOf t' := by
  rw [charOf, charOf, h.value]

end Tokens

/-! ### Expressions -/

section Readers

variable {g : Grammar}

mutual

theorem expr_alike {c c' : Cursor} (h : c.Alike R c') (floor : Strength) :
    (expr g floor c).Alike R (Expr.Alike R) (expr g floor c') := by
  rw [expr, expr, ← h.kind]
  cases g.head c.kind with
  | none => exact .stuck (h.unexpected _)
  | some head =>
    refine (headed_alike h head).andThen ?_
    intro e e' c₁ c₁' _ _ he hc₁
    exact climb_alike hc₁ floor he
termination_by 8 * c.left + 2

theorem operand_alike {c c' : Cursor} (h : c.Alike R c') (floor : Strength) :
    (operand g floor c).Alike R (Expr.Alike R) (operand g floor c') := by
  rw [operand, operand]
  apply Reading.Alike.dite (by rw [h.left])
  · intro _ _
    exact (expr_alike h.advance floor).weaken _ _
  · intro _ _
    exact .stuck (h.unexpected _)
termination_by 8 * c.left

theorem headed_alike {c c' : Cursor} (h : c.Alike R c') (head : Head) :
    (headed g head c).Alike R (Expr.Alike R) (headed g head c') := by
  have hminus := h.current.span
  cases head with
  | literal =>
    rw [headed, headed]
    exact literal_alike h
  | char =>
    rw [headed, headed]
    exact .stuck (h.unexpected _)
  | minus =>
    rw [headed, headed]
    apply Reading.Alike.dite (by rw [h.advance.kind, h.advance.peek])
    · intro _ _
      exact (negatedInteger_alike h.advance hminus _ _).weaken _ _
    · intro _ _
      refine (operand_alike h .unary).andThen ?_
      intro e e' c₁ c₁' _ _ he hc₁
      exact .pure (negation_alike he hminus) hc₁
  | group =>
    rw [headed, headed]
    refine (operand_alike h .lowest).andThen ?_
    intro e e' c₁ c₁' _ _ he hc₁
    refine (expect_alike hc₁ .closeParen).andThen ?_
    intro _ _ c₂ c₂' _ _ _ hc₂
    exact .pure he hc₂
termination_by 8 * c.left + 1

theorem climb_alike {c c' : Cursor} (h : c.Alike R c') (floor : Strength) {left left' : Expr}
    (hleft : left.Alike R left') :
    (climb g floor left c).Alike R (Expr.Alike R) (climb g floor left' c') := by
  rw [climb, climb, ← h.kind]
  cases g.tail c.kind with
  | none => exact .pure hleft h
  | some found =>
    obtain ⟨strength, tail⟩ := found
    apply Reading.Alike.ite Iff.rfl
    · intro _
      refine Reading.Alike.weaken ?_ _ _
      refine (tailed_alike h tail strength hleft).andThen ?_
      intro e e' c₁ c₁' _ _ he hc₁
      exact climb_alike hc₁ floor he
    · intro _
      exact .pure hleft h
termination_by 8 * c.left + 5

theorem tailed_alike {c c' : Cursor} (h : c.Alike R c') (tail : Tail) (strength : Strength)
    {left left' : Expr} (hleft : left.Alike R left') :
    (tailed g tail strength left c).Alike R (Expr.Alike R)
      (tailed g tail strength left' c') := by
  have hunexpected : Diagnostic.Alike R ⟨.unexpectedToken c.current.value, c.position⟩
      ⟨.unexpectedToken c'.current.value, c'.position⟩ := by
    refine ⟨?_, h.position⟩
    rw [h.current.value]
  cases tail with
  | arithmetic =>
    rw [tailed, tailed, ← h.kind]
    cases arithmeticOf? c.kind with
    | none => exact .stuck hunexpected
    | some op =>
      refine (operand_alike h strength).andThen ?_
      intro e e' c₁ c₁' _ _ he hc₁
      exact .pure (.binary op hleft he hleft.span) hc₁
  | comparison =>
    rw [tailed, tailed, ← h.kind]
    cases comparisonOf? c.kind with
    | none => exact .stuck hunexpected
    | some op =>
      refine (operand_alike h strength).andThen ?_
      intro e e' c₁ c₁' _ _ he hc₁
      apply Reading.Alike.ite (by rw [hc₁.kind])
      · intro _
        exact .stuck (hc₁.unexpected _)
      · intro _
        exact .pure (.compare op hleft he hleft.span) hc₁
  | connective =>
    rw [tailed, tailed, ← h.kind]
    refine (operand_alike h strength).andThen ?_
    intro e e' c₁ c₁' _ _ he hc₁
    exact .pure (.logic _ hleft he hleft.span) hc₁
  | call =>
    cases hleft with
    | symbol name hs =>
      rw [tailed, tailed]
      exact called_alike h name hs
    | number | float | char | binary | compare | logic | negate | call =>
      rw [tailed, tailed]
      · exact .stuck (h.unexpected _)
      all_goals exact fun _ _ heq => nomatch heq
termination_by 8 * c.left + 4

theorem called_alike {c c' : Cursor} (h : c.Alike R c') (callee : String) {s s' : Span}
    (hs : s.Alike R s') :
    (called g callee s c).Alike R (Expr.Alike R) (called g callee s' c') := by
  rw [called, called]
  apply Reading.Alike.dite (by rw [h.advance.kind])
  · intro _ _
    rw [charOf_alike h.advance.current]
    refine Reading.Alike.weaken ?_ _ _
    refine (expect_alike h.advance.advance .closeParen).andThen ?_
    intro _ _ c₁ c₁' _ _ _ hc₁
    exact .pure (.char _ hs) hc₁
  intro _ _
  apply Reading.Alike.dite (by rw [h.left])
  · intro _ _
    refine Reading.Alike.weaken ?_ _ _
    refine (arguments_alike h.advance).andThen ?_
    intro es es' c₁ c₁' _ _ hes hc₁
    refine (expect_alike hc₁ .closeParen).andThen ?_
    intro _ _ c₂ c₂' _ _ _ hc₂
    exact .pure (.call callee hes hs) hc₂
  · intro _ _
    exact operand_alike h .lowest
termination_by 8 * c.left + 3

theorem arguments_alike {c c' : Cursor} (h : c.Alike R c') :
    (arguments g c).Alike R (ExprsAlike R) (arguments g c') := by
  rw [arguments, arguments]
  apply Reading.Alike.ite (by rw [h.kind])
  · intro _
    exact .pure .nil h
  intro _
  refine Reading.Alike.weaken ?_ _ _
  refine (expr_alike h .lowest).andThen ?_
  intro e e' c₁ c₁' _ _ he hc₁
  refine (separator_alike hc₁ .argumentEnd).andThen ?_
  intro _ _ c₂ c₂' _ _ _ hc₂
  refine (arguments_alike hc₂).andThen ?_
  intro es es' c₃ c₃' _ _ hes hc₃
  exact .pure (.cons he hes) hc₃
termination_by 8 * c.left + 3

end


/-! ### Statements -/

theorem afterExpression_alike {c c' : Cursor} (h : c.Alike R c') {e e' : Expr}
    (he : e.Alike R e') :
    (afterExpression g e c).Alike R (Stmt.Alike R) (afterExpression g e' c') := by
  unfold afterExpression
  apply Reading.Alike.ite (by rw [h.kind])
  · intro _
    cases he with
    | symbol name hs =>
      refine Reading.Alike.weaken ?_ _ _
      refine (expr_alike h.advance .lowest).andThen ?_
      intro value value' c₁ c₁' _ _ hvalue hc₁
      refine (endOfLine_alike hc₁).andThen ?_
      intro _ _ c₂ c₂' _ _ _ hc₂
      exact .pure (.assign name hvalue hs) hc₂
    | number | float | char | binary | compare | logic | negate | call =>
      exact .stuck (h.unexpected _)
  · intro _
    cases he with
    | call callee hes hs =>
      refine (endOfLine_alike h).andThen ?_
      intro _ _ c₁ c₁' _ _ _ hc₁
      exact .pure (.perform (.call callee hes hs) hs) hc₁
    | number | float | char | symbol | binary | compare | logic | negate =>
      exact .stuck (h.unexpected _)

theorem assignmentOrCall_alike {c c' : Cursor} (h : c.Alike R c') :
    (assignmentOrCall g c).Alike R (Stmt.Alike R) (assignmentOrCall g c') := by
  refine (expr_alike h .lowest).andThen ?_
  intro e e' c₁ c₁' _ _ he hc₁
  exact afterExpression_alike hc₁ he

theorem oneWord_alike {c c' : Cursor} (h : c.Alike R c') {make : Span → Stmt}
    (hmake : ∀ s s' : Span, s.Alike R s' → (make s).Alike R (make s')) :
    (oneWord make c).Alike R (Stmt.Alike R) (oneWord make c') := by
  refine Reading.Alike.weaken ?_ _ _
  refine (endOfLine_alike h.advance).andThen ?_
  intro _ _ c₁ c₁' _ _ _ hc₁
  exact .pure (hmake _ _ h.current.span) hc₁

theorem returnStmt_alike {c c' : Cursor} (h : c.Alike R c') :
    (returnStmt g c).Alike R (Stmt.Alike R) (returnStmt g c') := by
  rw [returnStmt, returnStmt]
  apply Reading.Alike.ite (by rw [h.advance.kind])
  · intro _
    refine Reading.Alike.weaken ?_ _ _
    refine (endOfLine_alike h.advance).andThen ?_
    intro _ _ c₁ c₁' _ _ _ hc₁
    exact .pure (.retNone h.position) hc₁
  · intro _
    refine Reading.Alike.weaken ?_ _ _
    refine (expr_alike h.advance .lowest).andThen ?_
    intro e e' c₁ c₁' _ _ he hc₁
    refine (endOfLine_alike hc₁).andThen ?_
    intro _ _ c₂ c₂' _ _ _ hc₂
    exact .pure (.ret he h.position) hc₂

mutual

theorem stmt_alike {c c' : Cursor} (h : c.Alike R c') :
    (stmt g c).Alike R (Stmt.Alike R) (stmt g c') := by
  rw [stmt, stmt, ← h.kind]
  cases g.lead c.kind with
  | some lead => exact ledStmt_alike h lead
  | none => exact (assignmentOrCall_alike h).weaken _ _
termination_by 8 * c.left + 2

theorem ledStmt_alike {c c' : Cursor} (h : c.Alike R c') (lead : Lead) :
    (ledStmt g lead c).Alike R (Stmt.Alike R) (ledStmt g lead c') := by
  cases lead with
  | ifLead =>
    rw [ledStmt, ledStmt]
    exact ifStmt_alike h
  | whileLead =>
    rw [ledStmt, ledStmt]
    exact whileStmt_alike h
  | returnLead =>
    rw [ledStmt, ledStmt]
    exact returnStmt_alike h
  | passLead =>
    rw [ledStmt, ledStmt]
    exact oneWord_alike h fun _ _ hs => .pass hs
  | breakLead =>
    rw [ledStmt, ledStmt]
    exact oneWord_alike h fun _ _ hs => .brk hs
  | continueLead =>
    rw [ledStmt, ledStmt]
    exact oneWord_alike h fun _ _ hs => .cont hs
termination_by 8 * c.left + 1

theorem ifStmt_alike {c c' : Cursor} (h : c.Alike R c') :
    (ifStmt g c).Alike R (Stmt.Alike R) (ifStmt g c') := by
  rw [ifStmt, ifStmt]
  refine Reading.Alike.weaken ?_ _ _
  refine (expr_alike h.advance .lowest).andThen ?_
  intro e e' c₁ c₁' _ _ he hc₁
  refine (block_alike hc₁).andThen ?_
  intro b b' c₂ c₂' _ _ hb hc₂
  exact otherwise_alike hc₂ h.position he hb
termination_by 8 * c.left
decreasing_by all_goals simp only [Cursor.advance_left] at *; omega

theorem otherwise_alike {c c' : Cursor} (h : c.Alike R c') {start start' : Position}
    (hstart : R start start') {e e' : Expr} (he : e.Alike R e') {b b' : Block Stmt}
    (hb : BlockAlike R b b') :
    (otherwise g start e b c).Alike R (Stmt.Alike R) (otherwise g start' e' b' c') := by
  rw [otherwise, otherwise]
  apply Reading.Alike.ite (by rw [h.kind])
  · intro _
    refine Reading.Alike.weaken ?_ _ _
    refine (ifStmt_alike h).andThen ?_
    intro nested nested' c₁ c₁' _ _ hnested hc₁
    exact .pure (.ifElse he hb (.intro (.cons hnested .nil)) hstart) hc₁
  intro _
  apply Reading.Alike.ite (by rw [h.kind])
  · intro _
    refine Reading.Alike.weaken ?_ _ _
    refine (block_alike h.advance).andThen ?_
    intro o o' c₁ c₁' _ _ ho hc₁
    exact .pure (.ifElse he hb ho hstart) hc₁
  · intro _
    exact .pure (.ifThen he hb hstart) h
termination_by 8 * c.left + 5
decreasing_by
  all_goals try simp only [Cursor.advance_left] at *
  all_goals omega

theorem whileStmt_alike {c c' : Cursor} (h : c.Alike R c') :
    (whileStmt g c).Alike R (Stmt.Alike R) (whileStmt g c') := by
  rw [whileStmt, whileStmt]
  refine Reading.Alike.weaken ?_ _ _
  refine (expr_alike h.advance .lowest).andThen ?_
  intro e e' c₁ c₁' _ _ he hc₁
  refine (block_alike hc₁).andThen ?_
  intro b b' c₂ c₂' _ _ hb hc₂
  exact .pure (.whileDo he hb h.position) hc₂
termination_by 8 * c.left
decreasing_by all_goals simp only [Cursor.advance_left] at *; omega

theorem block_alike {c c' : Cursor} (h : c.Alike R c') :
    (block g c).Alike R (BlockAlike R) (block g c') := by
  rw [block, block]
  refine (expect_alike h .colon).andThen ?_
  intro _ _ c₁ c₁' _ _ _ hc₁
  apply Reading.Alike.ite (by rw [hc₁.kind])
  · intro _
    refine Reading.Alike.weaken ?_ _ _
    refine (expectAs_alike hc₁.advance .indent .indentedBlock).andThen ?_
    intro _ _ c₂ c₂' _ _ _ hc₂
    refine (stmts_alike hc₂).andThen ?_
    intro ss ss' c₃ c₃' _ _ hss hc₃
    refine (expect_alike hc₃ .dedent).andThen ?_
    intro _ _ c₄ c₄' _ _ _ hc₄
    exact .pure (.intro hss) hc₄
  intro _
  apply Reading.Alike.ite (by rw [hc₁.kind])
  · intro _
    exact .stuck (hc₁.unexpected _)
  · intro _
    refine Reading.Alike.weaken ?_ _ _
    refine (stmt_alike hc₁).andThen ?_
    intro s s' c₂ c₂' _ _ hs hc₂
    exact .pure (.intro (.cons hs .nil)) hc₂
termination_by 8 * c.left + 4
decreasing_by
  all_goals try simp only [Cursor.advance_left] at *
  all_goals omega

theorem stmts_alike {c c' : Cursor} (h : c.Alike R c') :
    (stmts g c).Alike R (StmtsAlike R) (stmts g c') := by
  rw [stmts, stmts]
  apply Reading.Alike.dite (by rw [h.kind])
  · intro _ _
    exact .pure .nil h
  intro hmore _
  refine Reading.Alike.weaken ?_ _ _
  refine (stmt_alike h).andThen ?_
  intro s s' c₁ c₁' _ _ hs hc₁
  refine (stmts_alike hc₁).andThen ?_
  intro ss ss' c₂ c₂' _ _ hss hc₂
  exact .pure (.cons hs hss) hc₂
termination_by 8 * c.left + 3
decreasing_by
  all_goals
    have := Cursor.left_pos (c := c) (fun hc => hmore (Or.inr hc))
    try simp only [Cursor.room] at *
    omega

end

/-! ### Types and imports -/

theorem typeExpr_alike {c c' : Cursor} (h : c.Alike R c') :
    (typeExpr g c).Alike R (TypeExpr.Alike R) (typeExpr g c') := by
  rw [typeExpr, typeExpr]
  apply Reading.Alike.ite (by rw [h.kind])
  · intro _
    rw [typeName, typeName]
    apply Reading.Alike.dite (by rw [h.kind])
    · intro _ _
      exact .done ⟨h.current.value, h.current.span⟩ h.advance
    · intro _ _
      exact .stuck (h.unexpected _)
  · intro _
    exact .stuck (h.unexpected _)

theorem resultType_alike {c c' : Cursor} (h : c.Alike R c') :
    (resultType g c).Alike R (Option.Rel (TypeExpr.Alike R)) (resultType g c') := by
  rw [resultType, resultType]
  apply Reading.Alike.ite (by rw [h.kind])
  · intro _
    refine Reading.Alike.weaken ?_ _ _
    refine (typeExpr_alike h.advance).andThen ?_
    intro t t' c₁ c₁' _ _ ht hc₁
    exact .pure (.some ht) hc₁
  · intro _
    exact .pure .none h

theorem importTypes_alike {c c' : Cursor} (h : c.Alike R c') :
    (importTypes g c).Alike R (List.Forall₂ (TypeExpr.Alike R)) (importTypes g c') := by
  rw [importTypes, importTypes]
  apply Reading.Alike.ite (by rw [h.kind])
  · intro _
    exact .pure .nil h
  intro _
  refine Reading.Alike.weaken ?_ _ _
  refine (typeExpr_alike h).andThen ?_
  intro t t' c₁ c₁' _ _ ht hc₁
  refine (separator_alike hc₁ .importSignatureEnd).andThen ?_
  intro _ _ c₂ c₂' _ _ _ hc₂
  refine (importTypes_alike hc₂).andThen ?_
  intro ts ts' c₃ c₃' _ _ hts hc₃
  exact .pure (.cons ht hts) hc₃
termination_by c.left

theorem importSignature_alike {c c' : Cursor} (h : c.Alike R c') :
    (importSignature g c).Alike R (Option.Rel (ImportSignature.Alike R))
      (importSignature g c') := by
  rw [importSignature, importSignature]
  apply Reading.Alike.ite (by rw [h.kind])
  · intro _
    refine Reading.Alike.weaken ?_ _ _
    refine (importTypes_alike h.advance).andThen ?_
    intro params params' c₁ c₁' _ _ hparams hc₁
    refine (expect_alike hc₁ .closeParen).andThen ?_
    intro _ _ c₂ c₂' _ _ _ hc₂
    refine (resultType_alike hc₂).andThen ?_
    intro result result' c₃ c₃' _ _ hresult hc₃
    exact .pure (.some ⟨hparams, hresult⟩) hc₃
  · intro _
    exact .pure .none h

theorem importedNames_alike {c c' : Cursor} (h : c.Alike R c') (module : String) :
    (importedNames g module c).Alike R (List.Forall₂ (Import.Alike R))
      (importedNames g module c') := by
  rw [importedNames, importedNames]
  refine (expectAs_alike h .identifier .importName).andThen ?_
  intro name name' c₁ c₁' _ _ hname hc₁
  refine (importSignature_alike hc₁).andThen ?_
  intro signature signature' c₂ c₂' _ _ hsignature hc₂
  apply Reading.Alike.dite (by rw [hc₂.kind])
  · intro hcomma _
    refine Reading.Alike.weaken ?_ _ _
    refine (importedNames_alike hc₂.advance module).andThen ?_
    intro more more' c₃ c₃' _ _ hmore hc₃
    exact .pure (.cons ⟨rfl, hname.value, hsignature, hname.span⟩ hmore) hc₃
  · intro _ _
    exact .pure (.cons ⟨rfl, hname.value, hsignature, hname.span⟩ .nil) hc₂
termination_by c.left
decreasing_by
  have := Cursor.left_pos_of_kind hcomma (by decide)
  simp only [Cursor.advance_left] at *
  omega

theorem importLine_alike {c c' : Cursor} (h : c.Alike R c') :
    (importLine g c).Alike R (List.Forall₂ (Import.Alike R)) (importLine g c') := by
  refine (expectFirst_alike h .fromWord).andThen ?_
  intro _ _ c₁ c₁' _ _ _ hc₁
  refine (expectAs_alike hc₁ .identifier .moduleName).andThen ?_
  intro module module' c₂ c₂' _ _ hmodule hc₂
  refine (expect_alike hc₂ .importWord).andThen ?_
  intro _ _ c₃ c₃' _ _ _ hc₃
  rw [← hmodule.value]
  refine (importedNames_alike hc₃ module.value).andThen ?_
  intro imports imports' c₄ c₄' _ _ himports hc₄
  refine (endOfLine_alike hc₄).andThen ?_
  intro _ _ c₅ c₅' _ _ _ hc₅
  exact .pure himports hc₅

/-! ### Functions -/

theorem parameters_alike {c c' : Cursor} (h : c.Alike R c') :
    (parameters g c).Alike R (List.Forall₂ (Parameter.Alike R)) (parameters g c') := by
  rw [parameters, parameters]
  apply Reading.Alike.dite (by rw [h.kind])
  · intro _ _
    exact .pure .nil h
  intro _ _
  refine (expectAs_alike h .identifier .parameterName).andThen ?_
  intro name name' c₁ c₁' _ _ hname hc₁
  refine (expectAs_alike hc₁ .colon .parameterType).andThen ?_
  intro _ _ c₂ c₂' _ _ _ hc₂
  refine Reading.Alike.weaken ?_ _ _
  refine (typeExpr_alike hc₂).andThen ?_
  intro type type' c₃ c₃' _ _ htype hc₃
  refine (separator_alike hc₃ .parameterEnd).andThen ?_
  intro _ _ c₄ c₄' _ _ _ hc₄
  refine (parameters_alike hc₄).andThen ?_
  intro more more' c₅ c₅' _ _ hmore hc₅
  exact .pure (.cons ⟨hname.value, htype, hname.span⟩ hmore) hc₅
termination_by c.left
decreasing_by omega

theorem functionDef_alike {c c' : Cursor} (h : c.Alike R c') :
    (functionDef g c).Alike R (Function.Alike R) (functionDef g c') := by
  refine (expectFirst_alike h .defWord).andThen ?_
  intro opening opening' c₁ c₁' _ _ hopening hc₁
  refine (expectAs_alike hc₁ .identifier .functionName).andThen ?_
  intro name name' c₂ c₂' _ _ hname hc₂
  refine (expect_alike hc₂ .openParen).andThen ?_
  intro _ _ c₃ c₃' _ _ _ hc₃
  refine (parameters_alike hc₃).andThen ?_
  intro params params' c₄ c₄' _ _ hparams hc₄
  refine (expect_alike hc₄ .closeParen).andThen ?_
  intro _ _ c₅ c₅' _ _ _ hc₅
  refine (resultType_alike hc₅).andThen ?_
  intro result result' c₆ c₆' _ _ hresult hc₆
  refine (block_alike hc₆).andThen ?_
  intro body body' c₇ c₇' _ _ hbody hc₇
  exact .pure ⟨hname.value, hparams, hresult, hbody, hopening.span⟩ hc₇

/-! ### Programs -/

inductive Item.Alike (R : Position → Position → Prop) : Item → Item → Prop where
  | imports {line line' : List Import} (h : List.Forall₂ (Import.Alike R) line line') :
      Item.Alike R (.imports line) (.imports line')
  | function {f f' : Function} (h : f.Alike R f') : Item.Alike R (.function f) (.function f')

/-- The same items are read, and if that fails then for the same cause. -/
structure ItemsAlike (R : Position → Position → Prop) (x y : List Item × Option Diagnostic) :
    Prop where
  items : List.Forall₂ (Item.Alike R) x.1 y.1
  failure : Option.Rel (Diagnostic.Alike R) x.2 y.2

theorem ItemsAlike.cons {x y : List Item × Option Diagnostic} (h : ItemsAlike R x y)
    {i j : Item} (hij : i.Alike R j) :
    ItemsAlike R (i :: x.1, x.2) (j :: y.1, y.2) := ⟨.cons hij h.items, h.failure⟩

theorem items_alike {c c' : Cursor} (h : c.Alike R c') :
    ItemsAlike R (items g c) (items g c') := by
  rw [items.eq_def g c, items.eq_def g c', ← h.kind]
  by_cases heof : c.kind = .eof
  · rw [dif_pos heof, dif_pos heof]
    exact ⟨.nil, .none⟩
  rw [dif_neg heof, dif_neg heof]
  by_cases hnewline : c.kind = .newline
  · rw [if_pos hnewline, if_pos hnewline]
    exact items_alike h.advance
  rw [if_neg hnewline, if_neg hnewline]
  by_cases hfrom : c.kind = .fromWord
  · rw [if_pos hfrom, if_pos hfrom]
    have hline := importLine_alike (g := g) h
    generalize importLine g c = x, importLine g c' = y at hline
    cases hline with
    | stuck why => exact ⟨.nil, .some why⟩
    | done hvalue hrest => exact (items_alike hrest).cons (.imports hvalue)
  rw [if_neg hfrom, if_neg hfrom]
  by_cases hdef : c.kind = .defWord
  · rw [if_pos hdef, if_pos hdef]
    have hdefinition := functionDef_alike (g := g) h
    generalize functionDef g c = x, functionDef g c' = y at hdefinition
    cases hdefinition with
    | stuck why => exact ⟨.nil, .some why⟩
    | done hvalue hrest => exact (items_alike hrest).cons (.function hvalue)
  · rw [if_neg hdef, if_neg hdef]
    exact ⟨.nil, .some (h.unexpected _)⟩
termination_by c.left
decreasing_by
  all_goals
    have hpos := Cursor.left_pos heof
    have hroom : c.room = max 1 c.left := rfl
    have hadvance := c.advance_left
    omega

end Readers

theorem Program.ofItems_alike {is is' : List Item} (h : List.Forall₂ (Item.Alike R) is is') :
    (Program.ofItems is).Alike R (Program.ofItems is') := by
  constructor
  · apply List.rel_flatMap h
    rintro _ _ (hline | _)
    · exact hline
    · exact .nil
  · apply List.rel_flatMap h
    rintro _ _ (_ | hf)
    · exact .nil
    · exact .cons hf .nil

/-- Tokens that say the same make up the same program, or none for the same cause. -/
theorem Program.ofTokens_alike {ts ts' : List Token}
    (h : (Cursor.ofTokens ts).Alike R (Cursor.ofTokens ts')) :
    ResultAlike R (Program.Alike R) (Program.ofTokens ts) (Program.ofTokens ts') := by
  have hitems : ItemsAlike R (itemsOf ts) (itemsOf ts') := items_alike h
  rw [Program.ofTokens, Program.ofTokens]
  generalize itemsOf ts = x, itemsOf ts' = y at hitems
  obtain ⟨is, failure⟩ := x
  obtain ⟨is', failure'⟩ := y
  obtain ⟨his, hfailure⟩ := hitems
  cases hfailure with
  | none => exact .ok (Program.ofItems_alike his)
  | some why => exact .error why

end Offside.Surface

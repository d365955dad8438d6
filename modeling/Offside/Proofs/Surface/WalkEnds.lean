/-
  Offside/Proofs/Surface/WalkEnds.lean
  ====================================
  **Reading ends.**  A walk needs no more than eight calls inside one another for every token,
  and gives what the reader gives (`Walk.program_runAt`).  So reading comes to an end whatever
  the tokens are, and the index is always that of a token.

  `Walk.Follows` compares what a walk gives with what a reader does.  It is carried through a
  sequence step by step, and each walk has its lemma, by induction on the calls it may use.
-/
import Offside.Proofs.Surface.Walk

namespace Offside.Surface

open Number

namespace Walk

/-! ### Cursors and indices -/

/-- The cursor is at the index: the tokens from there on are those ahead of it and the end of the
    input, and the token before the index is the one that it remembers. -/
structure At (ts : List Token) (i : Nat) (c : Cursor) : Prop where
  previous : c.previous = if i = 0 then none else ts[i - 1]?
  ahead : ts.drop i = c.ahead ++ [c.inputEnd.token]

section

variable {ts : List Token} {i : Nat} {c : Cursor}

theorem At.length (h : At ts i c) : ts.length = i + c.left + 1 := by
  have hlength := congrArg List.length h.ahead
  rw [List.length_drop, List.length_append, List.length_singleton] at hlength
  rw [Cursor.left]
  omega

theorem At.bound (h : At ts i c) : i < ts.length := by
  have hlength := h.length
  omega

theorem At.current (h : At ts i c) : ts[i]? = some c.current := by
  rw [← List.head?_drop, h.ahead, Cursor.current]
  cases c.ahead with
  | nil => rfl
  | cons t more => rfl

theorem At.advance (h : At ts i c) : At ts (next ts i) c.advance := by
  have hlength := h.length
  have hcurrent := h.current
  have hdrop := congrArg List.tail h.ahead
  rw [Cursor.left] at hlength
  rw [List.tail_drop] at hdrop
  unfold Cursor.advance Walk.next
  cases hahead : c.ahead with
  | nil =>
    rw [hahead, List.length_nil] at hlength
    rw [if_neg (by omega)]
    exact h
  | cons t more =>
    rw [hahead, List.length_cons] at hlength
    rw [Cursor.current, hahead] at hcurrent
    rw [if_pos (by omega)]
    constructor
    · exact hcurrent.symm
    · rw [hdrop, hahead]
      rfl

theorem At.previousEnd (h : At ts i c) (hi : i ≠ 0) :
    ∃ t, ts[i - 1]? = some t ∧ c.previousEnd = t.span.stop := by
  have hbound := h.bound
  have hlt : i - 1 < ts.length := by omega
  refine ⟨ts[i - 1], List.getElem?_eq_getElem hlt, ?_⟩
  rw [Cursor.previousEnd, h.previous, if_neg hi, List.getElem?_eq_getElem hlt]

theorem At.peek (h : At ts i c) :
    ∃ t, ts[min (i + 1) (ts.length - 1)]? = some t ∧ c.peek = t.kind := by
  have hlength := h.length
  have hnext := h.advance.current
  rw [Cursor.left] at hlength
  unfold Walk.next at hnext
  unfold Cursor.advance Cursor.current at hnext
  unfold Cursor.peek
  cases hahead : c.ahead with
  | nil =>
    rw [hahead, List.length_nil] at hlength
    refine ⟨c.inputEnd.token, ?_, rfl⟩
    rw [hahead, if_neg (by omega), hahead] at hnext
    rw [Nat.min_eq_right (by omega), ← hnext]
    congr 1
    omega
  | cons t more =>
    rw [hahead, List.length_cons] at hlength
    rw [hahead, if_pos (by omega)] at hnext
    rw [Nat.min_eq_left (by omega), hnext]
    cases more with
    | nil => exact ⟨_, rfl, rfl⟩
    | cons u more => exact ⟨_, rfl, rfl⟩

/-- The cursor before the first token is at the first index. -/
theorem at_ofTokens (tokens : List Token) : At (closed tokens) 0 (Cursor.ofTokens tokens) := by
  unfold Cursor.ofTokens closed
  cases hlast : tokens.getLast? with
  | none => exact ⟨rfl, rfl⟩
  | some t =>
    by_cases ht : t.kind = .eof
    · simp only [if_pos ht]
      refine ⟨rfl, ?_⟩
      obtain ⟨init, rfl⟩ := List.getLast?_eq_some_iff.mp hlast
      rw [List.dropLast_concat, InputEnd.token, ← ht, List.drop_zero]
    · simp only [if_neg ht]
      exact ⟨rfl, rfl⟩

end

/-! ### Following a reader -/

/-- The walk gives what the reader gives, at the cursor the reader leaves, or refuses for the
    same reason at an index among the tokens. -/
inductive Follows (ts : List Token) {α : Type} {n : Nat} :
    Option (Except Diagnostic α × Nat) → Reading α n → Prop where
  | done {value : α} {c : Cursor} {shorter : c.left < n} {j : Nat} (h : At ts j c) :
      Follows ts (some (.ok value, j)) (.done value c shorter)
  | stuck {why : Diagnostic} {c : Cursor} {j : Nat} (h : j < ts.length) :
      Follows ts (some (.error why, j)) (.stuck why c)

section

variable {ts : List Token} {i : Nat} {c : Cursor} {α β : Type} {m n : Nat}

theorem Follows.weaken {x : Option (Except Diagnostic α × Nat)} {r : Reading α m}
    (h : Follows ts x r) (hmn : m ≤ n) : Follows ts x (r.weaken hmn) := by
  cases h with
  | done h => exact .done h
  | stuck h => exact .stuck h

theorem Follows.pure (h : At ts i c) (value : α) :
    Follows ts (runAt (Pure.pure value) i) (Reading.pure value c) := .done h

theorem follows_throw (h : At ts i c) (why : Diagnostic) {rest : Cursor} :
    Follows ts (runAt (throw why : Walk α) i) (.stuck why rest : Reading α n) :=
  .stuck h.bound

theorem runAt_bind {x : Walk α} {f : α → Walk β} {value : α} {j : Nat}
    (h : x.runAt i = some (.ok value, j)) : (x >>= f).runAt i = (f value).runAt j := by
  change Option.bind (x.runAt i) _ = _
  rw [h]
  rfl

theorem runAt_bind_error {x : Walk α} {f : α → Walk β} {why : Diagnostic} {j : Nat}
    (h : x.runAt i = some (.error why, j)) : (x >>= f).runAt i = some (.error why, j) := by
  change Option.bind (x.runAt i) _ = _
  rw [h]
  rfl

/-- A sequence of walks follows a sequence of readers. -/
theorem Follows.bind {x : Walk α} {r : Reading α n} (h : Follows ts (x.runAt i) r)
    {f : α → Walk β} {next : (value : α) → (c : Cursor) → c.left < n → Reading β (c.left + 1)}
    (hnext : ∀ value j c (hc : c.left < n), At ts j c →
      Follows ts ((f value).runAt j) (next value c hc)) :
    Follows ts ((x >>= f).runAt i) (r.andThen next) := by
  generalize hx : x.runAt i = o at h
  cases h with
  | done h =>
    rw [runAt_bind hx]
    exact (hnext _ _ _ _ h).weaken (Nat.succ_le_of_lt ‹_›)
  | stuck h =>
    rw [runAt_bind_error hx]
    exact .stuck h

theorem Follows.ite {p q : Prop} [Decidable p] [Decidable q] (hpq : p ↔ q) {x y : Walk α}
    {r s : Reading α n} (hthen : q → Follows ts (x.runAt i) r)
    (helse : ¬ q → Follows ts (y.runAt i) s) :
    Follows ts ((if p then x else y).runAt i) (if q then r else s) := by
  by_cases h : q
  · rw [if_pos h, if_pos (hpq.mpr h)]
    exact hthen h
  · rw [if_neg h, if_neg fun hp => h (hpq.mp hp)]
    exact helse h

theorem Follows.dite {p q : Prop} [Decidable p] [Decidable q] (hpq : p ↔ q) {x y : Walk α}
    {r : q → Reading α n} {s : ¬ q → Reading α n} (hthen : ∀ h, Follows ts (x.runAt i) (r h))
    (helse : ∀ h, Follows ts (y.runAt i) (s h)) :
    Follows ts ((if p then x else y).runAt i) (if h : q then r h else s h) := by
  by_cases h : q
  · rw [dif_pos h, if_pos (hpq.mpr h)]
    exact hthen h
  · rw [dif_neg h, if_neg fun hp => h (hpq.mp hp)]
    exact helse h

end

/-! ### Single tokens -/

section Tokens

variable {ts : List Token} {i : Nat} {c : Cursor} {α : Type} {n : Nat}

theorem runAt_fetch (index : Nat → Nat) {t : Token} (h : ts[index i]? = some t)
    (f : Token → Walk α) : (fetch ts index >>= f).runAt i = (f t).runAt i := by
  refine runAt_bind ?_
  change Option.map _ ts[index i]? = _
  rw [h]
  rfl

theorem runAt_current (h : At ts i c) (f : Token → Walk α) :
    (current ts >>= f).runAt i = (f c.current).runAt i := runAt_fetch id h.current f

theorem follows_current (h : At ts i c) {f : Token → Walk α} {r : Reading α n}
    (hf : Follows ts ((f c.current).runAt i) r) :
    Follows ts ((current ts >>= f).runAt i) r := by
  rw [runAt_current h]
  exact hf

theorem runAt_advance (h : At ts i c) :
    (advance ts).runAt i =
      some (.ok c.current, next ts i) := by
  change Option.map _ ts[i]? = _
  rw [h.current]
  rfl

theorem follows_advance (h : At ts i c) {f : Token → Walk α} {r : Reading α n}
    (hf : ∀ j, At ts j c.advance → Follows ts ((f c.current).runAt j) r) :
    Follows ts ((advance ts >>= f).runAt i) r := by
  rw [runAt_bind (runAt_advance h)]
  exact hf _ h.advance

theorem follows_peek (h : At ts i c) {f : Kind → Walk α} {r : Reading α n}
    (hf : Follows ts ((f c.peek).runAt i) r) :
    Follows ts ((peek ts >>= f).runAt i) r := by
  obtain ⟨t, ht, hpeek⟩ := h.peek
  have hrun : (peek ts).runAt i = some (.ok c.peek, i) := by
    rw [peek, runAt_fetch (fun i => min (i + 1) (ts.length - 1)) ht, hpeek]
    rfl
  rw [runAt_bind hrun]
  exact hf

theorem follows_previousEnd (h : At ts i c) {f : Position → Walk α} {r : Reading α n}
    (hf : Follows ts ((f c.previousEnd).runAt i) r) :
    Follows ts ((previousEnd ts >>= f).runAt i) r := by
  have hrun : (previousEnd ts).runAt i = some (.ok c.previousEnd, i) := by
    have hget : (get : Walk Nat).runAt i = some (.ok i, i) := rfl
    rw [previousEnd, runAt_bind hget]
    by_cases hi : i = 0
    · rw [if_pos hi, runAt_current h, Cursor.previousEnd, h.previous, if_pos hi]
      rfl
    · obtain ⟨t, ht, hend⟩ := h.previousEnd hi
      rw [if_neg hi, runAt_fetch (· - 1) ht, hend]
      rfl
  rw [runAt_bind hrun]
  exact hf

theorem refuse_follows (h : At ts i c) (expected : Expected) {rest : Cursor} :
    Follows ts ((refuse ts expected).runAt i)
      (.stuck (c.unexpected expected) rest : Reading α n) :=
  follows_current h (follows_throw h _)

/-- A reader that steps past the token at the cursor. -/
theorem advance_follows (h : At ts i c) (shorter : c.advance.left < n) :
    Follows ts ((advance ts).runAt i) (.done c.current c.advance shorter) := by
  rw [runAt_advance h]
  exact .done h.advance

theorem expectAs_follows (h : At ts i c) (k : Kind) (expected : Expected) :
    Follows ts ((expectAs ts k expected).runAt i) (c.expectAs k expected) := by
  apply follows_current h
  apply Follows.ite Iff.rfl
  · intro _
    exact advance_follows h _
  · intro _
    exact refuse_follows h _

theorem expect_follows (h : At ts i c) (k : Kind) :
    Follows ts ((expect ts k).runAt i) (c.expect k) := expectAs_follows h k _

theorem expectFirst_follows (h : At ts i c) (k : Kind) :
    Follows ts ((expect ts k).runAt i) (c.expectFirst k) := by
  apply follows_current h
  apply Follows.ite Iff.rfl
  · intro _
    exact advance_follows h _
  · intro _
    exact refuse_follows h _

theorem endOfLine_follows (h : At ts i c) :
    Follows ts ((endOfLine ts).runAt i) c.endOfLine := by
  apply follows_current h
  apply Follows.ite Iff.rfl
  · intro _
    exact follows_advance h fun _ hj => .done hj
  intro _
  apply Follows.ite Iff.rfl
  · intro _
    exact .pure h ()
  · intro _
    exact refuse_follows h _

theorem separator_follows (h : At ts i c) (expected : Expected) :
    Follows ts ((separator ts expected).runAt i) (c.separator expected) := by
  apply follows_current h
  apply Follows.ite Iff.rfl
  · intro _
    exact follows_advance h fun _ hj => .done hj
  intro _
  apply Follows.ite Iff.rfl
  · intro _
    exact .pure h ()
  · intro _
    exact refuse_follows h _

theorem literal_follows (h : At ts i c) :
    Follows ts ((literal ts).runAt i) (Surface.literal c) := by
  unfold Surface.literal
  apply follows_current h
  apply Follows.dite Iff.rfl
  · intro _
    cases integer? c.current.value with
    | none => exact follows_throw h _
    | some value => exact follows_advance h fun _ hj => .done hj
  intro _
  apply Follows.dite Iff.rfl
  · intro _
    cases Binary64.ofText? c.current.value with
    | none => exact follows_throw h _
    | some value => exact follows_advance h fun _ hj => .done hj
  intro _
  apply Follows.dite Iff.rfl
  · intro _
    exact follows_advance h fun _ hj => .done hj
  · intro _
    exact refuse_follows h _

theorem negatedInteger_follows (h : At ts i c) (minus : Span) (hint : c.kind = .integer) :
    Follows ts ((negatedInteger ts minus).runAt i)
      (Surface.negatedInteger minus c hint) := by
  unfold Surface.negatedInteger
  apply follows_current h
  cases negatedMagnitude minus c.current with
  | ok value => exact follows_advance h fun _ hj => .done hj
  | error why => exact follows_throw h _

end Tokens

/-! ### Expressions -/

section Readers

variable {ts : List Token} {g : Grammar}

/-- No step goes past the end of the input, and no expression begins there. -/
theorem expr_atEnd (hg : g.head .eof = none) {c : Cursor} (h : ¬ 0 < c.left) (floor : Strength) :
    c.advance = c ∧ c.kind = .eof ∧
      Surface.expr g floor c = .stuck (c.unexpected .expression) c := by
  have hahead : c.ahead = [] := List.eq_nil_of_length_eq_zero (Nat.eq_zero_of_not_pos h)
  have hkind : c.kind = .eof := by
    rw [Cursor.kind, Cursor.current, hahead]
    rfl
  refine ⟨?_, hkind, ?_⟩
  · rw [Cursor.advance, hahead]
  · rw [Surface.expr, hkind, hg]

/-- The walk reads an operand as the expression behind the token at the cursor. -/
theorem operand_follows (hg : g.head .eof = none) {c : Cursor} {floor : Strength}
    {x : Option (Except Diagnostic Expr × Nat)}
    (h : Follows ts x (Surface.expr g floor c.advance)) :
    Follows ts x (Surface.operand g floor c) := by
  rw [Surface.operand]
  by_cases hpos : 0 < c.left
  · rw [dif_pos hpos]
    exact h.weaken _
  · obtain ⟨hsame, -, hexpr⟩ := expr_atEnd hg hpos floor
    rw [hsame, hexpr] at h
    rw [dif_neg hpos, missingAtEnd, hg]
    cases h with
    | stuck hj => exact .stuck hj

mutual

theorem expr_follows (hg : g.head .eof = none) {i n : Nat} {c : Cursor} (h : At ts i c)
    (hn : 8 * c.left + 2 < n)
    (floor : Strength) :
    Follows ts ((expr ts g n floor).runAt i) (Surface.expr g floor c) := by
  cases n with
  | zero => omega
  | succ n =>
    rw [expr, Surface.expr]
    apply follows_current h
    change Follows ts (runAt (match g.head c.kind with | none => _ | some head => _) i) _
    cases hhead : g.head c.kind with
    | none => exact refuse_follows h _
    | some head =>
      have hpos : 0 < c.left := Cursor.left_pos fun heof => by simp [heof, hg] at hhead
      refine (headed_follows hg h (by omega) hpos head).bind ?_
      intro left j c' hc' hj
      exact climb_follows hg hj (by omega) floor left
termination_by n

theorem headed_follows (hg : g.head .eof = none) {i n : Nat} {c : Cursor} (h : At ts i c)
    (hn : 8 * c.left + 1 < n)
    (hpos : 0 < c.left) (head : Head) :
    Follows ts ((headed ts g n head).runAt i) (Surface.headed g head c) := by
  have hadvance := c.advance_left
  cases n with
  | zero => omega
  | succ n =>
    cases head with
    | literal =>
      rw [headed, Surface.headed]
      exact literal_follows h
    | char =>
      rw [headed, Surface.headed]
      exact refuse_follows h _
    | minus =>
      rw [headed, Surface.headed]
      apply follows_advance h
      intro j hj
      apply follows_current hj
      apply follows_peek hj
      apply Follows.dite Iff.rfl
      · intro hint
        exact (negatedInteger_follows hj _ hint.1).weaken _
      · intro _
        refine (operand_follows hg (expr_follows hg hj (by omega) .unary)).bind ?_
        intro e j' c' _ hj'
        exact .pure hj' _
    | group =>
      rw [headed, Surface.headed]
      apply follows_advance h
      intro j hj
      refine (operand_follows hg (expr_follows hg hj (by omega) .lowest)).bind ?_
      intro e j' c' _ hj'
      refine (expect_follows hj' .closeParen).bind ?_
      intro _ j'' c'' _ hj''
      exact .pure hj'' _
termination_by n

theorem climb_follows (hg : g.head .eof = none) {i n : Nat} {c : Cursor} (h : At ts i c)
    (hn : 8 * c.left + 6 < n)
    (floor : Strength) (left : Expr) :
    Follows ts ((climb ts g n floor left).runAt i) (Surface.climb g floor left c) := by
  cases n with
  | zero => omega
  | succ n =>
    rw [climb, Surface.climb]
    apply follows_current h
    change Follows ts (runAt (match g.tail c.kind with | none => _ | some (_, _) => _) i) _
    cases g.tail c.kind with
    | none => exact .pure h _
    | some found =>
      obtain ⟨strength, tail⟩ := found
      apply Follows.ite Iff.rfl
      · intro _
        refine Follows.weaken ?_ _
        refine (tailed_follows hg h (by omega) tail strength left).bind ?_
        intro e j c' _ hj
        exact climb_follows hg hj (by omega) floor e
      · intro _
        exact .pure h _
termination_by n

theorem tailed_follows (hg : g.head .eof = none) {i n : Nat} {c : Cursor} (h : At ts i c)
    (hn : 8 * c.left + 5 < n)
    (tail : Tail) (strength : Strength) (left : Expr) :
    Follows ts ((tailed ts g n tail strength left).runAt i)
      (Surface.tailed g tail strength left c) := by
  have hadvance := c.advance_le
  cases n with
  | zero => omega
  | succ n =>
    cases tail with
    | arithmetic =>
      rw [tailed, Surface.tailed]
      apply follows_advance h
      intro j hj
      change Follows ts (runAt (match arithmeticOf? c.kind with | none => _ | some _ => _) j) _
      cases arithmeticOf? c.kind with
      | none => exact follows_throw hj _
      | some op =>
        refine (operand_follows hg (expr_follows hg hj (by omega) strength)).bind ?_
        intro right j' c' _ hj'
        exact .pure hj' _
    | comparison =>
      rw [tailed, Surface.tailed]
      apply follows_advance h
      intro j hj
      change Follows ts (runAt (match comparisonOf? c.kind with | none => _ | some _ => _) j) _
      cases comparisonOf? c.kind with
      | none => exact follows_throw hj _
      | some op =>
        refine (operand_follows hg (expr_follows hg hj (by omega) strength)).bind ?_
        intro right j' c' _ hj'
        apply follows_current hj'
        apply Follows.ite Iff.rfl
        · intro _
          exact refuse_follows hj' _
        · intro _
          exact .pure hj' _
    | connective =>
      rw [tailed, Surface.tailed]
      apply follows_advance h
      intro j hj
      refine (operand_follows hg (expr_follows hg hj (by omega) strength)).bind ?_
      intro right j' c' _ hj'
      exact .pure hj' _
    | call =>
      cases left with
      | symbol callee span =>
        rw [tailed, Surface.tailed]
        exact called_follows hg h (by omega) callee span
      | number | float | char | binary | compare | logic | negate | call =>
        rw [tailed, Surface.tailed]
        · exact refuse_follows h _
        all_goals exact fun _ _ heq => nomatch heq
termination_by n

theorem called_follows (hg : g.head .eof = none) {i n : Nat} {c : Cursor} (h : At ts i c)
    (hn : 8 * c.left + 4 < n)
    (callee : String) (span : Span) :
    Follows ts ((called ts g n callee span).runAt i) (Surface.called g callee span c) := by
  have hadvance := c.advance_le
  cases n with
  | zero => omega
  | succ n =>
    rw [called, Surface.called]
    apply follows_advance h
    intro j hj
    apply follows_current hj
    apply Follows.dite Iff.rfl
    · intro _
      refine Follows.weaken ?_ _
      apply follows_advance hj
      intro j' hj'
      refine (expect_follows hj' .closeParen).bind ?_
      intro close j'' c'' _ hj''
      exact .pure hj'' _
    intro _
    have hargs : Follows ts ((arguments ts g n).runAt j) (Surface.arguments g c.advance) :=
      arguments_follows hg hj (by omega)
    by_cases hpos : 0 < c.left
    · rw [dif_pos hpos]
      refine Follows.weaken ?_ _
      refine hargs.bind ?_
      intro args j' c' _ hj'
      refine (expect_follows hj' .closeParen).bind ?_
      intro close j'' c'' _ hj''
      exact .pure hj'' _
    · obtain ⟨hsame, hkind, hexpr⟩ := expr_atEnd hg hpos .lowest
      rw [hsame, Surface.arguments, hexpr, if_neg (by simp [hkind])] at hargs
      rw [dif_neg hpos, Surface.operand, dif_neg hpos, missingAtEnd, hg]
      generalize hrun : (arguments ts g n).runAt j = x at hargs
      cases hargs with
      | stuck hj' =>
        rw [runAt_bind_error hrun]
        exact .stuck hj'
termination_by n

theorem arguments_follows (hg : g.head .eof = none) {i n : Nat} {c : Cursor} (h : At ts i c)
    (hn : 8 * c.left + 3 < n) :
    Follows ts ((arguments ts g n).runAt i) (Surface.arguments g c) := by
  cases n with
  | zero => omega
  | succ n =>
    rw [arguments, Surface.arguments]
    apply follows_current h
    apply Follows.ite Iff.rfl
    · intro _
      exact .pure h _
    intro _
    refine Follows.weaken ?_ _
    refine (expr_follows hg h (by omega) .lowest).bind ?_
    intro e j c₁ _ hj
    refine (separator_follows hj .argumentEnd).bind ?_
    intro _ j' c₂ _ hj'
    refine (arguments_follows hg hj' (by omega)).bind ?_
    intro es j'' c₃ _ hj''
    exact .pure hj'' _
termination_by n

end

/-! ### Statements -/

theorem afterExpression_follows (hg : g.head .eof = none) {i n : Nat} {c : Cursor}
    (h : At ts i c) (hn : 8 * c.left + 2 < n) (e : Expr) :
    Follows ts ((afterExpression ts g n e).runAt i) (Surface.afterExpression g e c) := by
  have hadvance := c.advance_le
  unfold Surface.afterExpression
  apply follows_current h
  apply Follows.ite Iff.rfl
  · intro _
    cases e with
    | symbol target span =>
      refine Follows.weaken ?_ _
      apply follows_advance h
      intro j hj
      refine (expr_follows hg hj (by omega) .lowest).bind ?_
      intro value j₁ c₁ _ hj₁
      refine (endOfLine_follows hj₁).bind ?_
      intro _ j₂ c₂ _ hj₂
      exact .pure hj₂ _
    | number | float | char | binary | compare | logic | negate | call =>
      exact refuse_follows h _
  · intro _
    cases e with
    | call callee args span =>
      refine (endOfLine_follows h).bind ?_
      intro _ j₁ c₁ _ hj₁
      exact .pure hj₁ _
    | number | float | char | symbol | binary | compare | logic | negate =>
      exact refuse_follows h _

theorem assignmentOrCall_follows (hg : g.head .eof = none) {i n : Nat} {c : Cursor}
    (h : At ts i c) (hn : 8 * c.left + 2 < n) :
    Follows ts ((assignmentOrCall ts g n).runAt i) (Surface.assignmentOrCall g c) := by
  refine (expr_follows hg h hn .lowest).bind ?_
  intro e j c' _ hj
  exact afterExpression_follows hg hj (by omega) e

theorem oneWord_follows {i : Nat} {c : Cursor} (h : At ts i c) (make : Span → Stmt) :
    Follows ts ((oneWord ts make).runAt i) (Surface.oneWord make c) := by
  refine Follows.weaken ?_ _
  apply follows_advance h
  intro j hj
  refine (endOfLine_follows hj).bind ?_
  intro _ j' c' _ hj'
  exact .pure hj' _

theorem returnStmt_follows (hg : g.head .eof = none) {i n : Nat} {c : Cursor} (h : At ts i c)
    (hn : 8 * c.left + 2 < n) :
    Follows ts ((returnStmt ts g n).runAt i) (Surface.returnStmt g c) := by
  have hadvance := c.advance_le
  unfold Surface.returnStmt
  apply follows_advance h
  intro j hj
  apply follows_current hj
  apply Follows.ite Iff.rfl
  · intro _
    refine Follows.weaken ?_ _
    apply follows_previousEnd hj
    refine (endOfLine_follows hj).bind ?_
    intro _ j' c' _ hj'
    exact .pure hj' _
  · intro _
    refine Follows.weaken ?_ _
    refine (expr_follows hg hj (by omega) .lowest).bind ?_
    intro value j₁ c₁ _ hj₁
    apply follows_previousEnd hj₁
    refine (endOfLine_follows hj₁).bind ?_
    intro _ j₂ c₂ _ hj₂
    exact .pure hj₂ _

mutual

theorem stmt_follows (hg : g.head .eof = none) {i n : Nat} {c : Cursor} (h : At ts i c)
    (hn : 8 * c.left + 5 < n) :
    Follows ts ((stmt ts g n).runAt i) (Surface.stmt g c) := by
  cases n with
  | zero => omega
  | succ n =>
    rw [stmt, Surface.stmt]
    apply follows_current h
    change Follows ts (runAt (match g.lead c.kind with | some _ => _ | none => _) i) _
    cases g.lead c.kind with
    | some lead => exact ledStmt_follows hg h (by omega) lead
    | none => exact (assignmentOrCall_follows hg h (by omega)).weaken _
termination_by n

theorem ledStmt_follows (hg : g.head .eof = none) {i n : Nat} {c : Cursor} (h : At ts i c)
    (hn : 8 * c.left + 4 < n) (lead : Lead) :
    Follows ts ((ledStmt ts g n lead).runAt i) (Surface.ledStmt g lead c) := by
  cases n with
  | zero => omega
  | succ n =>
    cases lead with
    | ifLead =>
      rw [ledStmt, Surface.ledStmt]
      exact ifStmt_follows hg h (by omega)
    | whileLead =>
      rw [ledStmt, Surface.ledStmt]
      exact whileStmt_follows hg h (by omega)
    | returnLead =>
      rw [ledStmt, Surface.ledStmt]
      exact returnStmt_follows hg h (by omega)
    | passLead | breakLead | continueLead =>
      rw [ledStmt, Surface.ledStmt]
      exact oneWord_follows h _
termination_by n

theorem ifStmt_follows (hg : g.head .eof = none) {i n : Nat} {c : Cursor} (h : At ts i c)
    (hn : 8 * c.left + 3 < n) :
    Follows ts ((ifStmt ts g n).runAt i) (Surface.ifStmt g c) := by
  have hadvance := c.advance_le
  cases n with
  | zero => omega
  | succ n =>
    rw [ifStmt, Surface.ifStmt]
    refine Follows.weaken ?_ _
    apply follows_advance h
    intro j hj
    refine (expr_follows hg hj (by omega) .lowest).bind ?_
    intro condition j₁ c₁ _ hj₁
    refine (block_follows hg hj₁ (by omega)).bind ?_
    intro body j₂ c₂ _ hj₂
    exact otherwise_follows hg hj₂ (by omega) _ condition body
termination_by n

theorem otherwise_follows (hg : g.head .eof = none) {i n : Nat} {c : Cursor} (h : At ts i c)
    (hn : 8 * c.left + 8 < n) (start : Position) (condition : Expr) (body : Block Stmt) :
    Follows ts ((otherwise ts g n start condition body).runAt i)
      (Surface.otherwise g start condition body c) := by
  have hadvance := c.advance_le
  cases n with
  | zero => omega
  | succ n =>
    rw [otherwise, Surface.otherwise]
    apply follows_current h
    apply Follows.ite Iff.rfl
    · intro _
      refine Follows.weaken ?_ _
      refine (ifStmt_follows hg h (by omega)).bind ?_
      intro nested j₁ c₁ _ hj₁
      exact follows_previousEnd hj₁ (.pure hj₁ _)
    intro _
    apply Follows.ite Iff.rfl
    · intro _
      refine Follows.weaken ?_ _
      apply follows_advance h
      intro j hj
      refine (block_follows hg hj (by omega)).bind ?_
      intro orElse j₁ c₁ _ hj₁
      exact follows_previousEnd hj₁ (.pure hj₁ _)
    · intro _
      exact follows_previousEnd h (.pure h _)
termination_by n

theorem whileStmt_follows (hg : g.head .eof = none) {i n : Nat} {c : Cursor} (h : At ts i c)
    (hn : 8 * c.left + 3 < n) :
    Follows ts ((whileStmt ts g n).runAt i) (Surface.whileStmt g c) := by
  have hadvance := c.advance_le
  cases n with
  | zero => omega
  | succ n =>
    rw [whileStmt, Surface.whileStmt]
    refine Follows.weaken ?_ _
    apply follows_advance h
    intro j hj
    refine (expr_follows hg hj (by omega) .lowest).bind ?_
    intro condition j₁ c₁ _ hj₁
    refine (block_follows hg hj₁ (by omega)).bind ?_
    intro body j₂ c₂ _ hj₂
    exact follows_previousEnd hj₂ (.pure hj₂ _)
termination_by n

theorem block_follows (hg : g.head .eof = none) {i n : Nat} {c : Cursor} (h : At ts i c)
    (hn : 8 * c.left + 7 < n) :
    Follows ts ((block ts g n).runAt i) (Surface.block g c) := by
  cases n with
  | zero => omega
  | succ n =>
    rw [block, Surface.block]
    refine (expect_follows h .colon).bind ?_
    intro _ j₁ c₁ _ hj₁
    have hadvance := c₁.advance_le
    apply follows_current hj₁
    apply Follows.ite Iff.rfl
    · intro _
      refine Follows.weaken ?_ _
      apply follows_advance hj₁
      intro j hj
      refine (expectAs_follows hj .indent .indentedBlock).bind ?_
      intro _ j₂ c₂ _ hj₂
      refine (stmts_follows hg hj₂ (by omega)).bind ?_
      intro body j₃ c₃ _ hj₃
      apply follows_previousEnd hj₃
      refine (expect_follows hj₃ .dedent).bind ?_
      intro _ j₄ c₄ _ hj₄
      exact .pure hj₄ _
    intro _
    apply Follows.ite Iff.rfl
    · intro _
      exact refuse_follows hj₁ _
    · intro _
      refine Follows.weaken ?_ _
      refine (stmt_follows hg hj₁ (by omega)).bind ?_
      intro s j₂ c₂ _ hj₂
      exact .pure hj₂ _
termination_by n

theorem stmts_follows (hg : g.head .eof = none) {i n : Nat} {c : Cursor} (h : At ts i c)
    (hn : 8 * c.left + 6 < n) :
    Follows ts ((stmts ts g n).runAt i) (Surface.stmts g c) := by
  cases n with
  | zero => omega
  | succ n =>
    rw [stmts, Surface.stmts]
    apply follows_current h
    apply Follows.dite Iff.rfl
    · intro _
      exact .pure h _
    intro hmore
    have hpos : 0 < c.left := Cursor.left_pos fun hc => hmore (.inr hc)
    have hroom : c.room = max 1 c.left := rfl
    refine Follows.weaken ?_ _
    refine (stmt_follows hg h (by omega)).bind ?_
    intro s j₁ c₁ _ hj₁
    refine (stmts_follows hg hj₁ (by omega)).bind ?_
    intro ss j₂ c₂ _ hj₂
    exact .pure hj₂ _
termination_by n

end

/-! ### Imports and functions -/

theorem typeExpr_follows {i : Nat} {c : Cursor} (h : At ts i c) :
    Follows ts ((typeExpr ts g).runAt i) (Surface.typeExpr g c) := by
  unfold Surface.typeExpr
  apply follows_current h
  apply Follows.ite Iff.rfl
  · intro _
    apply Follows.dite Iff.rfl
    · intro _
      exact follows_advance h fun _ hj => .done hj
    · intro _
      exact refuse_follows h _
  · intro _
    exact refuse_follows h _

theorem resultType_follows {i : Nat} {c : Cursor} (h : At ts i c) :
    Follows ts ((resultType ts g).runAt i) (Surface.resultType g c) := by
  unfold Surface.resultType
  apply follows_current h
  apply Follows.ite Iff.rfl
  · intro _
    refine Follows.weaken ?_ _
    apply follows_advance h
    intro j hj
    refine (typeExpr_follows hj).bind ?_
    intro t j₁ c₁ _ hj₁
    exact .pure hj₁ _
  · intro _
    exact .pure h _

theorem importTypes_follows {i n : Nat} {c : Cursor} (h : At ts i c) (hn : 8 * c.left < n) :
    Follows ts ((importTypes ts g n).runAt i) (Surface.importTypes g c) := by
  cases n with
  | zero => omega
  | succ n =>
    rw [importTypes, Surface.importTypes]
    apply follows_current h
    apply Follows.ite Iff.rfl
    · intro _
      exact .pure h _
    intro _
    refine Follows.weaken ?_ _
    refine (typeExpr_follows h).bind ?_
    intro t j₁ c₁ _ hj₁
    refine (separator_follows hj₁ .importSignatureEnd).bind ?_
    intro _ j₂ c₂ _ hj₂
    refine (importTypes_follows hj₂ (by omega)).bind ?_
    intro more j₃ c₃ _ hj₃
    exact .pure hj₃ _
termination_by n

theorem importSignature_follows {i n : Nat} {c : Cursor} (h : At ts i c) (hn : 8 * c.left < n) :
    Follows ts ((importSignature ts g n).runAt i) (Surface.importSignature g c) := by
  have hadvance := c.advance_le
  unfold Surface.importSignature
  apply follows_current h
  apply Follows.ite Iff.rfl
  · intro _
    refine Follows.weaken ?_ _
    apply follows_advance h
    intro j hj
    refine (importTypes_follows hj (by omega)).bind ?_
    intro params j₁ c₁ _ hj₁
    refine (expect_follows hj₁ .closeParen).bind ?_
    intro _ j₂ c₂ _ hj₂
    refine (resultType_follows hj₂).bind ?_
    intro result j₃ c₃ _ hj₃
    exact .pure hj₃ _
  · intro _
    exact .pure h _

theorem importedNames_follows {i n : Nat} {c : Cursor} (h : At ts i c) (hn : 8 * c.left + 1 < n)
    (module : String) :
    Follows ts ((importedNames ts g n module).runAt i) (Surface.importedNames g module c) := by
  cases n with
  | zero => omega
  | succ n =>
    rw [importedNames, Surface.importedNames]
    refine (expectAs_follows h .identifier .importName).bind ?_
    intro name j₁ c₁ _ hj₁
    refine (importSignature_follows hj₁ (by omega)).bind ?_
    intro signature j₂ c₂ _ hj₂
    apply follows_previousEnd hj₂
    apply follows_current hj₂
    apply Follows.dite Iff.rfl
    · intro hcomma
      have hadvance := Cursor.advance_lt hcomma (by decide)
      refine Follows.weaken ?_ _
      apply follows_advance hj₂
      intro j hj
      refine (importedNames_follows hj (by omega) module).bind ?_
      intro more j₃ c₃ _ hj₃
      exact .pure hj₃ _
    · intro _
      exact .pure hj₂ _
termination_by n

theorem importLine_follows {i n : Nat} {c : Cursor} (h : At ts i c) (hn : 8 * c.left + 8 < n) :
    Follows ts ((importLine ts g n).runAt i) (Surface.importLine g c) := by
  have hroom := c.room_le_succ
  refine (expectFirst_follows h .fromWord).bind ?_
  intro _ j₁ c₁ _ hj₁
  refine (expectAs_follows hj₁ .identifier .moduleName).bind ?_
  intro module j₂ c₂ _ hj₂
  refine (expect_follows hj₂ .importWord).bind ?_
  intro _ j₃ c₃ _ hj₃
  refine (importedNames_follows hj₃ (by omega) module.value).bind ?_
  intro imports j₄ c₄ _ hj₄
  refine (endOfLine_follows hj₄).bind ?_
  intro _ j₅ c₅ _ hj₅
  exact .pure hj₅ _

theorem parameters_follows {i n : Nat} {c : Cursor} (h : At ts i c) (hn : 8 * c.left < n) :
    Follows ts ((parameters ts g n).runAt i) (Surface.parameters g c) := by
  cases n with
  | zero => omega
  | succ n =>
    rw [parameters, Surface.parameters]
    apply follows_current h
    apply Follows.dite Iff.rfl
    · intro _
      exact .pure h _
    intro _
    refine (expectAs_follows h .identifier .parameterName).bind ?_
    intro name j₁ c₁ _ hj₁
    refine (expectAs_follows hj₁ .colon .parameterType).bind ?_
    intro _ j₂ c₂ _ hj₂
    refine Follows.weaken ?_ _
    refine (typeExpr_follows hj₂).bind ?_
    intro type j₃ c₃ _ hj₃
    refine (separator_follows hj₃ .parameterEnd).bind ?_
    intro _ j₄ c₄ _ hj₄
    refine (parameters_follows hj₄ (by omega)).bind ?_
    intro more j₅ c₅ _ hj₅
    exact .pure hj₅ _
termination_by n

theorem functionDef_follows (hg : g.head .eof = none) {i n : Nat} {c : Cursor} (h : At ts i c)
    (hn : 8 * c.left + 8 < n) :
    Follows ts ((functionDef ts g n).runAt i) (Surface.functionDef g c) := by
  have hroom := c.room_le_succ
  refine (expectFirst_follows h .defWord).bind ?_
  intro opening j₁ c₁ _ hj₁
  refine (expectAs_follows hj₁ .identifier .functionName).bind ?_
  intro name j₂ c₂ _ hj₂
  refine (expect_follows hj₂ .openParen).bind ?_
  intro _ j₃ c₃ _ hj₃
  refine (parameters_follows hj₃ (by omega)).bind ?_
  intro params j₄ c₄ _ hj₄
  refine (expect_follows hj₄ .closeParen).bind ?_
  intro _ j₅ c₅ _ hj₅
  refine (resultType_follows hj₅).bind ?_
  intro result j₆ c₆ _ hj₆
  refine (block_follows hg hj₆ (by omega)).bind ?_
  intro body j₇ c₇ _ hj₇
  exact .pure hj₇ _

/-! ### Programs -/

/-- The walk gives the items that are read, or refuses for the same reason. -/
inductive ItemsFollow (ts : List Token) :
    Option (Except Diagnostic (List Item) × Nat) → List Item × Option Diagnostic → Prop where
  | done {is : List Item} {j : Nat} (h : j < ts.length) :
      ItemsFollow ts (some (.ok is, j)) (is, none)
  | stuck {is : List Item} {why : Diagnostic} {j : Nat} (h : j < ts.length) :
      ItemsFollow ts (some (.error why, j)) (is, some why)

/-- One more item before the others. -/
theorem ItemsFollow.cons {x : Walk (List Item)} {i : Nat} {r : List Item × Option Diagnostic}
    (h : ItemsFollow ts (x.runAt i) r) (item : Item) :
    ItemsFollow ts ((x >>= fun more => pure (item :: more)).runAt i) (item :: r.1, r.2) := by
  generalize hx : x.runAt i = o at h
  cases h with
  | done h =>
    rw [runAt_bind hx]
    exact .done h
  | stuck h =>
    rw [runAt_bind_error hx]
    exact .stuck h

theorem items_follow (hg : g.head .eof = none) {i n : Nat} {c : Cursor} (h : At ts i c)
    (hn : 8 * c.left + 9 < n) :
    ItemsFollow ts ((items ts g n).runAt i) (Surface.items g c) := by
  have hroom : c.room = max 1 c.left := rfl
  cases n with
  | zero => omega
  | succ n =>
    rw [items, Surface.items.eq_def, runAt_current h]
    change ItemsFollow ts (runAt (if c.kind = .eof then _ else if c.kind = .newline then _
      else if c.kind = .fromWord then _ else if c.kind = .defWord then _ else _) i) _
    by_cases heof : c.kind = .eof
    · rw [if_pos heof, dif_pos heof]
      exact .done h.bound
    have hpos := Cursor.left_pos heof
    have hadvance := Cursor.advance_lt_of_pos hpos
    rw [if_neg heof, dif_neg heof]
    by_cases hnewline : c.kind = .newline
    · rw [if_pos hnewline, if_pos hnewline, runAt_bind (runAt_advance h)]
      exact items_follow hg h.advance (by omega)
    rw [if_neg hnewline, if_neg hnewline]
    by_cases hfrom : c.kind = .fromWord
    · rw [if_pos hfrom, if_pos hfrom]
      have hline := importLine_follows (g := g) (n := n) h (by omega)
      generalize hx : (importLine ts g n).runAt i = x, Surface.importLine g c = r at hline
      cases hline with
      | stuck hj =>
        rw [runAt_bind_error hx]
        exact .stuck hj
      | done hj =>
        rw [runAt_bind hx]
        exact (items_follow hg hj (by omega)).cons _
    rw [if_neg hfrom, if_neg hfrom]
    by_cases hdef : c.kind = .defWord
    · rw [if_pos hdef, if_pos hdef]
      have hdefinition := functionDef_follows hg (n := n) h (by omega)
      generalize hx : (functionDef ts g n).runAt i = x, Surface.functionDef g c = r at hdefinition
      cases hdefinition with
      | stuck hj =>
        rw [runAt_bind_error hx]
        exact .stuck hj
      | done hj =>
        rw [runAt_bind hx]
        exact (items_follow hg hj (by omega)).cons _
    · rw [if_neg hdef, if_neg hdef]
      rw [refuse, runAt_current h]
      exact .stuck h.bound
termination_by n

/-- Whatever the tokens are, the walk ends and gives the program that is read. -/
theorem program_runAt (tokens : List Token) {n : Nat} (hn : 8 * (closed tokens).length + 1 < n) :
    ∃ i < (closed tokens).length,
      (program (closed tokens) Grammar.standard n).runAt 0 = some (Program.ofTokens tokens, i) := by
  have hstart := at_ofTokens tokens
  have hlength := hstart.length
  have hfollow := items_follow (g := Grammar.standard) rfl hstart (n := n) (by omega)
  rw [program, Program.ofTokens]
  change ItemsFollow _ _ (itemsOf tokens) at hfollow
  generalize hx : runAt _ 0 = x, itemsOf tokens = r at hfollow
  cases hfollow with
  | done hj =>
    rw [runAt_bind hx]
    exact ⟨_, hj, rfl⟩
  | stuck hj =>
    rw [runAt_bind_error hx]
    exact ⟨_, hj, rfl⟩

end Readers

/-! ### Getting on -/

/-- Wherever the walk starts among the tokens, it ends at one of them, and it gives a value only
    behind a token that it has stepped past. -/
def GetsOn {α : Type} (ts : List Token) (x : Walk α) : Prop :=
  ∀ i < ts.length, ∃ result j, x.runAt i = some (result, j) ∧ j < ts.length ∧
    (result.isOk = true → i < j)

/-- Every index is that of a cursor. -/
theorem exists_at (tokens : List Token) {i : Nat} (h : i < (closed tokens).length) :
    ∃ c, At (closed tokens) i c := by
  induction i with
  | zero => exact ⟨_, at_ofTokens tokens⟩
  | succ i ih =>
    obtain ⟨c, hc⟩ := ih (by omega)
    have hnext := hc.advance
    rw [next, if_pos h] at hnext
    exact ⟨_, hnext⟩

/-- A walk gets on if it follows a reader that leaves fewer tokens than it finds. -/
theorem getsOn_of_follows {α : Type} {tokens : List Token} {x : Walk α} {bound : Cursor → Nat}
    (r : (c : Cursor) → Reading α (bound c))
    (hshorter : ∀ c value rest h, r c = .done value rest h → rest.left < c.left)
    (hfollows : ∀ i c, At (closed tokens) i c → Follows (closed tokens) (x.runAt i) (r c)) :
    GetsOn (closed tokens) x := by
  intro i hi
  obtain ⟨c, hc⟩ := exists_at tokens hi
  have hlength := hc.length
  have hless := hshorter c
  have hx := hfollows i c hc
  generalize x.runAt i = o, r c = reading at hx hless
  cases hx with
  | stuck hj => exact ⟨_, _, rfl, hj, nofun⟩
  | done hj =>
    refine ⟨_, _, rfl, hj.bound, fun _ => ?_⟩
    have hrest := hless _ _ _ rfl
    have hlength' := hj.length
    omega

/-- A reader that is stuck where the input ends leaves fewer tokens than it finds. -/
theorem shorter_of_room {α : Type} {c : Cursor} {r : Reading α c.room}
    (hend : c.kind = .eof → ∃ why rest, r = .stuck why rest) {value : α} {rest : Cursor}
    {h : rest.left < c.room} (hr : r = .done value rest h) : rest.left < c.left := by
  have hkind : c.kind ≠ .eof := by
    intro heof
    obtain ⟨why, rest', hstuck⟩ := hend heof
    rw [hstuck] at hr
    cases hr
  have hpos := Cursor.left_pos hkind
  rw [Cursor.room] at h
  omega

section

variable {tokens : List Token} {n : Nat} (hn : 8 * (closed tokens).length + 1 < n)

include hn

theorem expr_getsOn (floor : Strength) :
    GetsOn (closed tokens) (expr (closed tokens) Grammar.standard n floor) := by
  refine getsOn_of_follows (Surface.expr .standard floor) (fun _ _ _ h _ => h) fun i c hc => ?_
  have hlength := hc.length
  exact expr_follows rfl hc (by omega) floor

theorem tailed_getsOn (tail : Tail) (strength : Strength) (left : Expr) :
    GetsOn (closed tokens) (tailed (closed tokens) Grammar.standard n tail strength left) := by
  refine getsOn_of_follows (Surface.tailed .standard tail strength left) (fun _ _ _ h _ => h)
    fun i c hc => ?_
  have hlength := hc.length
  exact tailed_follows rfl hc (by omega) tail strength left

theorem stmt_getsOn : GetsOn (closed tokens) (stmt (closed tokens) Grammar.standard n) := by
  refine getsOn_of_follows (Surface.stmt .standard) (fun c _ _ _ h => ?_) fun i c hc => ?_
  · refine shorter_of_room (fun heof => ?_) h
    rw [Surface.stmt, heof]
    change ∃ why rest, (Surface.assignmentOrCall .standard c).weaken _ = .stuck why rest
    rw [Surface.assignmentOrCall, Surface.expr, heof]
    exact ⟨_, _, rfl⟩
  · have hlength := hc.length
    exact stmt_follows rfl hc (by omega)

theorem importLine_getsOn :
    GetsOn (closed tokens) (importLine (closed tokens) Grammar.standard n) := by
  refine getsOn_of_follows (Surface.importLine .standard) (fun c _ _ _ h => ?_) fun i c hc => ?_
  · refine shorter_of_room (fun heof => ?_) h
    rw [Surface.importLine, Cursor.expectFirst, heof]
    exact ⟨_, _, rfl⟩
  · have hlength := hc.length
    exact importLine_follows hc (by omega)

theorem functionDef_getsOn :
    GetsOn (closed tokens) (functionDef (closed tokens) Grammar.standard n) := by
  refine getsOn_of_follows (Surface.functionDef .standard) (fun c _ _ _ h => ?_) fun i c hc => ?_
  · refine shorter_of_room (fun heof => ?_) h
    rw [Surface.functionDef, Cursor.expectFirst, heof]
    exact ⟨_, _, rfl⟩
  · have hlength := hc.length
    exact functionDef_follows rfl hc (by omega)

end

theorem typeExpr_getsOn (tokens : List Token) :
    GetsOn (closed tokens) (typeExpr (closed tokens) Grammar.standard) :=
  getsOn_of_follows (Surface.typeExpr .standard) (fun _ _ _ h _ => h) fun _ _ hc =>
    typeExpr_follows hc

end Walk
end Offside.Surface

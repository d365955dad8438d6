/-
  Offside/Proofs/Surface/Taken.lean
  =================================
  **What is read is a phrase.**  `Phrase.reads` says that the readers find every phrase.
  Here is the converse: whatever an expression is read from is a phrase for it, and the
  reader has gone on for as long as the tokens bind (`expr_takes`).

  `Reading.Takes` says of a reader what holds of the spellings it goes past, the value and
  the cursor it leaves, if it succeeds.  Like `Reading.Gives` it is carried through a
  sequence of readers step by step.  While climbing, the expression read so far is a phrase
  of some rank, and the token at the cursor stops it there.  An opening parenthesis need
  not: behind anything but a name the reader is stuck on it.
-/
import Offside.Proofs.Surface.Phrase

namespace Offside.Surface

open Number

/-! ### Stepping past tokens -/

namespace Cursor

/-- Stepping past tokens that say `w` leads from one cursor to the other. -/
inductive Past : Cursor → List Spelling → Cursor → Prop where
  | nil (c : Cursor) : Past c [] c
  | cons {c c' : Cursor} {s : Spelling} {w r : List Spelling} (h : c.spellings = s :: r)
      (hs : Past c.advance w c') : Past c (s :: w) c'

variable {c c₁ c₂ : Cursor} {w w' : List Spelling}

theorem Past.append (h : c.Past w c₁) (h' : c₁.Past w' c₂) : c.Past (w ++ w') c₂ := by
  induction h with
  | nil c => exact h'
  | cons hc _ ih => exact .cons hc (ih h')

theorem Past.spellings (h : c.Past w c₁) : c.spellings = w ++ c₁.spellings := by
  induction h with
  | nil c => rfl
  | cons hc _ ih =>
    rw [advance_of hc] at ih
    rw [hc, ih, List.cons_append]

/-- The spellings gone past say how far one has come. -/
theorem Past.unique (h : c.Past w c₁) (h' : c.Past w c₂) : c₁ = c₂ := by
  induction h with
  | nil c =>
    cases h' with
    | nil => rfl
  | cons _ _ ih =>
    cases h' with
    | cons _ hs => exact ih hs

theorem past_of_kind {k : Kind} (h : c.kind = k) (hk : k ≠ .eof) :
    c.Past [⟨k, c.current.value⟩] c.advance := by
  cases hc : c.spellings with
  | nil =>
    rw [kind_eq, hc] at h
    exact absurd h.symm hk
  | cons s r =>
    obtain rfl : s = ⟨k, c.current.value⟩ := by
      rw [value_of hc, ← h, kind_of hc]
    exact .cons hc (.nil _)

end Cursor

/-! ### What a reader takes -/

namespace Reading

variable {α β : Type} {m n : Nat} {c : Cursor} {P : List Spelling → α → Cursor → Prop}
  {Q : List Spelling → β → Cursor → Prop}

/-- Holds if the reader, started at `c`, can succeed only with spellings, a value and a
    cursor in `P`. -/
def Takes (x : Reading α n) (c : Cursor) (P : List Spelling → α → Cursor → Prop) : Prop :=
  ∀ value rest shorter, x = .done value rest shorter → ∃ w, c.Past w rest ∧ P w value rest

theorem takes_stuck {why : Diagnostic} {rest : Cursor} :
    (Reading.stuck why rest : Reading α n).Takes c P := by
  intro value rest' shorter h
  cases h

theorem takes_done {value : α} {rest : Cursor} {shorter : rest.left < n} {w : List Spelling}
    (hpast : c.Past w rest) (hP : P w value rest) :
    (Reading.done value rest shorter).Takes c P := by
  intro value' rest' shorter' h
  cases h
  exact ⟨w, hpast, hP⟩

theorem takes_pure {value : α} (hP : P [] value c) : (Reading.pure value c).Takes c P :=
  takes_done (.nil c) hP

theorem Takes.weaken {x : Reading α m} (h : x.Takes c P) (hmn : m ≤ n) :
    (x.weaken hmn).Takes c P := by
  intro value rest shorter hx
  cases x with
  | stuck why rest' => cases hx
  | done value' rest' shorter' =>
    cases hx
    exact h _ _ _ rfl

theorem Takes.imp {x : Reading α n} (h : x.Takes c P) {P' : List Spelling → α → Cursor → Prop}
    (hP : ∀ w value rest, P w value rest → P' w value rest) : x.Takes c P' := by
  intro value rest shorter hx
  obtain ⟨w, hpast, hw⟩ := h value rest shorter hx
  exact ⟨w, hpast, hP w value rest hw⟩

/-- A reader started behind other tokens takes them as well. -/
theorem Takes.behind {x : Reading α n} {w : List Spelling} {c₁ : Cursor} (hpast : c.Past w c₁)
    (h : x.Takes c₁ fun w' value rest => P (w ++ w') value rest) : x.Takes c P := by
  intro value rest shorter hx
  obtain ⟨w', hpast', hw'⟩ := h value rest shorter hx
  exact ⟨w ++ w', hpast.append hpast', hw'⟩

/-- A sequence takes what its readers take one after the other. -/
theorem Takes.andThen {x : Reading α n} (h : x.Takes c P)
    {next : (value : α) → (c : Cursor) → c.left < n → Reading β (c.left + 1)}
    (hnext : ∀ w value c₁ shorter, c.Past w c₁ → P w value c₁ →
      (next value c₁ shorter).Takes c₁ fun w' b c₂ => Q (w ++ w') b c₂) :
    (x.andThen next).Takes c Q := by
  intro b c₂ shorter hx
  cases x with
  | stuck why rest => cases hx
  | done value c₁ shorter₁ =>
    obtain ⟨w, hpast, hP⟩ := h _ _ _ rfl
    exact ((hnext w value c₁ shorter₁ hpast hP).weaken shorter₁).behind hpast b c₂ shorter hx

end Reading

theorem expect_takes (c : Cursor) {k : Kind} (hk : k ≠ .eof) :
    (c.expect k).Takes c fun w _ _ => ∃ v, w = [⟨k, v⟩] := by
  rw [Cursor.expect, Cursor.expectAs]
  by_cases h : c.kind = k
  · rw [if_pos h]
    exact Reading.takes_done (Cursor.past_of_kind h hk) ⟨_, rfl⟩
  · rw [if_neg h]
    exact Reading.takes_stuck

theorem separator_takes (c : Cursor) (expected : Expected) :
    (c.separator expected).Takes c fun w _ c' =>
      (∃ v, w = [⟨.comma, v⟩]) ∨ w = [] ∧ c'.kind = .closeParen := by
  rw [Cursor.separator]
  by_cases hcomma : c.kind = .comma
  · rw [if_pos hcomma]
    exact Reading.takes_done (Cursor.past_of_kind hcomma (by decide)) (.inl ⟨_, rfl⟩)
  rw [if_neg hcomma]
  by_cases hclose : c.kind = .closeParen
  · rw [if_pos hclose]
    exact Reading.takes_pure (.inr ⟨rfl, hclose⟩)
  · rw [if_neg hclose]
    exact Reading.takes_stuck

/-! ### Ranks of phrases and of the tokens behind them -/

section Ranks

variable {n m : Nat} {w : List Spelling} {e : Expr} {k : Kind}

/-- A phrase whose operators bind tighter is one where they need not. -/
theorem Phrase.mono (h : Phrase n w e) (hmn : m ≤ n) : Phrase m w e := by
  cases h with
  | number _ h => exact .number m h
  | float _ h => exact .float m h
  | symbol _ name => exact .symbol m name
  | group _ v v' h => exact .group m v v' h
  | call v v' hn hname hargs => exact .call v v' (by omega) hname hargs
  | ord text v v' hn hname => exact .ord text v v' (by omega) hname
  | negative v hn h => exact .negative v (by omega) h
  | minus v hn hw h => exact .minus v (by omega) hw h
  | binary op v hn hl hr => exact .binary op v (by omega) hl hr
  | compare op v hn hl hr => exact .compare op v (by omega) hl hr
  | logic op v hn hl hr => exact .logic op v (by omega) hl hr

/-- A phrase for a name is the name, maybe in parentheses. -/
theorem Phrase.namePhrase {name : String} (h : Phrase n w e) (he : e = .symbol name .nowhere) :
    NamePhrase w name := by
  induction hlength : w.length using Nat.strongRecOn generalizing n w with
  | ind length ih =>
    cases h with
    | symbol _ name' =>
      cases he
      exact .name name
    | group _ v v' h =>
      refine .group v v' (ih _ ?_ h rfl)
      rw [← hlength, List.length_cons, List.length_append]
      omega
    | minus =>
      unfold negation at he
      split at he <;> cases he
    | _ => cases he

theorem NamePhrase.nextKind_ne_integer {name : String} (h : NamePhrase w name)
    (r : List Spelling) : nextKind (w ++ r) ≠ .integer := by
  cases h with
  | name | group => simp

/-- An operand that begins with an integer is the integer. -/
theorem Phrase.eq_integer (h : Phrase Strength.unary.rank w e) (hw : nextKind w = .integer) :
    ∃ text, w = [⟨.integer, text⟩] := by
  cases h with
  | number => exact ⟨_, rfl⟩
  | call _ _ _ hname | ord _ _ _ _ hname => exact absurd hw (hname.nextKind_ne_integer _)
  | binary op _ hn => cases op <;> exact absurd hn (by decide)
  | compare _ _ hn => exact absurd hn (by decide)
  | logic op _ hn => cases op <;> exact absurd hn (by decide)
  | _ => cases hw

theorem head_minus (h : Grammar.standard.head k = some .minus) : k = .dash := by
  cases k <;> first | rfl | cases h

theorem head_group (h : Grammar.standard.head k = some .group) : k = .openParen := by
  cases k <;> first | rfl | cases h

/-- The tokens with which an expression goes on, and how they bind. -/
theorem tail_cases {s : Strength} {tail : Tail} (h : Grammar.standard.tail k = some (s, tail)) :
    (∃ op : BinaryOp, k = op.kind ∧ s = op.strength ∧ tail = .arithmetic) ∨
      (∃ op : CompareOp, k = op.kind ∧ s = .relational ∧ tail = .comparison) ∨
      (∃ op : BoolOp, k = op.kind ∧ s = op.strength ∧ tail = .connective) ∨
      (k = .openParen ∧ s = .call ∧ tail = .call) := by
  cases k with
  | plus => cases h; exact .inl ⟨.add, rfl, rfl, rfl⟩
  | dash => cases h; exact .inl ⟨.sub, rfl, rfl, rfl⟩
  | star => cases h; exact .inl ⟨.mul, rfl, rfl, rfl⟩
  | slash => cases h; exact .inl ⟨.div, rfl, rfl, rfl⟩
  | less => cases h; exact .inr (.inl ⟨.lt, rfl, rfl, rfl⟩)
  | lessEquals => cases h; exact .inr (.inl ⟨.le, rfl, rfl, rfl⟩)
  | greater => cases h; exact .inr (.inl ⟨.gt, rfl, rfl, rfl⟩)
  | greaterEquals => cases h; exact .inr (.inl ⟨.ge, rfl, rfl, rfl⟩)
  | equals => cases h; exact .inr (.inl ⟨.eq, rfl, rfl, rfl⟩)
  | notEquals => cases h; exact .inr (.inl ⟨.ne, rfl, rfl, rfl⟩)
  | andWord => cases h; exact .inr (.inr (.inl ⟨.and, rfl, rfl, rfl⟩))
  | orWord => cases h; exact .inr (.inr (.inl ⟨.or, rfl, rfl, rfl⟩))
  | openParen => cases h; exact .inr (.inr (.inr ⟨rfl, rfl, rfl⟩))
  | _ => cases h

/-- A token of the kind `k` leaves a phrase of rank `n` as it is, unless it is a
    parenthesis. -/
def Rests (n : Nat) (k : Kind) : Prop := k ≠ .openParen → Stops n k

theorem Rests.stops (h : Rests n k) {s : Strength} {tail : Tail}
    (htail : Grammar.standard.tail k = some (s, tail)) (hs : s ≠ .call) : Stops n k := by
  apply h
  rintro rfl
  cases htail
  exact hs rfl

theorem ne_eof_of_tail {found : Strength × Tail} (h : Grammar.standard.tail k = some found) :
    k ≠ .eof := by
  rintro rfl
  cases h

/-- Only a parenthesis binds tighter than a minus sign. -/
theorem rests_unary (k : Kind) : Rests Strength.unary.rank k := by
  intro hk s tail htail
  rcases tail_cases htail with ⟨op, -, rfl, -⟩ | ⟨op, -, rfl, -⟩ | ⟨op, -, rfl, -⟩ | ⟨rfl, -⟩
  · cases op <;> exact .inl (by decide)
  · exact .inl (by decide)
  · cases op <;> exact .inl (by decide)
  · exact absurd rfl hk

theorem Loose.not_openParen (hn : n < Strength.call.rank) : ¬ Loose n .openParen := by
  intro h
  have hcall := h .call .call rfl
  omega

/-- What may follow the operand of an operator may follow the whole, to which an operator of
    the same strength binds from the right. -/
theorem Loose.stops_pred {s : Strength} (h : Loose s.rank k) (hrelational : s ≠ .relational)
    (hcall : s ≠ .call) : Stops (s.rank - 1) k := by
  intro s' tail htail
  have hle := h s' tail htail
  by_cases heq : s' = s
  · subst heq
    by_cases hpos : 0 < s'.rank
    · exact .inr ⟨by omega, hrelational, hcall⟩
    · exact .inl (by omega)
  · have hne : s'.rank ≠ s.rank := by
      intro hrank
      revert hrank heq
      cases s' <;> cases s <;> decide
    exact .inl (by omega)

/-- Behind a comparison that no other follows. -/
theorem Loose.stops_compare (h : Loose Strength.relational.rank k)
    (hop : comparisonOf? k = none) : Stops (Strength.relational.rank - 1) k := by
  intro s tail htail
  have hle := h s tail htail
  by_cases heq : s = .relational
  · rcases tail_cases htail with ⟨op, -, rfl, -⟩ | ⟨op, rfl, -⟩ | ⟨op, -, rfl, -⟩ | ⟨-, rfl, -⟩
    · cases op <;> cases heq
    · rw [comparisonOf?_kind] at hop
      cases hop
    · cases op <;> cases heq
    · cases heq
  · refine .inl ?_
    revert hle heq
    cases s <;> decide

/-- The left operand of an operator is a phrase of the rank the operator asks for. -/
theorem Stops.pred_le (h : Stops n k) {s : Strength} {tail : Tail}
    (htail : Grammar.standard.tail k = some (s, tail)) : s.rank - 1 ≤ n := by
  rcases h s tail htail with hle | ⟨heq, -⟩
  · omega
  · omega

theorem Stops.relational_le (h : Stops n k) {tail : Tail}
    (htail : Grammar.standard.tail k = some (.relational, tail)) :
    Strength.relational.rank ≤ n := by
  rcases h _ tail htail with hle | ⟨-, hne, -⟩
  · exact hle
  · exact absurd rfl hne

end Ranks

/-! ### Heads without operands -/

theorem literal_takes (c : Cursor) (n : Nat) :
    (literal c).Takes c fun w e _ => Phrase n w e.bare := by
  rw [literal]
  by_cases hinteger : c.kind = .integer
  · rw [dif_pos hinteger]
    cases hvalue : integer? c.current.value with
    | none => exact Reading.takes_stuck
    | some value =>
      exact Reading.takes_done (Cursor.past_of_kind hinteger (by decide)) (.number n hvalue)
  rw [dif_neg hinteger]
  by_cases hfloat : c.kind = .float
  · rw [dif_pos hfloat]
    cases hvalue : Binary64.ofText? c.current.value with
    | none => exact Reading.takes_stuck
    | some value =>
      exact Reading.takes_done (Cursor.past_of_kind hfloat (by decide)) (.float n hvalue)
  rw [dif_neg hfloat]
  by_cases hname : c.kind = .identifier
  · rw [dif_pos hname]
    exact Reading.takes_done (Cursor.past_of_kind hname (by decide)) (.symbol n _)
  · rw [dif_neg hname]
    exact Reading.takes_stuck

theorem negatedInteger_takes (v : String) (minus : Span) (c : Cursor) (h : c.kind = .integer) :
    (negatedInteger minus c h).Takes c fun w e _ =>
      Phrase Strength.unary.rank (⟨.dash, v⟩ :: w) e.bare := by
  rw [negatedInteger]
  cases hvalue : negatedMagnitude minus c.current with
  | error why => exact Reading.takes_stuck
  | ok value =>
    refine Reading.takes_done (Cursor.past_of_kind h (by decide)) ?_
    exact .negative v (by decide) (negatedMagnitude_ok (t := c.current) rfl hvalue)

/-! ### The readers -/

mutual

/-- An expression is read from a phrase for it, up to a token that binds no tighter than
    the floor. -/
theorem expr_takes (floor : Strength) (hfloor : floor.rank < Strength.call.rank) (c : Cursor) :
    (expr .standard floor c).Takes c fun w e c' =>
      Phrase floor.rank w e.bare ∧ Loose floor.rank c'.kind := by
  rw [expr]
  cases hhead : Grammar.standard.head c.kind with
  | none => exact Reading.takes_stuck
  | some head =>
    refine (headed_takes c head hhead).andThen ?_
    intro w left c₁ _ _ hleft
    exact climb_takes hleft (Nat.le_of_lt_succ hfloor) hfloor c₁ (rests_unary _)
termination_by 8 * c.left + 2

theorem operand_takes (floor : Strength) (hfloor : floor.rank < Strength.call.rank) (c : Cursor)
    (hc : c.kind ≠ .eof) :
    (operand .standard floor c).Takes c fun w e c' => ∃ v w', w = ⟨c.kind, v⟩ :: w' ∧
      Phrase floor.rank w' e.bare ∧ Loose floor.rank c'.kind := by
  have hleft := Cursor.left_pos hc
  rw [operand, dif_pos hleft]
  refine (Reading.Takes.behind (Cursor.past_of_kind rfl hc) ?_).weaken _
  refine (expr_takes floor hfloor c.advance).imp ?_
  intro w e c' he
  exact ⟨_, w, rfl, he⟩
termination_by 8 * c.left

theorem headed_takes (c : Cursor) (head : Head) (hhead : Grammar.standard.head c.kind = some head) :
    (headed .standard head c).Takes c fun w e _ => Phrase Strength.unary.rank w e.bare := by
  unfold headed
  cases head with
  | literal => exact literal_takes c _
  | char => exact Reading.takes_stuck
  | minus =>
    have hkind : c.kind = .dash := head_minus hhead
    dsimp only
    by_cases hinteger : c.advance.kind = .integer ∧ c.advance.peek ≠ .openParen
    · rw [dif_pos hinteger]
      refine (Reading.Takes.behind (Cursor.past_of_kind hkind (by decide)) ?_).weaken _
      exact negatedInteger_takes c.current.value _ c.advance hinteger.1
    rw [dif_neg hinteger]
    refine (operand_takes .unary (by decide) c (by rw [hkind]; decide)).andThen ?_
    rintro w e c₁ _ hpast ⟨v, w', rfl, he, hloose⟩
    apply Reading.takes_pure
    rw [List.append_nil, bare_negation, hkind]
    refine .minus v (by decide) ?_ he
    intro hw'
    obtain ⟨text, rfl⟩ := he.eq_integer hw'
    -- a parenthesis would have to follow, which binds tighter than the minus sign
    have hadvance : c.advance.spellings = ⟨.integer, text⟩ :: c₁.spellings :=
      Cursor.advance_of hpast.spellings
    have hpeek : c.advance.peek = c₁.kind := by
      rw [Cursor.peek_eq, hadvance, List.tail_cons, ← Cursor.kind_eq]
    refine hinteger ⟨Cursor.kind_of hadvance, ?_⟩
    rw [hpeek]
    intro hparen
    rw [hparen] at hloose
    exact Loose.not_openParen (by decide) hloose
  | group =>
    have hkind : c.kind = .openParen := head_group hhead
    refine (operand_takes .lowest (by decide) c (by rw [hkind]; decide)).andThen ?_
    rintro w e c₁ _ - ⟨v, w', rfl, he, -⟩
    refine (expect_takes c₁ (by decide)).andThen ?_
    rintro w'' _ c₂ _ - ⟨v', rfl⟩
    apply Reading.takes_pure
    rw [List.append_nil, hkind]
    exact .group _ v v' he
termination_by 8 * c.left + 1

theorem climb_takes {floor : Strength} {left : Expr} {n : Nat} {w₀ : List Spelling}
    (hleft : Phrase n w₀ left.bare) (hn : floor.rank ≤ n)
    (hfloor : floor.rank < Strength.call.rank) (c : Cursor) (hc : Rests n c.kind) :
    (climb .standard floor left c).Takes c fun w e c' =>
      Phrase floor.rank (w₀ ++ w) e.bare ∧ Loose floor.rank c'.kind := by
  rw [climb]
  cases htail : Grammar.standard.tail c.kind with
  | none =>
    apply Reading.takes_pure
    rw [List.append_nil]
    exact ⟨hleft.mono hn, loose_of_none htail⟩
  | some found =>
    obtain ⟨strength, tail⟩ := found
    dsimp only
    by_cases hrank : floor.rank < strength.rank
    · rw [if_pos hrank]
      refine ((tailed_takes hleft c hc htail).andThen ?_).weaken _
      rintro w e c₁ _ - ⟨he, hc₁⟩
      refine (climb_takes he (by omega) hfloor c₁ hc₁).imp ?_
      intro w' e' c' h
      rwa [← List.append_assoc]
    · rw [if_neg hrank]
      apply Reading.takes_pure
      rw [List.append_nil]
      refine ⟨hleft.mono hn, ?_⟩
      intro s tail' hs
      rw [htail] at hs
      cases hs
      omega
termination_by 8 * c.left + 5

theorem tailed_takes {left : Expr} {n : Nat} {w₀ : List Spelling} {strength : Strength}
    {tail : Tail} (hleft : Phrase n w₀ left.bare) (c : Cursor) (hc : Rests n c.kind)
    (htail : Grammar.standard.tail c.kind = some (strength, tail)) :
    (tailed .standard tail strength left c).Takes c fun w e c' =>
      Phrase (strength.rank - 1) (w₀ ++ w) e.bare ∧ Rests (strength.rank - 1) c'.kind := by
  rcases tail_cases htail with ⟨op, hkind, rfl, rfl⟩ | ⟨op, hkind, rfl, rfl⟩ |
    ⟨op, hkind, rfl, rfl⟩ | ⟨hkind, rfl, rfl⟩
  · have hcall : op.strength ≠ .call := by cases op <;> decide
    have hleft' := hleft.mono ((hc.stops htail hcall).pred_le htail)
    rw [tailed, hkind, arithmeticOf?_kind]
    refine (operand_takes op.strength (by cases op <;> decide) c (ne_eof_of_tail htail)).andThen ?_
    rintro w right c₁ _ - ⟨v, w', rfl, hright, hloose⟩
    apply Reading.takes_pure
    rw [List.append_nil, hkind]
    refine ⟨.binary op v (by cases op <;> decide) hleft' hright, ?_⟩
    intro _
    exact hloose.stops_pred (by cases op <;> decide) hcall
  · have hleft' := hleft.mono ((hc.stops htail (by decide)).relational_le htail)
    rw [tailed, hkind, comparisonOf?_kind]
    refine (operand_takes .relational (by decide) c (ne_eof_of_tail htail)).andThen ?_
    rintro w right c₁ _ - ⟨v, w', rfl, hright, hloose⟩
    cases hnext : comparisonOf? c₁.kind with
    | some op' => exact Reading.takes_stuck
    | none =>
      apply Reading.takes_pure
      rw [List.append_nil, hkind]
      refine ⟨.compare op v (by decide) hleft' hright, ?_⟩
      intro _
      exact hloose.stops_compare hnext
  · have hcall : op.strength ≠ .call := by cases op <;> decide
    have hleft' := hleft.mono ((hc.stops htail hcall).pred_le htail)
    rw [tailed, hkind, connectiveOf_kind]
    refine (operand_takes op.strength (by cases op <;> decide) c (ne_eof_of_tail htail)).andThen ?_
    rintro w right c₁ _ - ⟨v, w', rfl, hright, hloose⟩
    apply Reading.takes_pure
    rw [List.append_nil, hkind]
    refine ⟨.logic op v (by cases op <;> decide) hleft' hright, ?_⟩
    intro _
    exact hloose.stops_pred (by cases op <;> decide) hcall
  · cases left with
    | symbol callee span =>
      rw [tailed]
      refine (called_takes (hleft.namePhrase rfl) span c hkind).imp ?_
      intro w e c' he
      exact ⟨he, rests_unary _⟩
    | _ =>
      rw [tailed]
      · exact Reading.takes_stuck
      · intro callee span h
        cases h
termination_by 8 * c.left + 4

theorem called_takes {w₀ : List Spelling} {callee : String} (hname : NamePhrase w₀ callee)
    (span : Span) (c : Cursor) (hkind : c.kind = .openParen) :
    (called .standard callee span c).Takes c fun w e _ =>
      Phrase Strength.unary.rank (w₀ ++ w) e.bare := by
  have hleft := Cursor.left_pos_of_kind hkind (by decide)
  have hopen := Cursor.past_of_kind hkind (by decide)
  rw [called]
  by_cases hord : callee = ordName ∧ c.advance.kind = .char
  · rw [dif_pos hord]
    obtain ⟨rfl, hchar⟩ := hord
    refine (Reading.Takes.behind
      (hopen.append (Cursor.past_of_kind hchar (by decide))) ?_).weaken _
    refine (expect_takes _ (by decide)).andThen ?_
    rintro w _ c₁ _ - ⟨v', rfl⟩
    apply Reading.takes_pure
    rw [List.append_nil]
    exact .ord _ _ v' (by decide) hname
  rw [dif_neg hord, dif_pos hleft]
  refine (Reading.Takes.behind hopen ?_).weaken _
  refine (arguments_takes c.advance).andThen ?_
  intro ws args c₁ _ _ hargs
  refine (expect_takes c₁ (by decide)).andThen ?_
  rintro w _ c₂ _ - ⟨v', rfl⟩
  apply Reading.takes_pure
  rw [List.append_nil]
  exact .call _ v' (by decide) hname hargs
termination_by 8 * c.left + 3

theorem arguments_takes (c : Cursor) :
    (arguments .standard c).Takes c fun ws es _ => Phrases ws (bareExprs es) := by
  rw [arguments]
  by_cases hclose : c.kind = .closeParen
  · rw [if_pos hclose]
    exact Reading.takes_pure .nil
  rw [if_neg hclose]
  refine Reading.Takes.weaken ?_ _
  refine (expr_takes .lowest (by decide) c).andThen ?_
  rintro w e c₁ _ - ⟨he, -⟩
  refine (separator_takes c₁ _).andThen ?_
  rintro w' _ c₂ _ - (⟨v, rfl⟩ | ⟨rfl, hclose₂⟩)
  · refine (arguments_takes c₂).andThen ?_
    intro ws es c₃ _ _ hes
    apply Reading.takes_pure
    rw [List.append_nil]
    exact .cons v he hes
  · rw [arguments, if_pos hclose₂]
    apply Reading.takes_pure
    rw [List.append_nil, List.append_nil]
    exact .last he
termination_by 8 * c.left + 3

end

end Offside.Surface

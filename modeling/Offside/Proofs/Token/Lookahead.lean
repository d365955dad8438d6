/-
  Offside/Proofs/Token/Lookahead.lean
  ===================================
  **A lexeme looks no further than the end of its line.**  What is cut off at the head of a
  line depends on that line alone, whatever the lines behind it are.  Either the whole line is
  the end of a line or a joint, or the lexeme is the one that would be cut off if the text
  ended with the line (`Lexeme.read_line`).

  So two texts that differ in later lines only are scanned alike up to there.
-/
import Mathlib.Data.List.TakeWhile
import Offside.Proofs.Token.Move

namespace Offside.Token

/-! ### Stretches of characters -/

/-- What follows is not in the class, so that a stretch of the class ends before it. -/
def StopsAt (p : Char → Bool) (more : List Char) : Prop := ∀ c ∈ more.head?, p c = false

section Stretches

variable {p : Char → Bool} {more : List Char}

theorem stopsAt_cons {c : Char} (h : p c = false) : StopsAt p (c :: more) := by
  intro d hd
  cases hd
  exact h

theorem takeWhile_append_stop (h : StopsAt p more) (cs : List Char) :
    (cs ++ more).takeWhile p = cs.takeWhile p := by
  induction cs with
  | nil =>
    cases more with
    | nil => rfl
    | cons c more => exact List.takeWhile_cons_of_neg (Bool.eq_false_iff.mp (h c rfl))
  | cons c cs ih => rw [List.cons_append, List.takeWhile_cons, List.takeWhile_cons, ih]

theorem dropWhile_append_stop (h : StopsAt p more) (cs : List Char) :
    (cs ++ more).dropWhile p = cs.dropWhile p ++ more := by
  induction cs with
  | nil =>
    cases more with
    | nil => rfl
    | cons c more => exact List.dropWhile_cons_of_neg (Bool.eq_false_iff.mp (h c rfl))
  | cons c cs ih =>
    rw [List.cons_append, List.dropWhile_cons, List.dropWhile_cons, ih]
    split <;> rfl

/-- A stretch that ends inside a text is the same in front of more text. -/
theorem takeWhile_append_of_rest {cs : List Char} (h : cs.dropWhile p ≠ []) (more : List Char) :
    (cs ++ more).takeWhile p = cs.takeWhile p ∧
      (cs ++ more).dropWhile p = cs.dropWhile p ++ more := by
  induction cs with
  | nil => exact absurd rfl h
  | cons c cs ih =>
    by_cases hc : p c = true
    · rw [List.dropWhile_cons_of_pos hc] at h
      simp [hc, ih h]
    · simp [hc]

end Stretches

/-! ### Words, numbers and signs -/

namespace Lexeme

/-- The lexeme in front of more text. -/
def before (l : Lexeme) (more : List Char) : Lexeme := { l with rest := l.rest ++ more }

/-- The text ends, or its next character is one of those that end a line. -/
def AtLineEnd (more : List Char) : Prop := ∀ c ∈ more.head?, c ∈ ['\n', '\r']

theorem atLineEnd_cons {c : Char} (h : c ∈ ['\n', '\r']) (cs : List Char) :
    AtLineEnd (c :: cs) := by
  intro d hd
  cases hd
  exact h

variable {more : List Char}

theorem AtLineEnd.stopsAt (h : AtLineEnd more) {p : Char → Bool}
    (hp : ['\n', '\r'].all (fun c => !p c) = true) : StopsAt p more := by
  intro c hc
  have hnot := List.all_eq_true.mp hp c (h c hc)
  rwa [Bool.not_eq_true'] at hnot

theorem word_append_end (h : AtLineEnd more) (cs : List Char) :
    word (cs ++ more) = (word cs).before more := by
  have hstop : StopsAt isWordPart more := h.stopsAt (by decide)
  rw [word, takeWhile_append_stop hstop, dropWhile_append_stop hstop]
  rfl

theorem exponentDigits_append_end (h : AtLineEnd more) (mark cs : List Char) :
    exponentDigits mark (cs ++ more) = exponentDigits mark cs := by
  rw [exponentDigits, exponentDigits, takeWhile_append_stop (h.stopsAt (by decide))]

theorem exponentText_of_end (h : AtLineEnd more) : exponentText more = [] := by
  match more with
  | [] => rfl
  | [_] => rfl
  | c :: s :: cs =>
    have hc : ¬ (c = 'e' ∨ c = 'E') := by
      have := h c rfl
      rintro (rfl | rfl) <;> exact absurd this (by decide)
    rw [exponentText, if_neg hc]

theorem exponentText_append_end (h : AtLineEnd more) (cs : List Char) :
    exponentText (cs ++ more) = exponentText cs := by
  match cs with
  | [] => exact exponentText_of_end h
  | [c] =>
    match more with
    | [] => rfl
    | s :: rest =>
      -- a mark without digits behind it is no exponent
      have hdigits : exponentDigits [c] (s :: rest) = [] :=
        exponentDigits_append_end h [c] []
      have hs : ¬ (s = '+' ∨ s = '-') := by
        have := h s rfl
        rintro (rfl | rfl) <;> exact absurd this (by decide)
      change exponentText (c :: s :: rest) = []
      rw [exponentText, if_neg hs, hdigits, ite_self]
  | c :: s :: cs =>
    change exponentText (c :: s :: (cs ++ more)) = exponentText (c :: s :: cs)
    rw [exponentText, exponentText, exponentDigits_append_end h, ← List.cons_append,
      exponentDigits_append_end h]

theorem decimalText_append_end (h : AtLineEnd more) (cs : List Char) :
    decimalText (cs ++ more) = decimalText cs := by
  have hstop : StopsAt Char.isDigit more := h.stopsAt (by decide)
  unfold decimalText
  rw [takeWhile_append_stop hstop, dropWhile_append_stop hstop]
  match cs.dropWhile Char.isDigit with
  | [] =>
    match more with
    | [] => rfl
    | c :: rest =>
      have hpoint : c ≠ '.' := by
        have := h c rfl
        rintro rfl
        exact absurd this (by decide)
      simp [hpoint]
  | c :: after =>
    by_cases hpoint : c = '.'
    · subst hpoint
      simp only [List.cons_append, takeWhile_append_stop hstop, dropWhile_append_stop hstop,
        exponentText_append_end h]
    · simp [hpoint]

/-- A hexadecimal number stands at the head of the text. -/
def HexHead (cs : List Char) : Prop :=
  ∃ x d rest, cs = '0' :: x :: d :: rest ∧ (x = 'x' ∨ x = 'X') ∧ Number.isHexDigit d = true

theorem numberText_of_hex {x d : Char} (hx : x = 'x' ∨ x = 'X') (hd : Number.isHexDigit d = true)
    (rest : List Char) : numberText ('0' :: x :: d :: rest) =
      (.integer, '0' :: x :: (d :: rest).takeWhile Number.isHexDigit) := by
  rw [numberText, if_pos ⟨hx, hd⟩]

theorem numberText_of_not_hex {cs : List Char} (h : ¬ HexHead cs) :
    numberText cs = decimalText cs := by
  unfold numberText
  split
  next x d rest => exact if_neg fun hhex => h ⟨x, d, rest, rfl, hhex.1, hhex.2⟩
  next => rfl

/-- No line end begins or goes on with a hexadecimal number. -/
theorem hexHead_of_append (h : AtLineEnd more) {cs : List Char} (hhex : HexHead (cs ++ more)) :
    HexHead cs := by
  obtain ⟨x, d, rest, hcs, hx, hd⟩ := hhex
  match cs with
  | [] =>
    subst hcs
    exact absurd (h '0' rfl) (by decide)
  | [a] =>
    obtain ⟨-, rfl⟩ := List.cons.inj hcs
    have hend := h x rfl
    rcases hx with rfl | rfl <;> exact absurd hend (by decide)
  | [a, b] =>
    obtain ⟨-, htail⟩ := List.cons.inj hcs
    obtain ⟨-, rfl⟩ := List.cons.inj htail
    have hstop : StopsAt Number.isHexDigit (d :: rest) := h.stopsAt (by decide)
    rw [hstop d rfl] at hd
    cases hd
  | a :: b :: c :: cs =>
    simp only [List.cons_append, List.cons.injEq] at hcs
    obtain ⟨rfl, rfl, rfl, -⟩ := hcs
    exact ⟨b, c, cs, rfl, hx, hd⟩

theorem numberText_append_end (h : AtLineEnd more) (cs : List Char) :
    numberText (cs ++ more) = numberText cs := by
  by_cases hhex : HexHead cs
  · obtain ⟨x, d, rest, rfl, hx, hd⟩ := hhex
    have hstop : StopsAt Number.isHexDigit more := h.stopsAt (by decide)
    rw [List.cons_append, List.cons_append, List.cons_append, numberText_of_hex hx hd,
      numberText_of_hex hx hd, ← List.cons_append, takeWhile_append_stop hstop]
  · rw [numberText_of_not_hex hhex, numberText_of_not_hex fun hmore =>
      hhex (hexHead_of_append h hmore), decimalText_append_end h]

theorem number_append_end (h : AtLineEnd more) (cs : List Char) :
    number (cs ++ more) = (number cs).before more := by
  have hlength : (numberText cs).2.length ≤ cs.length :=
    List.IsPrefix.length_le <| numberText_prefix cs
  have hdrop : (cs ++ more).drop (numberText cs).2.length =
      cs.drop (numberText cs).2.length ++ more := List.drop_append_of_le_length hlength
  rw [number, numberText_append_end h, number]
  generalize numberText cs = p at hdrop
  obtain ⟨kind, text⟩ := p
  exact congrArg (Lexeme.mk (.plain kind) text) hdrop

/-- A sign of two characters does not begin at the end of a line. -/
theorem second_of_append (h : AtLineEnd more) {d : Char} (hd : d ∉ ['\n', '\r'])
    {cs rest : List Char} (heq : cs ++ more = d :: rest) : ∃ tail, cs = d :: tail := by
  cases cs with
  | nil =>
    subst heq
    exact absurd (h d rfl) hd
  | cons c tail => exact ⟨tail, by rw [(List.cons.inj heq).1]⟩

theorem sign?_append_end (h : AtLineEnd more) {cs : List Char} (hcs : cs ≠ []) :
    sign? (cs ++ more) = (sign? cs).map (·.before more) := by
  have hsecond : ∀ {tail : List Char} {d : Char}, d ∉ ['\n', '\r'] →
      (∀ rest, tail = d :: rest → False) → ∀ rest, tail ++ more = d :: rest → False := by
    intro tail d hd hnot rest heq
    obtain ⟨tail', htail⟩ := second_of_append h hd heq
    exact hnot tail' htail
  fun_cases sign? cs with
  | case8 tail hnot =>
    rw [List.cons_append, sign?.eq_8 _ (hsecond (by decide) hnot)]
    rfl
  | case9 tail hnot =>
    rw [List.cons_append, sign?.eq_9 _ (hsecond (by decide) hnot)]
    rfl
  | case10 tail hnot =>
    rw [List.cons_append, sign?.eq_10 _ (hsecond (by decide) hnot)]
    rfl
  | case14 tail hnot =>
    rw [List.cons_append, sign?.eq_14 _ (hsecond (by decide) hnot)]
    rfl
  | case17 _ _ _ hnotEquals =>
    obtain ⟨c, tail, rfl⟩ := List.exists_cons_of_ne_nil hcs
    have hbang : c = '!' → ∀ rest, tail ++ more = '=' :: rest → False := by
      rintro rfl
      exact hsecond (by decide) fun rest htail => hnotEquals rest (by rw [htail])
    rw [List.cons_append, sign?.eq_17]
    · rfl
    all_goals
      intro rest heq
      obtain ⟨rfl, htail⟩ := List.cons.inj heq
      grind
  | _ => rfl

end Lexeme

/-! ### Literals -/

/-- The body of a literal ends before a line feed. -/
theorem quotedBody_append_lineFeed (quote : Char) (cs rest : List Char) :
    quotedBody quote (cs ++ '\n' :: rest) =
      ((quotedBody quote cs).1, (quotedBody quote cs).2 ++ '\n' :: rest) := by
  fun_induction quotedBody quote cs with
  | case1 cs => rfl
  | case2 c cs hc body more hbody ih =>
    rw [hbody] at ih
    rw [List.cons_append, List.cons_append, quotedBody, if_neg hc, ih]
  | case3 c cs hslash hstop =>
    by_cases hc : c = '\\'
    · subst hc
      cases cs with
      | nil => rfl
      | cons d ds => exact (hslash d ds rfl rfl).elim
    · rw [List.cons_append, quotedBody_cons hc, if_pos hstop]
  | case4 c cs hslash hstop body more hbody ih =>
    rw [hbody] at ih
    rw [List.cons_append, quotedBody_cons fun hc => hstop (.inr (.inl hc)), if_neg hstop, ih]
  | case5 =>
    rw [List.nil_append, quotedBody_cons (by decide), if_pos (by simp)]

namespace Lexeme

theorem literal_append_lineFeed {quote : Char} (hquote : '\n' ≠ quote) (cs rest : List Char) :
    literal quote (cs ++ '\n' :: rest) = (literal quote cs).before ('\n' :: rest) := by
  rw [literal, quotedBody_append_lineFeed, literal]
  generalize quotedBody quote cs = p
  obtain ⟨body, more⟩ := p
  cases more with
  | nil => simp [hquote, before]
  | cons c more =>
    by_cases hc : c = quote
    · simp [hc, before]
    · simp [hc, before]

/-! ### Lines -/

theorem readBy_append_lineFeed {c : Char} (hc : c ≠ '\n') (cs rest : List Char) :
    readBy c (cs ++ '\n' :: rest) = (readBy c cs).map (·.before ('\n' :: rest)) := by
  have hend : AtLineEnd ('\n' :: rest) := atLineEnd_cons (by decide) rest
  have hrun : ∀ p : Char → Bool, p '\n' = false →
      run .gap p (c :: (cs ++ '\n' :: rest)) = (run .gap p (c :: cs)).before ('\n' :: rest) := by
    intro p hp
    have hstop : StopsAt p ('\n' :: rest) := stopsAt_cons hp
    rw [run, ← List.cons_append, takeWhile_append_stop hstop, dropWhile_append_stop hstop]
    rfl
  unfold readBy
  rw [hrun isGap (by decide), hrun _ (by decide), ← List.cons_append, word_append_end hend,
    number_append_end hend, sign?_append_end hend (List.cons_ne_nil c cs)]
  split
  · rfl
  split
  · rfl
  split
  · rfl
  split
  · rfl
  split
  next hquote =>
    have hfeed : '\n' ≠ c := fun h => hc h.symm
    rw [literal_append_lineFeed hfeed]
    rfl
  next => rfl

theorem read_eq_readBy_of_line {c : Char} {cs : List Char} (h : '\n' ∉ c :: cs) :
    read (c :: cs) = readBy c cs := by
  unfold read
  split <;> simp_all

/-- The form of a line that is one lexeme with the line feed that ends it. -/
def endForm? : List Char → Option Form
  | [] | ['\r'] => some .lineEnd
  | ['\\'] | ['\\', '\r'] => some .joint
  | _ => none

/-- A line ends with its first line feed. -/
theorem eq_of_append_lineFeed {line rest rest' : List Char} (line' : List Char) (h : '\n' ∉ line)
    (h' : '\n' ∉ line') (heq : line ++ '\n' :: rest = line' ++ '\n' :: rest') :
    line = line' ∧ rest = rest' := by
  have hstop : ∀ more, StopsAt (· ≠ '\n') ('\n' :: more) := fun _ => stopsAt_cons (by decide)
  have hall : ∀ {cs : List Char}, '\n' ∉ cs → cs.takeWhile (· ≠ '\n') = cs := by
    intro cs hcs
    refine List.takeWhile_eq_self_iff.mpr fun c hc => decide_eq_true ?_
    rintro rfl
    exact hcs hc
  have hline := congrArg (List.takeWhile (· ≠ '\n')) heq
  rw [takeWhile_append_stop (hstop _), takeWhile_append_stop (hstop _), hall h, hall h'] at hline
  subst hline
  exact ⟨rfl, (List.cons.inj (List.append_cancel_left heq)).2⟩

/-- The lexeme at the head of a line is the line with its end, or it is cut off as if the text
    ended with the line. -/
theorem read_line {line : List Char} (h : '\n' ∉ line) (rest : List Char) :
    read (line ++ '\n' :: rest) =
      match endForm? line with
      | some form => some ⟨form, line ++ ['\n'], rest⟩
      | none => (read line).map (·.before ('\n' :: rest)) := by
  fun_cases endForm? line with
  | case5 line hempty hreturn hslash hjoint =>
    obtain ⟨c, cs, rfl⟩ := List.exists_cons_of_ne_nil hempty
    have hc : c ≠ '\n' := fun hc => h (by simp [hc])
    have hcs : '\n' ∉ cs := fun hmem => h (List.mem_cons_of_mem c hmem)
    change _ = (read (c :: cs)).map _
    rw [read_eq_readBy_of_line h, ← readBy_append_lineFeed hc, List.cons_append]
    unfold read
    split
    next heq => cases heq
    next heq =>
      obtain ⟨rfl, htail⟩ := List.cons.inj heq
      obtain ⟨rfl, -⟩ := eq_of_append_lineFeed [] hcs (by decide) htail
      exact absurd rfl hslash
    next heq =>
      obtain ⟨rfl, htail⟩ := List.cons.inj heq
      obtain ⟨rfl, -⟩ := eq_of_append_lineFeed ['\r'] hcs (by decide) htail
      exact absurd rfl hjoint
    next heq => exact absurd (List.cons.inj heq).1 hc
    next heq =>
      obtain ⟨rfl, htail⟩ := List.cons.inj heq
      obtain ⟨rfl, -⟩ := eq_of_append_lineFeed [] hcs (by decide) htail
      exact absurd rfl hreturn
    next heq =>
      obtain ⟨rfl, rfl⟩ := List.cons.inj heq
      rfl
  | _ => rfl

end Lexeme
end Offside.Token

/-
  Offside/Token/Lexeme.lean
  =========================
  **What stands at the head of the remaining text.**  `Lexeme.read` cuts off one lexeme:
  a line end, a joint of two lines, a gap, a word, a number, a quoted literal or a sign.
  The longest match is taken within a class, and the classes are told apart by the first
  characters alone.

  Nothing is lost: the lexeme's text and the rest make up the text again
  (`Lexeme.read_append`), and a lexeme is never empty (`Lexeme.read_ne_nil`), so that
  cutting lexeme after lexeme comes to an end (`Lexeme.read_length`).
-/
import Offside.Token
import Offside.Token.Literal

namespace Offside.Token

/-- What a lexeme is. -/
inductive Form where
  /-- A backslash before a line end, which joins two lines. -/
  | joint
  /-- A line feed, or a carriage return and a line feed. -/
  | lineEnd
  /-- Blanks, or a comment. -/
  | gap
  /-- A quoted literal, which may lack its closing quote. -/
  | quoted (body : List Char) (closed : Bool)
  /-- A token that stands for its own text. -/
  | plain (kind : Kind)
deriving DecidableEq, Repr

/-- A lexeme, its text, and the text that follows it. -/
structure Lexeme where
  form : Form
  text : List Char
  rest : List Char

/-! ### Character classes -/

/-- Holds for the blanks between tokens: space, tab, carriage return, form feed. -/
def isGap (c : Char) : Bool := c = ' ' || c = '\t' || c = '\r' || c = '\x0c'

/-- Holds for the characters a word can begin with. -/
def isWordStart (c : Char) : Bool := c.isAlpha || c = '_'

/-- Holds for the characters a word can go on with. -/
def isWordPart (c : Char) : Bool := c.isAlphanum || c = '_'

namespace Lexeme

/-- The longest stretch of characters in `p`. -/
def run (form : Form) (p : Char → Bool) (cs : List Char) : Lexeme :=
  ⟨form, cs.takeWhile p, cs.dropWhile p⟩

/-! ### Numbers -/

/-- The digits of an exponent after its mark and sign, if there are any. -/
def exponentDigits (mark : List Char) (cs : List Char) : List Char :=
  match cs.takeWhile Char.isDigit with
  | [] => []
  | digits => mark ++ digits

/-- The text of the exponent at the head of `cs`, which is empty if there is none. -/
def exponentText : List Char → List Char
  | c :: s :: cs =>
    if c = 'e' ∨ c = 'E' then
      if s = '+' ∨ s = '-' then exponentDigits [c, s] cs else exponentDigits [c] (s :: cs)
    else []
  | _ => []

/-- The text of the decimal number at the head of `cs` and its kind: a point after the
    first digits makes it a float, which may have an exponent. -/
def decimalText (cs : List Char) : Kind × List Char :=
  let whole := cs.takeWhile Char.isDigit
  match cs.dropWhile Char.isDigit with
  | '.' :: after =>
    let fraction := after.takeWhile Char.isDigit
    (.float, whole ++ '.' :: fraction ++ exponentText (after.dropWhile Char.isDigit))
  | _ => (.integer, whole)

/-- The text of the number at the head of `cs`, which begins with a digit. -/
def numberText (cs : List Char) : Kind × List Char :=
  match cs with
  | '0' :: x :: h :: more =>
    if (x = 'x' ∨ x = 'X') ∧ Number.isHexDigit h then
      (.integer, '0' :: x :: (h :: more).takeWhile Number.isHexDigit)
    else decimalText cs
  | _ => decimalText cs

/-- The number at the head of `cs`. -/
def number (cs : List Char) : Lexeme :=
  let (kind, text) := numberText cs
  ⟨.plain kind, text, cs.drop text.length⟩

/-! ### Words, literals and signs -/

/-- The word at the head of `cs`, reserved or not. -/
def word (cs : List Char) : Lexeme :=
  let text := cs.takeWhile isWordPart
  ⟨.plain (Kind.ofWord (String.ofList text)), text, cs.dropWhile isWordPart⟩

/-- The literal that begins with `quote` and goes on with `cs`. -/
def literal (quote : Char) (cs : List Char) : Lexeme :=
  let (body, rest) := quotedBody quote cs
  match rest with
  | c :: after =>
    if c = quote then ⟨.quoted body true, quote :: body ++ [quote], after⟩
    else ⟨.quoted body false, quote :: body, rest⟩
  | [] => ⟨.quoted body false, quote :: body, rest⟩

/-- The sign at the head of a text. -/
def sign? : List Char → Option Lexeme
  | '-' :: '>' :: cs => some ⟨.plain .arrow, ['-', '>'], cs⟩
  | '=' :: '=' :: cs => some ⟨.plain .equals, ['=', '='], cs⟩
  | '!' :: '=' :: cs => some ⟨.plain .notEquals, ['!', '='], cs⟩
  | '<' :: '=' :: cs => some ⟨.plain .lessEquals, ['<', '='], cs⟩
  | '>' :: '=' :: cs => some ⟨.plain .greaterEquals, ['>', '='], cs⟩
  | '(' :: cs => some ⟨.plain .openParen, ['('], cs⟩
  | ')' :: cs => some ⟨.plain .closeParen, [')'], cs⟩
  | '=' :: cs => some ⟨.plain .assignment, ['='], cs⟩
  | '<' :: cs => some ⟨.plain .less, ['<'], cs⟩
  | '>' :: cs => some ⟨.plain .greater, ['>'], cs⟩
  | ':' :: cs => some ⟨.plain .colon, [':'], cs⟩
  | ',' :: cs => some ⟨.plain .comma, [','], cs⟩
  | '+' :: cs => some ⟨.plain .plus, ['+'], cs⟩
  | '-' :: cs => some ⟨.plain .dash, ['-'], cs⟩
  | '*' :: cs => some ⟨.plain .star, ['*'], cs⟩
  | '/' :: cs => some ⟨.plain .slash, ['/'], cs⟩
  | _ => none

/-- The lexeme at the head of a text, by its first character `c`. -/
def readBy (c : Char) (cs : List Char) : Option Lexeme :=
  if isGap c then some (run .gap isGap (c :: cs))
  else if c = '#' then some (run .gap (· ≠ '\n') (c :: cs))
  else if isWordStart c then some (word (c :: cs))
  else if c.isDigit then some (number (c :: cs))
  else if c = '\'' ∨ c = '"' then some (literal c cs)
  else sign? (c :: cs)

/-- The lexeme at the head of a text, if one begins there. -/
def read : List Char → Option Lexeme
  | [] => none
  | '\\' :: '\n' :: cs => some ⟨.joint, ['\\', '\n'], cs⟩
  | '\\' :: '\r' :: '\n' :: cs => some ⟨.joint, ['\\', '\r', '\n'], cs⟩
  | '\n' :: cs => some ⟨.lineEnd, ['\n'], cs⟩
  | '\r' :: '\n' :: cs => some ⟨.lineEnd, ['\r', '\n'], cs⟩
  | c :: cs => readBy c cs

/-! ### Nothing is lost -/

theorem exponentDigits_prefix (mark cs : List Char) :
    exponentDigits mark cs <+: mark ++ cs := by
  unfold exponentDigits
  split
  · exact List.nil_prefix
  · exact (List.prefix_append_right_inj mark).2 (List.takeWhile_prefix _)

theorem exponentText_prefix (cs : List Char) : exponentText cs <+: cs := by
  unfold exponentText
  split
  · split
    · split
      · exact exponentDigits_prefix [_, _] _
      · exact exponentDigits_prefix [_] _
    · exact List.nil_prefix
  · exact List.nil_prefix

theorem decimalText_prefix (cs : List Char) : (decimalText cs).2 <+: cs := by
  unfold decimalText
  split
  next after h =>
    have hcs : cs.takeWhile Char.isDigit ++ '.' :: after = cs := by
      rw [← h]; exact List.takeWhile_append_dropWhile
    have hafter : after.takeWhile Char.isDigit ++ after.dropWhile Char.isDigit = after :=
      List.takeWhile_append_dropWhile
    obtain ⟨tail, htail⟩ := exponentText_prefix (after.dropWhile Char.isDigit)
    refine ⟨tail, ?_⟩
    conv => rhs; rw [← hcs, ← hafter, ← htail]
    simp
  next => exact List.takeWhile_prefix _

theorem numberText_prefix (cs : List Char) : (numberText cs).2 <+: cs := by
  unfold numberText
  split
  · split
    · exact (List.prefix_append_right_inj ['0', _]).2
        (List.takeWhile_prefix (l := _ :: _) Number.isHexDigit)
    · exact decimalText_prefix _
  · exact decimalText_prefix _

theorem decimalText_ne_nil {c : Char} (cs : List Char) (hc : c.isDigit = true) :
    (decimalText (c :: cs)).2 ≠ [] := by
  unfold decimalText
  split <;> simp [hc]

theorem numberText_ne_nil {c : Char} (cs : List Char) (hc : c.isDigit = true) :
    (numberText (c :: cs)).2 ≠ [] := by
  unfold numberText
  split
  · split
    · simp
    · exact decimalText_ne_nil cs hc
  · exact decimalText_ne_nil cs hc

theorem number_append (cs : List Char) : (number cs).text ++ (number cs).rest = cs := by
  obtain ⟨tail, h⟩ := numberText_prefix cs
  have hdrop : cs.drop (numberText cs).2.length = tail := by
    have := congrArg (List.drop (numberText cs).2.length) h.symm
    simpa using this
  show (numberText cs).2 ++ cs.drop (numberText cs).2.length = cs
  rw [hdrop, h]

theorem literal_append (quote : Char) (cs : List Char) :
    (literal quote cs).text ++ (literal quote cs).rest = quote :: cs := by
  have h := quotedBody_append quote cs
  unfold literal
  revert h
  generalize quotedBody quote cs = p
  obtain ⟨body, rest⟩ := p
  intro h
  cases rest with
  | nil => simpa using h
  | cons c after =>
    dsimp only
    split <;> simp_all

theorem sign?_append {cs : List Char} {l : Lexeme} (h : sign? cs = some l) :
    l.text ++ l.rest = cs ∧ l.text ≠ [] := by
  unfold sign? at h
  split at h <;> cases h <;> exact ⟨rfl, List.cons_ne_nil _ _⟩

theorem run_append (form : Form) (p : Char → Bool) (cs : List Char) :
    (run form p cs).text ++ (run form p cs).rest = cs :=
  List.takeWhile_append_dropWhile

theorem word_append (cs : List Char) : (word cs).text ++ (word cs).rest = cs :=
  List.takeWhile_append_dropWhile

theorem isWordPart_of_isWordStart {c : Char} (h : isWordStart c = true) :
    isWordPart c = true := by
  simp only [isWordStart, isWordPart, Char.isAlphanum, Bool.or_eq_true] at h ⊢
  rcases h with h | h
  · exact Or.inl (Or.inl h)
  · exact Or.inr h

theorem readBy_append {c : Char} {cs : List Char} {l : Lexeme} (h : readBy c cs = some l) :
    l.text ++ l.rest = c :: cs ∧ l.text ≠ [] := by
  unfold readBy at h
  split at h
  next hc =>
    cases h
    exact ⟨run_append .gap isGap (c :: cs), by simp [run, hc]⟩
  split at h
  next hc =>
    cases h
    exact ⟨run_append .gap _ (c :: cs), by simp [run, hc]⟩
  split at h
  next hc =>
    cases h
    exact ⟨word_append (c :: cs),
      by simp [word, isWordPart_of_isWordStart hc]⟩
  split at h
  next hc =>
    cases h
    exact ⟨number_append (c :: cs), numberText_ne_nil cs hc⟩
  split at h
  next =>
    cases h
    refine ⟨literal_append c cs, ?_⟩
    unfold literal
    split
    split
    · split <;> simp
    · simp
  next => exact sign?_append h

/-- The lexeme's text and the rest make up the text, and the lexeme is not empty. -/
theorem read_append {cs : List Char} {l : Lexeme} (h : read cs = some l) :
    l.text ++ l.rest = cs ∧ l.text ≠ [] := by
  unfold read at h
  split at h
  · cases h
  · cases h; simp
  · cases h; simp
  · cases h; simp
  · cases h; simp
  · exact readBy_append h

/-- A lexeme leaves less text than there was. -/
theorem read_length {cs : List Char} {l : Lexeme} (h : read cs = some l) :
    l.rest.length < cs.length := by
  obtain ⟨happ, hne⟩ := read_append h
  have hlen : l.text.length + l.rest.length = cs.length := by
    rw [← List.length_append, happ]
  have : 0 < l.text.length := List.length_pos_iff.2 hne
  omega

end Lexeme
end Offside.Token

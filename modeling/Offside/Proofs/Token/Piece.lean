/-
  Offside/Proofs/Token/Piece.lean
  ===============================
  **The pieces of a written line.**  A piece is a token together with the way it is written,
  or the gap between two tokens.  Its text is cut off as one lexeme of the right form
  (`Piece.read`), provided that the character behind it cannot belong to it
  (`Piece.endsBefore`): a word or a number must not go on, `<` must not become `<=`, and so
  on.  The forms of lexemes are told apart by their first characters, so this is all that
  one piece has to know of the next.
-/
import Offside.Proofs.Number.Exact
import Offside.Proofs.Surface.Spelling
import Offside.Proofs.Token.Escapes

namespace Offside.Token

open Number

/-- Holds for the texts that are read as an identifier. -/
def isName (text : String) : Bool :=
  match text.toList with
  | [] => false
  | c :: cs => isWordStart c && cs.all isWordPart && (Kind.ofReserved? text).isNone

/-- The text of the tokens that are always written alike. -/
def fixedText : Kind → List Char
  | .openParen => ['(']
  | .closeParen => [')']
  | .assignment => ['=']
  | .equals => ['=', '=']
  | .notEquals => ['!', '=']
  | .less => ['<']
  | .lessEquals => ['<', '=']
  | .greater => ['>']
  | .greaterEquals => ['>', '=']
  | .colon => [':']
  | .comma => [',']
  | .arrow => ['-', '>']
  | .plus => ['+']
  | .dash => ['-']
  | .slash => ['/']
  | .star => ['*']
  | .defWord => ['d', 'e', 'f']
  | .whileWord => ['w', 'h', 'i', 'l', 'e']
  | .ifWord => ['i', 'f']
  | .elifWord => ['e', 'l', 'i', 'f']
  | .elseWord => ['e', 'l', 's', 'e']
  | .returnWord => ['r', 'e', 't', 'u', 'r', 'n']
  | .importWord => ['i', 'm', 'p', 'o', 'r', 't']
  | .fromWord => ['f', 'r', 'o', 'm']
  | .andWord => ['a', 'n', 'd']
  | .orWord => ['o', 'r']
  | .passWord => ['p', 'a', 's', 's']
  | .breakWord => ['b', 'r', 'e', 'a', 'k']
  | .continueWord => ['c', 'o', 'n', 't', 'i', 'n', 'u', 'e']
  | _ => []

/-- The way a character is written between single quotes. -/
def escape (c : Char) : List Char :=
  if c = '\n' then ['\\', 'n']
  else if c = '\t' then ['\\', 't']
  else if c = '\r' then ['\\', 'r']
  else if c = '\x00' then ['\\', '0']
  else if c = '\\' then ['\\', '\\']
  else if c = '\'' then ['\\', '\'']
  else [c]

/-- A token as it is written, or a gap. -/
inductive Piece where
  | gap
  | fixed (kind : Kind)
  | name (text : String)
  | integer (value : Nat)
  | float (value : Binary64)
  | char (value : Char)

namespace Piece

def text : Piece → List Char
  | gap => [' ']
  | fixed kind => fixedText kind
  | name text => text.toList
  | integer value => Nat.toDigits 10 value
  | float value => value.exactText
  | char value => '\'' :: (escape value ++ ['\''])

def form : Piece → Form
  | gap => .gap
  | fixed kind => .plain kind
  | name _ => .plain .identifier
  | integer _ => .plain .integer
  | float _ => .plain .float
  | char value => .quoted (escape value) true

/-- What the token says. -/
def spelling? : Piece → Option Spelling
  | gap => none
  | fixed kind => some ⟨kind, String.ofList (fixedText kind)⟩
  | name text => some ⟨.identifier, text⟩
  | integer value => some ⟨.integer, String.ofList (Nat.toDigits 10 value)⟩
  | float value => some ⟨.float, String.ofList value.exactText⟩
  | char value => some ⟨.char, String.ofList [value]⟩

/-- Holds for the pieces that can be written. -/
def valid : Piece → Bool
  | fixed kind => fixedText kind ≠ []
  | name text => isName text
  | float value => value.isFinite && !value.isNegative
  | _ => true

/-- Holds if the piece ends before the character `c`. -/
def endsBefore (c : Char) : Piece → Bool
  | gap => !isGap c
  | fixed kind =>
    match kind with
    | .dash => c ≠ '>'
    | .assignment | .less | .greater => c ≠ '='
    | .openParen | .closeParen | .equals | .notEquals | .lessEquals | .greaterEquals | .colon
    | .comma | .arrow | .plus | .slash | .star => true
    | _ => !isWordPart c
  | name _ | integer _ | float _ => !isWordPart c && c ≠ '.'
  | char _ => true

end Piece

/-! ### Character classes -/

theorem read_eq_readBy {c : Char} (h : isWordPart c = true ∨ c = ' ') (cs : List Char) :
    Lexeme.read (c :: cs) = Lexeme.readBy c cs := by
  rw [Lexeme.read.eq_def]
  split
  next heq => cases heq
  next heq =>
    cases heq
    exact absurd h (by decide)
  next heq =>
    cases heq
    exact absurd h (by decide)
  next heq =>
    cases heq
    exact absurd h (by decide)
  next heq =>
    cases heq
    exact absurd h (by decide)
  next heq =>
    cases heq
    rfl

theorem isWordPart_of_isDigit {c : Char} (h : c.isDigit = true) : isWordPart c = true := by
  simp [isWordPart, Char.isAlphanum, h]

theorem isGap_of_isWordPart {c : Char} (h : isWordPart c = true) : isGap c = false := by
  by_contra hgap
  simp only [isGap, Bool.not_eq_false, Bool.or_eq_true, decide_eq_true_eq] at hgap
  rcases hgap with ((rfl | rfl) | rfl) | rfl <;> exact absurd h (by decide)

theorem ne_hash_of_isWordPart {c : Char} (h : isWordPart c = true) : c ≠ '#' := by
  rintro rfl
  exact absurd h (by decide)

theorem isWordStart_of_isDigit {c : Char} (h : c.isDigit = true) : isWordStart c = false := by
  have hne : c ≠ '_' := by
    rintro rfl
    exact absurd h (by decide)
  simp only [Char.isDigit, Bool.and_eq_true, decide_eq_true_eq, ge_iff_le, UInt32.le_iff_toNat_le]
    at h
  delta isWordStart Char.isAlpha Char.isUpper Char.isLower
  simp only [Bool.or_eq_false_iff, decide_eq_false_iff_not, Bool.and_eq_false_iff, ge_iff_le,
    UInt32.le_iff_toNat_le]
  refine ⟨?_, hne⟩
  have h57 : (57 : UInt32).toNat = 57 := rfl
  simp at h ⊢
  omega

theorem takeWhile_append_cons {p : Char → Bool} {as cs : List Char} {c : Char}
    (has : ∀ a ∈ as, p a = true) (hc : p c = false) :
    (as ++ c :: cs).takeWhile p = as := by
  rw [List.takeWhile_append_of_pos has]
  simp [hc]

theorem dropWhile_append_cons {p : Char → Bool} {as cs : List Char} {c : Char}
    (has : ∀ a ∈ as, p a = true) (hc : p c = false) :
    (as ++ c :: cs).dropWhile p = c :: cs := by
  rw [List.dropWhile_append_of_pos has]
  simp [hc]

/-! ### Words -/

section

variable {c : Char} {cs : List Char}

theorem read_word {a : Char} {as : List Char} (hstart : isWordStart a = true)
    (hall : ∀ b ∈ a :: as, isWordPart b = true) (hc : isWordPart c = false) :
    Lexeme.read (a :: as ++ c :: cs) =
      some ⟨.plain (Kind.ofWord (String.ofList (a :: as))), a :: as, c :: cs⟩ := by
  have ha : isWordPart a = true := hall a List.mem_cons_self
  rw [List.cons_append, read_eq_readBy (.inl ha), Lexeme.readBy,
    if_neg (by rw [isGap_of_isWordPart ha]; decide), if_neg (ne_hash_of_isWordPart ha),
    if_pos hstart, Lexeme.word, ← List.cons_append, takeWhile_append_cons hall hc,
    dropWhile_append_cons hall hc]

theorem read_name {text : String} (h : isName text = true) (hc : isWordPart c = false) :
    Lexeme.read (text.toList ++ c :: cs) = some ⟨.plain .identifier, text.toList, c :: cs⟩ := by
  cases htext : text.toList with
  | nil => simp [isName, htext] at h
  | cons a as =>
    simp only [isName, htext, Bool.and_eq_true, List.all_eq_true, Option.isNone_iff_eq_none] at h
    obtain ⟨⟨hstart, hall⟩, hreserved⟩ := h
    have hall' : ∀ b ∈ a :: as, isWordPart b = true := by
      intro b hb
      rcases List.mem_cons.mp hb with rfl | hb
      · exact Lexeme.isWordPart_of_isWordStart hstart
      · exact hall b hb
    rw [read_word hstart hall' hc, ← htext, String.ofList_toList,
      Kind.ofWord, hreserved]
    rfl

/-! ### Numbers -/

theorem numberText_eq_decimalText {a b : Char} (hx : b ≠ 'x') (hX : b ≠ 'X') (cs : List Char) :
    Lexeme.numberText (a :: b :: cs) = Lexeme.decimalText (a :: b :: cs) := by
  rw [Lexeme.numberText.eq_def]
  split
  next x _ _ heq =>
    cases heq
    exact if_neg (by simp [hx, hX])
  next => rfl

theorem exponentText_eq_nil (he : c ≠ 'e') (hE : c ≠ 'E') (cs : List Char) :
    Lexeme.exponentText (c :: cs) = [] := by
  cases cs with
  | nil => rfl
  | cons b cs => simp [Lexeme.exponentText, he, hE]

/-- The number that begins with some digits, if no mark of a hexadecimal one follows. -/
theorem read_number {ds more text rest : List Char} {kind : Kind} (hne : ds ≠ [])
    (hall : ∀ d ∈ ds, d.isDigit = true) (hx : c ≠ 'x') (hX : c ≠ 'X')
    (htext : ds ++ c :: more = text ++ rest)
    (h : Lexeme.decimalText (ds ++ c :: more) = (kind, text)) :
    Lexeme.read (ds ++ c :: more) = some ⟨.plain kind, text, rest⟩ := by
  have hnumber : Lexeme.numberText (ds ++ c :: more) = (kind, text) := by
    rw [← h]
    match ds, hne, hall with
    | [a], _, _ => exact numberText_eq_decimalText hx hX more
    | a :: b :: ds, _, hall =>
      have hb : b.isDigit = true := hall b (by simp)
      refine numberText_eq_decimalText ?_ ?_ _
      · rintro rfl
        exact absurd hb (by decide)
      · rintro rfl
        exact absurd hb (by decide)
  obtain ⟨a, ds, rfl⟩ := List.exists_cons_of_ne_nil hne
  have ha : a.isDigit = true := hall a List.mem_cons_self
  have hpart := isWordPart_of_isDigit ha
  rw [List.cons_append, read_eq_readBy (.inl hpart), Lexeme.readBy,
    if_neg (by rw [isGap_of_isWordPart hpart]; decide), if_neg (ne_hash_of_isWordPart hpart),
    if_neg (by rw [isWordStart_of_isDigit ha]; decide), if_pos ha, Lexeme.number,
    ← List.cons_append, hnumber, htext]
  simp only [List.drop_left]

theorem ne_of_not_isWordPart {a : Char} (hc : isWordPart c = false) (ha : isWordPart a = true) :
    c ≠ a := by
  rintro rfl
  rw [ha] at hc
  cases hc

theorem not_isDigit_of_not_isWordPart (hc : isWordPart c = false) : c.isDigit = false := by
  cases h : c.isDigit with
  | false => rfl
  | true =>
    rw [isWordPart_of_isDigit h] at hc
    cases hc

theorem read_integer (n : Nat) (hc : isWordPart c = false) (hpoint : c ≠ '.') :
    Lexeme.read (Nat.toDigits 10 n ++ c :: cs) =
      some ⟨.plain .integer, Nat.toDigits 10 n, c :: cs⟩ := by
  have hall : ∀ a ∈ Nat.toDigits 10 n, a.isDigit = true := fun _ => isDigit_of_mem_toDigits
  have hdecimal : Lexeme.decimalText (Nat.toDigits 10 n ++ c :: cs) =
      (.integer, Nat.toDigits 10 n) := by
    have hdigit := not_isDigit_of_not_isWordPart hc
    rw [Lexeme.decimalText, takeWhile_append_cons hall hdigit, dropWhile_append_cons hall hdigit]
    split
    next heq =>
      cases heq
      exact absurd rfl hpoint
    next => rfl
  exact read_number Nat.toDigits_ne_nil hall (ne_of_not_isWordPart hc (by decide))
    (ne_of_not_isWordPart hc (by decide)) rfl hdecimal

theorem read_fixedPoint (m k : Nat) (hc : isWordPart c = false) :
    Lexeme.read (Binary64.fixedPoint m k ++ c :: cs) =
      some ⟨.plain .float, Binary64.fixedPoint m k, c :: cs⟩ := by
  have hwhole : ∀ a ∈ Nat.toDigits 10 (m / 10 ^ k), a.isDigit = true := fun _ =>
    isDigit_of_mem_toDigits
  have hplaces : ∀ a ∈ Binary64.places k m, a.isDigit = true := fun _ =>
    Binary64.isDigit_of_mem_places
  have hdigit := not_isDigit_of_not_isWordPart hc
  have hexponent : Lexeme.exponentText (c :: cs) = [] :=
    exponentText_eq_nil (ne_of_not_isWordPart hc (by decide)) (ne_of_not_isWordPart hc (by decide))
      cs
  have hpoint : Char.isDigit '.' = false := by decide
  rw [Binary64.fixedPoint, List.append_assoc, List.cons_append]
  refine read_number Nat.toDigits_ne_nil hwhole (by decide) (by decide) (by simp) ?_
  rw [Lexeme.decimalText, takeWhile_append_cons hwhole hpoint,
    dropWhile_append_cons hwhole hpoint]
  simp only [takeWhile_append_cons hplaces hdigit, dropWhile_append_cons hplaces hdigit,
    hexponent, List.append_nil]

theorem read_float (x : Binary64) (hc : isWordPart c = false) :
    Lexeme.read (x.exactText ++ c :: cs) = some ⟨.plain .float, x.exactText, c :: cs⟩ := by
  rw [Binary64.exactText]
  split
  · exact read_fixedPoint _ _ hc
  · exact read_fixedPoint _ _ hc

/-! ### Literals and signs -/

theorem escapes_escape (a : Char) : Escapes '\'' a (escape a) := by
  rw [escape]
  split
  next h => exact .named (by simp [h, namedEscapes])
  split
  next h => exact .named (by simp [h, namedEscapes])
  split
  next h => exact .named (by simp [h, namedEscapes])
  split
  next h => exact .named (by simp [h, namedEscapes])
  split
  next h => exact .named (by simp [h, namedEscapes])
  split
  next h => exact .named (by simp [h, namedEscapes])
  next hn ht hr h0 hback hquote => exact .itself (by simp [hn, hback, hquote])

theorem forall₂_escape (a : Char) : List.Forall₂ (Escapes '\'') [a] [escape a] :=
  .cons (escapes_escape a) .nil

theorem decodeChar?_escape (a : Char) : decodeChar? (escape a) = some a := by
  have hdecode := decodeEscapes_flatten (forall₂_escape a)
  rw [List.flatten_singleton] at hdecode
  rw [decodeChar?, hdecode]

theorem read_char (a : Char) : Lexeme.read ('\'' :: (escape a ++ ['\'']) ++ cs) =
    some ⟨.quoted (escape a) true, '\'' :: (escape a ++ ['\'']), cs⟩ := by
  have hread := read_literal (forall₂_escape a) (by decide) cs
  rwa [literalText, List.flatten_singleton] at hread

/-! ### Reading a piece -/

theorem read_keyword {kind : Kind} {a : Char} {as : List Char} (htext : fixedText kind = a :: as)
    (hstart : isWordStart a = true) (hall : (a :: as).all isWordPart = true)
    (hkind : Kind.ofWord (String.ofList (a :: as)) = kind) (hc : isWordPart c = false) :
    Lexeme.read (fixedText kind ++ c :: cs) = some ⟨.plain kind, fixedText kind, c :: cs⟩ := by
  rw [htext, read_word hstart (List.all_eq_true.mp hall) hc, hkind]

theorem read_fixed {kind : Kind} (hvalid : (Piece.fixed kind).valid = true)
    (hends : (Piece.fixed kind).endsBefore c = true) :
    Lexeme.read (fixedText kind ++ c :: cs) = some ⟨.plain kind, fixedText kind, c :: cs⟩ := by
  cases kind with
  | eof | newline | indent | dedent | integer | float | char | identifier => cases hvalid
  | openParen | closeParen | equals | notEquals | lessEquals | greaterEquals | colon | comma
  | arrow | plus | slash | star => rfl
  | dash | assignment | less | greater =>
    -- the longer sign with the same beginning does not match
    have hne := of_decide_eq_true hends
    change Lexeme.sign? (_ :: c :: cs) = some ⟨_, [_], c :: cs⟩
    rw [Lexeme.sign?]
    intro cs' heq
    exact hne (List.cons.inj heq).1
  | defWord | whileWord | ifWord | elifWord | elseWord | returnWord | importWord | fromWord
  | andWord | orWord | passWord | breakWord | continueWord =>
    exact read_keyword rfl (by decide) (by decide) (by decide) (Bool.not_eq_true' _ ▸ hends)

/-- The text of a piece is cut off as one lexeme. -/
theorem Piece.read {p : Piece} (hvalid : p.valid = true) (hends : p.endsBefore c = true) :
    Lexeme.read (p.text ++ c :: cs) = some ⟨p.form, p.text, c :: cs⟩ := by
  cases p with
  | gap =>
    have hc : isGap c = false := by simpa [Piece.endsBefore] using hends
    have hspace : ∀ a ∈ [' '], isGap a = true := by simp [isGap]
    change Lexeme.read ([' '] ++ c :: cs) = some ⟨.gap, [' '], c :: cs⟩
    rw [List.singleton_append, read_eq_readBy (.inr rfl), Lexeme.readBy, if_pos (by decide),
      Lexeme.run, ← List.singleton_append, takeWhile_append_cons hspace hc,
      dropWhile_append_cons hspace hc]
  | fixed kind => exact read_fixed hvalid hends
  | name text =>
    have hc : isWordPart c = false ∧ c ≠ '.' := by simpa [Piece.endsBefore] using hends
    exact read_name hvalid hc.1
  | integer value =>
    have hc : isWordPart c = false ∧ c ≠ '.' := by simpa [Piece.endsBefore] using hends
    exact read_integer value hc.1 hc.2
  | float value =>
    have hc : isWordPart c = false ∧ c ≠ '.' := by simpa [Piece.endsBefore] using hends
    exact read_float value hc.1
  | char value => exact read_char value

end

end Offside.Token

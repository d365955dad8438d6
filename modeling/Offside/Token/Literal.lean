/-
  Offside/Token/Literal.lean
  ==========================
  **Character literals.**  A literal stands between two single or two double quotes.
  Inside, a backslash begins an escape; `decodeEscapes` gives the characters that the
  body stands for, or nothing if an escape is not one of those it knows.
-/
import Offside.Number.Integer

namespace Offside.Token

/-- The body of a quoted literal and what follows it.  The body ends before the closing
    quote, before a line feed, and before a backslash that has nothing to escape. -/
def quotedBody (quote : Char) : List Char → List Char × List Char
  | '\\' :: c :: cs =>
    if c = '\n' then ([], '\\' :: c :: cs)
    else
      let (body, rest) := quotedBody quote cs
      ('\\' :: c :: body, rest)
  | c :: cs =>
    if c = quote ∨ c = '\\' ∨ c = '\n' then ([], c :: cs)
    else
      let (body, rest) := quotedBody quote cs
      (c :: body, rest)
  | [] => ([], [])

/-- A character that is not a backslash is a step of its own in the body of a literal. -/
theorem quotedBody_cons {quote c : Char} (hc : c ≠ '\\') (cs : List Char) :
    quotedBody quote (c :: cs) =
      if c = quote ∨ c = '\\' ∨ c = '\n' then ([], c :: cs)
      else (c :: (quotedBody quote cs).1, (quotedBody quote cs).2) := by
  rw [quotedBody.eq_2 _ _ _ fun _ _ hslash => absurd hslash hc]

theorem quotedBody_append (quote : Char) (cs : List Char) :
    (quotedBody quote cs).1 ++ (quotedBody quote cs).2 = cs := by
  fun_induction quotedBody quote cs <;> simp_all

/-- The character that a backslash and `c` stand for, `x` apart. -/
def escaped? (c : Char) : Option Char :=
  if c = 'n' then some '\n'
  else if c = 't' then some '\t'
  else if c = 'r' then some '\r'
  else if c = '0' then some '\x00'
  else if c = '\\' then some '\\'
  else if c = '\'' then some '\''
  else if c = '"' then some '"'
  else none

/-- The characters a body stands for.  After a backslash and `x` come one or two
    hexadecimal digits of a code point below 256. -/
def decodeEscapes : List Char → Option (List Char)
  | [] => some []
  | c :: cs =>
    if c = '\\' then
      match cs with
      | 'x' :: a :: b :: more =>
        match Number.hexDigit? a, Number.hexDigit? b with
        | some m, some n => (decodeEscapes more).map (Char.ofNat (16 * m + n) :: ·)
        | some m, none => (decodeEscapes (b :: more)).map (Char.ofNat m :: ·)
        | none, _ => none
      | ['x', a] => (Number.hexDigit? a).map fun m => [Char.ofNat m]
      | d :: more =>
        match escaped? d with
        | some e => (decodeEscapes more).map (e :: ·)
        | none => none
      | [] => none
    else (decodeEscapes cs).map (c :: ·)

/-- The character a literal with this body stands for, if it stands for exactly one. -/
def decodeChar? (body : List Char) : Option Char :=
  match decodeEscapes body with
  | some [c] => some c
  | _ => none

end Offside.Token

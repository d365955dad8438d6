/-
  Offside/Token.lean
  ==================
  **Tokens.**  A token has a kind, the text it stands for and the span of that text.
  Besides the words and signs of the language there are four kinds that stand for no
  text of their own: the end of a logical line, the opening and the closing of an
  indented block, and the end of the input.
-/
import Offside.Position

namespace Offside

/-- The kinds of token. -/
inductive Kind where
  | eof | newline | indent | dedent
  | integer | float | char | identifier
  | openParen | closeParen
  | assignment | equals | notEquals | less | lessEquals | greater | greaterEquals
  | colon | comma | arrow
  | plus | dash | slash | star
  | defWord | whileWord | ifWord | elifWord | elseWord | returnWord | importWord | fromWord
  | andWord | orWord | passWord | breakWord | continueWord
deriving DecidableEq, Repr

namespace Kind

/-- The name a message uses. -/
def name : Kind → String
  | eof => "EOF"
  | newline => "Newline"
  | indent => "Indent"
  | dedent => "Dedent"
  | integer => "Integer"
  | float => "Float"
  | char => "Char"
  | identifier => "Identifier"
  | openParen => "OpenParen"
  | closeParen => "CloseParen"
  | assignment => "Assignment"
  | equals => "Equals"
  | notEquals => "NotEquals"
  | less => "Less"
  | lessEquals => "LessEquals"
  | greater => "Greater"
  | greaterEquals => "GreaterEquals"
  | colon => "Colon"
  | comma => "Comma"
  | arrow => "Arrow"
  | plus => "Plus"
  | dash => "Dash"
  | slash => "Slash"
  | star => "Star"
  | defWord => "Def"
  | whileWord => "While"
  | ifWord => "If"
  | elifWord => "Elif"
  | elseWord => "Else"
  | returnWord => "Return"
  | importWord => "Import"
  | fromWord => "From"
  | andWord => "And"
  | orWord => "Or"
  | passWord => "Pass"
  | breakWord => "Break"
  | continueWord => "Continue"

/-- The reserved words and their kinds. -/
def reserved : List (String × Kind) :=
  [("def", defWord), ("while", whileWord), ("if", ifWord), ("elif", elifWord),
   ("else", elseWord), ("return", returnWord), ("import", importWord), ("from", fromWord),
   ("and", andWord), ("or", orWord), ("pass", passWord), ("break", breakWord),
   ("continue", continueWord)]

/-- The kind of a reserved word. -/
def ofReserved? (word : String) : Option Kind := reserved.lookup word

/-- The kind of a word: its own if it is reserved, else an identifier. -/
def ofWord (word : String) : Kind := (ofReserved? word).getD identifier

/-- Every kind, in the order of declaration. -/
def all : List Kind :=
  [eof, newline, indent, dedent, integer, float, char, identifier, openParen, closeParen,
   assignment, equals, notEquals, less, lessEquals, greater, greaterEquals, colon, comma,
   arrow, plus, dash, slash, star, defWord, whileWord, ifWord, elifWord, elseWord,
   returnWord, importWord, fromWord, andWord, orWord, passWord, breakWord, continueWord]

theorem mem_all (k : Kind) : k ∈ all := by cases k <;> decide

/-- The kind with the given name. -/
def ofName? (name : String) : Option Kind := all.find? (·.name = name)

/-- Holds for the kinds whose tokens differ in their text. -/
def hasText (k : Kind) : Bool := k = identifier || k = integer || k = float || k = char

end Kind

/-- A token of the source text. -/
structure Token where
  kind : Kind
  value : String
  span : Span
deriving DecidableEq, Repr

/-- A token as a message shows it, with its text if that tells tokens of its kind apart. -/
def Token.text (t : Token) : String :=
  if t.kind.hasText then t.kind.name ++ " (" ++ t.value ++ ")" else t.kind.name

end Offside

/-
  Offside/Surface/Grammar.lean
  ============================
  **The roles of tokens.**  Expressions are read by precedence climbing: a token may begin
  an expression (its `Head`), and it may continue one (its `Tail`, with the `Strength` by
  which it binds).  Statements and type annotations begin with tokens of their own.  A
  `Grammar` is the table of these roles; the readers only look roles up, so that the same
  readers serve any table.  `Grammar.standard` is the table of the language.
-/
import Offside.Operator
import Offside.Token

namespace Offside.Surface

/-- How tightly an operator binds, from the loosest. -/
inductive Strength where
  | lowest | or | and | relational | additive | multiplicative | unary | call | primary
deriving DecidableEq, Repr

def Strength.rank : Strength → Nat
  | lowest => 0
  | or => 1
  | and => 2
  | relational => 3
  | additive => 4
  | multiplicative => 5
  | unary => 6
  | call => 7
  | primary => 8

/-- How an expression begins with a token. -/
inductive Head where
  /-- A number or a name. -/
  | literal
  /-- A character literal, which stands only as the argument of `ord`. -/
  | char
  /-- A minus sign. -/
  | minus
  /-- A parenthesis. -/
  | group
deriving DecidableEq, Repr

/-- How an expression goes on with a token. -/
inductive Tail where
  | arithmetic
  | comparison
  | connective
  | call
deriving DecidableEq, Repr

/-- How a statement begins with a token. -/
inductive Lead where
  | ifLead | whileLead | returnLead | passLead | breakLead | continueLead
deriving DecidableEq, Repr

/-- The table of the roles of tokens. -/
structure Grammar where
  head : Kind → Option Head
  tail : Kind → Option (Strength × Tail)
  lead : Kind → Option Lead
  /-- Whether a type annotation begins with the token. -/
  type : Kind → Bool

namespace Grammar

/-- The table without any role. -/
def empty : Grammar := ⟨fun _ => none, fun _ => none, fun _ => none, fun _ => false⟩

/-- The heads of the language. -/
def standardHead : Kind → Option Head
  | .integer | .float | .identifier => some .literal
  | .char => some .char
  | .dash => some .minus
  | .openParen => some .group
  | _ => none

/-- The tails of the language. -/
def standardTail : Kind → Option (Strength × Tail)
  | .orWord => some (.or, .connective)
  | .andWord => some (.and, .connective)
  | .less | .lessEquals | .greater | .greaterEquals | .equals | .notEquals =>
    some (.relational, .comparison)
  | .plus | .dash => some (.additive, .arithmetic)
  | .star | .slash => some (.multiplicative, .arithmetic)
  | .openParen => some (.call, .call)
  | _ => none

/-- The leads of the language. -/
def standardLead : Kind → Option Lead
  | .ifWord => some .ifLead
  | .whileWord => some .whileLead
  | .returnWord => some .returnLead
  | .passWord => some .passLead
  | .breakWord => some .breakLead
  | .continueWord => some .continueLead
  | _ => none

/-- Gives the tokens of expressions and statements their roles in the language; other
    tokens keep the roles they have. -/
def withStandard (g : Grammar) : Grammar :=
  { g with
    head := fun k => standardHead k <|> g.head k
    tail := fun k => standardTail k <|> g.tail k
    lead := fun k => standardLead k <|> g.lead k }

/-- Lets a type annotation begin with a token of the given kind. -/
def withType (g : Grammar) (kind : Kind) : Grammar :=
  { g with type := fun k => k = kind || g.type k }

def withHead (g : Grammar) (kind : Kind) (head : Head) : Grammar :=
  { g with head := fun k => if k = kind then some head else g.head k }

def withTail (g : Grammar) (kind : Kind) (strength : Strength) (tail : Tail) : Grammar :=
  { g with tail := fun k => if k = kind then some (strength, tail) else g.tail k }

def withLead (g : Grammar) (kind : Kind) (lead : Lead) : Grammar :=
  { g with lead := fun k => if k = kind then some lead else g.lead k }

/-- The table of the language. -/
def standard : Grammar := empty.withStandard.withType .identifier

end Grammar

/-! ### Operators of tokens -/

/-- The arithmetic operator a token stands for between two operands. -/
def arithmeticOf? : Kind → Option BinaryOp
  | .plus => some .add
  | .dash => some .sub
  | .star => some .mul
  | .slash => some .div
  | _ => none

/-- The comparison a token stands for. -/
def comparisonOf? : Kind → Option CompareOp
  | .less => some .lt
  | .lessEquals => some .le
  | .greater => some .gt
  | .greaterEquals => some .ge
  | .equals => some .eq
  | .notEquals => some .ne
  | _ => none

/-- The connective a token stands for. -/
def connectiveOf (k : Kind) : BoolOp := if k = .andWord then .and else .or

end Offside.Surface

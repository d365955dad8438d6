/-
  Offside/Proofs/Semantics/Run.lean
  =================================
  **Running code.**  What the meaning of a program and the meaning of its code have in
  common: numbers, slots that hold them, a host that answers the calls of imports, and the
  ways in which a run can stop.

  A run is bounded by a number: no loop goes round more often and no call is nested deeper.
  One that needs more stops with `timeout`, which is no answer but a request for a larger
  bound.  `trap` is an answer: the program divided by zero.  `stuck` is what the rules give
  no meaning to, such as the sum of an integer and a float.

  The floating-point operators are not interpreted here.  Both meanings take them as a
  parameter, and with it the host.
-/
import Offside.Number.Binary64
import Offside.Operator
import Offside.Signature

namespace Offside

open Number

/-! ### Numbers -/

/-- What a slot holds, and what goes into a function and comes out of it. -/
inductive Num where
  | int (value : Int32)
  | float (value : Binary64)
deriving DecidableEq, Repr

def Num.type : Num → NumType
  | int _ => .int
  | float _ => .float

/-- What a variable holds before anything is assigned to it. -/
def Num.zero : NumType → Num
  | .int => int 0
  | .float => float Binary64.zero

@[simp] theorem Num.type_zero (t : NumType) : (Num.zero t).type = t := by
  cases t <;> rfl

/-- The operators on floating-point numbers. -/
structure FloatOps where
  arith : BinaryOp → Binary64 → Binary64 → Binary64
  negate : Binary64 → Binary64
  compare : CompareOp → Binary64 → Binary64 → Bool

/-- Answers the calls of imports with the given signatures, each by its index, and has a
    state of its own.  Asked as the signature says, it answers as the signature says. -/
structure Host (imports : List Signature) (σ : Type) where
  call : Nat → List Num → σ → Option Num × σ
  typed : ∀ index args state signature, imports[index]? = some signature →
    args.map Num.type = signature.params →
      (call index args state).1.map Num.type = signature.result

/-! ### Runs -/

/-- Why a run has no result. -/
inductive Stop where
  | trap | timeout | stuck
deriving DecidableEq, Repr

/-- The slots of the function in hand, and the state of the host. -/
structure Frame (σ : Type) where
  slots : List Num
  host : σ

abbrev Run (σ : Type) := EStateM Stop (Frame σ)

section

variable {σ α : Type}

def readSlot (slot : Nat) : Run σ Num := fun frame =>
  match frame.slots[slot]? with
  | some v => .ok v frame
  | none => .error .stuck frame

def writeSlot (slot : Nat) (v : Num) : Run σ Unit := fun frame =>
  if slot < frame.slots.length then .ok () { frame with slots := frame.slots.set slot v }
  else .error .stuck frame

/-- Has the host answer a call. -/
def callHost {imports : List Signature} (host : Host imports σ) (index : Nat)
    (args : List Num) : Run σ (Option Num) := fun frame =>
  let (answer, state) := host.call index args frame.host
  .ok answer { frame with host := state }

/-- Runs with slots of its own, which are gone afterwards. -/
def inFrame (slots : List Num) (run : Run σ α) : Run σ α := fun frame =>
  match run ⟨slots, frame.host⟩ with
  | .ok a frame' => .ok a ⟨frame.slots, frame'.host⟩
  | .error stop frame' => .error stop ⟨frame.slots, frame'.host⟩

/-- Goes round until there is something to give, at most `bound` times. -/
def iterate (bound : Nat) (round : Run σ (Option α)) : Run σ α :=
  match bound with
  | 0 => throw .timeout
  | bound + 1 => do
    match ← round with
    | some a => pure a
    | none => iterate bound round

/-! ### Outcomes -/

/-- What a call comes to: it gives values, or it stops at something impossible. -/
inductive Outcome where
  | returned (values : List Num)
  | trapped
deriving DecidableEq, Repr

/-- The outcome of a run that was started by the host, and the state of the host then.
    There is none if the bound was too small. -/
def outcome? (run : Run σ (List Num)) (state : σ) : Option (Outcome × σ) :=
  match run ⟨[], state⟩ with
  | .ok values frame => some (.returned values, frame.host)
  | .error .trap frame => some (.trapped, frame.host)
  | .error .timeout _ | .error .stuck _ => none

end

end Offside

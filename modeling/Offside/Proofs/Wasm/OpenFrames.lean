/-
  Offside/Proofs/Wasm/OpenFrames.lean
  ===================================
  **The operand-stack check never loses its footing.**  The check subtracts the height of a
  frame from that of the stack, counts frames from the innermost outwards, and has two faults
  for what should not happen: that no frame is open, and that there is no value to take where
  the stack is higher than its frame.  None of this can go wrong, for any instructions at all.

  The frames of a state are nested (`Nested`): the outermost is the function's, at height
  zero, and each other was opened on a stack at least as high as the frame around it needs.
  `Settles` follows a step both ways: where it succeeds the frames are still nested, and where
  it refuses the fault is not an internal one.  Every operation of the check settles, so every
  step does, and so does every run.
-/
import Offside.Proofs.Wasm.StackCheck

namespace Offside.Wasm

/-! ### Internal faults -/

/-- The faults that the check has for states it does not come to. -/
def StackFault.Internal (fault : StackFault) : Prop := fault = .noFrame ∨ fault = .underflow

/-- A result as wanted, or a fault of the body that is checked. -/
def Settles {α : Type} (p : α → Prop) : Except StackFault α → Prop
  | .ok a => p a
  | .error fault => ¬ fault.Internal

namespace Settles

variable {α β : Type} {p : α → Prop} {q : β → Prop} {x : Except StackFault α}
  {f : α → Except StackFault β}

theorem pure {a : α} (h : p a) : Settles p (pure a) := h

theorem throw {fault : StackFault} (h : ¬ fault.Internal) : Settles p (throw fault) := h

theorem bind (hx : Settles p x) (hf : ∀ a, p a → Settles q (f a)) : Settles q (x >>= f) := by
  cases x with
  | error fault => exact hx
  | ok a => exact hf a hx

theorem of_ok {a : α} (h : Settles p x) (hx : x = .ok a) : p a := by
  rw [hx] at h
  exact h

theorem not_internal {fault : StackFault} (h : Settles p x) (hx : x = .error fault) :
    ¬ fault.Internal := by
  rw [hx] at h
  exact h

end Settles

/-! ### Nested frames -/

/-- Holds of the frames, the innermost first, that can be open on a stack of height `n`. -/
inductive Nested : List Frame → Nat → Prop where
  | function (dead : Bool) (n : Nat) : Nested [⟨.function, 0, dead⟩] n
  | construct {kind : FrameKind} {height n : Nat} {fs : List Frame} (dead : Bool)
      (hkind : kind ≠ .function) (hle : height ≤ n) (outer : Nested fs height) :
      Nested (⟨kind, height, dead⟩ :: fs) n

namespace Nested

variable {f : Frame} {fs : List Frame} {n n' : Nat}

theorem exists_innermost (h : Nested fs n) : ∃ f outer, fs = f :: outer ∧ f.height ≤ n := by
  cases h with
  | function dead n => exact ⟨_, _, rfl, Nat.zero_le n⟩
  | construct dead hkind hle outer => exact ⟨_, _, rfl, hle⟩

/-- The stack may grow, and may shrink to the height of the innermost frame. -/
theorem resize (h : Nested (f :: fs) n) (hle : f.height ≤ n') : Nested (f :: fs) n' := by
  cases h with
  | function dead n => exact .function dead n'
  | construct dead hkind _ outer => exact .construct dead hkind hle outer

theorem grow (h : Nested fs n) (hle : n ≤ n') : Nested fs n' := by
  obtain ⟨f, outer, rfl, hf⟩ := h.exists_innermost
  exact h.resize (Nat.le_trans hf hle)

theorem setDead (h : Nested (f :: fs) n) (dead : Bool) :
    Nested ({ f with unreachable := dead } :: fs) n := by
  cases h with
  | function _ n => exact .function dead n
  | construct _ hkind hle outer => exact .construct dead hkind hle outer

theorem outer (h : Nested (f :: fs) n) (hkind : f.kind ≠ .function) : Nested fs f.height := by
  cases h with
  | function dead n => exact absurd rfl hkind
  | construct dead _ _ outer => exact outer

/-- Told from the outermost frame inwards: the function's frame, at height zero, and then
    other frames, none of which is below the one before it or above the stack. -/
theorem outwards (h : Nested fs n) :
    (∃ dead inner, fs.reverse = ⟨.function, 0, dead⟩ :: inner ∧ ∀ f ∈ inner, f.kind ≠ .function) ∧
      (fs.reverse.map Frame.height).Pairwise (· ≤ ·) ∧ ∀ f ∈ fs, f.height ≤ n := by
  induction h with
  | function dead n => exact ⟨⟨dead, [], rfl, by simp⟩, by simp, by simp⟩
  | @construct kind height n fs dead hkind hle _ ih =>
    obtain ⟨⟨dead', inner, hreverse, hinner⟩, hrising, hwithin⟩ := ih
    refine ⟨⟨dead', inner ++ [⟨kind, height, dead⟩], ?_, ?_⟩, ?_, ?_⟩
    · rw [List.reverse_cons, hreverse, List.cons_append]
    · intro f hf
      rcases List.mem_append.mp hf with hf | hf
      · exact hinner f hf
      · rw [List.mem_singleton.mp hf]
        exact hkind
    · rw [List.reverse_cons, List.map_append, List.pairwise_append]
      refine ⟨hrising, by simp, ?_⟩
      simpa using hwithin
    · simp only [List.mem_cons, forall_eq_or_imp]
      exact ⟨hle, fun f hf => Nat.le_trans (hwithin f hf) hle⟩

end Nested

/-! ### One step of the check -/

namespace StackState

variable {c : StackContext} {s s' : StackState}

/-- The frames that are open fit on the stack. -/
def Footed (s : StackState) : Prop := Nested s.frames s.stack.length

theorem footed_start : start.Footed := .function false 0

theorem Footed.pushAll (h : s.Footed) (ts : List ValType) : (s.pushAll ts).Footed :=
  h.grow (by simp [StackState.pushAll])

theorem Footed.push (h : s.Footed) (t : ValType) : (s.push t).Footed := h.pushAll [t]

theorem Footed.openFrame (h : s.Footed) {kind : FrameKind} (hkind : kind ≠ .function) :
    (s.openFrame kind).Footed :=
  .construct false hkind (Nat.le_refl _) h

theorem Footed.frame (h : s.Footed) :
    Settles (fun f => ∃ outer, s.frames = f :: outer ∧ f.height ≤ s.stack.length) s.frame := by
  obtain ⟨f, outer, hframes, hle⟩ := h.exists_innermost
  rw [StackState.frame, hframes]
  exact ⟨outer, rfl, hle⟩

theorem Footed.pop (h : s.Footed) (e : Option ValType) : Settles Footed (s.pop e) := by
  refine h.frame.bind ?_
  rintro f ⟨outer, hframes, hle⟩
  obtain ⟨stack, frames⟩ := s
  obtain rfl : frames = f :: outer := hframes
  by_cases hbottom : stack.length = f.height
  · rw [if_pos hbottom]
    cases f.unreachable with
    | true => exact h
    | false => exact .throw (by simp [StackFault.Internal])
  · rw [if_neg hbottom]
    cases stack with
    | nil =>
      -- the frame would be higher than the stack
      have hzero : f.height = 0 := Nat.le_zero.mp hle
      exact absurd hzero.symm hbottom
    | cons found below =>
      have hbelow : Footed ⟨below, f :: outer⟩ := by
        refine h.resize ?_
        change f.height ≤ below.length
        simp only [List.length_cons] at hle hbottom
        omega
      cases e with
      | none => exact hbelow
      | some t =>
        by_cases ht : t = found
        · simp only [if_pos ht]
          exact .pure hbelow
        · simp only [if_neg ht]
          exact .throw (by simp [StackFault.Internal])

theorem Footed.popTopFirst (h : s.Footed) (ts : List ValType) :
    Settles Footed (s.popTopFirst ts) := by
  induction ts generalizing s with
  | nil => exact h
  | cons t ts ih => exact (h.pop (some t)).bind fun s' h' => ih h'

theorem Footed.popAll (h : s.Footed) (ts : List ValType) : Settles Footed (s.popAll ts) :=
  h.popTopFirst ts.reverse

theorem Footed.setUnreachable (h : s.Footed) : Settles Footed s.setUnreachable := by
  obtain ⟨f, outer, hframes, hle⟩ := h.exists_innermost
  rw [Footed, hframes] at h
  rw [StackState.setUnreachable, hframes]
  refine (h.setDead true).resize ?_
  simp only [List.length_drop]
  omega

theorem Footed.requireEmpty (h : s.Footed) : Settles (fun _ => True) s.requireEmpty := by
  refine h.frame.bind ?_
  rintro f -
  split
  · trivial
  · exact .throw (by simp [StackFault.Internal])

theorem Footed.toElse (h : s.Footed) : Settles Footed s.toElse := by
  refine h.frame.bind ?_
  rintro f ⟨outer, hframes, hle⟩
  split
  · rename_i hkind
    refine h.requireEmpty.bind fun _ _ => ?_
    rw [Footed, hframes] at h
    simp only [hframes]
    exact .construct false (by simp) hle (h.outer (by simp [hkind]))
  · exact .throw (by simp [StackFault.Internal])

theorem Footed.close (h : s.Footed) : Settles Footed s.close := by
  refine h.frame.bind ?_
  rintro f ⟨outer, hframes, hle⟩
  split
  · exact .throw (by simp [StackFault.Internal])
  · rename_i hkind
    refine h.requireEmpty.bind fun _ _ => ?_
    rw [Footed, hframes] at h
    simp only [hframes]
    exact (h.outer hkind).grow hle

theorem labelTypes_settles (depth : Nat) : Settles (fun _ => True) (s.labelTypes c depth) := by
  rw [labelTypes]
  split
  · simp [Settles, StackFault.Internal]
  · trivial

theorem slotType_settles (slot : UInt32) : Settles (fun _ => True) (slotType c slot) := by
  rw [slotType]
  split
  · trivial
  · simp [Settles, StackFault.Internal]

theorem functionType_settles (index : UInt32) :
    Settles (fun _ => True) (functionType c index) := by
  rw [functionType]
  split
  · trivial
  · simp [Settles, StackFault.Internal]

/-- What every plain instruction does to values: it takes some and leaves others. -/
theorem Footed.exchange (h : s.Footed) (ps rs : List ValType) :
    Settles Footed (s.exchange ps rs) :=
  (h.popAll ps).bind fun _ h' => h'.pushAll rs

theorem Footed.leave (h : s.Footed) (carried : List ValType) :
    Settles Footed (s.leave carried) :=
  (h.popAll carried).bind fun _ h' => h'.setUnreachable

theorem Footed.step (h : s.Footed) (i : Instr) : Settles Footed (s.step c i) := by
  cases i with
  | unreachable => exact h.setUnreachable
  | block => exact h.openFrame (by simp)
  | loop => exact h.openFrame (by simp)
  | ifThen => exact (h.pop _).bind fun _ h' => h'.openFrame (by simp)
  | elseThen => exact h.toElse
  | endBlock => exact h.close
  | br depth => exact (labelTypes_settles _).bind fun ts _ => h.leave ts
  | brIf depth =>
    exact (h.pop _).bind fun _ h' => (labelTypes_settles _).bind fun ts _ => h'.exchange ts ts
  | ret => exact h.leave c.results
  | call index => exact (functionType_settles index).bind fun t _ => h.exchange t.params t.results
  | drop => exact h.pop none
  | localGet slot => exact (slotType_settles slot).bind fun t _ => h.push t
  | localSet slot => exact (slotType_settles slot).bind fun t _ => h.pop (some t)
  | i32Const value => exact h.push .i32
  | f64Const value => exact h.push .f64
  | i32Eqz =>
    rw [StackState.step, unary_eq_exchange]
    exact h.exchange _ _
  | f64Neg =>
    rw [StackState.step, unary_eq_exchange]
    exact h.exchange _ _
  | compare t op =>
    rw [StackState.step, binary_eq_exchange]
    exact h.exchange _ _
  | arith t op =>
    rw [StackState.step, binary_eq_exchange]
    exact h.exchange _ _
  | logic op =>
    rw [StackState.step, binary_eq_exchange]
    exact h.exchange _ _

theorem Footed.run (h : s.Footed) (is : List Instr) : Settles Footed (s.run c is) := by
  induction is generalizing s with
  | nil => exact h
  | cons i is ih => exact (h.step i).bind fun s' h' => ih h'

theorem Footed.finish (h : s.Footed) : Settles (fun _ => True) (s.finish c) := by
  rw [StackState.finish]
  split
  · refine (h.popAll c.results).bind fun s' _ => ?_
    split
    · trivial
    · exact .throw (by simp [StackFault.Internal])
  · exact .throw (by simp [StackFault.Internal])

/-! ### What holds in every state -/

/-- What the check relies on in a state, and what follows from it for its next step. -/
structure Consistent (c : StackContext) (s : StackState) : Prop where
  /-- The outermost frame is the function's, and no other is. -/
  outermost : ∃ dead inner, s.frames.reverse = ⟨.function, 0, dead⟩ :: inner ∧
    ∀ f ∈ inner, f.kind ≠ .function
  rising : (s.frames.reverse.map Frame.height).Pairwise (· ≤ ·)
  within : ∀ f ∈ s.frames, f.height ≤ s.stack.length
  /-- What a construct has left over is counted exactly. -/
  excess : ∀ n, s.requireEmpty = .error (.leftInBlock n) →
    ∃ f, s.frame = .ok f ∧ f.height + n = s.stack.length
  /-- The frame that a branch goes to is found from the outermost one, too. -/
  target : ∀ depth < s.frames.length, ∃ f,
    s.frames.reverse[s.frames.length - 1 - depth]? = some f ∧
      s.labelTypes c depth = .ok (labelOf c f.kind)
  step : ∀ i fault, s.step c i = .error fault → ¬ fault.Internal
  finish : ∀ fault, s.finish c = .error fault → ¬ fault.Internal

theorem Footed.excess (h : s.Footed) {n : Nat} (hn : s.requireEmpty = .error (.leftInBlock n)) :
    ∃ f, s.frame = .ok f ∧ f.height + n = s.stack.length := by
  obtain ⟨f, outer, hframes, hle⟩ := h.exists_innermost
  have hframe : s.frame = .ok f := by rw [StackState.frame, hframes]
  refine ⟨f, hframe, ?_⟩
  rw [StackState.requireEmpty, hframe] at hn
  change (if s.stack.length = f.height then _ else _) = _ at hn
  split at hn
  · cases hn
  · obtain rfl : s.stack.length - f.height = n := StackFault.leftInBlock.inj (Except.error.inj hn)
    omega

theorem labelTypes_of_lt {depth : Nat} (h : depth < s.frames.length) :
    ∃ f, s.frames.reverse[s.frames.length - 1 - depth]? = some f ∧
      s.labelTypes c depth = .ok (labelOf c f.kind) := by
  refine ⟨s.frames[depth], ?_, ?_⟩
  · rw [List.getElem?_reverse (by omega), show s.frames.length - 1 - (s.frames.length - 1 - depth) =
      depth by omega, List.getElem?_eq_getElem h]
  · rw [labelTypes, List.getElem?_eq_getElem h]
    rfl

theorem Footed.consistent (h : s.Footed) : s.Consistent c := by
  obtain ⟨houtermost, hrising, hwithin⟩ := h.outwards
  exact ⟨houtermost, hrising, hwithin, fun _ => h.excess, fun _ => labelTypes_of_lt,
    fun i _ => (h.step i).not_internal, fun _ => h.finish.not_internal⟩

end StackState

theorem checkBody_settles (c : StackContext) (body : List Instr) :
    Settles (fun _ => True) (checkBody c body) :=
  (StackState.footed_start.run body).bind fun _ h => h.finish

/-! ### Texts of faults -/

theorem append_ne_of_last {a b c : String} (hb : b.toList ≠ [])
    (h : b.toList.getLast? ≠ c.toList.getLast?) : a ++ b ≠ c := by
  rintro rfl
  rw [String.toList_append, List.getLast?_append, List.getLast?_eq_some_getLast hb] at h
  exact h rfl

theorem append_ne_of_head {a b c : String} (ha : a.toList ≠ [])
    (h : a.toList.head? ≠ c.toList.head?) : a ++ b ≠ c := by
  rintro rfl
  rw [String.toList_append, List.head?_append, List.head?_eq_some_head ha] at h
  exact h rfl

/-- No other fault has the text of an internal one. -/
theorem StackFault.message_ne {fault : StackFault} (h : ¬ fault.Internal) :
    fault.message ≠ noFrame.message ∧ fault.message ≠ underflow.message := by
  cases fault with
  | noFrame => exact absurd (.inl rfl) h
  | underflow => exact absurd (.inr rfl) h
  | emptyStack expected => rcases expected with _ | _ | _ <;> decide
  | wrongType expected found => cases expected <;> cases found <;> decide
  | strayElse | strayEnd => decide
  | leftInBlock count =>
    have htext : (leftInBlock count).message =
        toString count ++ " values left on the stack at the end of a block" := rfl
    rw [htext]
    constructor <;> exact append_ne_of_last (by decide) (by decide)
  | leftInFunction count =>
    have htext : (leftInFunction count).message =
        toString count ++ " values left on the stack at the end of the function" := rfl
    rw [htext]
    constructor <;> exact append_ne_of_last (by decide) (by decide)
  | openBlocks count =>
    have htext : (openBlocks count).message =
        toString count ++ " blocks left open at the end of the function" := rfl
    rw [htext]
    constructor <;> exact append_ne_of_last (by decide) (by decide)
  | branchDepth depth =>
    have htext : (branchDepth depth).message =
        "branch depth " ++ (toString depth ++ " out of range") := String.append_assoc
    rw [htext]
    constructor <;> exact append_ne_of_head (by decide) (by decide)
  | unknownFunction index =>
    have htext : (unknownFunction index).message =
        "call to unknown function " ++ toString index := rfl
    rw [htext]
    constructor <;> exact append_ne_of_head (by decide) (by decide)
  | unknownLocal slot =>
    have htext : (unknownLocal slot).message = "unknown local " ++ toString slot := rfl
    rw [htext]
    constructor <;> exact append_ne_of_head (by decide) (by decide)

end Offside.Wasm

namespace Offside

open Wasm

/-- **The operand-stack check never loses its footing.**  In every state that it comes to, the
    frames are nested on the stack, what it computes from them is in range, and its next step is
    not refused for an internal fault; so no body is refused for one. -/
theorem check_consistent (m : Typed.Module) (f : Typed.Function) :
    (∀ is s, StackState.start.run (stackContext m f) is = .ok s →
      s.Consistent (stackContext m f)) ∧
    ∀ body why, verify m f body = .error why →
      why.cause ≠ .stackMismatch f.name "no open control frame" ∧
        why.cause ≠ .stackMismatch f.name "stack underflow" := by
  constructor
  · intro is s hrun
    exact ((StackState.footed_start.run is).of_ok hrun).consistent
  · intro body why hwhy
    rw [verify] at hwhy
    split at hwhy
    · cases hwhy
    · rename_i fault hfault
      obtain rfl := Except.error.inj hwhy
      obtain ⟨hframe, hunderflow⟩ :=
        StackFault.message_ne ((checkBody_settles _ body).not_internal hfault)
      constructor
      · intro heq
        exact hframe (Cause.stackMismatch.inj heq).2
      · intro heq
        exact hunderflow (Cause.stackMismatch.inj heq).2

/-- A function of one result and no parameters. -/
def bareFunction : Typed.Function where
  name := "f"
  signature := ⟨[], some .int⟩
  locals := []
  body := []
  span := .nowhere

/-- Where the check is behind a branch that was left early, in a block of the other branch:
    three frames are open on two values. -/
def insideElse : StackState :=
  ⟨[.i32, .f64], [⟨.block, 1, false⟩, ⟨.elseThen, 1, false⟩, ⟨.function, 0, false⟩]⟩

theorem insideElse_consistent :
    StackState.start.run (stackContext ⟨[], []⟩ bareFunction)
        [.f64Const ⟨0⟩, .i32Const 1, .ifThen, .br 0, .drop, .elseThen, .block, .i32Const 7] =
      .ok insideElse ∧
    insideElse.Consistent (stackContext ⟨[], []⟩ bareFunction) ∧
    insideElse.requireEmpty = .error (.leftInBlock 1) ∧
    verify ⟨[], []⟩ bareFunction [.drop] =
      .error ⟨.stackMismatch "f" "expected a value but the stack is empty",
        Span.nowhere.start⟩ := by
  have hrun : StackState.start.run (stackContext ⟨[], []⟩ bareFunction)
      [.f64Const ⟨0⟩, .i32Const 1, .ifThen, .br 0, .drop, .elseThen, .block, .i32Const 7] =
        .ok insideElse := rfl
  exact ⟨hrun, (check_consistent ⟨[], []⟩ bareFunction).1 _ _ hrun, rfl, rfl⟩

end Offside

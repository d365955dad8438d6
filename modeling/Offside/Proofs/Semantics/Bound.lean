/-
  Offside/Proofs/Semantics/Bound.lean
  ===================================
  **A larger bound changes no answer.**  A run with a bound that is too small asks for a
  larger one; any other run is what it is with every larger bound (`Below`).  So a function
  that finishes at all has one outcome, no matter which bound showed it.
-/
import Offside.Proofs.Semantics.Source

namespace Offside

variable {σ α β : Type}

/-- What the first run answers, the second does too. -/
def Below (x y : Run σ α) : Prop :=
  ∀ frame, (∃ frame', x frame = .error .timeout frame') ∨ x frame = y frame

namespace Below

theorem refl (x : Run σ α) : Below x x := fun _ => .inr rfl

theorem timeout (y : Run σ α) : Below (throw .timeout) y := fun frame => .inl ⟨frame, rfl⟩

theorem bind {x y : Run σ α} {f g : α → Run σ β} (h : Below x y) (hf : ∀ a, Below (f a) (g a)) :
    Below (x >>= f) (y >>= g) := by
  intro frame
  rcases h frame with ⟨frame', hx⟩ | hxy
  · left
    refine ⟨frame', ?_⟩
    simp only [Bind.bind, EStateM.bind, hx]
  · simp only [Bind.bind, EStateM.bind, hxy]
    cases y frame with
    | ok a frame' => exact hf a frame'
    | error stop frame' => exact .inr rfl

theorem iterate {x y : Run σ (Option α)} (h : Below x y) {n n' : Nat} (hn : n ≤ n') :
    Below (iterate n x) (iterate n' y) := by
  induction n generalizing n' with
  | zero => exact timeout _
  | succ n ih =>
    cases n' with
    | zero => omega
    | succ n' =>
      refine h.bind fun a => ?_
      cases a with
      | none => exact ih (by omega)
      | some a => exact refl _

theorem inFrame {x y : Run σ α} (h : Below x y) (slots : List Num) :
    Below (inFrame slots x) (inFrame slots y) := by
  intro frame
  rcases h ⟨slots, frame.host⟩ with ⟨frame', hx⟩ | hxy
  · left
    refine ⟨⟨frame.slots, frame'.host⟩, ?_⟩
    simp only [Offside.inFrame, hx]
  · right
    simp only [Offside.inFrame, hxy]

theorem outcome? {x y : Run σ (List Num)} (h : Below x y) {state : σ} {answer : Outcome × σ}
    (hx : outcome? x state = some answer) : Offside.outcome? y state = some answer := by
  rcases h ⟨[], state⟩ with ⟨frame', htimeout⟩ | hxy
  · simp [Offside.outcome?, htimeout] at hx
  · rwa [Offside.outcome?, ← hxy]

end Below

namespace Typed

variable {ops : FloatOps} {call call' : Callee → List Num → Run σ (Option Num)}

mutual

theorem Expr.eval_below (hcall : ∀ callee args, Below (call callee args) (call' callee args))
    (e : Expr) : Below (e.eval ops call) (e.eval ops call') := by
  cases e with
  | int | float | slot => exact .refl _
  | binary op left right _ _ =>
    exact (left.eval_below hcall).bind fun a => (right.eval_below hcall).bind fun b => .refl _
  | negate operand _ _ => exact (operand.eval_below hcall).bind fun a => .refl _
  | compare op _ left right _ _ =>
    exact (left.eval_below hcall).bind fun a => (right.eval_below hcall).bind fun b => .refl _
  | logic op left right _ _ =>
    exact (left.eval_below hcall).bind fun a => (right.eval_below hcall).bind fun b => .refl _
  | call callee arguments _ _ =>
    exact (evalArgs_below hcall arguments).bind fun args =>
      (hcall callee args).bind fun answer => .refl _

theorem evalArgs_below (hcall : ∀ callee args, Below (call callee args) (call' callee args))
    (es : List Expr) : Below (evalArgs ops call es) (evalArgs ops call' es) := by
  cases es with
  | nil => exact .refl _
  | cons e es =>
    exact (e.eval_below hcall).bind fun a => (Below.refl _).bind fun v =>
      (evalArgs_below hcall es).bind fun vs => .refl _

end

theorem choose_below {yes yes' no no' : Run σ α} (hyes : Below yes yes') (hno : Below no no')
    (a : Value) : Below (choose yes no a) (choose yes' no' a) := by
  cases a with
  | truth b => cases b with
    | true => exact hyes
    | false => exact hno
  | num _ | nothing => exact .refl _

mutual

theorem Stmt.exec_below (hcall : ∀ callee args, Below (call callee args) (call' callee args))
    {n n' : Nat} (hn : n ≤ n') (s : Stmt) :
    Below (s.exec ops call n) (s.exec ops call' n') := by
  cases s with
  | assign slot value _ => exact (value.eval_below hcall).bind fun a => .refl _
  | perform e _ => exact (e.eval_below hcall).bind fun a => .refl _
  | branch condition thenBody elseBody _ =>
    exact (condition.eval_below hcall).bind
      (choose_below (execAll_below hcall hn thenBody) (execAll_below hcall hn elseBody))
  | whileDo condition body _ =>
    refine Below.iterate ((condition.eval_below hcall).bind (choose_below ?_ (.refl _))) hn
    exact (execAll_below hcall hn body).bind fun signal => .refl _
  | ret value _ =>
    cases value with
    | none => exact .refl _
    | some value => exact (value.eval_below hcall).bind fun a => .refl _
  | pass | brk | cont => exact .refl _

theorem execAll_below (hcall : ∀ callee args, Below (call callee args) (call' callee args))
    {n n' : Nat} (hn : n ≤ n') (ss : List Stmt) :
    Below (execAll ops call n ss) (execAll ops call' n' ss) := by
  cases ss with
  | nil => exact .refl _
  | cons s ss =>
    refine (s.exec_below hcall hn).bind fun signal => ?_
    cases signal with
    | next => exact execAll_below hcall hn ss
    | brk | cont | ret => exact .refl _

end

variable {m : Module} {host : Host (m.imports.map (·.signature)) σ}

theorem Module.call_below {n n' : Nat} (hn : n ≤ n') (callee : Callee) (args : List Num) :
    Below (m.call ops host n callee args) (m.call ops host n' callee args) := by
  induction n generalizing n' callee args with
  | zero =>
    cases callee with
    | imported index =>
      rw [Module.call, Module.call]
      exact .refl _
    | defined index => exact .timeout _
  | succ n ih =>
    cases callee with
    | imported index =>
      rw [Module.call, Module.call]
      exact .refl _
    | defined index =>
      cases n' with
      | zero => omega
      | succ n' =>
        rw [Module.call, Module.call]
        cases m.functions[index]? with
        | none => exact .refl _
        | some f =>
          refine Below.inFrame (Below.bind ?_ fun signal => .refl _) _
          exact execAll_below (fun callee args => ih (by omega) callee args) (by omega) f.body

/-- A function has at most one outcome. -/
theorem Module.Finishes.unique {index : Nat} {args : List Num} {state state₁ state₂ : σ}
    {outcome₁ outcome₂ : Outcome} (h₁ : m.Finishes ops host index args state outcome₁ state₁)
    (h₂ : m.Finishes ops host index args state outcome₂ state₂) :
    outcome₁ = outcome₂ ∧ state₁ = state₂ := by
  obtain ⟨n₁, h₁⟩ := h₁
  obtain ⟨n₂, h₂⟩ := h₂
  have hbelow : ∀ {n n'}, n ≤ n' →
      Below (m.run ops host n index args) (m.run ops host n' index args) :=
    fun hn => (call_below hn _ args).bind fun answer => .refl _
  have h₁' := (hbelow (Nat.le_max_left n₁ n₂)).outcome? h₁
  have h₂' := (hbelow (Nat.le_max_right n₁ n₂)).outcome? h₂
  simpa using h₁'.symm.trans h₂'

end Typed

end Offside

/-
  Offside/Proofs/Semantics/Sound.lean
  ===================================
  **Well-typed functions return what they declare.**  Two things are shown of statements, and
  they do not depend on each other.

  How a statement can end is a matter of its shape: it does not come to its end if it always
  returns, and `break` and `continue` leave it only if one stands in no loop of it
  (`execAll_ends`).  No slot and no call has a part in this.

  What a statement returns is a matter of types: in slots of the right types, and with calls
  that keep to their signatures, it returns what the function declares, and it is not stuck
  (`Stmt.WellTyped.exec_keeps`).  That the calls of a module keep to their signatures needs both
  (`Module.call_keeps`).
-/
import Offside.Proofs.Lowering.Nodes
import Offside.Proofs.Semantics.Keeps
import Offside.Proofs.Semantics.Source

namespace Offside.Typed

variable {σ : Type} {ops : FloatOps} {call : Callee → List Num → Run σ (Option Num)} {bound : Nat}

/-! ### How statements end -/

/-- Holds of the ways in which a statement can end, by whether it may leave a loop around it and
    whether it always returns. -/
def Signal.Leaves (looped : Prop) (returns : Bool) : Signal → Prop
  | next => returns = false
  | brk | cont => looped
  | ret _ => True

theorem Signal.Leaves.imp {looped : Prop} {returns returns' : Bool} {signal : Signal}
    (hreturns : returns = false → returns' = false) (h : signal.Leaves looped returns) :
    signal.Leaves looped returns' := by
  cases signal with
  | next => exact hreturns h
  | brk | cont | ret => exact h

theorem choose_ends {α : Type} {P : α → Prop} {yes no : Run σ α} (hyes : Ends P yes)
    (hno : Ends P no) (a : Value) : Ends P (choose yes no a) := by
  cases a with
  | truth b =>
    cases b with
    | true => exact hyes
    | false => exact hno
  | num _ | nothing => exact .stop trivial

mutual

theorem Stmt.exec_ends (s : Stmt) {looped : Prop} (h : looped ∨ s.strayExits = []) :
    Ends (Signal.Leaves looped s.alwaysReturns) (s.exec ops call bound) := by
  cases s with
  | assign slot value _ =>
    rw [Stmt.exec]
    exact (Ends.any _).bind fun a _ => (Ends.any _).bind fun v _ => (Ends.any _).bind fun _ _ =>
      .pure rfl
  | perform e _ =>
    rw [Stmt.exec]
    exact (Ends.any _).bind fun a _ => .pure rfl
  | branch condition thenBody elseBody _ =>
    have hthen : looped ∨ strayExits thenBody = [] := h.imp_right fun hnil =>
      (List.append_eq_nil_iff.mp hnil).1
    have helse : looped ∨ strayExits elseBody = [] := h.imp_right fun hnil =>
      (List.append_eq_nil_iff.mp hnil).2
    rw [Stmt.exec, Stmt.alwaysReturns]
    refine (Ends.any _).bind fun a _ => choose_ends ?_ ?_ a
    · refine (execAll_ends thenBody hthen).imp fun signal => Signal.Leaves.imp fun hreturns => ?_
      rw [hreturns, Bool.false_and]
    · refine (execAll_ends elseBody helse).imp fun signal => Signal.Leaves.imp fun hreturns => ?_
      rw [hreturns, Bool.and_false]
  | whileDo condition body _ =>
    rw [Stmt.exec]
    -- however the body ends, an exit goes no further than the loop
    have hround : Ends (fun round : Option Signal =>
        ∀ signal, round = some signal → signal.Leaves looped false) (do
          let a ← condition.eval ops call
          choose (do let signal ← execAll ops call bound body; pure signal.afterRound)
            (pure (some .next)) a) := by
      refine (Ends.any _).bind fun a _ => choose_ends ?_ ?_ a
      · refine (Ends.any _).bind fun signal _ => .pure fun after hafter => ?_
        cases signal with
        | next | cont => cases hafter
        | brk =>
          cases hafter
          rfl
        | ret value =>
          cases hafter
          trivial
      · refine .pure fun after hafter => ?_
        cases hafter
        rfl
    exact hround.iterate (fun signal hsignal => hsignal signal rfl) trivial bound
  | ret value _ =>
    cases value with
    | none =>
      rw [Stmt.exec]
      exact .pure trivial
    | some value =>
      rw [Stmt.exec]
      exact (Ends.any _).bind fun a _ => (Ends.any _).bind fun v _ => .pure trivial
  | pass =>
    rw [Stmt.exec]
    exact .pure rfl
  | brk span | cont span =>
    rw [Stmt.exec]
    exact .pure (h.resolve_right (by simp [Stmt.strayExits]))

/-- A body that always returns does not come to its end. -/
theorem execAll_ends (ss : List Stmt) {looped : Prop} (h : looped ∨ strayExits ss = []) :
    Ends (Signal.Leaves looped (bodyReturns ss)) (execAll ops call bound ss) := by
  cases ss with
  | nil =>
    rw [execAll]
    exact .pure rfl
  | cons s ss =>
    have hs : looped ∨ s.strayExits = [] := h.imp_right fun hnil =>
      (List.append_eq_nil_iff.mp hnil).1
    have hss : looped ∨ strayExits ss = [] := h.imp_right fun hnil =>
      (List.append_eq_nil_iff.mp hnil).2
    rw [execAll]
    refine (s.exec_ends hs).bind fun signal hsignal => ?_
    cases signal with
    | next =>
      have hreturns : s.alwaysReturns = false := hsignal
      rw [bodyReturns, hreturns, Bool.false_or]
      exact execAll_ends ss hss
    | brk | cont | ret => exact .pure hsignal

end

/-! ### What expressions come to -/

variable {m : Module} {E : Stop → Prop} {slots : List NumType}

/-- Asked as the signature says, a call answers as the signature says, or it stops for a reason
    in `E`. -/
def Answers (m : Module) (E : Stop → Prop) (call : Callee → List Num → Run σ (Option Num)) : Prop :=
  ∀ callee signature args slots, m.signatureOf callee = some signature →
    args.map Num.type = signature.params →
      Keeps (SlotTypes slots) E (fun answer => answer.map Num.type = signature.result)
        (call callee args)

theorem evalArgs_keeps {es : List Expr}
    (h : ∀ e ∈ es, Keeps (SlotTypes slots) E (fun v => v.type = e.type) (e.eval ops call))
    {ts : List NumType} (types : es.map Expr.type = ts.map ExprType.value) :
    Keeps (SlotTypes slots) E (fun vs => vs.map Num.type = ts) (evalArgs ops call es) := by
  induction es generalizing ts with
  | nil =>
    obtain rfl : ts = [] := by simpa using types
    rw [evalArgs]
    exact .pure rfl
  | cons e es ih =>
    cases ts with
    | nil => cases types
    | cons t ts =>
      simp only [List.map_cons, List.cons.injEq] at types
      rw [evalArgs]
      refine (h e (by simp)).bind fun a ha => ?_
      obtain ⟨v, rfl, hv⟩ := Value.eq_num (ha.trans types.1)
      rw [number, pure_bind]
      refine (ih (fun e' he' => h e' (by simp [he'])) types.2).bind fun vs hvs => ?_
      exact .pure (by simp [hv, hvs])

section Operators

variable {I : Frame σ → Prop}

theorem arith_keeps (htrap : E .trap) (op : BinaryOp) {a b : Value} {t : NumType}
    (ha : a.type = .value t) (hb : b.type = .value t) :
    Keeps I E (fun v => v.type = .value t) (arith ops op a b) := by
  cases t with
  | int =>
    obtain ⟨a, rfl⟩ := Value.eq_int ha
    obtain ⟨b, rfl⟩ := Value.eq_int hb
    rw [arith]
    cases intArith op a b with
    | some c => exact .pure rfl
    | none => exact .stop htrap
  | float =>
    obtain ⟨a, rfl⟩ := Value.eq_float ha
    obtain ⟨b, rfl⟩ := Value.eq_float hb
    exact .pure rfl

theorem negate_keeps {a : Value} {t : NumType} (ha : a.type = .value t) :
    Keeps I E (fun v => v.type = .value t) (negate ops a) := by
  cases t with
  | int =>
    obtain ⟨a, rfl⟩ := Value.eq_int ha
    exact .pure rfl
  | float =>
    obtain ⟨a, rfl⟩ := Value.eq_float ha
    exact .pure rfl

theorem compare_keeps (op : CompareOp) {a b : Value} {t : NumType} (ha : a.type = .value t)
    (hb : b.type = .value t) : Keeps I E (fun v => v.type = .bool) (compare ops op a b) := by
  cases t with
  | int =>
    obtain ⟨a, rfl⟩ := Value.eq_int ha
    obtain ⟨b, rfl⟩ := Value.eq_int hb
    exact .pure rfl
  | float =>
    obtain ⟨a, rfl⟩ := Value.eq_float ha
    obtain ⟨b, rfl⟩ := Value.eq_float hb
    exact .pure rfl

theorem logic_keeps (op : BoolOp) {a b : Value} (ha : a.type = .bool) (hb : b.type = .bool) :
    Keeps I E (fun v => v.type = .bool) (logic op a b) := by
  obtain ⟨a, rfl⟩ := Value.eq_truth ha
  obtain ⟨b, rfl⟩ := Value.eq_truth hb
  cases op <;> exact .pure rfl

end Operators

/-- An expression comes to a value of its type. -/
theorem Expr.WellTyped.eval_keeps {e : Expr} (h : e.WellTyped m.signatureOf slots)
    (hE : ∀ why, why ≠ .stuck → E why) (hcall : Answers m E call) :
    Keeps (SlotTypes slots) E (fun v => v.type = e.type) (e.eval ops call) := by
  induction h with
  | int value _ =>
    rw [Expr.eval]
    exact .pure rfl
  | float value _ =>
    rw [Expr.eval]
    exact .pure rfl
  | slot declared =>
    rw [Expr.eval]
    refine (Keeps.of_simulates (Simulates.readSlot declared) hE).bind fun v hv => ?_
    subst hv
    exact .pure rfl
  | @binary op _ _ _ _ _ _ tl tr hl hr =>
    rw [Expr.eval]
    refine hl.bind fun a ha => hr.bind fun b hb => ?_
    exact arith_keeps (hE .trap (by simp)) op (ha.trans tl) (hb.trans tr)
  | negate _ te he =>
    rw [Expr.eval]
    exact he.bind fun a ha => negate_keeps (ha.trans te)
  | @compare op _ _ _ _ _ _ tl tr hl hr =>
    rw [Expr.eval]
    exact hl.bind fun a ha => hr.bind fun b hb => compare_keeps op (ha.trans tl) (hb.trans tr)
  | @logic op _ _ _ _ _ tl tr hl hr =>
    rw [Expr.eval]
    exact hl.bind fun a ha => hr.bind fun b hb => logic_keeps op (ha.trans tl) (hb.trans tr)
  | call _ known types hargs =>
    rw [Expr.eval]
    refine (evalArgs_keeps hargs types).bind fun args hargs => ?_
    refine (hcall _ _ args slots known hargs).bind fun answer hanswer => ?_
    exact .pure (Value.type_ofResult hanswer)

/-! ### What statements return -/

/-- A return gives what the function declares. -/
def Signal.Returns (result : Option NumType) : Signal → Prop
  | ret value => value.map Num.type = result
  | next | brk | cont => True

theorem execAll_keeps {ss : List Stmt} {result : Option NumType}
    (h : ∀ s ∈ ss, Keeps (SlotTypes slots) E (Signal.Returns result) (s.exec ops call bound)) :
    Keeps (SlotTypes slots) E (Signal.Returns result) (execAll ops call bound ss) := by
  induction ss with
  | nil =>
    rw [execAll]
    exact .pure trivial
  | cons s ss ih =>
    rw [execAll]
    refine (h s (by simp)).bind fun signal hsignal => ?_
    cases signal with
    | next => exact ih fun s' hs' => h s' (by simp [hs'])
    | brk | cont | ret => exact .pure hsignal

theorem Stmt.WellTyped.exec_keeps {s : Stmt} {result : Option NumType}
    (h : s.WellTyped m.signatureOf slots result) (hE : ∀ why, why ≠ .stuck → E why)
    (hcall : Answers m E call) :
    Keeps (SlotTypes slots) E (Signal.Returns result) (s.exec ops call bound) := by
  induction h with
  | assign he te declared =>
    rw [Stmt.exec]
    refine (he.eval_keeps hE hcall).bind fun a ha => ?_
    obtain ⟨v, rfl, hv⟩ := Value.eq_num (ha.trans te)
    rw [number, pure_bind]
    exact (Keeps.of_simulates (Simulates.writeSlot declared hv) hE).bind fun _ _ => .pure trivial
  | perform he =>
    rw [Stmt.exec]
    exact (he.eval_keeps hE hcall).bind fun _ _ => .pure trivial
  | branch he te _ _ hss hss' =>
    rw [Stmt.exec]
    refine (he.eval_keeps hE hcall).bind fun a ha => ?_
    obtain ⟨b, rfl⟩ := Value.eq_truth (ha.trans te)
    cases b with
    | true => exact execAll_keeps hss
    | false => exact execAll_keeps hss'
  | @whileDo e ss _ he te _ hss =>
    rw [Stmt.exec]
    have hround : Keeps (SlotTypes slots) E (fun round : Option Signal =>
        ∀ signal, round = some signal → signal.Returns result) (do
          let a ← e.eval ops call
          choose (do let signal ← execAll ops call bound ss; pure signal.afterRound)
            (pure (some .next)) a) := by
      refine (he.eval_keeps hE hcall).bind fun a ha => ?_
      obtain ⟨b, rfl⟩ := Value.eq_truth (ha.trans te)
      cases b with
      | true =>
        refine (execAll_keeps hss).bind fun signal hsignal => .pure fun after hafter => ?_
        cases signal with
        | next | cont => cases hafter
        | brk =>
          cases hafter
          trivial
        | ret value =>
          cases hafter
          exact hsignal
      | false =>
        refine .pure fun after hafter => ?_
        cases hafter
        trivial
    exact hround.iterate (fun signal hsignal => hsignal signal rfl) (hE .timeout (by simp)) bound
  | retNone declared =>
    rw [Stmt.exec]
    exact .pure declared.symm
  | ret declared he te =>
    rw [Stmt.exec]
    refine (he.eval_keeps hE hcall).bind fun a ha => ?_
    obtain ⟨v, rfl, hv⟩ := Value.eq_num (ha.trans te)
    rw [number, pure_bind]
    exact .pure (by simp [Signal.Returns, declared, hv])
  | pass =>
    rw [Stmt.exec]
    exact .pure trivial
  | brk | cont =>
    rw [Stmt.exec]
    exact .pure trivial

/-! ### Calls -/

/-- The slots of a function when it is called. -/
theorem type_slots {f : Function} {args : List Num} (h : args.map Num.type = f.signature.params) :
    (args ++ f.locals.map Num.zero).map Num.type = f.slots := by
  simp [Function.comp_def, h, Function.slots]

/-- A function without stray exits gives what it declares; one with them may be stuck. -/
theorem Function.WellTyped.result_keeps {f : Function} (h : f.WellTyped m)
    (hE : ∀ why, why ≠ .stuck → E why) (hstray : strayExits f.body ≠ [] → E .stuck)
    (hcall : Answers m E call) :
    Keeps (SlotTypes f.slots) E (fun answer => answer.map Num.type = f.signature.result) (do
      let signal ← execAll ops call bound f.body
      f.result signal) := by
  have hreturns : Keeps (SlotTypes f.slots) E (Signal.Returns f.signature.result)
      (execAll ops call bound f.body) :=
    execAll_keeps fun s hs => (h.body s hs).exec_keeps hE hcall
  -- only a function with stray exits can be stuck for the way its body ends
  have hends : Ends (Signal.Leaves (E .stuck) (bodyReturns f.body))
      (execAll ops call bound f.body) :=
    execAll_ends f.body (Decidable.or_iff_not_imp_right.mpr hstray)
  refine (hreturns.and hends).bind fun signal ⟨hreturn, hleaves⟩ => ?_
  cases signal with
  | next =>
    have hnone : f.signature.result = none := by
      cases hresult : f.signature.result with
      | none => rfl
      | some t =>
        have hfalse : bodyReturns f.body = false := hleaves
        rw [h.returns (by simp [hresult])] at hfalse
        cases hfalse
    rw [Function.result, hnone]
    exact .pure rfl
  | brk | cont => exact .stop hleaves
  | ret value => exact .pure hreturn

/-- The calls of a module keep to their signatures. -/
theorem Module.call_keeps (hm : m.WellTyped) (hE : ∀ why, why ≠ .stuck → E why)
    (hstray : ∀ f ∈ m.functions, strayExits f.body ≠ [] → E .stuck)
    (host : Host (m.imports.map (·.signature)) σ) (bound : Nat) :
    Answers m E (m.call ops host bound) := by
  induction bound using Nat.strongRecOn with
  | ind bound ih =>
    intro callee signature args slots known hargs
    cases callee with
    | imported index =>
      have hknown : (m.imports.map (·.signature))[index]? = some signature := by
        rw [List.getElem?_map]
        exact known
      rw [Module.call]
      exact .of_simulates (Simulates.callHost host hknown hargs) hE
    | defined index =>
      obtain ⟨f, hf, rfl⟩ := Option.map_eq_some_iff.mp known
      cases bound with
      | zero =>
        rw [Module.call]
        exact .stop (hE .timeout (by simp))
      | succ bound =>
        have hmem := List.mem_of_getElem? hf
        rw [Module.call, hf]
        refine .inFrame (type_slots hargs) ?_
        exact (hm f hmem).result_keeps hE (hstray f hmem) (ih bound (by omega))

end Offside.Typed

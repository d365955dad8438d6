/-
  Offside/Proofs/Lowering/Meaning.lean
  ====================================
  **Lowering preserves meaning.**  A statement ends at its end, with `break` or `continue`,
  or with a return, and its code ends in the way that belongs to it (`Signal.flow`): a
  `break` inside of branches is a branch over as many constructs as lie in between, counted
  from where it stands.  One step out of a construct changes the count by one, and with it
  the way to end (`leave_flow`, `leave_loopFlow`).

  A loop goes round as often as its code does, and a call is nested as deep, so both sides
  come to their outcome with the same bound.  The theorem about modules is then an induction
  over the bound (`linked`).
-/
import Offside.Proofs.Lowering.Assembly
import Offside.Proofs.Lowering.ExprMeaning
import Offside.Proofs.Semantics.Bound

namespace Offside

open Wasm (Node Plain Flow FuncType bit)
open Typed (Stmt Value Signal Callee)

variable {σ : Type} {m : Typed.Module} {ops : FloatOps}
  {functionType : Nat → Option FuncType} {call : Callee → List Num → Run σ (Option Num)}
  {invoke : Nat → List Num → Run σ (List Num)} {bound : Nat} {slots : List NumType}

/-! ### Statements -/

/-- Holds of the ways in which a statement can end inside the constructs `labels`, in a
    function with the given result.  One that always returns does not come to its end. -/
def Typed.Signal.Fits (labels : List Label) (result : Option NumType) (returns : Bool) :
    Signal → Prop
  | next => returns = false
  | brk | cont => .loop ∈ labels
  | ret value => value.map Num.type = result

/-- How the code of a statement inside the constructs `labels` ends. -/
def Typed.Signal.flow (labels : List Label) : Signal → Flow
  | next => .next []
  | brk => .br ((loopDepth? labels).getD 0 + 1) []
  | cont => .br ((loopDepth? labels).getD 0) []
  | ret value => .ret value.toList

theorem loopDepth?_branch {labels : List Label} (h : .loop ∈ labels) :
    ∃ depth, loopDepth? labels = some depth ∧
      loopDepth? (.branch :: labels) = some (depth + 1) := by
  obtain ⟨depth, hdepth⟩ := Option.isSome_iff_exists.mp (List.isSome_idxOf?.mpr h)
  exact ⟨depth, hdepth, by simp [loopDepth?, List.idxOf?_cons, hdepth]⟩

/-- Out of a branch, a way to end is the same way to end. -/
theorem leave_flow {labels : List Label} {result : Option NumType} {returns : Bool}
    {signal : Signal} (h : signal.Fits (.branch :: labels) result returns) :
    (signal.flow (.branch :: labels)).leave [] = (pure (signal.flow labels) : Run σ Flow) := by
  cases signal with
  | next => rfl
  | brk | cont =>
    have hloop : .loop ∈ labels := by simpa [Signal.Fits] using h
    obtain ⟨depth, hdepth, hbranch⟩ := loopDepth?_branch hloop
    simp [Signal.flow, hdepth, hbranch, Flow.leave]
  | ret value => rfl

theorem exit_simulates {labels : List Label} {result : Option NumType} {e : Exit}
    {signal : Signal} {more : Nat} (nested : Nested labels) (deep : labels.length ≤ UInt32.size)
    (h : straysIn labels [e] = []) (hmore : more ≤ 1)
    (hsignal : signal = .brk ∧ more = 1 ∨ signal = .cont ∧ more = 0) :
    Simulates slots (Signal.Fits labels result false) (Signal.flow labels) (pure signal)
      (Wasm.execAll ops functionType invoke bound (exitNodes labels more) []) := by
  obtain ⟨depth, hdepth⟩ := exists_loopDepth h
  have hlt := nested.loopDepth_lt hdepth
  have hloop : Label.loop ∈ labels := List.isSome_idxOf?.mp (by
    rw [← loopDepth?, hdepth]
    rfl)
  have htoNat : (UInt32.ofNat (depth + more)).toNat = depth + more :=
    UInt32.toNat_ofNat_of_lt' (by omega)
  have hflow : signal.flow labels = .br (depth + more) [] := by
    rcases hsignal with ⟨rfl, rfl⟩ | ⟨rfl, rfl⟩ <;> simp [Signal.flow, hdepth]
  have hfits : signal.Fits labels result false := by
    rcases hsignal with ⟨rfl, -⟩ | ⟨rfl, -⟩ <;> exact hloop
  rw [exitNodes, hdepth]
  refine Simulates.plain ?_
  rw [Plain.exec, htoNat, ← hflow]
  exact .pure hfits

theorem execAll_simulates {ss : List Stmt} {result : Option NumType}
    (h : ∀ s ∈ ss, ∀ {labels : List Label}, Nested labels →
      labels.length + s.nesting ≤ UInt32.size → straysIn labels s.strayExits = [] →
      Simulates slots (Signal.Fits labels result s.alwaysReturns) (Signal.flow labels)
        (s.exec ops call bound)
        (Wasm.execAll ops functionType invoke bound (stmtNodes m labels s) []))
    {labels : List Label} (nested : Nested labels)
    (deep : labels.length + Typed.nesting ss ≤ UInt32.size)
    (hexits : straysIn labels (Typed.strayExits ss) = []) :
    Simulates slots (Signal.Fits labels result (Typed.bodyReturns ss)) (Signal.flow labels)
      (Typed.execAll ops call bound ss)
      (Wasm.execAll ops functionType invoke bound (bodyNodes m labels ss) []) := by
  induction ss with
  | nil =>
    rw [Typed.execAll, bodyNodes, Wasm.execAll]
    exact .pure rfl
  | cons s ss ih =>
    rw [Typed.nesting] at deep
    rw [Typed.strayExits, straysIn_append] at hexits
    obtain ⟨hs, hss⟩ := List.append_eq_nil_iff.mp hexits
    have hrest := ih (fun s' hs' => h s' (by simp [hs'])) (by omega) hss
    rw [Typed.execAll, bodyNodes, Wasm.execAll_append]
    refine (h s (by simp) nested (by omega) hs).bind fun signal hsignal => ?_
    cases signal with
    | next =>
      have hreturns : Typed.bodyReturns (s :: ss) = Typed.bodyReturns ss := by
        have hs : s.alwaysReturns = false := hsignal
        simp [Typed.bodyReturns, hs]
      rw [hreturns]
      exact hrest
    | brk => exact .pure hsignal
    | cont => exact .pure hsignal
    | ret value => exact .pure hsignal

section Constructs

variable {labels : List Label} {result : Option NumType} {ss ss' : List Stmt}

/-- What a branch ends with, seen from outside. -/
theorem leave_simulates (returns' : Bool) {returns : Bool} {signal : Signal}
    (h : Signal.Fits (.branch :: labels) result returns signal)
    (hnext : signal = .next → returns' = false) :
    Simulates (σ := σ) slots (Signal.Fits labels result returns') (Signal.flow labels)
      (pure signal) ((signal.flow (.branch :: labels)).leave []) := by
  rw [leave_flow h]
  apply Simulates.pure
  cases signal with
  | next => exact hnext rfl
  | brk | cont => simpa [Signal.Fits] using h
  | ret value => exact h

/-- One branch or the other is taken, by a condition on the stack. -/
theorem branch_simulates {a : Value} (ha : a.type = .bool)
    (hthen : Simulates slots (Signal.Fits (.branch :: labels) result (Typed.bodyReturns ss))
      (Signal.flow (.branch :: labels)) (Typed.execAll ops call bound ss)
      (Wasm.execAll ops functionType invoke bound (bodyNodes m (.branch :: labels) ss) []))
    (helse : Simulates slots (Signal.Fits (.branch :: labels) result (Typed.bodyReturns ss'))
      (Signal.flow (.branch :: labels)) (Typed.execAll ops call bound ss')
      (Wasm.execAll ops functionType invoke bound (bodyNodes m (.branch :: labels) ss') [])) :
    Simulates slots
      (Signal.Fits labels result (Typed.bodyReturns ss && Typed.bodyReturns ss'))
      (Signal.flow labels)
      (Typed.choose (Typed.execAll ops call bound ss) (Typed.execAll ops call bound ss') a)
      (Wasm.execAll ops functionType invoke bound
        [branchNode ss' (bodyNodes m (.branch :: labels) ss)
          (bodyNodes m (.branch :: labels) ss')] (a.push [])) := by
  obtain ⟨b, rfl⟩ := Value.eq_truth ha
  rw [Wasm.execAll_singleton]
  cases b with
  | true =>
    have hbody := hthen.bindRight fun signal hsignal =>
      leave_simulates (Typed.bodyReturns ss && Typed.bodyReturns ss') hsignal (by
        rintro rfl
        have hreturns : Typed.bodyReturns ss = false := hsignal
        simp [hreturns])
    cases ss' with
    | nil => exact hbody
    | cons s' ss' => exact hbody
  | false =>
    cases ss' with
    | nil =>
      apply Simulates.pure
      simp [Signal.Fits, Typed.bodyReturns]
    | cons s' ss' =>
      exact helse.bindRight fun signal hsignal => leave_simulates _ hsignal (by
        rintro rfl
        have hreturns : Typed.bodyReturns (s' :: ss') = false := hsignal
        simp [hreturns])

/-- How the code of a round ends: at the loop again, past its block, or with a return. -/
def roundFlow : Option Signal → Flow
  | none => .br 0 []
  | some (.ret value) => .ret value.toList
  | some _ => .br 1 []

/-- How a loop ends inside its block. -/
def loopFlow : Signal → Flow
  | .ret value => .ret value.toList
  | _ => .br 0 []

theorem test_eq (b : Bool) :
    Wasm.execAll ops functionType invoke bound [.plain .i32Eqz, .plain (.brIf 1)]
      [.int (bit b)] = pure (if b then .next [] else .br 1 []) := by
  cases b <;> rfl

theorem round_simulates {a : Value} (ha : a.type = .bool)
    (hbody : Simulates slots
      (Signal.Fits (.loop :: .block :: labels) result (Typed.bodyReturns ss))
      (Signal.flow (.loop :: .block :: labels)) (Typed.execAll ops call bound ss)
      (Wasm.execAll ops functionType invoke bound
        (bodyNodes m (.loop :: .block :: labels) ss) [])) :
    Simulates slots
      (fun round => ∀ signal, round = some signal → signal.Fits [] result false) roundFlow
      (Typed.choose (do let signal ← Typed.execAll ops call bound ss; pure signal.afterRound)
        (pure (some .next)) a)
      (Wasm.execAll ops functionType invoke bound
        ([.plain .i32Eqz, .plain (.brIf 1)] ++
          (bodyNodes m (.loop :: .block :: labels) ss ++ [.plain (.br 0)])) (a.push [])) := by
  obtain ⟨b, rfl⟩ := Value.eq_truth ha
  rw [Value.push, Wasm.execAll_append, test_eq, pure_bind]
  cases b with
  | false =>
    refine .pure fun signal hsignal => ?_
    obtain rfl := Option.some.inj hsignal
    rfl
  | true =>
    change Simulates _ _ _ _ (Wasm.execAll ops functionType invoke bound (_ ++ _) [])
    rw [Wasm.execAll_append]
    refine hbody.bind fun signal hsignal => ?_
    cases signal with
    | next => exact .pure (by simp [Signal.afterRound])
    | cont => exact .pure (by simp [Signal.afterRound])
    | brk => exact .pure (by simp [Signal.afterRound, Signal.Fits])
    | ret value =>
      refine .pure fun signal h => ?_
      obtain rfl := Option.some.inj h
      exact hsignal

theorem afterRound_roundFlow (round : Option Signal) :
    (roundFlow round).afterRound [] = (pure (round.map loopFlow) : Run σ (Option Flow)) := by
  rcases round with _ | (_ | _ | _ | _) <;> rfl

theorem leave_loopFlow {signal : Signal} (h : signal.Fits [] result false) :
    (loopFlow signal).leave [] = (pure (signal.flow labels) : Run σ Flow) := by
  cases signal with
  | next | ret _ => rfl
  | brk | cont => cases h

/-- A loop inside its block goes round as often as the loop it was made of. -/
theorem loop_simulates {x : Run σ (Option Signal)} {ns : List Node}
    (h : Simulates slots
      (fun round => ∀ signal, round = some signal → signal.Fits [] result false) roundFlow x
      (Wasm.execAll ops functionType invoke bound ns [])) :
    Simulates slots (Signal.Fits labels result false) (Signal.flow labels) (iterate bound x)
      (Wasm.execAll ops functionType invoke bound [.block [.loop ns]] []) := by
  rw [Wasm.execAll_singleton, Wasm.Node.exec, Wasm.execAll_singleton, Wasm.Node.exec]
  have hround : Simulates slots
      (fun round => ∀ signal, round = some signal → signal.Fits [] result false)
      (Option.map loopFlow) x
      (Wasm.execAll ops functionType invoke bound ns [] >>= Flow.afterRound []) := by
    refine h.bindRight fun round hr => ?_
    rw [afterRound_roundFlow]
    exact .pure hr
  have hloop := hround.iterate (fun signal hsignal => hsignal signal rfl) bound
  refine hloop.bindRight fun signal hsignal => ?_
  have hleave : (loopFlow signal).leave [] = (pure (signal.flow labels) : Run σ Flow) :=
    leave_loopFlow hsignal
  rw [hleave]
  refine .pure ?_
  cases signal with
  | next | ret _ => exact hsignal
  | brk | cont => cases hsignal

end Constructs

/-- The code of a statement ends as the statement does. -/
theorem exec_simulates (link : Linked m functionType call invoke) {s : Stmt}
    {result : Option NumType} (h : s.WellTyped m.signatureOf slots result)
    {labels : List Label} (nested : Nested labels)
    (deep : labels.length + s.nesting ≤ UInt32.size)
    (hexits : straysIn labels s.strayExits = []) :
    Simulates slots (Signal.Fits labels result s.alwaysReturns) (Signal.flow labels)
      (s.exec ops call bound)
      (Wasm.execAll ops functionType invoke bound (stmtNodes m labels s) []) := by
  induction h generalizing labels with
  | assign he te declared =>
    rw [Stmt.exec, stmtNodes]
    refine (eval_simulates link he []).seq fun a ha => ?_
    obtain ⟨v, rfl, hv⟩ := Value.eq_num (ha.trans te)
    rw [Typed.number, pure_bind]
    exact Simulates.plain ((Simulates.writeSlot declared hv).bind fun _ _ => .pure rfl)
  | @perform e _ he =>
    rw [Stmt.exec, stmtNodes]
    refine (eval_simulates link he []).seq fun a ha => ?_
    cases te : e.type with
    | void =>
      rw [if_pos rfl]
      rw [te] at ha
      cases a with
      | nothing => exact .pure rfl
      | num _ | truth _ => cases ha
    | bool | value t =>
      rw [if_neg (by simp)]
      rw [te] at ha
      cases a with
      | nothing => cases ha
      | num _ => exact Simulates.plain (.pure rfl)
      | truth _ => exact Simulates.plain (.pure rfl)
  | @branch e ss ss' _ he te _ _ hss hss' =>
    rw [Stmt.nesting] at deep
    rw [Stmt.strayExits, straysIn_append, ← straysIn_branch labels,
      ← straysIn_branch labels] at hexits
    obtain ⟨hthen, helse⟩ := List.append_eq_nil_iff.mp hexits
    rw [Stmt.exec, stmtNodes, Stmt.alwaysReturns]
    refine (eval_simulates link he []).seq fun a ha => ?_
    refine branch_simulates (ha.trans te) ?_ ?_
    · exact execAll_simulates hss nested.branch (by simp only [List.length_cons]; omega) hthen
    · exact execAll_simulates hss' nested.branch (by simp only [List.length_cons]; omega) helse
  | @whileDo e ss _ he te _ hss =>
    rw [Stmt.nesting] at deep
    have hbody := execAll_simulates hss nested.loop
      (by simp only [List.length_cons]; omega) (straysIn_loop _ _)
    rw [Stmt.exec, stmtNodes, Stmt.alwaysReturns, List.append_assoc, List.append_assoc]
    refine loop_simulates ?_
    exact (eval_simulates link he []).seq fun a ha => round_simulates (ha.trans te) hbody
  | retNone declared =>
    rw [Stmt.exec, stmtNodes]
    exact Simulates.plain (.pure declared.symm)
  | ret declared he te =>
    rw [Stmt.exec, stmtNodes]
    refine (eval_simulates link he []).seq fun a ha => ?_
    obtain ⟨v, rfl, hv⟩ := Value.eq_num (ha.trans te)
    rw [Typed.number, pure_bind]
    exact Simulates.plain (.pure (by simp [Signal.Fits, declared, hv]))
  | pass =>
    rw [Stmt.exec, stmtNodes, Wasm.execAll]
    exact .pure rfl
  | brk span => exact exit_simulates nested (by omega) hexits (by omega) (.inl ⟨rfl, rfl⟩)
  | cont span => exact exit_simulates nested (by omega) hexits (by omega) (.inr ⟨rfl, rfl⟩)

/-! ### Functions -/

theorem zero_ofNumType (t : NumType) : Wasm.zero (.ofNumType t) = Num.zero t := by
  cases t <;> rfl

/-- What a function gives, by how its body ends, is what its code gives. -/
theorem result_simulates {f : Typed.Function} {signal : Signal} {returns : Bool}
    (h : signal.Fits [] f.signature.result returns)
    (hreturns : f.signature.result.isSome = true → returns = true) :
    Simulates (σ := σ) slots (fun answer => answer.map Num.type = f.signature.result)
      Option.toList (f.result signal)
      (do
        let flow ← (signal.flow []).andThen (Wasm.execAll ops functionType invoke bound
          (if f.signature.result.isSome then [.plain .unreachable] else []))
        flow.results (FuncType.ofSignature f.signature).results.length) := by
  cases signal with
  | next =>
    have hnone : f.signature.result = none := by
      cases hresult : f.signature.result with
      | none => rfl
      | some t =>
        have hfits : returns = false := h
        rw [hreturns (by simp [hresult])] at hfits
        cases hfits
    simp only [Typed.Function.result, hnone, FuncType.ofSignature]
    exact .pure rfl
  | brk | cont => cases h
  | ret value =>
    have hvalue : value.map Num.type = f.signature.result := h
    have hcount : (FuncType.ofSignature f.signature).results.length = value.toList.length := by
      rw [FuncType.ofSignature, ← hvalue]
      cases value <;> rfl
    have hflow : (Flow.ret value.toList).results (FuncType.ofSignature f.signature).results.length
        = (pure value.toList : Run σ (List Num)) := by
      rw [hcount, Flow.results, if_pos (Nat.le_refl _), List.take_length]
      cases value <;> rfl
    change Simulates _ _ _ (pure value) (pure (Flow.ret value.toList) >>= _)
    rw [pure_bind, hflow]
    exact .pure hvalue

section Linked

variable {w : Wasm.Module} {gs : List (Typed.Function × List Wasm.Instr)}

theorem function_simulates {f : Typed.Function} (hf : f ∈ m.functions) (h : f.WellTyped m)
    (fits : m.Indexable) (hexits : Typed.strayExits f.body = [])
    (link : Linked m functionType call invoke) {args : List Num}
    (hargs : args.map Num.type = f.signature.params) :
    Simulates slots (fun answer => answer.map Num.type = f.signature.result) Option.toList
      (inFrame (args ++ f.locals.map Num.zero) do
        let signal ← Typed.execAll ops call bound f.body
        f.result signal)
      (inFrame (args ++ (f.locals.map Wasm.ValType.ofNumType).map Wasm.zero) do
        let flow ← Wasm.execAll ops functionType invoke bound (functionNodes m f) []
        flow.results (FuncType.ofSignature f.signature).results.length) := by
  have hzero : (f.locals.map Wasm.ValType.ofNumType).map Wasm.zero = f.locals.map Num.zero := by
    simp [Function.comp_def, zero_ofNumType]
  have htypes : (args ++ f.locals.map Num.zero).map Num.type = f.slots := by
    simp [Function.comp_def, hargs, Typed.Function.slots]
  rw [hzero, functionNodes, Wasm.execAll_append, bind_assoc]
  refine .inFrame htypes ?_
  refine (execAll_simulates (fun s hs _ => exec_simulates link (h.body s hs)) .nil
    (by simpa using fits.labels f hf) hexits).bind fun signal hsignal => ?_
  exact result_simulates hsignal h.returns

/-- Both ways to call do the same, with the same bound. -/
theorem linked (hm : m.WellTyped) (fits : m.Indexable) (hfst : gs.map Prod.fst = m.functions)
    (hgen : ∀ g ∈ gs, generate m g.1 = .ok g.2) (hw : Assembled w m.imports gs)
    (host : Host (m.imports.map (·.signature)) σ) (bound : Nat) :
    Linked m w.functionType (m.call ops host bound) (w.invoke ops host bound) := by
  have hsignatures := map_signature hfst
  have htypes : ∀ callee signature, m.signatureOf callee = some signature →
      w.functionType (m.indexOf callee) = some (FuncType.ofSignature signature) := by
    intro callee signature known
    rw [hw.functionType, hsignatures, ← Typed.Module.signature?, signature?_indexOf known]
    rfl
  induction bound using Nat.strongRecOn with
  | ind bound ih =>
    refine ⟨fits.callees, htypes, fun callee signature args slots known hargs => ?_⟩
    cases callee with
    | imported index =>
      have hlt : index < w.imports.length := by
        obtain ⟨i, hi, -⟩ := Option.map_eq_some_iff.mp known
        rw [hw.imports_length]
        exact (List.getElem?_eq_some_iff.mp hi).1
      have hknown : (m.imports.map (·.signature))[index]? = some signature := by
        rw [List.getElem?_map]
        exact known
      rw [Typed.Module.call, Typed.Module.indexOf, Wasm.invoke_imported hlt]
      exact (Simulates.callHost host hknown hargs).bindRight fun answer hanswer => .pure hanswer
    | defined index =>
      obtain ⟨f, hf, rfl⟩ := Option.map_eq_some_iff.mp known
      have hnot : ¬ m.imports.length + index < w.imports.length := by
        rw [hw.imports_length]
        omega
      have hsub : m.imports.length + index - w.imports.length = index := by
        rw [hw.imports_length]
        omega
      cases bound with
      | zero =>
        rw [Typed.Module.call, Typed.Module.indexOf, Wasm.invoke_zero hnot]
        exact .stop (by simp)
      | succ bound =>
        have hmem := List.mem_of_getElem? hf
        obtain ⟨⟨f', body⟩, hg, rfl⟩ : ∃ g, gs[index]? = some g ∧ g.1 = f := by
          rw [← hfst, List.getElem?_map] at hf
          exact Option.map_eq_some_iff.mp hf
        obtain ⟨hexits, hbody⟩ :=
          generate_ok (hm f' hmem) (hgen (f', body) (List.mem_of_getElem? hg))
        obtain ⟨g, hfound, hlocals, hcode, htype⟩ := hw.getElem?_functions hg
        have hstructured : Wasm.structured? g.body = some (functionNodes m f') := by
          rw [hcode, Wasm.structured?_eq_some_iff]
          exact hbody
        rw [Typed.Module.call, hf, Typed.Module.indexOf,
          Wasm.invoke_succ hnot (by rw [hsub]; exact hfound) htype hstructured, hlocals]
        exact function_simulates hmem (hm f' hmem) fits hexits (ih bound (by omega)) hargs

end Linked

/-! ### Modules -/

theorem lowerModule_exists (hm : m.WellTyped) (fits : m.Indexable)
    (hgen : ∀ f ∈ m.functions, ∃ body, generate m f = .ok body) :
    ∃ w, (lowerModule m).2 = .ok w := by
  refine addFunctions_ok hm (fun f hf body => verify_generate fits hf (hm f hf)) ?_ _
  rw [List.flatMap_eq_nil_iff]
  intro f hf
  obtain ⟨body, hbody⟩ := hgen f hf
  exact (generate_ok (hm f hf) hbody).1

/-- Lowering preserves meaning: whatever a function of a checked program comes to, its code
    comes to as well, and nothing else. -/
theorem lowerModule_preserves_meaning {p : Surface.Program}
    (h : Typed.Module.ofProgram p = .ok m) (fits : m.Indexable)
    (hgen : ∀ f ∈ m.functions, ∃ body, generate m f = .ok body) :
    ∃ w, (lowerModule m).2 = .ok w ∧
      ∀ {σ : Type} (ops : FloatOps) (host : Host (m.imports.map (·.signature)) σ) (index : Nat)
        (f : Typed.Function) (args : List Num) (state : σ),
        m.functions[index]? = some f → args.map Num.type = f.signature.params →
        (∀ outcome state',
          m.Finishes ops host index args state outcome state' ↔
            w.Finishes ops host (m.imports.length + index) args state outcome state') ∧
        (∀ outcome₁ state₁ outcome₂ state₂,
          m.Finishes ops host index args state outcome₁ state₁ →
          m.Finishes ops host index args state outcome₂ state₂ →
            outcome₁ = outcome₂ ∧ state₁ = state₂) ∧
        ∀ bound frame, m.call ops host bound (.defined index) args ⟨[], state⟩ ≠
          .error .stuck frame := by
  have hm := Typed.Module.wellTyped_of_ofProgram h fits.slots
  obtain ⟨w, hw⟩ := lowerModule_exists hm fits hgen
  obtain ⟨gs, hfst, hgs, hassembled⟩ := lowerModule_assembled hw fits.callees
  refine ⟨w, hw, ?_⟩
  intro σ ops host index f args state hf hargs
  have hknown : m.signatureOf (.defined index) = some f.signature := by
    simp [Typed.Module.signatureOf, hf]
  have hsimulates : ∀ bound, Simulates [] (fun answer => answer.map Num.type = f.signature.result)
      Option.toList (m.call ops host bound (.defined index) args)
      (w.invoke ops host bound (m.imports.length + index) args) := fun bound =>
    (linked hm fits hfst (fun g hg => (hgs g hg).1) hassembled host bound).calls
      (.defined index) f.signature args [] hknown hargs
  refine ⟨fun outcome state' => ?_, fun _ _ _ _ h₁ h₂ => h₁.unique h₂, fun bound frame => ?_⟩
  · have hsame := fun bound => (hsimulates bound).outcome? state
    constructor
    · rintro ⟨bound, hfinish⟩
      exact ⟨bound, (hsame bound).symm.trans hfinish⟩
    · rintro ⟨bound, hfinish⟩
      exact ⟨bound, (hsame bound).trans hfinish⟩
  · rcases hsimulates bound ⟨[], state⟩ rfl with ⟨a, frame', hx, -⟩ | ⟨why, frame', hx, hwhy, -⟩
    · simp [hx]
    · intro hstuck
      rw [hx] at hstuck
      cases hstuck
      exact hwhy rfl

/-- A loop with calls to the host and between functions, and a division that can fail:

        from env import tick(int) -> int

        def part(x: int, y: int) -> int:
            return x / y

        def main(n: int) -> int:
            total = 0
            while 0 < n:
                n = n - 1
                if n == 2:
                    continue
                if n == 0:
                    break
                total = total + part(tick(n), n)
            return total
-/
def sumOfParts : Surface.Program where
  imports := [⟨"env", "tick", some ⟨[⟨"int", .nowhere⟩], some ⟨"int", .nowhere⟩⟩, .nowhere⟩]
  functions :=
    [{ name := "part"
       params := [⟨"x", ⟨"int", .nowhere⟩, .nowhere⟩, ⟨"y", ⟨"int", .nowhere⟩, .nowhere⟩]
       result := some ⟨"int", .nowhere⟩
       body :=
         ⟨[.ret (some (.binary .div (.symbol "x" .nowhere) (.symbol "y" .nowhere) .nowhere))
             .nowhere], .nowhere⟩
       span := .nowhere },
     { name := "main"
       params := [⟨"n", ⟨"int", .nowhere⟩, .nowhere⟩]
       result := some ⟨"int", .nowhere⟩
       body :=
         ⟨[.assign "total" (.number 0 .nowhere) .nowhere,
           .whileDo (.compare .lt (.number 0 .nowhere) (.symbol "n" .nowhere) .nowhere)
             ⟨[.assign "n" (.binary .sub (.symbol "n" .nowhere) (.number 1 .nowhere) .nowhere)
                 .nowhere,
               .ifThen (.compare .eq (.symbol "n" .nowhere) (.number 2 .nowhere) .nowhere)
                 ⟨[.cont .nowhere], .nowhere⟩ .nowhere,
               .ifThen (.compare .eq (.symbol "n" .nowhere) (.number 0 .nowhere) .nowhere)
                 ⟨[.brk .nowhere], .nowhere⟩ .nowhere,
               .assign "total"
                 (.binary .add (.symbol "total" .nowhere)
                   (.call "part"
                     [.call "tick" [.symbol "n" .nowhere] .nowhere, .symbol "n" .nowhere]
                     .nowhere) .nowhere) .nowhere], .nowhere⟩ .nowhere,
           .ret (some (.symbol "total" .nowhere)) .nowhere], .nowhere⟩
       span := .nowhere }]

/-- The typed form of `sumOfParts`. -/
def sumOfPartsTyped : Typed.Module where
  imports := [⟨"env", "tick", ⟨[.int], some .int⟩, .nowhere⟩]
  functions :=
    [{ name := "part"
       signature := ⟨[.int, .int], some .int⟩
       locals := []
       body :=
         [.ret (some (.binary .div (.slot 0 (.value .int) .nowhere) (.slot 1 (.value .int) .nowhere)
             (.value .int) .nowhere)) .nowhere]
       span := .nowhere },
     { name := "main"
       signature := ⟨[.int], some .int⟩
       locals := [.int]
       body :=
         [.assign 1 (.int 0 (.value .int) .nowhere) .nowhere,
           .whileDo
             (.compare .lt .int (.int 0 (.value .int) .nowhere) (.slot 0 (.value .int) .nowhere)
               .bool .nowhere)
             [.assign 0
                 (.binary .sub (.slot 0 (.value .int) .nowhere) (.int 1 (.value .int) .nowhere)
                   (.value .int) .nowhere) .nowhere,
               .branch
                 (.compare .eq .int (.slot 0 (.value .int) .nowhere)
                   (.int 2 (.value .int) .nowhere) .bool .nowhere) [.cont .nowhere] [] .nowhere,
               .branch
                 (.compare .eq .int (.slot 0 (.value .int) .nowhere)
                   (.int 0 (.value .int) .nowhere) .bool .nowhere) [.brk .nowhere] [] .nowhere,
               .assign 1
                 (.binary .add (.slot 1 (.value .int) .nowhere)
                   (.call (.defined 0)
                     [.call (.imported 0) [.slot 0 (.value .int) .nowhere] (.value .int) .nowhere,
                       .slot 0 (.value .int) .nowhere] (.value .int) .nowhere)
                   (.value .int) .nowhere) .nowhere] .nowhere,
           .ret (some (.slot 1 (.value .int) .nowhere)) .nowhere]
       span := .nowhere }]

/-- Answers ten times what it is asked, and counts. -/
def tenfold : Host [⟨[.int], some .int⟩] Nat where
  call _ args calls :=
    match args with
    | .int a :: _ => (some (.int (10 * a)), calls + 1)
    | _ => (some (.int 0), calls)
  typed index args state signature hindex _ := by
    obtain rfl : ⟨[.int], some .int⟩ = signature := by
      cases index with
      | zero => simpa using hindex
      | succ index => simp at hindex
    rcases args with _ | ⟨_ | _, _⟩ <;> rfl


/-- Operators for programs without floats. -/
def noFloats : FloatOps := ⟨fun _ a _ => a, id, fun _ _ _ => false⟩

theorem sumOfParts_meaning :
    Typed.Module.ofProgram sumOfParts = .ok sumOfPartsTyped ∧ sumOfPartsTyped.Indexable ∧
      (∀ f ∈ sumOfPartsTyped.functions, ∃ body, generate sumOfPartsTyped f = .ok body) ∧
      ∃ w, (lowerModule sumOfPartsTyped).2 = .ok w ∧
        w.Finishes noFloats tenfold 2 [.int 5] 0 (.returned [.int 30]) 3 ∧
        w.Finishes noFloats tenfold 1 [.int 1, .int 0] 0 .trapped 0 := by
  have hchecked : Typed.Module.ofProgram sumOfParts = .ok sumOfPartsTyped := rfl
  have hfits : sumOfPartsTyped.Indexable := ⟨by decide, by decide, by decide⟩
  have hgen : ∀ f ∈ sumOfPartsTyped.functions, ∃ body, generate sumOfPartsTyped f = .ok body :=
    fun f hf => ⟨_, generate_of_no_strayExits
      (Typed.Module.wellTyped_of_ofProgram hchecked hfits.slots f hf)
      ((by decide : ∀ f ∈ sumOfPartsTyped.functions, Typed.strayExits f.body = []) f hf)⟩
  obtain ⟨w, hw, hmeaning⟩ := lowerModule_preserves_meaning hchecked hfits hgen
  refine ⟨hchecked, hfits, hgen, w, hw, ?_, ?_⟩
  · exact ((hmeaning noFloats tenfold 1 _ [.int 5] 0 rfl rfl).1 _ _).mp ⟨6, by decide +kernel⟩
  · exact ((hmeaning noFloats tenfold 0 _ [.int 1, .int 0] 0 rfl rfl).1 _ _).mp
      ⟨1, by decide +kernel⟩

end Offside

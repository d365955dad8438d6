/-
  Offside/Proofs/Typed/Alike.lean
  ===============================
  **Where a program stands makes no difference to its types.**  Programs that differ in
  their spans alone are typed in the same way, or refused for the same cause at related
  positions (`Module.ofProgram_alike`).

  The two checkers go hand in hand: at every step they know the same, but for the spans of
  imports, and that is what `CheckState.Alike` says.  The log has no part in the result.
-/
import Offside.Proofs.Surface.Alike
import Offside.Typed.Check

namespace Offside.Typed

open Number

/-! ### Trees -/

mutual

/-- The typed expressions differ in their spans alone, which start at related positions. -/
inductive Expr.Alike (R : Position → Position → Prop) : Expr → Expr → Prop where
  | int (value : Int32) (t : ExprType) {s s' : Span} (hs : s.Alike R s') :
      Expr.Alike R (.int value t s) (.int value t s')
  | float (value : Binary64) (t : ExprType) {s s' : Span} (hs : s.Alike R s') :
      Expr.Alike R (.float value t s) (.float value t s')
  | slot (index : UInt32) (t : ExprType) {s s' : Span} (hs : s.Alike R s') :
      Expr.Alike R (.slot index t s) (.slot index t s')
  | binary (op : BinaryOp) {l l' r r' : Expr} (t : ExprType) {s s' : Span} (hl : l.Alike R l')
      (hr : r.Alike R r') (hs : s.Alike R s') :
      Expr.Alike R (.binary op l r t s) (.binary op l' r' t s')
  | negate {e e' : Expr} (t : ExprType) {s s' : Span} (he : e.Alike R e')
      (hs : s.Alike R s') : Expr.Alike R (.negate e t s) (.negate e' t s')
  | compare (op : CompareOp) (operands : NumType) {l l' r r' : Expr} (t : ExprType)
      {s s' : Span} (hl : l.Alike R l') (hr : r.Alike R r') (hs : s.Alike R s') :
      Expr.Alike R (.compare op operands l r t s) (.compare op operands l' r' t s')
  | logic (op : BoolOp) {l l' r r' : Expr} (t : ExprType) {s s' : Span} (hl : l.Alike R l')
      (hr : r.Alike R r') (hs : s.Alike R s') :
      Expr.Alike R (.logic op l r t s) (.logic op l' r' t s')
  | call (callee : Callee) {es es' : List Expr} (t : ExprType) {s s' : Span}
      (hes : ExprsAlike R es es') (hs : s.Alike R s') :
      Expr.Alike R (.call callee es t s) (.call callee es' t s')

inductive ExprsAlike (R : Position → Position → Prop) : List Expr → List Expr → Prop where
  | nil : ExprsAlike R [] []
  | cons {e e' : Expr} {es es' : List Expr} (he : e.Alike R e') (hes : ExprsAlike R es es') :
      ExprsAlike R (e :: es) (e' :: es')

end

mutual

/-- The typed statements differ in their spans alone. -/
inductive Stmt.Alike (R : Position → Position → Prop) : Stmt → Stmt → Prop where
  | assign (index : UInt32) {e e' : Expr} {s s' : Span} (he : e.Alike R e')
      (hs : s.Alike R s') : Stmt.Alike R (.assign index e s) (.assign index e' s')
  | perform {e e' : Expr} {s s' : Span} (he : e.Alike R e') (hs : s.Alike R s') :
      Stmt.Alike R (.perform e s) (.perform e' s')
  | branch {e e' : Expr} {b b' o o' : List Stmt} {s s' : Span} (he : e.Alike R e')
      (hb : StmtsAlike R b b') (ho : StmtsAlike R o o') (hs : s.Alike R s') :
      Stmt.Alike R (.branch e b o s) (.branch e' b' o' s')
  | whileDo {e e' : Expr} {b b' : List Stmt} {s s' : Span} (he : e.Alike R e')
      (hb : StmtsAlike R b b') (hs : s.Alike R s') :
      Stmt.Alike R (.whileDo e b s) (.whileDo e' b' s')
  | ret {value value' : Option Expr} {s s' : Span}
      (hvalue : Option.Rel (Expr.Alike R) value value') (hs : s.Alike R s') :
      Stmt.Alike R (.ret value s) (.ret value' s')
  | pass : Stmt.Alike R .pass .pass
  | brk {s s' : Span} (hs : s.Alike R s') : Stmt.Alike R (.brk s) (.brk s')
  | cont {s s' : Span} (hs : s.Alike R s') : Stmt.Alike R (.cont s) (.cont s')

inductive StmtsAlike (R : Position → Position → Prop) : List Stmt → List Stmt → Prop where
  | nil : StmtsAlike R [] []
  | cons {s s' : Stmt} {ss ss' : List Stmt} (hs : s.Alike R s') (hss : StmtsAlike R ss ss') :
      StmtsAlike R (s :: ss) (s' :: ss')

end

/-- The imports are the same but for where they are declared, about which no stage reports
    anything once they are. -/
structure Import.Alike (i j : Import) : Prop where
  module : i.module = j.module
  name : i.name = j.name
  signature : i.signature = j.signature

structure Function.Alike (R : Position → Position → Prop) (f f' : Function) : Prop where
  name : f.name = f'.name
  signature : f.signature = f'.signature
  locals : f.locals = f'.locals
  body : StmtsAlike R f.body f'.body
  span : f.span.Alike R f'.span

/-- The typed modules differ in their spans alone. -/
structure Module.Alike (R : Position → Position → Prop) (m m' : Module) : Prop where
  imports : List.Forall₂ Import.Alike m.imports m'.imports
  functions : List.Forall₂ (Function.Alike R) m.functions m'.functions

variable {R : Position → Position → Prop}

theorem Expr.Alike.type {e e' : Expr} (h : e.Alike R e') : e.type = e'.type := by
  cases h with
  | int | float | slot | binary | negate | compare | logic | call => rfl

theorem Expr.Alike.span {e e' : Expr} (h : e.Alike R e') : e.span.Alike R e'.span := by
  cases h with
  | int _ _ hs | float _ _ hs | slot _ _ hs | binary _ _ _ _ hs | negate _ _ hs
  | compare _ _ _ _ _ hs | logic _ _ _ _ hs | call _ _ _ hs => exact hs

theorem ExprsAlike.length {es es' : List Expr} (h : ExprsAlike R es es') :
    es.length = es'.length := by
  induction es generalizing es' with
  | nil =>
    cases h with
    | nil => rfl
  | cons e es ih =>
    cases h with
    | cons _ hes => rw [List.length_cons, List.length_cons, ih hes]

mutual

theorem Stmt.Alike.alwaysReturns :
    ∀ {s s' : Stmt}, s.Alike R s' → s.alwaysReturns = s'.alwaysReturns
  | _, _, .ret _ _ => by rw [Stmt.alwaysReturns, Stmt.alwaysReturns]
  | _, _, .branch _ hb ho _ => by
    rw [Stmt.alwaysReturns, Stmt.alwaysReturns, hb.bodyReturns, ho.bodyReturns]
  | _, _, .assign _ _ _ => by rw [Stmt.alwaysReturns, Stmt.alwaysReturns]
  | _, _, .perform _ _ => by rw [Stmt.alwaysReturns, Stmt.alwaysReturns]
  | _, _, .whileDo _ _ _ => by rw [Stmt.alwaysReturns, Stmt.alwaysReturns]
  | _, _, .pass => rfl
  | _, _, .brk _ => by rw [Stmt.alwaysReturns, Stmt.alwaysReturns]
  | _, _, .cont _ => by rw [Stmt.alwaysReturns, Stmt.alwaysReturns]

theorem StmtsAlike.bodyReturns :
    ∀ {ss ss' : List Stmt}, StmtsAlike R ss ss' → bodyReturns ss = bodyReturns ss'
  | _, _, .nil => rfl
  | _, _, .cons hs hss => by
    rw [Typed.bodyReturns, Typed.bodyReturns, hs.alwaysReturns, hss.bodyReturns]

end

/-! ### What the checker knows -/

structure PendingImport.Alike (i j : PendingImport) : Prop where
  declared : i.declared.Alike j.declared
  pending : i.pending = j.pending

/-- The tables are the same but for where imports are declared. -/
structure Callables.Alike (t t' : Callables) : Prop where
  imports : List.Forall₂ PendingImport.Alike t.imports t'.imports
  signatures : t.signatures = t'.signatures
  names : t.names = t'.names

namespace Callables.Alike

variable {t t' : Callables}

theorem find? (h : t.Alike t') (name : String) : t.find? name = t'.find? name := by
  rw [Callables.find?, Callables.find?, h.names]

theorem import_at (h : t.Alike t') (index : Nat) :
    Option.Rel PendingImport.Alike t.imports[index]? t'.imports[index]? :=
  forall₂_getElem? h.imports index

theorem signature (h : t.Alike t') (callee : Callee) :
    t.signature callee = t'.signature callee := by
  cases callee with
  | imported index =>
    rw [Callables.signature, Callables.signature]
    have hi := h.import_at index
    generalize t.imports[index]? = i, t'.imports[index]? = j at hi
    cases hi with
    | none => rfl
    | some hi => exact hi.declared.signature
  | defined index => rw [Callables.signature, Callables.signature, h.signatures]

/-- Both tables wait for the signature of the same import, or for none. -/
theorem pending? (h : t.Alike t') (callee : Callee) :
    Option.Rel (fun p q => p.1 = q.1) (t.pending? callee) (t'.pending? callee) := by
  cases callee with
  | imported index =>
    rw [Callables.pending?, Callables.pending?]
    have hi := h.import_at index
    generalize t.imports[index]? = i, t'.imports[index]? = j at hi
    cases hi with
    | none => exact .none
    | @some i j hi =>
      dsimp only
      rw [hi.pending]
      by_cases hj : j.pending
      · rw [if_pos hj, if_pos hj]
        exact .some rfl
      · rw [if_neg hj, if_neg hj]
        exact .none
  | defined index => exact .none

theorem settle (h : t.Alike t') (index : Nat) (signature : Signature) :
    (t.settle index signature).Alike (t'.settle index signature) := by
  refine ⟨forall₂_modify h.imports index ?_, h.signatures, h.names⟩
  intro i j hi
  exact ⟨⟨hi.declared.module, hi.declared.name, rfl⟩, rfl⟩

theorem enter (h : t.Alike t') (name : String) (callee : Callee) :
    (t.enter name callee).Alike (t'.enter name callee) := by
  refine ⟨h.imports, h.signatures, ?_⟩
  rw [Callables.enter, Callables.enter, h.names]

theorem addImport (h : t.Alike t') {i j : PendingImport} (hi : i.Alike j) :
    (t.addImport i).Alike (t'.addImport j) :=
  ⟨List.rel_append h.imports (.cons hi .nil), h.signatures, h.names⟩

theorem addFunction (h : t.Alike t') (signature : Signature) :
    (t.addFunction signature).Alike (t'.addFunction signature) := by
  refine ⟨h.imports, ?_, h.names⟩
  rw [Callables.addFunction, Callables.addFunction, h.signatures]

end Callables.Alike

/-- The checkers know the same. -/
structure CheckState.Alike (s s' : CheckState) : Prop where
  callables : s.callables.Alike s'.callables
  scope : s.scope = s'.scope

/-! ### Steps of the checker -/

/-- Both steps give values in `S` and know the same after them, or both refuse for the same
    cause. -/
inductive CheckedAlike (R : Position → Position → Prop) {α β : Type} (S : α → β → Prop) :
    EStateM.Result Diagnostic CheckState α → EStateM.Result Diagnostic CheckState β → Prop where
  | ok {a : α} {b : β} {s s' : CheckState} (value : S a b) (state : s.Alike s') :
      CheckedAlike R S (.ok a s) (.ok b s')
  | error {d d' : Diagnostic} {s s' : CheckState} (why : d.Alike R d') :
      CheckedAlike R S (.error d s) (.error d' s')

/-- From where the same is known the checks go the same way. -/
def Check.Alike (R : Position → Position → Prop) {α β : Type} (S : α → β → Prop)
    (x : Check α) (y : Check β) : Prop :=
  ∀ s s' : CheckState, s.Alike s' → CheckedAlike R S (x s) (y s')

namespace Check.Alike

variable {α β γ δ : Type} {S : α → β → Prop} {T : γ → δ → Prop}

theorem pure {a : α} {b : β} (value : S a b) :
    Check.Alike R S (Pure.pure a) (Pure.pure b) := fun _ _ hs => .ok value hs

theorem bind {x : Check α} {y : Check β} (h : Check.Alike R S x y) {next : α → Check γ}
    {next' : β → Check δ} (hnext : ∀ a b, S a b → Check.Alike R T (next a) (next' b)) :
    Check.Alike R T (x >>= next) (y >>= next') := by
  intro s s' hs
  change CheckedAlike R T (EStateM.bind x next s) (EStateM.bind y next' s')
  have hx := h s s' hs
  unfold EStateM.bind
  generalize x s = p, y s' = q at hx
  cases hx with
  | ok value state => exact hnext _ _ value _ _ state
  | error why => exact .error why

theorem refuse (cause : Cause) {p p' : Position} (h : R p p') :
    Check.Alike R S (Typed.refuse cause p) (Typed.refuse cause p') :=
  fun _ _ _ => .error ⟨rfl, h⟩

theorem ofExcept {x : Except Diagnostic α} {y : Except Diagnostic β}
    (h : ResultAlike R S x y) : Check.Alike R S (Typed.ofExcept x) (Typed.ofExcept y) := by
  intro s s' hs
  cases h with
  | ok value => exact .ok value hs
  | error why => exact .error why

theorem get : Check.Alike R CheckState.Alike MonadState.get MonadState.get :=
  fun _ _ hs => .ok hs hs

theorem modify {g g' : CheckState → CheckState}
    (h : ∀ s s' : CheckState, s.Alike s' → (g s).Alike (g' s')) :
    Check.Alike R (fun _ _ => True) (modify g) (modify g') :=
  fun s s' hs => .ok trivial (h s s' hs)

/-- What is noted makes no difference. -/
theorem note (message message' : String) :
    Check.Alike R (fun _ _ => True) (Typed.note message) (Typed.note message') :=
  fun _ _ hs => .ok trivial ⟨hs.callables, hs.scope⟩

end Check.Alike

/-! ### Requirements on types -/

theorem resolve_alike {a a' : Surface.TypeExpr} (h : a.Alike R a') :
    ResultAlike R Eq (resolve a) (resolve a') := by
  rw [resolve, resolve, ← h.name]
  cases NumType.ofName? a.name with
  | some t => exact .ok rfl
  | none => exact .error ⟨rfl, h.span⟩

theorem resolveAll_alike {as as' : List Surface.TypeExpr}
    (h : List.Forall₂ (Surface.TypeExpr.Alike R) as as') :
    ResultAlike R Eq (resolveAll as) (resolveAll as') := by
  induction h with
  | nil => exact .ok rfl
  | cons ha _ ih =>
    rw [resolveAll, resolveAll]
    refine (resolve_alike ha).bind ?_
    rintro t _ rfl
    refine ih.bind ?_
    rintro ts _ rfl
    exact .ok rfl

theorem resolveResult_alike {a a' : Option Surface.TypeExpr}
    (h : Option.Rel (Surface.TypeExpr.Alike R) a a') :
    ResultAlike R Eq (resolveResult a) (resolveResult a') := by
  cases h with
  | none => exact .ok rfl
  | some ha =>
    refine (resolve_alike ha).bind ?_
    rintro t _ rfl
    exact .ok rfl

theorem resolveSignature_alike {as as' : List Surface.TypeExpr}
    (has : List.Forall₂ (Surface.TypeExpr.Alike R) as as') {r r' : Option Surface.TypeExpr}
    (hr : Option.Rel (Surface.TypeExpr.Alike R) r r') :
    ResultAlike R Eq (resolveSignature as r) (resolveSignature as' r') := by
  refine (resolveAll_alike has).bind ?_
  rintro ts _ rfl
  refine (resolveResult_alike hr).bind ?_
  rintro t _ rfl
  exact .ok rfl

theorem requireValue_alike {e e' : Expr} (h : e.Alike R e') :
    ResultAlike R Eq (requireValue e) (requireValue e') := by
  rw [requireValue, requireValue, ← h.type]
  cases e.type with
  | value t => exact .ok rfl
  | bool | void => exact .error ⟨rfl, h.span⟩

theorem requireValues_alike : ∀ {es es' : List Expr}, ExprsAlike R es es' →
    ResultAlike R Eq (requireValues es) (requireValues es')
  | _, _, .nil => .ok rfl
  | _, _, .cons he hes => by
    refine (requireValue_alike he).bind ?_
    rintro t _ rfl
    refine (requireValues_alike hes).bind ?_
    rintro ts _ rfl
    exact .ok rfl

theorem requireBool_alike {e e' : Expr} (h : e.Alike R e') :
    ResultAlike R Eq (requireBool e) (requireBool e') := by
  rw [requireBool, requireBool, ← h.type]
  cases e.type with
  | bool => exact .ok rfl
  | value | void => exact .error ⟨rfl, h.span⟩

theorem requireType_alike (expected : NumType) {e e' : Expr} (h : e.Alike R e') :
    ResultAlike R Eq (requireType expected e) (requireType expected e') := by
  refine (requireValue_alike h).bind ?_
  rintro received _ rfl
  by_cases ht : received = expected
  · rw [if_pos ht, if_pos ht]
    exact .ok rfl
  · rw [if_neg ht, if_neg ht]
    exact .error ⟨rfl, h.span⟩

theorem requireArguments_alike : ∀ (ts : List NumType) {es es' : List Expr},
    ExprsAlike R es es' → ResultAlike R Eq (requireArguments ts es) (requireArguments ts es')
  | [], _, _, _ => .ok rfl
  | _ :: _, _, _, .nil => .ok rfl
  | expected :: ts, _, _, .cons he hes => by
    refine (requireValue_alike he).bind ?_
    rintro received _ rfl
    by_cases ht : received = expected
    · rw [if_pos ht, if_pos ht]
      exact requireArguments_alike ts hes
    · rw [if_neg ht, if_neg ht]
      exact .error ⟨rfl, he.span⟩

theorem requireCount_alike (expected received : Nat) {p p' : Position} (h : R p p') :
    ResultAlike R Eq (requireCount expected received p) (requireCount expected received p') := by
  unfold requireCount
  by_cases hmore : expected < received
  · rw [if_pos hmore, if_pos hmore]
    exact .error ⟨rfl, h⟩
  rw [if_neg hmore, if_neg hmore]
  by_cases hless : received < expected
  · rw [if_pos hless, if_pos hless]
    exact .error ⟨rfl, h⟩
  · rw [if_neg hless, if_neg hless]
    exact .ok rfl

/-! ### Expressions -/

theorem settlePending_alike (callee : Callee) {es es' : List Expr} (h : ExprsAlike R es es') :
    Check.Alike R (fun _ _ => True) (settlePending callee es) (settlePending callee es') := by
  refine Check.Alike.get.bind ?_
  intro s s' hs
  have hpending := hs.callables.pending? callee
  generalize s.callables.pending? callee = p, s'.callables.pending? callee = q at hpending
  cases hpending with
  | none => exact .pure trivial
  | @some p q hindex =>
    obtain ⟨index, i⟩ := p
    obtain ⟨_, j⟩ := q
    obtain rfl : index = _ := hindex
    refine (Check.Alike.ofExcept (requireValues_alike h)).bind ?_
    rintro params _ rfl
    refine (Check.Alike.modify ?_).bind fun _ _ _ => .note _ _
    intro u u' hu
    exact ⟨hu.callables.settle _ _, hu.scope⟩

theorem checkCall_alike (callee : Callee) {es es' : List Expr} (h : ExprsAlike R es es')
    {span span' : Span} (hspan : span.Alike R span') :
    Check.Alike R (Expr.Alike R) (checkCall callee es span) (checkCall callee es' span') := by
  refine (settlePending_alike callee h).bind fun _ _ _ => ?_
  refine Check.Alike.get.bind ?_
  intro s s' hs
  rw [← hs.callables.signature callee, ← h.length]
  refine (Check.Alike.ofExcept (requireCount_alike _ _ hspan)).bind fun _ _ _ => ?_
  refine (Check.Alike.ofExcept (requireArguments_alike _ h)).bind fun _ _ _ => ?_
  exact .pure (.call callee _ h hspan)

mutual

theorem checkExpr_alike : ∀ {e e' : Surface.Expr}, e.Alike R e' →
    Check.Alike R (Expr.Alike R) (checkExpr e) (checkExpr e')
  | _, _, .number value hs => by
    rw [checkExpr, checkExpr]
    exact .pure (.int value _ hs)
  | _, _, .float value hs => by
    rw [checkExpr, checkExpr]
    exact .pure (.float value _ hs)
  | _, _, .char value hs => by
    rw [checkExpr, checkExpr]
    exact .pure (.int _ _ hs)
  | _, _, .symbol name hs => by
    rw [checkExpr, checkExpr]
    refine Check.Alike.get.bind ?_
    intro s s' hstate
    rw [← hstate.scope]
    cases s.scope.find? name with
    | some v => exact .pure (.slot _ _ hs)
    | none => exact .refuse _ hs
  | _, _, .binary op hl hr hs => by
    rw [checkExpr, checkExpr]
    refine (checkExpr_alike hl).bind ?_
    intro l l' hl
    refine (checkExpr_alike hr).bind ?_
    intro r r' hr
    refine (Check.Alike.ofExcept (requireValue_alike hl)).bind ?_
    rintro t _ rfl
    refine (Check.Alike.ofExcept (requireType_alike t hr)).bind fun _ _ _ => ?_
    exact .pure (.binary op _ hl hr hs)
  | _, _, .compare op hl hr hs => by
    rw [checkExpr, checkExpr]
    refine (checkExpr_alike hl).bind ?_
    intro l l' hl
    refine (checkExpr_alike hr).bind ?_
    intro r r' hr
    refine (Check.Alike.ofExcept (requireValue_alike hl)).bind ?_
    rintro t _ rfl
    refine (Check.Alike.ofExcept (requireType_alike t hr)).bind fun _ _ _ => ?_
    exact .pure (.compare op t _ hl hr hs)
  | _, _, .logic op hl hr hs => by
    rw [checkExpr, checkExpr]
    refine (checkExpr_alike hl).bind ?_
    intro l l' hl
    refine (checkExpr_alike hr).bind ?_
    intro r r' hr
    refine (Check.Alike.ofExcept (requireBool_alike hl)).bind fun _ _ _ => ?_
    refine (Check.Alike.ofExcept (requireBool_alike hr)).bind fun _ _ _ => ?_
    exact .pure (.logic op _ hl hr hs)
  | _, _, .negate he hs => by
    rw [checkExpr, checkExpr]
    refine (checkExpr_alike he).bind ?_
    intro e e' he
    refine (Check.Alike.ofExcept (requireValue_alike he)).bind ?_
    rintro t _ rfl
    exact .pure (.negate _ he hs)
  | _, _, .call name hes hs => by
    rw [checkExpr, checkExpr]
    refine Check.Alike.get.bind ?_
    intro s s' hstate
    rw [← hstate.callables.find? name]
    cases s.callables.find? name with
    | none => exact .refuse _ hs
    | some callee =>
      refine (checkExprs_alike hes).bind ?_
      intro es es' hes
      exact checkCall_alike callee hes hs

theorem checkExprs_alike : ∀ {es es' : List Surface.Expr}, Surface.ExprsAlike R es es' →
    Check.Alike R (ExprsAlike R) (checkExprs es) (checkExprs es')
  | _, _, .nil => by
    rw [checkExprs]
    exact .pure .nil
  | _, _, .cons he hes => by
    rw [checkExprs, checkExprs]
    refine (checkExpr_alike he).bind ?_
    intro t t' ht
    refine (checkExprs_alike hes).bind ?_
    intro ts ts' hts
    exact .pure (.cons ht hts)

end

/-! ### Statements -/

theorem assignSlot_alike (name : String) (type : NumType) {p p' : Position} (h : R p p') :
    Check.Alike R Eq (assignSlot name type p) (assignSlot name type p') := by
  refine Check.Alike.get.bind ?_
  intro s s' hs
  dsimp only
  rw [← hs.scope]
  cases s.scope.find? name with
  | some v =>
    dsimp only
    by_cases ht : v.type = type
    · rw [if_pos ht, if_pos ht]
      exact .pure rfl
    · rw [if_neg ht, if_neg ht]
      exact .refuse _ h
  | none =>
    refine (Check.Alike.modify ?_).bind fun _ _ _ => .pure rfl
    intro u u' hu
    refine ⟨hu.callables, ?_⟩
    rw [hu.scope]

theorem checkCondition_alike {e e' : Surface.Expr} (h : e.Alike R e') :
    Check.Alike R (Expr.Alike R) (checkCondition e) (checkCondition e') := by
  refine (checkExpr_alike h).bind ?_
  intro t t' ht
  refine (Check.Alike.ofExcept (requireBool_alike ht)).bind fun _ _ _ => ?_
  exact .pure ht

theorem checkReturn_alike {value value' : Option Surface.Expr}
    (h : Option.Rel (Surface.Expr.Alike R) value value') {span span' : Span}
    (hspan : span.Alike R span') :
    Check.Alike R (Option.Rel (Expr.Alike R)) (checkReturn value span)
      (checkReturn value' span') := by
  refine Check.Alike.get.bind ?_
  intro s s' hs
  dsimp only
  rw [← hs.scope]
  cases h with
  | none =>
    cases s.scope.result with
    | none => exact .pure .none
    | some expected => exact .refuse _ hspan
  | some he =>
    cases s.scope.result with
    | none => exact .refuse _ he.span
    | some expected =>
      refine (checkExpr_alike he).bind ?_
      intro t t' ht
      refine (Check.Alike.ofExcept (requireType_alike expected ht)).bind fun _ _ _ => ?_
      exact .pure (.some ht)

mutual

theorem checkStmt_alike : ∀ {s s' : Surface.Stmt}, s.Alike R s' →
    Check.Alike R (Stmt.Alike R) (checkStmt s) (checkStmt s')
  | _, _, .assign target he hs => by
    rw [checkStmt, checkStmt]
    refine (checkExpr_alike he).bind ?_
    intro e e' he
    refine (Check.Alike.ofExcept (requireValue_alike he)).bind ?_
    rintro t _ rfl
    refine (assignSlot_alike target t he.span).bind ?_
    rintro slot _ rfl
    exact .pure (.assign slot he hs)
  | _, _, .perform he hs => by
    rw [checkStmt, checkStmt]
    refine (checkExpr_alike he).bind ?_
    intro e e' he
    exact .pure (.perform he hs)
  | _, _, .ifThen he hb hs => by
    rw [checkStmt, checkStmt]
    refine (checkCondition_alike he).bind ?_
    intro e e' he
    refine (checkBlock_alike hb).bind ?_
    intro b b' hb
    exact .pure (.branch he hb .nil hs)
  | _, _, .ifElse he hb ho hs => by
    rw [checkStmt, checkStmt]
    refine (checkCondition_alike he).bind ?_
    intro e e' he
    refine (checkBlock_alike hb).bind ?_
    intro b b' hb
    refine (checkBlock_alike ho).bind ?_
    intro o o' ho
    exact .pure (.branch he hb ho hs)
  | _, _, .whileDo he hb hs => by
    rw [checkStmt, checkStmt]
    refine (checkCondition_alike he).bind ?_
    intro e e' he
    refine (checkBlock_alike hb).bind ?_
    intro b b' hb
    exact .pure (.whileDo he hb hs)
  | _, _, .retNone hs => by
    rw [checkStmt, checkStmt]
    refine (checkReturn_alike .none hs).bind ?_
    intro value value' hvalue
    exact .pure (.ret hvalue hs)
  | _, _, .ret he hs => by
    rw [checkStmt, checkStmt]
    refine (checkReturn_alike (.some he) hs).bind ?_
    intro value value' hvalue
    exact .pure (.ret hvalue hs)
  | _, _, .pass _ => by
    rw [checkStmt, checkStmt]
    exact .pure .pass
  | _, _, .brk hs => by
    rw [checkStmt, checkStmt]
    exact .pure (.brk hs)
  | _, _, .cont hs => by
    rw [checkStmt, checkStmt]
    exact .pure (.cont hs)

theorem checkBlock_alike : ∀ {b b' : Surface.Block Surface.Stmt}, Surface.BlockAlike R b b' →
    Check.Alike R (StmtsAlike R) (checkBlock b) (checkBlock b')
  | _, _, .intro hss => by
    rw [checkBlock, checkBlock]
    exact checkStmts_alike hss

theorem checkStmts_alike : ∀ {ss ss' : List Surface.Stmt}, Surface.StmtsAlike R ss ss' →
    Check.Alike R (StmtsAlike R) (checkStmts ss) (checkStmts ss')
  | _, _, .nil => by
    rw [checkStmts]
    exact .pure .nil
  | _, _, .cons hs hss => by
    rw [checkStmts, checkStmts]
    refine (checkStmt_alike hs).bind ?_
    intro t t' ht
    refine (checkStmts_alike hss).bind ?_
    intro ts ts' hts
    exact .pure (.cons ht hts)

end

/-! ### Functions -/

theorem declareParam_alike (scope : Scope) (name : String) (type : NumType) {p p' : Position}
    (h : R p p') :
    ResultAlike R Eq (scope.declareParam name type p) (scope.declareParam name type p') := by
  rw [Scope.declareParam, Scope.declareParam]
  cases scope.find? name with
  | some _ => exact .error ⟨rfl, h⟩
  | none => exact .ok rfl

theorem paramScope_alike {qs qs' : List Surface.Parameter}
    (h : List.Forall₂ (Surface.Parameter.Alike R) qs qs') (ts : List NumType) (scope : Scope) :
    ResultAlike R Eq (paramScope scope (qs.zip ts)) (paramScope scope (qs'.zip ts)) := by
  induction h generalizing ts scope with
  | nil => exact .ok rfl
  | cons hq _ ih =>
    cases ts with
    | nil => exact .ok rfl
    | cons t ts =>
      rw [List.zip_cons_cons, List.zip_cons_cons, paramScope, paramScope, ← hq.name]
      refine (declareParam_alike scope _ t hq.span).bind ?_
      rintro entered _ rfl
      exact ih ts entered

theorem checkFunction_alike {f f' : Surface.Function} (h : f.Alike R f')
    (signature : Signature) :
    Check.Alike R (Function.Alike R) (checkFunction f signature)
      (checkFunction f' signature) := by
  rw [checkFunction, checkFunction, ← h.name]
  refine (Check.Alike.ofExcept (paramScope_alike h.params _ _)).bind ?_
  rintro scope _ rfl
  refine (Check.Alike.modify ?_).bind fun _ _ _ => ?_
  · intro s s' hs
    exact ⟨hs.callables, rfl⟩
  refine (checkBlock_alike h.body).bind ?_
  intro body body' hbody
  rw [← hbody.bodyReturns]
  by_cases hmissing : signature.result.isSome ∧ bodyReturns body = false
  · rw [if_pos hmissing, if_pos hmissing]
    exact .refuse _ h.span
  · rw [if_neg hmissing, if_neg hmissing]
    refine Check.Alike.get.bind ?_
    intro s s' hs
    refine (Check.Alike.note _ _).bind fun _ _ _ => .pure ?_
    refine ⟨rfl, rfl, ?_, hbody, h.span⟩
    rw [hs.scope]

theorem checkFunctions_alike {fs fs' : List Surface.Function}
    (h : List.Forall₂ (Surface.Function.Alike R) fs fs') (signatures : List Signature) :
    Check.Alike R (List.Forall₂ (Function.Alike R)) (checkFunctions (fs.zip signatures))
      (checkFunctions (fs'.zip signatures)) := by
  induction h generalizing signatures with
  | nil => exact .pure .nil
  | cons hf _ ih =>
    cases signatures with
    | nil => exact .pure .nil
    | cons signature signatures =>
      rw [List.zip_cons_cons, List.zip_cons_cons, checkFunctions, checkFunctions]
      refine (checkFunction_alike hf signature).bind ?_
      intro t t' ht
      refine (ih signatures).bind ?_
      intro ts ts' hts
      exact .pure (.cons ht hts)

/-! ### Declarations -/

theorem declareName_alike {t t' : Callables} (h : t.Alike t') (name : String)
    (callee : Callee) {p p' : Position} (hp : R p p') :
    ResultAlike R Callables.Alike (declareName t name callee p)
      (declareName t' name callee p') := by
  rw [declareName, declareName, ← h.find? name]
  by_cases htaken : name = Surface.ordName ∨ (t.find? name).isSome
  · rw [if_pos htaken, if_pos htaken]
    exact .error ⟨rfl, hp⟩
  · rw [if_neg htaken, if_neg htaken]
    exact .ok (h.enter name callee)

theorem declareImport_alike {i i' : Surface.Import} (h : i.Alike R i') :
    ResultAlike R PendingImport.Alike (declareImport i) (declareImport i') := by
  obtain ⟨module, name, signature, span⟩ := i
  obtain ⟨module', name', signature', span'⟩ := i'
  obtain ⟨hmodule, hname, hsignature, -⟩ := h
  cases hsignature with
  | none => exact .ok ⟨⟨hmodule, hname, rfl⟩, rfl⟩
  | some hs =>
    refine (resolveSignature_alike hs.params hs.result).bind ?_
    rintro resolved _ rfl
    exact .ok ⟨⟨hmodule, hname, rfl⟩, rfl⟩

theorem declareImports_alike {is is' : List Surface.Import}
    (h : List.Forall₂ (Surface.Import.Alike R) is is') {t t' : Callables} (ht : t.Alike t') :
    ResultAlike R Callables.Alike (declareImports t is) (declareImports t' is') := by
  induction h generalizing t t' with
  | nil => exact .ok ht
  | cons hi _ ih =>
    rw [declareImports, declareImports, ← hi.name, ← ht.imports.length_eq]
    refine (declareName_alike ht _ _ hi.span).bind ?_
    intro named named' hnamed
    refine (declareImport_alike hi).bind ?_
    intro p p' hp
    exact ih (hnamed.addImport hp)

theorem declareFunctions_alike {fs fs' : List Surface.Function}
    (h : List.Forall₂ (Surface.Function.Alike R) fs fs') {t t' : Callables} (ht : t.Alike t') :
    ResultAlike R Callables.Alike (declareFunctions t fs) (declareFunctions t' fs') := by
  induction h generalizing t t' with
  | nil => exact .ok ht
  | cons hf _ ih =>
    rw [declareFunctions, declareFunctions, ← hf.name, ← ht.signatures]
    refine (declareName_alike ht _ _ hf.span).bind ?_
    intro named named' hnamed
    refine (resolveSignature_alike ?_ hf.result).bind ?_
    · exact List.rel_map (fun _ _ hq => hq.type) hf.params
    rintro signature _ rfl
    exact ih (hnamed.addFunction signature)

theorem Callables.ofProgram_alike {p p' : Surface.Program} (h : p.Alike R p') :
    ResultAlike R Callables.Alike (Callables.ofProgram p) (Callables.ofProgram p') := by
  refine (declareImports_alike h.imports ⟨.nil, rfl, rfl⟩).bind ?_
  intro t t' ht
  exact declareFunctions_alike h.functions ht

/-! ### Programs -/

theorem checkProgram_alike {p p' : Surface.Program} (h : p.Alike R p') :
    Check.Alike R (Module.Alike R) (checkProgram p) (checkProgram p') := by
  refine (Check.Alike.ofExcept (Callables.ofProgram_alike h)).bind ?_
  intro t t' ht
  rw [← ht.signatures]
  refine (Check.Alike.modify ?_).bind fun _ _ _ => ?_
  · intro s s' hs
    exact ⟨ht, hs.scope⟩
  refine (checkFunctions_alike h.functions t.signatures).bind ?_
  intro fs fs' hfs
  refine Check.Alike.get.bind ?_
  intro s s' hs
  exact .pure ⟨List.rel_map (fun _ _ hi => hi.declared) hs.callables.imports, hfs⟩

/-- Programs that differ in their spans alone have the same typed form, or none for the same
    cause. -/
theorem Module.ofProgram_alike {p p' : Surface.Program} (h : p.Alike R p') :
    ResultAlike R (Module.Alike R) (Module.ofProgram p) (Module.ofProgram p') := by
  have hstart : CheckState.start.Alike CheckState.start := ⟨⟨.nil, rfl, rfl⟩, rfl⟩
  have hresult := checkProgram_alike h _ _ hstart
  rw [Module.ofProgram, Module.ofProgram, Module.check, Module.check]
  generalize checkProgram p CheckState.start = x, checkProgram p' CheckState.start = y
    at hresult
  cases hresult with
  | ok value _ => exact .ok value
  | error why => exact .error why

end Offside.Typed

/-
  Offside/Proofs/Typed/Typable.lean
  =================================
  **Which programs are accepted.**  A program is typable if there is a signature for each of
  the imports that lack one and a type for every variable under which all its parts fit
  together, and if some conditions hold that can be read off its text.  This says nothing
  about the order in which types are found.

  The checker finds types in one pass and never takes one back: an import has the types of
  the first call that is seen, a variable that of the first value assigned to it.  It accepts
  exactly the typable programs (`Module.exists_ofProgram_iff`).  If it accepts a program then
  what it has found in the end is a typing.  If there is a typing, then whatever the checker
  fixes is what the typing says (`Callables.Admits`, `Ready`), since it looks at a
  part whose types are already fixed by that typing; so it never has cause to refuse.
-/
import Offside.Proofs.Typed.Faithful

namespace Offside

open Typed (Annotates callableNames)

/-! ### Typings of the surface tree -/

namespace Surface

mutual

/-- The type of an expression, for the signatures of the callables and the types of the
    variables. -/
inductive Expr.HasType (signatureOf : String → Option Signature) (typeOf : String → NumType) :
    Expr → ExprType → Prop where
  | number (value : Int32) (span : Span) :
      Expr.HasType signatureOf typeOf (.number value span) (.value .int)
  | float (value : Number.Binary64) (span : Span) :
      Expr.HasType signatureOf typeOf (.float value span) (.value .float)
  | char (value : Char) (span : Span) :
      Expr.HasType signatureOf typeOf (.char value span) (.value .int)
  | symbol (name : String) (span : Span) :
      Expr.HasType signatureOf typeOf (.symbol name span) (.value (typeOf name))
  | binary {op : BinaryOp} {left right : Expr} {n : NumType} {span : Span}
      (hl : left.HasType signatureOf typeOf (.value n))
      (hr : right.HasType signatureOf typeOf (.value n)) :
      Expr.HasType signatureOf typeOf (.binary op left right span) (.value n)
  | compare {op : CompareOp} {left right : Expr} {n : NumType} {span : Span}
      (hl : left.HasType signatureOf typeOf (.value n))
      (hr : right.HasType signatureOf typeOf (.value n)) :
      Expr.HasType signatureOf typeOf (.compare op left right span) .bool
  | logic {op : BoolOp} {left right : Expr} {span : Span}
      (hl : left.HasType signatureOf typeOf .bool)
      (hr : right.HasType signatureOf typeOf .bool) :
      Expr.HasType signatureOf typeOf (.logic op left right span) .bool
  | negate {operand : Expr} {n : NumType} {span : Span}
      (he : operand.HasType signatureOf typeOf (.value n)) :
      Expr.HasType signatureOf typeOf (.negate operand span) (.value n)
  | call {name : String} {arguments : List Expr} {s : Signature} {span : Span}
      (declared : signatureOf name = some s)
      (hargs : HaveTypes signatureOf typeOf arguments s.params) :
      Expr.HasType signatureOf typeOf (.call name arguments span) (.ofResult s.result)

inductive HaveTypes (signatureOf : String → Option Signature) (typeOf : String → NumType) :
    List Expr → List NumType → Prop where
  | nil : HaveTypes signatureOf typeOf [] []
  | cons {e : Expr} {es : List Expr} {n : NumType} {ns : List NumType}
      (he : e.HasType signatureOf typeOf (.value n))
      (hes : HaveTypes signatureOf typeOf es ns) :
      HaveTypes signatureOf typeOf (e :: es) (n :: ns)

end

/-- Holds of a statement whose parts fit together, in a function with the given result. -/
inductive Stmt.WellTyped (signatureOf : String → Option Signature) (typeOf : String → NumType)
    (result : Option NumType) : Stmt → Prop where
  | assign {target : String} {value : Expr} {span : Span}
      (he : value.HasType signatureOf typeOf (.value (typeOf target))) :
      Stmt.WellTyped signatureOf typeOf result (.assign target value span)
  | perform {call : Expr} {t : ExprType} {span : Span}
      (he : call.HasType signatureOf typeOf t) :
      Stmt.WellTyped signatureOf typeOf result (.perform call span)
  | ifThen {condition : Expr} {body : Block Stmt} {span : Span}
      (he : condition.HasType signatureOf typeOf .bool)
      (hss : ∀ s ∈ body.body, s.WellTyped signatureOf typeOf result) :
      Stmt.WellTyped signatureOf typeOf result (.ifThen condition body span)
  | ifElse {condition : Expr} {body orElse : Block Stmt} {span : Span}
      (he : condition.HasType signatureOf typeOf .bool)
      (hss : ∀ s ∈ body.body, s.WellTyped signatureOf typeOf result)
      (hss' : ∀ s ∈ orElse.body, s.WellTyped signatureOf typeOf result) :
      Stmt.WellTyped signatureOf typeOf result (.ifElse condition body orElse span)
  | whileDo {condition : Expr} {body : Block Stmt} {span : Span}
      (he : condition.HasType signatureOf typeOf .bool)
      (hss : ∀ s ∈ body.body, s.WellTyped signatureOf typeOf result) :
      Stmt.WellTyped signatureOf typeOf result (.whileDo condition body span)
  | retNone {span : Span} (declared : result = none) :
      Stmt.WellTyped signatureOf typeOf result (.ret none span)
  | ret {value : Expr} {n : NumType} {span : Span} (declared : result = some n)
      (he : value.HasType signatureOf typeOf (.value n)) :
      Stmt.WellTyped signatureOf typeOf result (.ret (some value) span)
  | pass (span : Span) : Stmt.WellTyped signatureOf typeOf result (.pass span)
  | brk (span : Span) : Stmt.WellTyped signatureOf typeOf result (.brk span)
  | cont (span : Span) : Stmt.WellTyped signatureOf typeOf result (.cont span)

/-- Holds if the body fits the types of the variables, where a parameter has the type that
    is written for it. -/
structure Function.WellTyped (signatureOf : String → Option Signature)
    (typeOf : String → NumType) (f : Function) : Prop where
  params : ∀ q ∈ f.params, q.type.name = (typeOf q.name).name
  body : ∃ result : Option NumType, f.result.map (·.name) = result.map NumType.name ∧
    ∀ s ∈ f.body.body, s.WellTyped signatureOf typeOf result

/-- Holds of signatures for the names of a program that are those written for them.  Where
    none is written, an import has some signature without a result. -/
structure Program.Declares (p : Program) (signatureOf : String → Option Signature) : Prop where
  annotated : ∀ i ∈ p.imports, ∀ a, i.signature = some a →
    ∃ s, signatureOf i.name = some s ∧ Annotates a.params a.result s
  unannotated : ∀ i ∈ p.imports, i.signature = none →
    ∃ params, signatureOf i.name = some ⟨params, none⟩
  functions : ∀ f ∈ p.functions,
    ∃ s, signatureOf f.name = some s ∧ Annotates (f.params.map (·.type)) f.result s
  others : ∀ name, name ∉ callableNames p → signatureOf name = none

/-- The types written after an imported name, the result last. -/
def Import.annotations (i : Import) : List TypeExpr :=
  match i.signature with
  | some a => a.params ++ a.result.toList
  | none => []

def Function.annotations (f : Function) : List TypeExpr :=
  f.params.map (·.type) ++ f.result.toList

/-- Holds of a function whose parameters are distinct, whose variables are assigned before
    they are read, which returns on every path if it has a result, and whose variables can
    have types that fit. -/
structure Function.Typable (signatureOf : String → Option Signature) (f : Function) : Prop where
  params : (f.params.map (·.name)).Nodup
  initialised : Initialised (f.params.map (·.name)) f.body.accesses
  returns : f.result.isSome = true → f.body.alwaysReturns = true
  typed : ∃ typeOf, f.WellTyped signatureOf typeOf

/-- **Typable programs.** -/
structure Program.Typable (p : Program) : Prop where
  names : (callableNames p).Nodup
  notOrd : ordName ∉ callableNames p
  importTypes : ∀ i ∈ p.imports, ∀ a ∈ i.annotations, a.name = "int" ∨ a.name = "float"
  functionTypes : ∀ f ∈ p.functions, ∀ a ∈ f.annotations, a.name = "int" ∨ a.name = "float"
  typed : ∃ signatureOf, p.Declares signatureOf ∧ ∀ f ∈ p.functions, f.Typable signatureOf

end Surface

namespace Typed

open Surface (written Initialised initialised_append)

/-! ### What was accepted is typable -/

theorem Callables.signature_of_known {t : Callables} {c : Callee} {s : Signature}
    (h : t.known c = some s) : t.signature c = s := by
  cases c with
  | imported index =>
    cases hi : t.imports[index]? with
    | none => simp [Callables.known, hi] at h
    | some i =>
      cases hp : i.pending with
      | true => simp [Callables.known, hi, hp] at h
      | false => simpa [Callables.known, Callables.signature, hi, hp] using h
  | defined index =>
    have hs : t.signatures[index]? = some s := h
    simp [Callables.signature, hs]

/-- The signature of a name, as far as it is known. -/
def Callables.signatureOf (t : Callables) (name : String) : Option Signature :=
  (t.find? name).map t.signature

/-- Every variable in scope has the given type. -/
def Scope.HasTypes (scope : Scope) (typeOf : String → NumType) : Prop :=
  ∀ x v, scope.find? x = some v → v.type = typeOf x

section Accepted

variable {final : Callables} {typeOf : String → NumType}

mutual

theorem ExprChecked.hasType {scope : Scope} {t t' : Callables} {e : Surface.Expr} {e' : Expr}
    (h : ExprChecked scope t e e' t') (names : t.NamesDeclared) (hfinal : t'.Extends final)
    (htypes : scope.HasTypes typeOf) : e.HasType final.signatureOf typeOf e'.type := by
  cases h with
  | number => exact .number _ _
  | float => exact .float _ _
  | char => exact .char _ _
  | @symbol _ name v _ declared =>
    change Surface.Expr.HasType _ _ _ (.value v.type)
    rw [htypes name v declared]
    exact .symbol _ _
  | binary hl hr tl tr =>
    have hl' := hl.hasType names (hr.extends.trans hfinal) htypes
    have hr' := hr.hasType (names.extends hl.extends) hfinal htypes
    rw [tl] at hl'
    rw [tr] at hr'
    exact .binary hl' hr'
  | compare hl hr tl tr =>
    have hl' := hl.hasType names (hr.extends.trans hfinal) htypes
    have hr' := hr.hasType (names.extends hl.extends) hfinal htypes
    rw [tl] at hl'
    rw [tr] at hr'
    exact .compare hl' hr'
  | logic hl hr tl tr =>
    have hl' := hl.hasType names (hr.extends.trans hfinal) htypes
    have hr' := hr.hasType (names.extends hl.extends) hfinal htypes
    rw [tl] at hl'
    rw [tr] at hr'
    exact .logic hl' hr'
  | negate he te =>
    have he' := he.hasType names hfinal htypes
    rw [te] at he'
    exact .negate he'
  | @call _ t₁ _ name callee _ _ _ declared hargs settles types =>
    have hfind : t₁.find? name = some callee := (hargs.extends.find?_eq name).trans declared
    have hknown := settles.known_signature (names.extends hargs.extends _ _ hfind)
    have hsignature : final.signature callee = t'.signature callee :=
      Callables.signature_of_known (hfinal.known _ _ hknown)
    refine .call (s := t'.signature callee) ?_
      (hargs.haveTypes names (settles.extends.trans hfinal) htypes types)
    rw [Callables.signatureOf, hfinal.find?_eq, settles.extends.find?_eq, hfind,
      Option.map_some, hsignature]

theorem ExprsChecked.haveTypes {scope : Scope} {t t' : Callables} {es : List Surface.Expr}
    {es' : List Expr} (h : ExprsChecked scope t es es' t') (names : t.NamesDeclared)
    (hfinal : t'.Extends final) (htypes : scope.HasTypes typeOf) {ns : List NumType}
    (types : es'.map Expr.type = ns.map ExprType.value) :
    Surface.HaveTypes final.signatureOf typeOf es ns := by
  cases h with
  | nil =>
    cases ns with
    | nil => exact .nil
    | cons n ns => cases types
  | cons he hes =>
    cases ns with
    | nil => cases types
    | cons n ns =>
      obtain ⟨htype, hrest⟩ := List.cons.inj types
      have he' := he.hasType names (hes.extends.trans hfinal) htypes
      rw [htype] at he'
      exact .cons he' (hes.haveTypes (names.extends he.extends) hfinal htypes hrest)

end

theorem AssignsTo.keeps {scope scope' : Scope} {name : String} {n : NumType} {slot : UInt32}
    (h : AssignsTo scope name n slot scope') {x : String} {v : Variable}
    (hv : scope.find? x = some v) : scope'.find? x = some v := by
  cases h with
  | known _ _ => exact hv
  | fresh hnew =>
    have hne : x ≠ name := by
      rintro rfl
      rw [hnew] at hv
      cases hv
    change (scope.enter ⟨name, n, scope.nextLocal⟩).find? x = some v
    rw [Scope.find?_enter_eq, if_neg hne]
    exact hv

theorem AssignsTo.finds {scope scope' : Scope} {name : String} {n : NumType} {slot : UInt32}
    (h : AssignsTo scope name n slot scope') :
    ∃ v, scope'.find? name = some v ∧ v.type = n := by
  cases h with
  | known hv same => exact ⟨_, hv, same⟩
  | fresh _ =>
    refine ⟨⟨name, n, scope.nextLocal⟩, ?_, rfl⟩
    change (scope.enter ⟨name, n, scope.nextLocal⟩).find? name = _
    rw [Scope.find?_enter_eq, if_pos rfl]

mutual

theorem StmtChecked.keeps {t t' : Callables} {scope scope' : Scope} {st : Surface.Stmt}
    {st' : Stmt} (h : StmtChecked t scope st st' t' scope') {x : String} {v : Variable}
    (hv : scope.find? x = some v) : scope'.find? x = some v := by
  cases h with
  | assign _ _ assigns => exact assigns.keeps hv
  | ifThen _ _ hss => exact hss.keeps hv
  | ifElse _ _ hss hos => exact hos.keeps (hss.keeps hv)
  | whileDo _ _ hss => exact hss.keeps hv
  | perform | ret | retNone | pass | brk | cont => exact hv

theorem StmtsChecked.keeps {t t' : Callables} {scope scope' : Scope}
    {ss : List Surface.Stmt} {ss' : List Stmt} (h : StmtsChecked t scope ss ss' t' scope')
    {x : String} {v : Variable} (hv : scope.find? x = some v) : scope'.find? x = some v := by
  cases h with
  | nil => exact hv
  | cons hs hss => exact hss.keeps (hs.keeps hv)

end

theorem StmtsChecked.hasTypes {t t' : Callables} {scope scope' : Scope}
    {ss : List Surface.Stmt} {ss' : List Stmt} (h : StmtsChecked t scope ss ss' t' scope')
    (htypes : scope'.HasTypes typeOf) : scope.HasTypes typeOf :=
  fun x v hv => htypes x v (h.keeps hv)

mutual

theorem StmtChecked.sourceTyped {t t' : Callables} {scope scope' : Scope} {st : Surface.Stmt}
    {st' : Stmt} (h : StmtChecked t scope st st' t' scope') (names : t.NamesDeclared)
    (hfinal : t'.Extends final) (htypes : scope'.HasTypes typeOf) :
    st.WellTyped final.signatureOf typeOf scope.result := by
  cases h with
  | assign he te assigns =>
    have he' := he.hasType names hfinal fun x v hv => htypes x v (assigns.keeps hv)
    obtain ⟨v, hv, rfl⟩ := assigns.finds
    rw [te, htypes _ v hv] at he'
    exact .assign he'
  | perform he => exact .perform (he.hasType names hfinal htypes)
  | ifThen he te hss =>
    have he' := he.hasType names (hss.extends.1.trans hfinal) (hss.hasTypes htypes)
    rw [te] at he'
    exact .ifThen he' (hss.sourceTyped (names.extends he.extends) hfinal htypes)
  | ifElse he te hss hos =>
    have hfinal₁ := hos.extends.1.trans hfinal
    have htypes₁ := hos.hasTypes htypes
    have he' := he.hasType names (hss.extends.1.trans hfinal₁) (hss.hasTypes htypes₁)
    rw [te] at he'
    have hos' := hos.sourceTyped (names.extends (he.extends.trans hss.extends.1)) hfinal htypes
    rw [hss.extends.2.result] at hos'
    exact .ifElse he' (hss.sourceTyped (names.extends he.extends) hfinal₁ htypes₁) hos'
  | whileDo he te hss =>
    have he' := he.hasType names (hss.extends.1.trans hfinal) (hss.hasTypes htypes)
    rw [te] at he'
    exact .whileDo he' (hss.sourceTyped (names.extends he.extends) hfinal htypes)
  | retNone declared => exact .retNone declared
  | ret declared he te =>
    have he' := he.hasType names hfinal htypes
    rw [te] at he'
    exact .ret declared he'
  | pass => exact .pass _
  | brk => exact .brk _
  | cont => exact .cont _

theorem StmtsChecked.sourceTyped {t t' : Callables} {scope scope' : Scope}
    {ss : List Surface.Stmt} {ss' : List Stmt} (h : StmtsChecked t scope ss ss' t' scope')
    (names : t.NamesDeclared) (hfinal : t'.Extends final) (htypes : scope'.HasTypes typeOf) :
    ∀ s ∈ ss, s.WellTyped final.signatureOf typeOf scope.result := by
  cases h with
  | nil => simp
  | cons hs hss =>
    intro s hmem
    rcases List.mem_cons.mp hmem with rfl | hmem
    · exact hs.sourceTyped names (hss.extends.1.trans hfinal) (hss.hasTypes htypes)
    · have hss' := hss.sourceTyped (names.extends hs.extends.1) hfinal htypes s hmem
      rwa [hs.extends.2.result] at hss'

end

mutual

theorem ExprChecked.initialised {scope : Scope} {t t' : Callables} {e : Surface.Expr} {e' : Expr}
    (h : ExprChecked scope t e e' t') {xs : List String} (hlists : scope.Lists xs.eraseDups) :
    Initialised xs e.accesses := by
  have hpair : ∀ {left right : Surface.Expr}, Initialised xs left.accesses →
      Initialised xs right.accesses → Initialised xs (left.accesses ++ right.accesses) := by
    intro left right hleft hright
    rw [initialised_append, Surface.written_expr, List.append_nil]
    exact ⟨hleft, hright⟩
  cases h with
  | number | float | char => exact Surface.initialised_nil xs
  | @symbol _ name v _ declared =>
    rw [Surface.Expr.accesses, Surface.initialised_read]
    exact List.mem_eraseDups.mp (hlists.mem_iff.mpr ⟨v, declared⟩)
  | binary hl hr _ _ => exact hpair (hl.initialised hlists) (hr.initialised hlists)
  | compare hl hr _ _ => exact hpair (hl.initialised hlists) (hr.initialised hlists)
  | logic hl hr _ _ => exact hpair (hl.initialised hlists) (hr.initialised hlists)
  | negate he _ => exact he.initialised hlists
  | call _ hargs _ _ => exact hargs.initialised hlists

theorem ExprsChecked.initialised {scope : Scope} {t t' : Callables} {es : List Surface.Expr}
    {es' : List Expr} (h : ExprsChecked scope t es es' t') {xs : List String}
    (hlists : scope.Lists xs.eraseDups) : Initialised xs (Surface.exprAccesses es) := by
  cases h with
  | nil => exact Surface.initialised_nil xs
  | cons he hes =>
    rw [Surface.exprAccesses, initialised_append, Surface.written_expr, List.append_nil]
    exact ⟨he.initialised hlists, hes.initialised hlists⟩

end

/-- The scope after a statement lists what it has written. -/
theorem StmtChecked.lists {t t' : Callables} {scope scope' : Scope} {st : Surface.Stmt}
    {st' : Stmt} (h : StmtChecked t scope st st' t' scope') {xs : List String}
    (hlists : scope.Lists xs.eraseDups) :
    scope'.Lists (xs ++ written st.accesses).eraseDups := by
  have hresolves : StmtResolves _ (fun _ _ => True) st st' ∧ scope'.Lists _ :=
    h.resolves hlists (List.prefix_refl _) fun _ _ _ => trivial
  exact hresolves.2

theorem StmtsChecked.lists {t t' : Callables} {scope scope' : Scope}
    {ss : List Surface.Stmt} {ss' : List Stmt} (h : StmtsChecked t scope ss ss' t' scope')
    {xs : List String} (hlists : scope.Lists xs.eraseDups) :
    scope'.Lists (xs ++ written (Surface.stmtAccesses ss)).eraseDups := by
  have hresolves : StmtsResolve _ (fun _ _ => True) ss ss' ∧ scope'.Lists _ :=
    h.resolves hlists (List.prefix_refl _) fun _ _ _ => trivial
  exact hresolves.2

theorem StmtsChecked.alwaysReturns {t t' : Callables} {scope scope' : Scope}
    {ss : List Surface.Stmt} {ss' : List Stmt} (h : StmtsChecked t scope ss ss' t' scope')
    {xs : List String} (hlists : scope.Lists xs.eraseDups) :
    bodyReturns ss' = Surface.someReturns ss := by
  have hresolves : StmtsResolve _ (fun _ _ => True) ss ss' ∧ scope'.Lists _ :=
    h.resolves hlists (List.prefix_refl _) fun _ _ _ => trivial
  exact hresolves.1.alwaysReturns

mutual

theorem StmtChecked.initialised {t t' : Callables} {scope scope' : Scope} {st : Surface.Stmt}
    {st' : Stmt} (h : StmtChecked t scope st st' t' scope') {xs : List String}
    (hlists : scope.Lists xs.eraseDups) : Initialised xs st.accesses := by
  cases h with
  | assign he _ _ =>
    rw [Surface.Stmt.accesses, initialised_append]
    exact ⟨he.initialised hlists, Surface.initialised_write _ _⟩
  | perform he => exact he.initialised hlists
  | ifThen he _ hss =>
    rw [Surface.Stmt.accesses, Surface.Block.accesses, initialised_append,
      Surface.written_expr, List.append_nil]
    exact ⟨he.initialised hlists, hss.initialised hlists⟩
  | ifElse he _ hss hos =>
    rw [Surface.Stmt.accesses, Surface.Block.accesses, Surface.Block.accesses,
      initialised_append, initialised_append, Surface.written_expr, List.append_nil]
    exact ⟨he.initialised hlists, hss.initialised hlists, hos.initialised (hss.lists hlists)⟩
  | whileDo he _ hss =>
    rw [Surface.Stmt.accesses, Surface.Block.accesses, initialised_append,
      Surface.written_expr, List.append_nil]
    exact ⟨he.initialised hlists, hss.initialised hlists⟩
  | ret _ he _ => exact he.initialised hlists
  | retNone | pass | brk | cont => exact Surface.initialised_nil xs

theorem StmtsChecked.initialised {t t' : Callables} {scope scope' : Scope}
    {ss : List Surface.Stmt} {ss' : List Stmt} (h : StmtsChecked t scope ss ss' t' scope')
    {xs : List String} (hlists : scope.Lists xs.eraseDups) :
    Initialised xs (Surface.stmtAccesses ss) := by
  cases h with
  | nil => exact Surface.initialised_nil xs
  | cons hs hss =>
    rw [Surface.stmtAccesses, initialised_append]
    exact ⟨hs.initialised hlists, hss.initialised (hs.lists hlists)⟩

end

theorem declareParam_keeps {scope scope' : Scope} {name : String} {n : NumType}
    {position : Position} (h : scope.declareParam name n position = .ok scope') {x : String}
    {v : Variable} (hv : scope.find? x = some v) : scope'.find? x = some v := by
  obtain ⟨hnew, rfl⟩ := declareParam_ok.mp h
  have hne : x ≠ name := by
    rintro rfl
    rw [hnew] at hv
    cases hv
  change (scope.enter ⟨name, n, scope.nextParam⟩).find? x = some v
  rw [Scope.find?_enter_eq, if_neg hne]
  exact hv

theorem paramScope_keeps {ps : List (Surface.Parameter × NumType)} {scope scope' : Scope}
    (h : paramScope scope ps = .ok scope') {x : String} {v : Variable}
    (hv : scope.find? x = some v) : scope'.find? x = some v := by
  induction ps generalizing scope with
  | nil =>
    obtain rfl := Except.ok.inj h
    exact hv
  | cons p ps ih =>
    obtain ⟨scope₁, hparam, hrest⟩ := bind_eq_ok.mp h
    exact ih hrest (declareParam_keeps hparam hv)

theorem paramScope_finds {ps : List (Surface.Parameter × NumType)} {scope scope' : Scope}
    (h : paramScope scope ps = .ok scope') {q : Surface.Parameter} {n : NumType}
    (hmem : (q, n) ∈ ps) : ∃ v, scope'.find? q.name = some v ∧ v.type = n := by
  induction ps generalizing scope with
  | nil => cases hmem
  | cons p ps ih =>
    obtain ⟨scope₁, hparam, hrest⟩ := bind_eq_ok.mp h
    rcases List.mem_cons.mp hmem with rfl | hmem
    · obtain ⟨hnew, rfl⟩ := declareParam_ok.mp hparam
      refine ⟨⟨q.name, n, scope.nextParam⟩, paramScope_keeps hrest ?_, rfl⟩
      change (scope.enter ⟨q.name, n, scope.nextParam⟩).find? q.name = _
      rw [Scope.find?_enter_eq, if_pos rfl]
    · exact ih hrest hmem

theorem FunctionChecked.typable {t t' : Callables} {f : Surface.Function}
    {signature : Signature} {g : Function} (h : FunctionChecked t f signature g t')
    (types : Annotates (f.params.map (·.type)) f.result signature) (names : t.NamesDeclared)
    (hfinal : t'.Extends final) : f.Typable final.signatureOf := by
  cases h with
  | @intro scope scope' body _ hparams hbody returns =>
    obtain ⟨hlists, -, hresult⟩ := functionScope_lists hparams types
    have hself := Surface.eraseDups_of_nodup hlists.distinct
    have hlists' : scope.Lists (f.params.map (·.name)).eraseDups := by rwa [hself]
    refine ⟨hlists.distinct, ?_, ?_, ?_⟩
    · rw [Surface.Block.accesses_eq]
      exact hbody.initialised hlists'
    · intro hsome
      have hreturns := returns (by rw [types.isSome_result]; exact hsome)
      rw [Surface.Block.alwaysReturns_eq, ← hbody.alwaysReturns hlists']
      exact hreturns
    · -- a variable has the type that it has in the end
      refine ⟨fun x => ((scope'.find? x).map (·.type)).getD .int, ?_, signature.result,
        types.result, ?_⟩
      · intro q hq
        obtain ⟨n, hn⟩ := exists_mem_zip (by simpa using types.length_params) hq
        obtain ⟨v, hv, rfl⟩ := paramScope_finds hparams hn
        rw [hbody.keeps hv]
        exact types.param hn
      · have htypes : scope'.HasTypes fun x => ((scope'.find? x).map (·.type)).getD .int := by
          intro x v hv
          simp [hv]
        have htyped := hbody.sourceTyped names hfinal htypes
        rwa [hresult] at htyped

theorem FunctionsChecked.typable {t t' : Callables} {fs : List Surface.Function}
    {signatures : List Signature} {gs : List Function}
    (h : FunctionsChecked t (fs.zip signatures) gs t')
    (types : List.Forall₂ (fun f s => Annotates (f.params.map (·.type)) f.result s) fs signatures)
    (names : t.NamesDeclared) (hfinal : t'.Extends final) :
    ∀ f ∈ fs, f.Typable final.signatureOf := by
  induction types generalizing t gs with
  | nil => simp
  | cons hs _ ih =>
    cases h with
    | cons hf hfs =>
      intro f hmem
      rcases List.mem_cons.mp hmem with rfl | hmem
      · exact hf.typable hs names (hfs.extends.trans hfinal)
      · exact ih hfs (names.extends hf.extends) f hmem

end Accepted

theorem Infers.unannotated_result {i : Surface.Import} {q q' : PendingImport}
    {calls : List (List ExprType)} (h : Infers q calls q') (hentered : Entered i q)
    (hnone : i.signature = none) : q'.declared.signature.result = none :=
  ((hentered.resolves h).inferred hnone).1

/-- The signatures that are known in the end are those that the program declares. -/
theorem FunctionsChecked.declares {p : Surface.Program} {t t' : Callables}
    {fs : List (Surface.Function × Signature)} {gs : List Function}
    (h : FunctionsChecked t fs gs t') (hby : DeclaredBy p t) : p.Declares t'.signatureOf where
  annotated i hi a ha := by
    obtain ⟨index, hindex⟩ := List.mem_iff_getElem?.mp hi
    obtain ⟨hfind, q, hq, hentered⟩ := hby.import_at hindex
    cases hentered with
    | unannotated hnone =>
      rw [hnone] at ha
      cases ha
    | @annotated b s hb types =>
      obtain rfl := Option.some.inj (hb.symm.trans ha)
      have hknown : t.known (.imported index) = some s := by simp [Callables.known, hq]
      refine ⟨s, ?_, types⟩
      rw [Callables.signatureOf, h.extends.find?_eq, hfind, Option.map_some,
        Callables.signature_of_known (h.extends.known _ _ hknown)]
  unannotated i hi hnone := by
    obtain ⟨index, hindex⟩ := List.mem_iff_getElem?.mp hi
    obtain ⟨hfind, q, hq, hentered⟩ := hby.import_at hindex
    obtain ⟨q', hq', hinfers⟩ := h.infers index q hq
    have hresult := hinfers.unannotated_result hentered hnone
    refine ⟨q'.declared.signature.params, ?_⟩
    rw [Callables.signatureOf, h.extends.find?_eq, hfind, ← hresult]
    simp [Callables.signature, hq']
  functions f hf := by
    obtain ⟨index, hindex⟩ := List.mem_iff_getElem?.mp hf
    obtain ⟨hfind, s, hs, types⟩ := hby.function_at hindex
    refine ⟨s, ?_, types⟩
    rw [Callables.signatureOf, h.extends.find?_eq, hfind]
    simp [Callables.signature, h.extends.signatures, hs]
  others name hname := by
    rw [Callables.signatureOf, h.extends.find?_eq, hby.find?_eq_none.mpr hname]
    rfl

theorem ProgramChecked.typable {p : Surface.Program} {m : Module} (h : ProgramChecked p m) :
    p.Typable := by
  obtain @⟨t, t', functions, hdeclared, hfunctions⟩ := h
  have hby := Callables.declaredBy_of_ofProgram hdeclared
  refine ⟨hby.distinct, hby.notOrd, ?_, ?_, t'.signatureOf, hfunctions.declares hby, ?_⟩
  · intro i hi a ha
    obtain ⟨index, hindex⟩ := List.mem_iff_getElem?.mp hi
    obtain ⟨-, q, -, hentered⟩ := hby.import_at hindex
    cases hentered with
    | unannotated hnone => simp [Surface.Import.annotations, hnone] at ha
    | annotated hb types =>
      rw [Surface.Import.annotations, hb] at ha
      exact NumType.exists_name_iff.mp (types.exists_name a ha)
  · intro f hf a ha
    obtain ⟨index, hindex⟩ := List.mem_iff_getElem?.mp hf
    obtain ⟨-, s, -, types⟩ := hby.function_at hindex
    exact NumType.exists_name_iff.mp (types.exists_name a ha)
  · exact hfunctions.typable hby.functions hby.namesDeclared (.refl t')

/-! ### What is typable is accepted -/

section Complete

variable {signatureOf : String → Option Signature} {calleeType : Callee → Signature}
  {typeOf : String → NumType}

/-- The table knows nothing but what a typing says: `calleeType` gives the signatures by
    callee that `signatureOf` gives by name. -/
structure Callables.Admits (signatureOf : String → Option Signature)
    (calleeType : Callee → Signature) (t : Callables) : Prop where
  callee : ∀ name s, signatureOf name = some s →
    ∃ c, t.find? name = some c ∧ calleeType c = s
  declared : t.NamesDeclared
  known : ∀ c, t.Declares c →
    t.known c = some (calleeType c) ∨ t.known c = none ∧ (calleeType c).result = none

theorem Callables.known_of_pending?_eq_none {t : Callables} {c : Callee} (hd : t.Declares c)
    (h : t.pending? c = none) : t.known c ≠ none := by
  cases c with
  | defined index =>
    have hi : index < t.signatures.length := hd
    simp [Callables.known, hi]
  | imported index =>
    have hi : index < t.imports.length := hd
    have hp : t.imports[index].pending = false := by simpa [Callables.pending?, hi] using h
    simp [Callables.known, hi, hp]

theorem Callables.declares_settle {t : Callables} {index : Nat} {s : Signature} {c : Callee} :
    (t.settle index s).Declares c ↔ t.Declares c := by
  cases c with
  | imported j => simp [Callables.Declares, Callables.settle]
  | defined j => exact Iff.rfl

theorem Callables.known_settle {t : Callables} {index : Nat} {i : Import} {s : Signature}
    (h : t.imports[index]? = some ⟨i, true⟩) (c : Callee) :
    (t.settle index s).known c = if c = .imported index then some s else t.known c := by
  cases c with
  | defined j => simp [Callables.known, Callables.settle]
  | imported j =>
    by_cases hj : index = j
    · subst hj
      simp [Callables.known, Callables.settle, h]
    · have hne : ¬ j = index := fun heq => hj heq.symm
      simp [Callables.known, Callables.settle, hj, hne]

/-- Fixing a signature as the typing says keeps the table within the typing. -/
theorem Callables.Admits.settle {t : Callables} (h : t.Admits signatureOf calleeType)
    {index : Nat} {i : Import} (hi : t.imports[index]? = some ⟨i, true⟩) :
    (t.settle index (calleeType (.imported index))).Admits signatureOf calleeType where
  callee := h.callee
  declared := h.declared.extends (Callables.settle_extends hi _)
  known c hc := by
    rw [Callables.known_settle hi]
    by_cases hindex : c = .imported index
    · left
      rw [if_pos hindex, hindex]
    · rw [if_neg hindex]
      exact h.known c (Callables.declares_settle.mp hc)

theorem settlePending_complete {callee : Callee} {args : List Expr} {s : CheckState}
    (h : s.callables.Admits signatureOf calleeType) (hd : s.callables.Declares callee)
    (types : args.map Expr.type = (calleeType callee).params.map ExprType.value) :
    ∃ s', settlePending callee args s = .ok () s' ∧ s'.scope = s.scope ∧
      s'.callables.Admits signatureOf calleeType ∧
      s'.callables.signature callee = calleeType callee := by
  cases hpending : s.callables.pending? callee with
  | none =>
    refine ⟨s, ?_, rfl, h, ?_⟩
    · simp only [settlePending, bind_run_eq_ok, get_run_eq_ok]
      exact ⟨s, s, ⟨rfl, rfl⟩, by rw [hpending]; rfl⟩
    · rcases h.known callee hd with hknown | ⟨hnone, -⟩
      · exact Callables.signature_of_known hknown
      · exact (Callables.known_of_pending?_eq_none hd hpending hnone).elim
  | some found =>
    obtain ⟨index, i⟩ := found
    obtain ⟨rfl, hi⟩ := Callables.pending?_eq_some hpending
    -- the typing gives it no result either, so the types of the arguments are all of it
    have hsettled : ⟨(calleeType (.imported index)).params, none⟩ =
        calleeType (.imported index) := by
      rcases h.known _ hd with hknown | ⟨-, hresult⟩
      · simp [Callables.known, hi] at hknown
      · rw [← hresult]
    have hrun : ∃ log, settlePending (.imported index) args s = .ok ()
        { s with callables := s.callables.settle index (calleeType (.imported index)), log } := by
      rw [← hsettled]
      apply Exists.intro
      simp only [settlePending, bind_run_eq_ok, get_run_eq_ok]
      refine ⟨s, s, ⟨rfl, rfl⟩, ?_⟩
      rw [hpending]
      simp only [bind_run_eq_ok, ofExcept_run, requireValues_ok]
      exact ⟨_, s, ⟨types, rfl⟩, (), _, rfl, rfl⟩
    obtain ⟨log, hrun⟩ := hrun
    refine ⟨_, hrun, rfl, h.settle hi, ?_⟩
    refine Callables.signature_of_known ?_
    rw [Callables.known_settle hi, if_pos rfl]

/-- A state in which the parts of a typing's function can be checked, `xs` being the
    variables that have been assigned. -/
structure Ready (signatureOf : String → Option Signature) (calleeType : Callee → Signature)
    (typeOf : String → NumType) (xs : List String) (s : CheckState) : Prop where
  callables : s.callables.Admits signatureOf calleeType
  assigned : ∀ x ∈ xs, ∃ v, s.scope.find? x = some v
  types : s.scope.HasTypes typeOf

theorem Ready.of_scope {xs : List String} {s s' : CheckState}
    (h : Ready signatureOf calleeType typeOf xs s) (hscope : s'.scope = s.scope)
    (hcallables : s'.callables.Admits signatureOf calleeType) :
    Ready signatureOf calleeType typeOf xs s' where
  callables := hcallables
  assigned := by
    rw [hscope]
    exact h.assigned
  types := by
    rw [hscope]
    exact h.types

theorem length_of_map_type {args : List Expr} {ns : List NumType}
    (h : args.map Expr.type = ns.map ExprType.value) : ns.length = args.length := by
  have := congrArg List.length h
  simpa using this.symm

theorem checkCall_complete {callee : Callee} {args : List Expr} (span : Span) {s : CheckState}
    (h : s.callables.Admits signatureOf calleeType) (hd : s.callables.Declares callee)
    (types : args.map Expr.type = (calleeType callee).params.map ExprType.value) :
    ∃ e s', checkCall callee args span s = .ok e s' ∧
      e.type = .ofResult (calleeType callee).result ∧ s'.scope = s.scope ∧
      s'.callables.Admits signatureOf calleeType := by
  obtain ⟨s', hsettle, hscope, hadmits, hsignature⟩ := settlePending_complete h hd types
  have hlength := length_of_map_type types
  refine ⟨.call callee args (.ofResult (calleeType callee).result) span, s', ?_, rfl, hscope,
    hadmits⟩
  simp only [checkCall, bind_run_eq_ok, get_run_eq_ok, ofExcept_run, requireCount_ok,
    pure_run_eq_ok]
  refine ⟨(), s', hsettle, s', s', ⟨rfl, rfl⟩, (), s', ⟨?_, rfl⟩, (), s', ⟨?_, rfl⟩, ?_, rfl⟩
  · rw [hsignature]
    exact hlength
  · rw [hsignature]
    exact (requireArguments_ok hlength).mpr types
  · rw [hsignature]

mutual

theorem checkExpr_complete {e : Surface.Expr} {τ : ExprType} {xs : List String} {s : CheckState}
    (h : e.HasType signatureOf typeOf τ) (hs : Ready signatureOf calleeType typeOf xs s)
    (hinit : Initialised xs e.accesses) :
    ∃ e' s', checkExpr e s = .ok e' s' ∧ e'.type = τ ∧ s'.scope = s.scope ∧
      Ready signatureOf calleeType typeOf xs s' := by
  cases h with
  | number value span => exact ⟨_, s, rfl, rfl, rfl, hs⟩
  | float value span => exact ⟨_, s, rfl, rfl, rfl, hs⟩
  | char value span => exact ⟨_, s, rfl, rfl, rfl, hs⟩
  | symbol name span =>
    rw [Surface.Expr.accesses, Surface.initialised_read] at hinit
    obtain ⟨v, hv⟩ := hs.assigned name hinit
    refine ⟨.slot v.slot (.value v.type) span, s, ?_, ?_, rfl, hs⟩
    · simp only [checkExpr, bind_run_eq_ok, get_run_eq_ok]
      exact ⟨s, s, ⟨rfl, rfl⟩, by rw [hv]; rfl⟩
    · rw [← hs.types name v hv]
      rfl
  | @binary op left right n span hl hr =>
    rw [Surface.Expr.accesses, initialised_append, Surface.written_expr, List.append_nil] at hinit
    obtain ⟨l, s₁, hl', tl, hscope₁, hs₁⟩ := checkExpr_complete hl hs hinit.1
    obtain ⟨r, s₂, hr', tr, hscope₂, hs₂⟩ := checkExpr_complete hr hs₁ hinit.2
    refine ⟨.binary op l r (.value n) span, s₂, ?_, rfl, hscope₂.trans hscope₁, hs₂⟩
    simp only [checkExpr, bind_run_eq_ok, ofExcept_run, requireValue_ok, requireType_ok,
      pure_run_eq_ok]
    exact ⟨l, s₁, hl', r, s₂, hr', n, s₂, ⟨tl, rfl⟩, (), s₂, ⟨tr, rfl⟩, rfl, rfl⟩
  | @compare op left right n span hl hr =>
    rw [Surface.Expr.accesses, initialised_append, Surface.written_expr, List.append_nil] at hinit
    obtain ⟨l, s₁, hl', tl, hscope₁, hs₁⟩ := checkExpr_complete hl hs hinit.1
    obtain ⟨r, s₂, hr', tr, hscope₂, hs₂⟩ := checkExpr_complete hr hs₁ hinit.2
    refine ⟨.compare op n l r .bool span, s₂, ?_, rfl, hscope₂.trans hscope₁, hs₂⟩
    simp only [checkExpr, bind_run_eq_ok, ofExcept_run, requireValue_ok, requireType_ok,
      pure_run_eq_ok]
    exact ⟨l, s₁, hl', r, s₂, hr', n, s₂, ⟨tl, rfl⟩, (), s₂, ⟨tr, rfl⟩, rfl, rfl⟩
  | @logic op left right span hl hr =>
    rw [Surface.Expr.accesses, initialised_append, Surface.written_expr, List.append_nil] at hinit
    obtain ⟨l, s₁, hl', tl, hscope₁, hs₁⟩ := checkExpr_complete hl hs hinit.1
    obtain ⟨r, s₂, hr', tr, hscope₂, hs₂⟩ := checkExpr_complete hr hs₁ hinit.2
    refine ⟨.logic op l r .bool span, s₂, ?_, rfl, hscope₂.trans hscope₁, hs₂⟩
    simp only [checkExpr, bind_run_eq_ok, ofExcept_run, requireBool_ok, pure_run_eq_ok]
    exact ⟨l, s₁, hl', r, s₂, hr', (), s₂, ⟨tl, rfl⟩, (), s₂, ⟨tr, rfl⟩, rfl, rfl⟩
  | @negate operand n span he =>
    obtain ⟨e', s₁, he', te, hscope, hs₁⟩ := checkExpr_complete he hs hinit
    refine ⟨.negate e' (.value n) span, s₁, ?_, rfl, hscope, hs₁⟩
    simp only [checkExpr, bind_run_eq_ok, ofExcept_run, requireValue_ok, pure_run_eq_ok]
    exact ⟨e', s₁, he', n, s₁, ⟨te, rfl⟩, rfl, rfl⟩
  | @call name arguments signature span declared hargs =>
    obtain ⟨c, hc, rfl⟩ := hs.callables.callee name signature declared
    obtain ⟨args, s₁, hargs', types, hscope₁, hs₁, hextends⟩ :=
      checkExprs_complete hargs hs hinit
    have hd : s₁.callables.Declares c :=
      hs₁.callables.declared name c ((hextends.find?_eq name).trans hc)
    obtain ⟨e', s₂, hcall, te, hscope₂, hadmits⟩ :=
      checkCall_complete span hs₁.callables hd types
    refine ⟨e', s₂, ?_, te, hscope₂.trans hscope₁, hs₁.of_scope hscope₂ hadmits⟩
    simp only [checkExpr, bind_run_eq_ok, get_run_eq_ok]
    refine ⟨s, s, ⟨rfl, rfl⟩, ?_⟩
    rw [hc]
    exact bind_run_eq_ok.mpr ⟨args, s₁, hargs', hcall⟩

theorem checkExprs_complete {es : List Surface.Expr} {ns : List NumType} {xs : List String}
    {s : CheckState} (h : Surface.HaveTypes signatureOf typeOf es ns)
    (hs : Ready signatureOf calleeType typeOf xs s)
    (hinit : Initialised xs (Surface.exprAccesses es)) :
    ∃ es' s', checkExprs es s = .ok es' s' ∧ es'.map Expr.type = ns.map ExprType.value ∧
      s'.scope = s.scope ∧ Ready signatureOf calleeType typeOf xs s' ∧
      s.callables.Extends s'.callables := by
  cases h with
  | nil => exact ⟨[], s, rfl, rfl, rfl, hs, .refl _⟩
  | cons he hes =>
    rw [Surface.exprAccesses, initialised_append, Surface.written_expr, List.append_nil] at hinit
    obtain ⟨e', s₁, he', te, hscope₁, hs₁⟩ := checkExpr_complete he hs hinit.1
    obtain ⟨es', s₂, hes', tes, hscope₂, hs₂, hextends⟩ := checkExprs_complete hes hs₁ hinit.2
    refine ⟨e' :: es', s₂, ?_, by simp [te, tes], hscope₂.trans hscope₁, hs₂,
      (checkExpr_ok he').2.extends.trans hextends⟩
    simp only [checkExprs, bind_run_eq_ok, pure_run_eq_ok]
    exact ⟨e', s₁, he', es', s₂, hes', rfl, rfl⟩

end

theorem Scope.HasTypes.enter {scope : Scope} (h : scope.HasTypes typeOf) {v : Variable}
    (hv : v.type = typeOf v.name) : (scope.enter v).HasTypes typeOf := by
  intro x w hw
  rw [Scope.find?_enter_eq] at hw
  by_cases hx : x = v.name
  · rw [if_pos hx] at hw
    obtain rfl := Option.some.inj hw
    rw [hx]
    exact hv
  · rw [if_neg hx] at hw
    exact h x w hw

theorem assignSlot_complete (name : String) (position : Position) {xs : List String}
    {s : CheckState} (hs : Ready signatureOf calleeType typeOf xs s) :
    ∃ slot s', assignSlot name (typeOf name) position s = .ok slot s' ∧
      Ready signatureOf calleeType typeOf (xs ++ [name]) s' ∧
      s'.scope.result = s.scope.result := by
  simp only [assignSlot, bind_run_eq_ok, get_run_eq_ok]
  cases hfind : s.scope.find? name with
  | some v =>
    refine ⟨v.slot, s, ⟨s, s, ⟨rfl, rfl⟩, ?_⟩, ⟨hs.callables, ?_, hs.types⟩, rfl⟩
    · simp only [hfind, if_pos (hs.types name v hfind)]
      rfl
    · intro x hx
      rcases List.mem_append.mp hx with hx | hx
      · exact hs.assigned x hx
      · obtain rfl := List.mem_singleton.mp hx
        exact ⟨v, hfind⟩
  | none =>
    refine ⟨s.scope.nextLocal, { s with scope := s.scope.declareLocal name (typeOf name) },
      ⟨s, s, ⟨rfl, rfl⟩, ?_⟩, ⟨hs.callables, ?_, ?_⟩, rfl⟩
    · simp only [hfind]
      rfl
    · intro x hx
      change ∃ v, (s.scope.enter ⟨name, typeOf name, s.scope.nextLocal⟩).find? x = some v
      rw [Scope.find?_enter_eq]
      by_cases hname : x = name
      · exact ⟨_, if_pos hname⟩
      · rw [if_neg hname]
        have hmem : x ∈ xs := by simpa [hname] using hx
        exact hs.assigned x hmem
    · exact hs.types.enter (v := ⟨name, typeOf name, s.scope.nextLocal⟩) rfl

theorem checkCondition_complete {e : Surface.Expr} {xs : List String} {s : CheckState}
    (h : e.HasType signatureOf typeOf .bool) (hs : Ready signatureOf calleeType typeOf xs s)
    (hinit : Initialised xs e.accesses) :
    ∃ e' s', checkCondition e s = .ok e' s' ∧ s'.scope = s.scope ∧
      Ready signatureOf calleeType typeOf xs s' := by
  obtain ⟨e', s', he, te, hscope, hs'⟩ := checkExpr_complete h hs hinit
  refine ⟨e', s', ?_, hscope, hs'⟩
  simp only [checkCondition, bind_run_eq_ok, ofExcept_run, requireBool_ok, pure_run_eq_ok]
  exact ⟨e', s', he, (), s', ⟨te, rfl⟩, rfl, rfl⟩

mutual

theorem checkStmt_complete {st : Surface.Stmt} {result : Option NumType} {xs : List String}
    {s : CheckState} (h : st.WellTyped signatureOf typeOf result)
    (hs : Ready signatureOf calleeType typeOf xs s) (hresult : s.scope.result = result)
    (hinit : Initialised xs st.accesses) :
    ∃ st' s', checkStmt st s = .ok st' s' ∧
      Ready signatureOf calleeType typeOf (xs ++ written st.accesses) s' ∧
      s'.scope.result = result := by
  cases st with
  | assign target value span =>
    cases h with
    | assign he =>
      rw [Surface.Stmt.accesses, initialised_append] at hinit
      rw [Surface.Stmt.accesses, Surface.written_append, Surface.written_expr, List.nil_append]
      obtain ⟨e', s₁, he', te, hscope, hs₁⟩ := checkExpr_complete he hs hinit.1
      obtain ⟨slot, s₂, hslot, hs₂, hresult₂⟩ := assignSlot_complete target e'.span.start hs₁
      refine ⟨.assign slot e' span, s₂, ?_, hs₂, ?_⟩
      · simp only [checkStmt, bind_run_eq_ok, ofExcept_run, requireValue_ok, pure_run_eq_ok]
        exact ⟨e', s₁, he', _, s₁, ⟨te, rfl⟩, slot, s₂, hslot, rfl, rfl⟩
      · rw [hresult₂, hscope, hresult]
  | perform call span =>
    cases h with
    | perform he =>
      obtain ⟨e', s₁, he', -, hscope, hs₁⟩ := checkExpr_complete he hs hinit
      rw [Surface.Stmt.accesses, Surface.written_expr, List.append_nil]
      refine ⟨.perform e' span, s₁, ?_, hs₁, by rw [hscope, hresult]⟩
      simp only [checkStmt, bind_run_eq_ok, pure_run_eq_ok]
      exact ⟨e', s₁, he', rfl, rfl⟩
  | ifThen condition body span =>
    obtain ⟨body, inner⟩ := body
    cases h with
    | ifThen he hss =>
      rw [Surface.Stmt.accesses, Surface.Block.accesses, initialised_append,
        Surface.written_expr, List.append_nil] at hinit
      rw [Surface.Stmt.accesses, Surface.Block.accesses, Surface.written_append,
        Surface.written_expr, List.nil_append]
      obtain ⟨e', s₁, he', hscope, hs₁⟩ := checkCondition_complete he hs hinit.1
      obtain ⟨ss', s₂, hss', hs₂, hresult₂⟩ :=
        checkStmts_complete hss hs₁ (by rw [hscope, hresult]) hinit.2
      refine ⟨.branch e' ss' [] span, s₂, ?_, hs₂, hresult₂⟩
      simp only [checkStmt, checkBlock, bind_run_eq_ok, pure_run_eq_ok]
      exact ⟨e', s₁, he', ss', s₂, hss', rfl, rfl⟩
  | ifElse condition body orElse span =>
    obtain ⟨body, inner⟩ := body
    obtain ⟨orElse, inner'⟩ := orElse
    cases h with
    | ifElse he hss hos =>
      rw [Surface.Stmt.accesses, Surface.Block.accesses, Surface.Block.accesses,
        initialised_append, initialised_append, Surface.written_expr, List.append_nil] at hinit
      rw [Surface.Stmt.accesses, Surface.Block.accesses, Surface.Block.accesses,
        Surface.written_append, Surface.written_append, Surface.written_expr, List.nil_append,
        ← List.append_assoc]
      obtain ⟨e', s₁, he', hscope, hs₁⟩ := checkCondition_complete he hs hinit.1
      obtain ⟨ss', s₂, hss', hs₂, hresult₂⟩ :=
        checkStmts_complete hss hs₁ (by rw [hscope, hresult]) hinit.2.1
      obtain ⟨os', s₃, hos', hs₃, hresult₃⟩ :=
        checkStmts_complete hos hs₂ hresult₂ hinit.2.2
      refine ⟨.branch e' ss' os' span, s₃, ?_, hs₃, hresult₃⟩
      simp only [checkStmt, checkBlock, bind_run_eq_ok, pure_run_eq_ok]
      exact ⟨e', s₁, he', ss', s₂, hss', os', s₃, hos', rfl, rfl⟩
  | whileDo condition body span =>
    obtain ⟨body, inner⟩ := body
    cases h with
    | whileDo he hss =>
      rw [Surface.Stmt.accesses, Surface.Block.accesses, initialised_append,
        Surface.written_expr, List.append_nil] at hinit
      rw [Surface.Stmt.accesses, Surface.Block.accesses, Surface.written_append,
        Surface.written_expr, List.nil_append]
      obtain ⟨e', s₁, he', hscope, hs₁⟩ := checkCondition_complete he hs hinit.1
      obtain ⟨ss', s₂, hss', hs₂, hresult₂⟩ :=
        checkStmts_complete hss hs₁ (by rw [hscope, hresult]) hinit.2
      refine ⟨.whileDo e' ss' span, s₂, ?_, hs₂, hresult₂⟩
      simp only [checkStmt, checkBlock, bind_run_eq_ok, pure_run_eq_ok]
      exact ⟨e', s₁, he', ss', s₂, hss', rfl, rfl⟩
  | ret value span =>
    cases h with
    | retNone declared =>
      subst declared
      rw [Surface.Stmt.accesses, Surface.written_nil, List.append_nil]
      refine ⟨.ret none span, s, ?_, hs, hresult⟩
      simp only [checkStmt, checkReturn, bind_run_eq_ok, get_run_eq_ok, pure_run_eq_ok]
      refine ⟨none, s, ⟨s, s, ⟨rfl, rfl⟩, ?_⟩, rfl, rfl⟩
      rw [hresult]
      rfl
    | @ret value n _ declared he =>
      subst declared
      obtain ⟨e', s₁, he', te, hscope, hs₁⟩ := checkExpr_complete he hs hinit
      rw [Surface.Stmt.accesses, Surface.written_expr, List.append_nil]
      refine ⟨.ret (some e') span, s₁, ?_, hs₁, by rw [hscope, hresult]⟩
      simp only [checkStmt, checkReturn, bind_run_eq_ok, get_run_eq_ok, pure_run_eq_ok]
      refine ⟨some e', s₁, ⟨s, s, ⟨rfl, rfl⟩, ?_⟩, rfl, rfl⟩
      rw [hresult]
      simp only [bind_run_eq_ok, ofExcept_run, requireType_ok, pure_run_eq_ok]
      exact ⟨e', s₁, he', (), s₁, ⟨te, rfl⟩, rfl, rfl⟩
  | pass span | brk span | cont span =>
    rw [Surface.Stmt.accesses, Surface.written_nil, List.append_nil]
    exact ⟨_, s, rfl, hs, hresult⟩

theorem checkStmts_complete {ss : List Surface.Stmt} {result : Option NumType}
    {xs : List String} {s : CheckState}
    (h : ∀ st ∈ ss, st.WellTyped signatureOf typeOf result)
    (hs : Ready signatureOf calleeType typeOf xs s) (hresult : s.scope.result = result)
    (hinit : Initialised xs (Surface.stmtAccesses ss)) :
    ∃ ss' s', checkStmts ss s = .ok ss' s' ∧
      Ready signatureOf calleeType typeOf (xs ++ written (Surface.stmtAccesses ss)) s' ∧
      s'.scope.result = result := by
  cases ss with
  | nil =>
    rw [Surface.stmtAccesses, Surface.written_nil, List.append_nil]
    exact ⟨[], s, rfl, hs, hresult⟩
  | cons st ss =>
    rw [Surface.stmtAccesses, initialised_append] at hinit
    rw [Surface.stmtAccesses, Surface.written_append, ← List.append_assoc]
    obtain ⟨st', s₁, hst, hs₁, hresult₁⟩ :=
      checkStmt_complete (h st List.mem_cons_self) hs hresult hinit.1
    obtain ⟨ss', s₂, hss, hs₂, hresult₂⟩ := checkStmts_complete
      (fun st hmem => h st (List.mem_cons_of_mem _ hmem)) hs₁ hresult₁ hinit.2
    refine ⟨st' :: ss', s₂, ?_, hs₂, hresult₂⟩
    simp only [checkStmts, bind_run_eq_ok, pure_run_eq_ok]
    exact ⟨st', s₁, hst, ss', s₂, hss, rfl, rfl⟩

end

theorem checkBlock_eq {b : Surface.Block Surface.Stmt} {s : CheckState} :
    checkBlock b s = checkStmts b.body s := by
  obtain ⟨body, span⟩ := b
  rw [checkBlock]

theorem paramScope_complete {ps : List (Surface.Parameter × NumType)} {scope : Scope}
    (hdistinct : (ps.map (·.1.name)).Nodup)
    (hnew : ∀ q ∈ ps, scope.find? q.1.name = none)
    (htypes : ∀ q ∈ ps, q.2 = typeOf q.1.name) (hscope : scope.HasTypes typeOf) :
    ∃ scope', paramScope scope ps = .ok scope' ∧ scope'.HasTypes typeOf := by
  induction ps generalizing scope with
  | nil => exact ⟨scope, rfl, hscope⟩
  | cons p ps ih =>
    obtain ⟨p, n⟩ := p
    rw [List.map_cons, List.nodup_cons] at hdistinct
    have hp := hnew _ List.mem_cons_self
    have hn := htypes _ List.mem_cons_self
    have hnew' : ∀ q ∈ ps, Scope.find? { scope.enter ⟨p.name, n, scope.nextParam⟩ with
        paramCount := scope.paramCount + 1 } q.1.name = none := by
      intro q hq
      have hne : q.1.name ≠ p.name := by
        intro heq
        exact hdistinct.1 (heq ▸ List.mem_map.mpr ⟨q, hq, rfl⟩)
      change (scope.enter ⟨p.name, n, scope.nextParam⟩).find? q.1.name = none
      rw [Scope.find?_enter_eq, if_neg hne]
      exact hnew q (List.mem_cons_of_mem _ hq)
    obtain ⟨scope', hrest, hscope'⟩ := ih hdistinct.2 hnew'
      (fun q hq => htypes q (List.mem_cons_of_mem _ hq))
      (hscope.enter (v := ⟨p.name, n, scope.nextParam⟩) hn)
    exact ⟨scope', bind_eq_ok.mpr ⟨_, declareParam_ok.mpr ⟨hp, rfl⟩, hrest⟩, hscope'⟩

theorem checkFunction_complete {f : Surface.Function} {signature : Signature} {s : CheckState}
    (h : f.Typable signatureOf) (types : Annotates (f.params.map (·.type)) f.result signature)
    (hs : s.callables.Admits signatureOf calleeType) :
    ∃ g s', checkFunction f signature s = .ok g s' ∧
      s'.callables.Admits signatureOf calleeType := by
  obtain ⟨typeOf, hparams, result, hresult, hbody⟩ := h.typed
  obtain rfl : result = signature.result :=
    Option.map_injective NumType.name_injective (hresult.symm.trans types.result)
  have hlength : f.params.length = signature.params.length := by
    simpa using types.length_params
  have hexists : ∃ scope, paramScope (Scope.empty f.name signature.result)
      (f.params.zip signature.params) = .ok scope ∧ scope.HasTypes typeOf := by
    apply paramScope_complete
    · rw [map_name_zip hlength]
      exact h.params
    · intro q _
      rfl
    · rintro ⟨q, n⟩ hq
      have hname := (types.param hq).symm.trans (hparams q (List.of_mem_zip hq).1)
      exact NumType.name_injective hname
    · intro x v hv
      cases hv
  obtain ⟨scope, hscope, hscopeTypes⟩ := hexists
  obtain ⟨hlists, -, hscopeResult⟩ := functionScope_lists hscope types
  have hready : Ready signatureOf calleeType typeOf (f.params.map (·.name))
      { s with scope := scope } := by
    refine ⟨hs, ?_, hscopeTypes⟩
    intro x hx
    obtain ⟨q, hq, rfl⟩ := List.mem_map.mp hx
    obtain ⟨n, hn⟩ := exists_mem_zip hlength hq
    obtain ⟨v, hv, -⟩ := paramScope_finds hscope hn
    exact ⟨v, hv⟩
  have hinit := h.initialised
  rw [Surface.Block.accesses_eq] at hinit
  obtain ⟨body, s₁, hchecked, hs₁, -⟩ := checkStmts_complete hbody hready hscopeResult hinit
  have hreturns : ¬ (signature.result.isSome = true ∧ bodyReturns body = false) := by
    rintro ⟨hsome, hfalse⟩
    rw [← Surface.eraseDups_of_nodup hlists.distinct] at hlists
    rw [(checkStmts_ok hchecked).alwaysReturns hlists, ← Surface.Block.alwaysReturns_eq,
      h.returns (by rwa [← types.isSome_result])] at hfalse
    cases hfalse
  have hrun : ∃ log, checkFunction f signature s =
      .ok ⟨f.name, signature, s₁.scope.locals, body, f.span⟩ { s₁ with log } := by
    apply Exists.intro
    simp only [checkFunction, bind_run_eq_ok, ofExcept_run, modify_run_eq_ok]
    refine ⟨scope, s, ⟨hscope, rfl⟩, (), _, rfl, body, s₁, checkBlock_eq.trans hchecked, ?_⟩
    rw [if_neg hreturns]
    simp only [bind_run_eq_ok, get_run_eq_ok, note, modify_run_eq_ok, pure_run_eq_ok]
    exact ⟨s₁, s₁, ⟨rfl, rfl⟩, (), _, rfl, rfl, rfl⟩
  obtain ⟨log, hrun⟩ := hrun
  exact ⟨_, _, hrun, hs₁.callables⟩

theorem checkFunctions_complete {fs : List Surface.Function} {signatures : List Signature}
    {s : CheckState} (h : ∀ f ∈ fs, f.Typable signatureOf)
    (types : List.Forall₂ (fun f s => Annotates (f.params.map (·.type)) f.result s) fs signatures)
    (hs : s.callables.Admits signatureOf calleeType) :
    ∃ gs s', checkFunctions (fs.zip signatures) s = .ok gs s' := by
  induction types generalizing s with
  | nil => exact ⟨[], s, rfl⟩
  | cons hf _ ih =>
    obtain ⟨g, s₁, hg, hs₁⟩ := checkFunction_complete (h _ List.mem_cons_self) hf hs
    obtain ⟨gs, s₂, hgs⟩ := ih (fun f hmem => h f (List.mem_cons_of_mem _ hmem)) hs₁
    refine ⟨g :: gs, s₂, ?_⟩
    rw [List.zip_cons_cons]
    simp only [checkFunctions, bind_run_eq_ok, pure_run_eq_ok]
    exact ⟨g, s₁, hg, gs, s₂, hgs, rfl, rfl⟩

end Complete

/-- The signature that a typing of a program gives to a callee. -/
def Callee.typeBy (p : Surface.Program) (signatureOf : String → Option Signature) (c : Callee) :
    Signature :=
  ((c.name? p).bind signatureOf).getD Signature.empty

theorem Callee.typeBy_eq {p : Surface.Program} {signatureOf : String → Option Signature}
    {c : Callee} {name : String} {s : Signature} (hname : c.name? p = some name)
    (hs : signatureOf name = some s) : c.typeBy p signatureOf = s := by
  rw [Callee.typeBy, hname, Option.bind_some, hs]
  rfl

/-- A table that holds just the declarations is within every typing of the program. -/
theorem DeclaredBy.admits {p : Surface.Program} {t : Callables} (h : DeclaredBy p t)
    {signatureOf : String → Option Signature} (hdeclares : p.Declares signatureOf) :
    t.Admits signatureOf (Callee.typeBy p signatureOf) where
  callee name s hs := by
    have hfind : t.find? name ≠ none := by
      intro hnone
      rw [hdeclares.others name (h.find?_eq_none.mp hnone)] at hs
      cases hs
    obtain ⟨c, hc⟩ := Option.ne_none_iff_exists'.mp hfind
    exact ⟨c, hc, Callee.typeBy_eq ((h.names name c).mp hc) hs⟩
  declared := h.namesDeclared
  known c hc := by
    cases c with
    | imported index =>
      have hlt : index < t.imports.length := hc
      rw [← h.imports.length_eq] at hlt
      obtain ⟨hfind, q, hq, hentered⟩ := h.import_at (List.getElem?_eq_getElem hlt)
      have hname := (h.names _ _).mp hfind
      have hmem := List.getElem_mem hlt
      cases hentered with
      | unannotated hnone =>
        obtain ⟨params, hs⟩ := hdeclares.unannotated _ hmem hnone
        right
        constructor
        · simp [Callables.known, hq]
        · rw [Callee.typeBy_eq hname hs]
      | annotated ha types =>
        obtain ⟨s, hs, types'⟩ := hdeclares.annotated _ hmem _ ha
        left
        rw [Callee.typeBy_eq hname hs, ← types.unique types']
        simp [Callables.known, hq]
    | defined index =>
      have hlt : index < t.signatures.length := hc
      rw [← h.functions.length_eq] at hlt
      obtain ⟨hfind, s, hs, types⟩ := h.function_at (List.getElem?_eq_getElem hlt)
      obtain ⟨s', hs', types'⟩ := hdeclares.functions _ (List.getElem_mem hlt)
      left
      rw [Callee.typeBy_eq ((h.names _ _).mp hfind) hs', ← types.unique types']
      exact hs

theorem entered_of_typable {p : Surface.Program} (h : p.Typable) :
    ∀ i ∈ p.imports, ∃ q, Entered i q := by
  intro i hi
  cases ha : i.signature with
  | none => exact ⟨_, .unannotated ha⟩
  | some a =>
    have htypes : ∃ s, Annotates a.params a.result s := by
      apply exists_annotates
      intro b hb
      have hmem : b ∈ i.annotations := by rwa [Surface.Import.annotations, ha]
      exact NumType.exists_name_iff.mpr (h.importTypes i hi b hmem)
    obtain ⟨s, types⟩ := htypes
    exact ⟨_, .annotated ha types⟩

theorem exists_ofProgram_of_typable {p : Surface.Program} (h : p.Typable) :
    ∃ m, Module.ofProgram p = .ok m := by
  have hfunctions : ∀ f ∈ p.functions, ∃ s, Annotates (f.params.map (·.type)) f.result s := by
    intro f hf
    apply exists_annotates
    intro b hb
    exact NumType.exists_name_iff.mpr (h.functionTypes f hf b hb)
  obtain ⟨t, ht⟩ := Callables.exists_ofProgram h.names h.notOrd (entered_of_typable h) hfunctions
  have hby := Callables.declaredBy_of_ofProgram ht
  obtain ⟨signatureOf, hdeclares, htypable⟩ := h.typed
  have hadmits := hby.admits hdeclares
  obtain ⟨gs, s', hgs⟩ := checkFunctions_complete (s := { CheckState.start with callables := t })
    htypable hby.functions hadmits
  have hcheck : checkProgram p .start = .ok ⟨s'.callables.imports.map (·.declared), gs⟩ s' := by
    simp only [checkProgram, bind_run_eq_ok, ofExcept_run, modify_run_eq_ok, get_run_eq_ok,
      pure_run_eq_ok]
    exact ⟨t, _, ⟨ht, rfl⟩, (), _, rfl, gs, s', hgs, s', s', ⟨rfl, rfl⟩, rfl, rfl⟩
  refine ⟨⟨s'.callables.imports.map (·.declared), gs⟩, ?_⟩
  rw [Module.ofProgram, Module.check, hcheck]

/-- **Acceptance.**  The programs that are accepted are the typable ones. -/
theorem Module.exists_ofProgram_iff (p : Surface.Program) :
    (∃ m, Module.ofProgram p = .ok m) ↔ p.Typable := by
  constructor
  · rintro ⟨m, h⟩
    exact (Module.ofProgram_ok h).typable
  · intro h
    exact exists_ofProgram_of_typable h

end Typed
end Offside

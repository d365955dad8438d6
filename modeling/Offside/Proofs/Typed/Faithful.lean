/-
  Offside/Proofs/Typed/Faithful.lean
  ==================================
  **The typed tree says what the surface tree says.**  A checked function has the statements
  of its source, one for one and in their order.  Only names have gone: a variable is the
  place of its name among the variables of the function, a callee the index of the import or
  function of its name, and a character its code point.

  Scopes and the signatures of imports are filled in while the checker goes.  A scope lists
  the variables found so far (`Scope.Lists`), which are a beginning of all variables of the
  function, so that a place found early is the place found in the end.  What a stretch of
  checking does to an import depends only on the calls of it in the tree that was made
  (`Infers`), and two stretches in a row do what one would do with the calls of both.
-/
import Offside.Proofs.Surface.Variables
import Offside.Proofs.Typed.WellTyped

namespace Offside.Typed

open Surface (written)

/-! ### Trees without names -/

mutual

/-- The expression is the surface expression with its names resolved, whatever types it
    carries. -/
inductive ExprResolves (vars : List String) (named : String → Callee → Prop) :
    Surface.Expr → Expr → Prop where
  | number (value : Int32) (t : ExprType) (span : Span) :
      ExprResolves vars named (.number value span) (.int value t span)
  | float (value : Number.Binary64) (t : ExprType) (span : Span) :
      ExprResolves vars named (.float value span) (.float value t span)
  | char (value : Char) (t : ExprType) (span : Span) :
      ExprResolves vars named (.char value span) (.int (Int32.ofInt value.toNat) t span)
  | symbol {name : String} {place : Nat} {t : ExprType} {span : Span}
      (found : vars[place]? = some name) :
      ExprResolves vars named (.symbol name span) (.slot (UInt32.ofNat place) t span)
  | binary {op : BinaryOp} {left right : Surface.Expr} {l r : Expr} {t : ExprType} {span : Span}
      (hl : ExprResolves vars named left l) (hr : ExprResolves vars named right r) :
      ExprResolves vars named (.binary op left right span) (.binary op l r t span)
  | compare {op : CompareOp} {left right : Surface.Expr} {l r : Expr} {n : NumType}
      {t : ExprType} {span : Span} (hl : ExprResolves vars named left l)
      (hr : ExprResolves vars named right r) :
      ExprResolves vars named (.compare op left right span) (.compare op n l r t span)
  | logic {op : BoolOp} {left right : Surface.Expr} {l r : Expr} {t : ExprType} {span : Span}
      (hl : ExprResolves vars named left l) (hr : ExprResolves vars named right r) :
      ExprResolves vars named (.logic op left right span) (.logic op l r t span)
  | negate {operand : Surface.Expr} {e : Expr} {t : ExprType} {span : Span}
      (he : ExprResolves vars named operand e) :
      ExprResolves vars named (.negate operand span) (.negate e t span)
  | call {name : String} {callee : Callee} {arguments : List Surface.Expr} {args : List Expr}
      {t : ExprType} {span : Span} (declared : named name callee)
      (hargs : ExprsResolve vars named arguments args) :
      ExprResolves vars named (.call name arguments span) (.call callee args t span)

inductive ExprsResolve (vars : List String) (named : String → Callee → Prop) :
    List Surface.Expr → List Expr → Prop where
  | nil : ExprsResolve vars named [] []
  | cons {e : Surface.Expr} {es : List Surface.Expr} {e' : Expr} {es' : List Expr}
      (he : ExprResolves vars named e e') (hes : ExprsResolve vars named es es') :
      ExprsResolve vars named (e :: es) (e' :: es')

end

mutual

/-- The statement is the surface statement with its names resolved. -/
inductive StmtResolves (vars : List String) (named : String → Callee → Prop) :
    Surface.Stmt → Stmt → Prop where
  | assign {target : String} {value : Surface.Expr} {place : Nat} {e : Expr} {span : Span}
      (found : vars[place]? = some target) (he : ExprResolves vars named value e) :
      StmtResolves vars named (.assign target value span)
        (.assign (UInt32.ofNat place) e span)
  | perform {call : Surface.Expr} {e : Expr} {span : Span}
      (he : ExprResolves vars named call e) :
      StmtResolves vars named (.perform call span) (.perform e span)
  | ifThen {condition : Surface.Expr} {body : List Surface.Stmt} {e : Expr} {ss : List Stmt}
      {inner span : Span} (he : ExprResolves vars named condition e)
      (hss : StmtsResolve vars named body ss) :
      StmtResolves vars named (.ifThen condition ⟨body, inner⟩ span) (.branch e ss [] span)
  | ifElse {condition : Surface.Expr} {body orElse : List Surface.Stmt} {e : Expr}
      {ss ss' : List Stmt} {inner inner' span : Span}
      (he : ExprResolves vars named condition e)
      (hss : StmtsResolve vars named body ss)
      (hss' : StmtsResolve vars named orElse ss') :
      StmtResolves vars named (.ifElse condition ⟨body, inner⟩ ⟨orElse, inner'⟩ span)
        (.branch e ss ss' span)
  | whileDo {condition : Surface.Expr} {body : List Surface.Stmt} {e : Expr} {ss : List Stmt}
      {inner span : Span} (he : ExprResolves vars named condition e)
      (hss : StmtsResolve vars named body ss) :
      StmtResolves vars named (.whileDo condition ⟨body, inner⟩ span) (.whileDo e ss span)
  | retNone (span : Span) : StmtResolves vars named (.ret none span) (.ret none span)
  | ret {value : Surface.Expr} {e : Expr} {span : Span}
      (he : ExprResolves vars named value e) :
      StmtResolves vars named (.ret (some value) span) (.ret (some e) span)
  | pass (span : Span) : StmtResolves vars named (.pass span) .pass
  | brk (span : Span) : StmtResolves vars named (.brk span) (.brk span)
  | cont (span : Span) : StmtResolves vars named (.cont span) (.cont span)

inductive StmtsResolve (vars : List String) (named : String → Callee → Prop) :
    List Surface.Stmt → List Stmt → Prop where
  | nil : StmtsResolve vars named [] []
  | cons {s : Surface.Stmt} {ss : List Surface.Stmt} {s' : Stmt} {ss' : List Stmt}
      (hs : StmtResolves vars named s s') (hss : StmtsResolve vars named ss ss') :
      StmtsResolve vars named (s :: ss) (s' :: ss')

end

mutual

theorem StmtResolves.alwaysReturns {vars : List String} {named : String → Callee → Prop}
    {st : Surface.Stmt} {st' : Stmt} (h : StmtResolves vars named st st') :
    st'.alwaysReturns = st.alwaysReturns := by
  cases h with
  | ifElse _ hss hss' =>
    simp only [Stmt.alwaysReturns, Surface.Stmt.alwaysReturns, Surface.Block.alwaysReturns,
      hss.alwaysReturns, hss'.alwaysReturns]
  | ifThen =>
    simp only [Stmt.alwaysReturns, Surface.Stmt.alwaysReturns, bodyReturns, Bool.and_false]
  | assign | perform | whileDo | retNone | ret | pass | brk | cont => rfl

theorem StmtsResolve.alwaysReturns {vars : List String} {named : String → Callee → Prop}
    {ss : List Surface.Stmt} {ss' : List Stmt} (h : StmtsResolve vars named ss ss') :
    bodyReturns ss' = Surface.someReturns ss := by
  cases h with
  | nil => rfl
  | cons hs hss =>
    rw [bodyReturns, Surface.someReturns, hs.alwaysReturns, hss.alwaysReturns]

end

/-! ### Places of vars -/

/-- Every variable in scope has the place of its name as its slot. -/
def Scope.Numbered (scope : Scope) (vars : List String) : Prop :=
  ∀ x v, scope.find? x = some v → ∃ place, vars[place]? = some x ∧ v.slot = UInt32.ofNat place

/-- The scope has these variables and no others, in the order of their slots. -/
structure Scope.Lists (scope : Scope) (names : List String) : Prop where
  numbered : scope.Numbered names
  missing : ∀ x, scope.find? x = none → x ∉ names
  distinct : names.Nodup
  length : names.length = scope.paramCount + scope.locals.length

theorem Scope.Lists.mem_iff {scope : Scope} {names : List String} (h : scope.Lists names)
    {x : String} : x ∈ names ↔ ∃ v, scope.find? x = some v := by
  constructor
  · intro hx
    cases hfind : scope.find? x with
    | none => exact (h.missing x hfind hx).elim
    | some v => exact ⟨v, rfl⟩
  · rintro ⟨v, hv⟩
    obtain ⟨place, hplace, -⟩ := h.numbered x v hv
    exact List.mem_of_getElem? hplace

theorem Scope.Numbered.extend {scope : Scope} {names vars : List String}
    (h : scope.Numbered names) (hinit : names <+: vars) : scope.Numbered vars := by
  intro x v hv
  obtain ⟨place, hplace, hslot⟩ := h x v hv
  exact ⟨place, getElem?_extend hinit hplace, hslot⟩

/-- A new variable gets the next slot. -/
theorem Scope.Lists.enter {scope scope' : Scope} {names : List String} (h : scope.Lists names)
    {v : Variable} (hnew : scope.find? v.name = none) (hslot : v.slot = UInt32.ofNat names.length)
    (hvars : scope'.vars = (scope.enter v).vars)
    (hlength : scope'.paramCount + scope'.locals.length =
      scope.paramCount + scope.locals.length + 1) :
    scope'.Lists (names ++ [v.name]) := by
  have hfind : ∀ x, scope'.find? x = if x = v.name then some v else scope.find? x := by
    intro x
    rw [← Scope.find?_enter_eq, Scope.find?, Scope.find?, hvars]
  refine ⟨?_, ?_, nodup_concat h.distinct (h.missing _ hnew), ?_⟩
  · intro x w hw
    rw [hfind] at hw
    by_cases hx : x = v.name
    · rw [if_pos hx] at hw
      obtain rfl := Option.some.inj hw
      exact ⟨names.length, by simp [hx], hslot⟩
    · rw [if_neg hx] at hw
      obtain ⟨place, hplace, hplaced⟩ := h.numbered x w hw
      exact ⟨place, getElem?_extend (List.prefix_append _ _) hplace, hplaced⟩
  · intro x hnone hmem
    rw [hfind] at hnone
    by_cases hx : x = v.name
    · rw [if_pos hx] at hnone
      cases hnone
    · rw [if_neg hx] at hnone
      rcases List.mem_append.mp hmem with hmem | hmem
      · exact h.missing x hnone hmem
      · exact hx (List.mem_singleton.mp hmem)
  · rw [List.length_append, List.length_singleton, hlength, h.length]

theorem AssignsTo.lists {xs : List String} {scope scope' : Scope} {name : String} {n : NumType}
    {slot : UInt32} (h : AssignsTo scope name n slot scope')
    (hlists : scope.Lists xs.eraseDups) :
    scope'.Lists (xs ++ [name]).eraseDups ∧
      ∃ place, (xs ++ [name]).eraseDups[place]? = some name ∧ slot = UInt32.ofNat place := by
  rw [Surface.eraseDups_concat]
  cases h with
  | @known v hfind _ =>
    have hmem : name ∈ xs := List.mem_eraseDups.mp (hlists.mem_iff.mpr ⟨v, hfind⟩)
    rw [if_pos hmem]
    exact ⟨hlists, hlists.numbered name v hfind⟩
  | fresh hfind =>
    have hmem : name ∉ xs := fun hmem => hlists.missing name hfind (List.mem_eraseDups.mpr hmem)
    rw [if_neg hmem]
    refine ⟨?_, xs.eraseDups.length, by simp, by rw [hlists.length]; rfl⟩
    refine hlists.enter (v := ⟨name, n, scope.nextLocal⟩) hfind ?_ rfl ?_
    · rw [hlists.length]
      rfl
    · simp [Scope.declareLocal, Scope.enter, Nat.add_assoc]

theorem Scope.lists_empty (function : String) (result : Option NumType) :
    (Scope.empty function result).Lists [] := by
  refine ⟨?_, ?_, List.nodup_nil, rfl⟩
  · intro x v hv
    simp [Scope.empty, Scope.find?] at hv
  · intro x _
    exact List.not_mem_nil

/-! ### Parameters -/

theorem declareParam_ok {scope scope' : Scope} {name : String} {n : NumType}
    {position : Position} :
    scope.declareParam name n position = .ok scope' ↔
      scope.find? name = none ∧
        scope' = { scope.enter ⟨name, n, scope.nextParam⟩ with
          paramCount := scope.paramCount + 1 } := by
  rw [Scope.declareParam]
  cases scope.find? name with
  | some v => simp
  | none => simp [eq_comm]

theorem paramScope_lists {ps : List (Surface.Parameter × NumType)} {names : List String}
    {scope scope' : Scope} (h : paramScope scope ps = .ok scope') (hlists : scope.Lists names)
    (hlocals : scope.locals = []) :
    scope'.Lists (names ++ ps.map (·.1.name)) ∧ scope'.locals = [] ∧
      scope'.result = scope.result := by
  induction ps generalizing names scope with
  | nil =>
    obtain rfl := Except.ok.inj h
    rw [List.map_nil, List.append_nil]
    exact ⟨hlists, hlocals, rfl⟩
  | cons p ps ih =>
    obtain ⟨p, n⟩ := p
    obtain ⟨scope₁, hparam, hrest⟩ := bind_eq_ok.mp h
    obtain ⟨hnew, rfl⟩ := declareParam_ok.mp hparam
    have hlength : names.length = scope.paramCount := by
      rw [hlists.length, hlocals]
      rfl
    have hlists₁ : Scope.Lists { scope.enter ⟨p.name, n, scope.nextParam⟩ with
        paramCount := scope.paramCount + 1 } (names ++ [p.name]) :=
      hlists.enter (v := ⟨p.name, n, scope.nextParam⟩) hnew (by rw [hlength]; rfl) rfl
        (by simp [Scope.enter]; omega)
    have hrest' := ih hrest hlists₁ hlocals
    rwa [List.append_assoc, List.singleton_append] at hrest'

theorem map_name_zip {ps : List Surface.Parameter} {ns : List NumType}
    (h : ps.length = ns.length) : (ps.zip ns).map (·.1.name) = ps.map (·.name) := by
  have hfst : (ps.zip ns).map Prod.fst = ps := List.map_fst_zip (by omega)
  have hmap : ((ps.zip ns).map Prod.fst).map (·.name) = (ps.zip ns).map (·.1.name) :=
    List.map_map
  rw [← hmap, hfst]

/-- The scope in which the body of a function is checked. -/
theorem functionScope_lists {f : Surface.Function} {signature : Signature} {scope : Scope}
    (h : paramScope (Scope.empty f.name signature.result) (f.params.zip signature.params) =
      .ok scope) (types : Annotates (f.params.map (·.type)) f.result signature) :
    scope.Lists (f.params.map (·.name)) ∧ scope.locals = [] ∧
      scope.result = signature.result := by
  have hlength : f.params.length = signature.params.length := by
    simpa using types.length_params
  have hscope := paramScope_lists h (Scope.lists_empty _ _) rfl
  rwa [List.nil_append, map_name_zip hlength] at hscope

/-! ### Bodies -/

section Bodies

variable {vars : List String} {named : String → Callee → Prop}

theorem Callables.Extends.find?_eq {t t' : Callables} (h : t.Extends t') (name : String) :
    t'.find? name = t.find? name := by
  rw [Callables.find?, Callables.find?, h.names]

theorem Callables.Extends.keep_named {t t' : Callables} (h : t.Extends t')
    (hnamed : ∀ name c, t.find? name = some c → named name c) :
    ∀ name c, t'.find? name = some c → named name c := by
  intro name c hc
  rw [h.find?_eq] at hc
  exact hnamed name c hc

mutual

theorem ExprChecked.resolves {scope : Scope} {t t' : Callables} {e : Surface.Expr} {e' : Expr}
    (h : ExprChecked scope t e e' t') (hvars : scope.Numbered vars)
    (hnamed : ∀ name c, t.find? name = some c → named name c) :
    ExprResolves vars named e e' := by
  cases h with
  | number => exact .number _ _ _
  | float => exact .float _ _ _
  | char => exact .char _ _ _
  | @symbol _ name v _ declared =>
    obtain ⟨place, hplace, hslot⟩ := hvars name v declared
    rw [hslot]
    exact .symbol hplace
  | binary hl hr _ _ =>
    exact .binary (hl.resolves hvars hnamed) (hr.resolves hvars (hl.extends.keep_named hnamed))
  | compare hl hr _ _ =>
    exact .compare (hl.resolves hvars hnamed) (hr.resolves hvars (hl.extends.keep_named hnamed))
  | logic hl hr _ _ =>
    exact .logic (hl.resolves hvars hnamed) (hr.resolves hvars (hl.extends.keep_named hnamed))
  | negate he _ => exact .negate (he.resolves hvars hnamed)
  | call declared hargs _ _ =>
    exact .call (hnamed _ _ declared) (hargs.resolves hvars hnamed)

theorem ExprsChecked.resolves {scope : Scope} {t t' : Callables} {es : List Surface.Expr}
    {es' : List Expr} (h : ExprsChecked scope t es es' t') (hvars : scope.Numbered vars)
    (hnamed : ∀ name c, t.find? name = some c → named name c) :
    ExprsResolve vars named es es' := by
  cases h with
  | nil => exact .nil
  | cons he hes =>
    exact .cons (he.resolves hvars hnamed) (hes.resolves hvars (he.extends.keep_named hnamed))

end

/-- The names after some accesses, if those of later ones are added at the end. -/
theorem eraseDups_prefix_of_append {xs ws ws' : List String}
    (h : (xs ++ (ws ++ ws')).eraseDups <+: vars) : (xs ++ ws).eraseDups <+: vars := by
  rw [← List.append_assoc] at h
  exact (Surface.eraseDups_prefix _ _).trans h

theorem Scope.Lists.numbered_of_append {scope : Scope} {xs ws : List String}
    (h : scope.Lists xs.eraseDups) (hinit : (xs ++ ws).eraseDups <+: vars) :
    scope.Numbered vars :=
  h.numbered.extend ((Surface.eraseDups_prefix _ _).trans hinit)

mutual

theorem StmtChecked.resolves {t t' : Callables} {scope scope' : Scope} {st : Surface.Stmt}
    {st' : Stmt} (h : StmtChecked t scope st st' t' scope') {xs : List String}
    (hlists : scope.Lists xs.eraseDups)
    (hinit : (xs ++ written st.accesses).eraseDups <+: vars)
    (hnamed : ∀ name c, t.find? name = some c → named name c) :
    StmtResolves vars named st st' ∧
      scope'.Lists (xs ++ written st.accesses).eraseDups := by
  have hvars := hlists.numbered_of_append hinit
  cases h with
  | assign he _ assigns =>
    simp only [Surface.Stmt.accesses, Surface.written_append, Surface.written_expr,
      List.nil_append] at hinit ⊢
    obtain ⟨hlists', place, hplace, rfl⟩ := assigns.lists hlists
    exact ⟨.assign (getElem?_extend hinit hplace) (he.resolves hvars hnamed), hlists'⟩
  | perform he =>
    rw [Surface.Stmt.accesses, Surface.written_expr, List.append_nil]
    exact ⟨.perform (he.resolves hvars hnamed), hlists⟩
  | ifThen he _ hss =>
    simp only [Surface.Stmt.accesses, Surface.Block.accesses, Surface.written_append,
      Surface.written_expr, List.nil_append] at hinit ⊢
    obtain ⟨hss', hlists'⟩ := hss.resolves hlists hinit (he.extends.keep_named hnamed)
    exact ⟨.ifThen (he.resolves hvars hnamed) hss', hlists'⟩
  | ifElse he _ hss hos =>
    simp only [Surface.Stmt.accesses, Surface.Block.accesses, Surface.written_append,
      Surface.written_expr, List.nil_append] at hinit ⊢
    obtain ⟨hss', hlists₁⟩ := hss.resolves hlists (eraseDups_prefix_of_append hinit)
      (he.extends.keep_named hnamed)
    rw [← List.append_assoc] at hinit ⊢
    obtain ⟨hos', hlists'⟩ := hos.resolves hlists₁ hinit
      ((he.extends.trans hss.extends.1).keep_named hnamed)
    exact ⟨.ifElse (he.resolves hvars hnamed) hss' hos', hlists'⟩
  | whileDo he _ hss =>
    simp only [Surface.Stmt.accesses, Surface.Block.accesses, Surface.written_append,
      Surface.written_expr, List.nil_append] at hinit ⊢
    obtain ⟨hss', hlists'⟩ := hss.resolves hlists hinit (he.extends.keep_named hnamed)
    exact ⟨.whileDo (he.resolves hvars hnamed) hss', hlists'⟩
  | ret _ he _ =>
    rw [Surface.Stmt.accesses, Surface.written_expr, List.append_nil]
    exact ⟨.ret (he.resolves hvars hnamed), hlists⟩
  | retNone | pass | brk | cont =>
    rw [Surface.Stmt.accesses, Surface.written_nil, List.append_nil]
    refine ⟨?_, hlists⟩
    constructor

theorem StmtsChecked.resolves {t t' : Callables} {scope scope' : Scope}
    {ss : List Surface.Stmt} {ss' : List Stmt} (h : StmtsChecked t scope ss ss' t' scope')
    {xs : List String} (hlists : scope.Lists xs.eraseDups)
    (hinit : (xs ++ written (Surface.stmtAccesses ss)).eraseDups <+: vars)
    (hnamed : ∀ name c, t.find? name = some c → named name c) :
    StmtsResolve vars named ss ss' ∧
      scope'.Lists (xs ++ written (Surface.stmtAccesses ss)).eraseDups := by
  cases h with
  | nil =>
    rw [Surface.stmtAccesses, Surface.written_nil, List.append_nil]
    exact ⟨.nil, hlists⟩
  | cons hs hss =>
    rw [Surface.stmtAccesses, Surface.written_append] at hinit ⊢
    obtain ⟨hs', hlists₁⟩ := hs.resolves hlists (eraseDups_prefix_of_append hinit) hnamed
    rw [← List.append_assoc] at hinit ⊢
    obtain ⟨hss', hlists'⟩ := hss.resolves hlists₁ hinit (hs.extends.1.keep_named hnamed)
    exact ⟨.cons hs' hss', hlists'⟩

end

end Bodies

/-! ### Calls -/

mutual

/-- The argument types of the calls of `c`, in the order in which the calls are made: those
    among the arguments of a call before the call itself. -/
def Expr.callsOf (c : Callee) : Expr → List (List ExprType)
  | .int _ _ _ | .float _ _ _ | .slot _ _ _ => []
  | .binary _ l r _ _ | .compare _ _ l r _ _ | .logic _ l r _ _ => l.callsOf c ++ r.callsOf c
  | .negate e _ _ => e.callsOf c
  | .call callee args _ _ =>
    exprCallsOf c args ++ if callee = c then [args.map Expr.type] else []

def exprCallsOf (c : Callee) : List Expr → List (List ExprType)
  | [] => []
  | e :: es => e.callsOf c ++ exprCallsOf c es

end

mutual

def Stmt.callsOf (c : Callee) : Stmt → List (List ExprType)
  | .assign _ e _ | .perform e _ => e.callsOf c
  | .branch e ss ss' _ => e.callsOf c ++ (stmtCallsOf c ss ++ stmtCallsOf c ss')
  | .whileDo e ss _ => e.callsOf c ++ stmtCallsOf c ss
  | .ret (some e) _ => e.callsOf c
  | .ret none _ | .pass | .brk _ | .cont _ => []

def stmtCallsOf (c : Callee) : List Stmt → List (List ExprType)
  | [] => []
  | s :: ss => s.callsOf c ++ stmtCallsOf c ss

end

def Module.callsOf (m : Module) (c : Callee) : List (List ExprType) :=
  m.functions.flatMap fun f => stmtCallsOf c f.body

/-- What becomes of an import while these calls of it are checked: the first of them gives
    it its signature, if it lacks one. -/
inductive Infers (q : PendingImport) : List (List ExprType) → PendingImport → Prop where
  | known (calls : List (List ExprType)) (h : q.pending = false) : Infers q calls q
  | uncalled (h : q.pending = true) : Infers q [] q
  | called {params : List NumType} (more : List (List ExprType)) (h : q.pending = true) :
      Infers q (params.map ExprType.value :: more)
        ⟨{ q.declared with signature := ⟨params, none⟩ }, false⟩

theorem Infers.refl (q : PendingImport) : Infers q [] q := by
  cases h : q.pending with
  | false => exact .known [] h
  | true => exact .uncalled h

theorem Infers.trans {q q' q'' : PendingImport} {calls calls' : List (List ExprType)}
    (h : Infers q calls q') (h' : Infers q' calls' q'') : Infers q (calls ++ calls') q'' := by
  cases h with
  | known calls hknown =>
    cases h' with
    | known _ _ => exact .known _ hknown
    | uncalled hpending => rw [hknown] at hpending; cases hpending
    | called _ hpending => rw [hknown] at hpending; cases hpending
  | uncalled _ => exact h'
  | called more hpending =>
    cases h' with
    | known calls' _ => exact .called (more ++ calls') hpending
    | uncalled hcalled => cases hcalled
    | called _ hcalled => cases hcalled

/-- What becomes of all imports. -/
def Callables.Infers (t : Callables) (calls : Callee → List (List ExprType)) (t' : Callables) :
    Prop :=
  ∀ index q, t.imports[index]? = some q →
    ∃ q', t'.imports[index]? = some q' ∧ Typed.Infers q (calls (.imported index)) q'

theorem Callables.Infers.refl (t : Callables) : t.Infers (fun _ => []) t := by
  intro index q hq
  exact ⟨q, hq, .refl q⟩

theorem Callables.Infers.trans {t t' t'' : Callables} {calls calls' : Callee → List (List ExprType)}
    (h : t.Infers calls t') (h' : t'.Infers calls' t'') :
    t.Infers (fun c => calls c ++ calls' c) t'' := by
  intro index q hq
  obtain ⟨q', hq', hinfers⟩ := h index q hq
  obtain ⟨q'', hq'', hinfers'⟩ := h' index q' hq'
  exact ⟨q'', hq'', hinfers.trans hinfers'⟩

theorem Settles.infers {t t' : Callables} {callee : Callee} {args : List Expr}
    (h : Settles t callee args t') :
    t.Infers (fun c => if callee = c then [args.map Expr.type] else []) t' := by
  intro index q hq
  by_cases hcallee : callee = .imported index
  · subst hcallee
    cases h with
    | known hpending =>
      have hknown : q.pending = false := by simpa [Callables.pending?, hq] using hpending
      exact ⟨q, hq, .known _ hknown⟩
    | first hpending types =>
      obtain ⟨heq, hi⟩ := Callables.pending?_eq_some hpending
      obtain rfl := Callee.imported.inj heq
      obtain rfl := Option.some.inj (hi.symm.trans hq)
      refine ⟨_, by simp only [Callables.settle, List.getElem?_modify, hi]; rfl, ?_⟩
      simp only [if_true, types]
      exact .called [] rfl
  · simp only [if_neg hcallee]
    refine ⟨q, ?_, .refl q⟩
    cases h with
    | known _ => exact hq
    | first hpending _ =>
      obtain ⟨rfl, -⟩ := Callables.pending?_eq_some hpending
      have hne : _ ≠ index := fun heq => hcallee (congrArg Callee.imported heq)
      simpa [Callables.settle, List.getElem?_modify, hne] using hq

mutual

theorem ExprChecked.infers {scope : Scope} {t t' : Callables} {e : Surface.Expr} {e' : Expr}
    (h : ExprChecked scope t e e' t') : t.Infers (fun c => e'.callsOf c) t' := by
  cases h with
  | number | float | char | symbol => exact .refl t
  | binary hl hr _ _ => exact hl.infers.trans hr.infers
  | compare hl hr _ _ => exact hl.infers.trans hr.infers
  | logic hl hr _ _ => exact hl.infers.trans hr.infers
  | negate he _ => exact he.infers
  | call _ hargs settles _ => exact hargs.infers.trans settles.infers

theorem ExprsChecked.infers {scope : Scope} {t t' : Callables} {es : List Surface.Expr}
    {es' : List Expr} (h : ExprsChecked scope t es es' t') :
    t.Infers (fun c => exprCallsOf c es') t' := by
  cases h with
  | nil => exact .refl t
  | cons he hes => exact he.infers.trans hes.infers

end

mutual

theorem StmtChecked.infers {t t' : Callables} {scope scope' : Scope} {st : Surface.Stmt}
    {st' : Stmt} (h : StmtChecked t scope st st' t' scope') :
    t.Infers (fun c => st'.callsOf c) t' := by
  cases h with
  | assign he _ _ => exact he.infers
  | perform he => exact he.infers
  | ifThen he _ hss => exact he.infers.trans (hss.infers.trans (.refl _))
  | ifElse he _ hss hos => exact he.infers.trans (hss.infers.trans hos.infers)
  | whileDo he _ hss => exact he.infers.trans hss.infers
  | ret _ he _ => exact he.infers
  | retNone | pass | brk | cont => exact .refl t

theorem StmtsChecked.infers {t t' : Callables} {scope scope' : Scope}
    {ss : List Surface.Stmt} {ss' : List Stmt} (h : StmtsChecked t scope ss ss' t' scope') :
    t.Infers (fun c => stmtCallsOf c ss') t' := by
  cases h with
  | nil => exact .refl t
  | cons hs hss => exact hs.infers.trans hss.infers

end

theorem FunctionsChecked.infers {t t' : Callables}
    {fs : List (Surface.Function × Signature)} {gs : List Function}
    (h : FunctionsChecked t fs gs t') :
    t.Infers (fun c => gs.flatMap fun g => stmtCallsOf c g.body) t' := by
  induction h with
  | nil t => exact .refl t
  | cons hf _ ih =>
    cases hf with
    | intro _ hbody _ => exact hbody.infers.trans ih

/-! ### Modules -/

/-- The function is that of the source with its names resolved.  Its variables are numbered
    by their places, without a gap and none twice. -/
structure Function.Resolves (p : Surface.Program) (f : Surface.Function) (g : Function) :
    Prop where
  name : g.name = f.name
  span : g.span = f.span
  signature : Annotates (f.params.map (·.type)) f.result g.signature
  params : f.params.map (·.name) <+: f.varNames
  distinct : f.varNames.Nodup
  slots : f.varNames.length = g.slots.length
  body : StmtsResolve f.varNames (fun name c => c.name? p = some name) f.body.body g.body

/-- The import is that of the source.  If no types are written for it, it has no result, and
    its parameters are as in the first of its calls. -/
structure Import.Resolves (i : Surface.Import) (calls : List (List ExprType)) (j : Import) :
    Prop where
  module : j.module = i.module
  name : j.name = i.name
  span : j.span = i.span
  annotated : ∀ a, i.signature = some a → Annotates a.params a.result j.signature
  inferred : i.signature = none → j.signature.result = none ∧
    j.signature.params.map ExprType.value = calls.headD []

/-- The module has the imports and functions of the program, in their order. -/
structure Module.Resolves (p : Surface.Program) (m : Module) : Prop where
  callees : (callableNames p).Nodup
  functions : List.Forall₂ (Function.Resolves p) p.functions m.functions
  importCount : m.imports.length = p.imports.length
  imports : ∀ index i, p.imports[index]? = some i →
    ∃ j, m.imports[index]? = some j ∧ Import.Resolves i (m.callsOf (.imported index)) j

theorem FunctionChecked.resolves {p : Surface.Program} {t t' : Callables} {f : Surface.Function}
    {signature : Signature} {g : Function} (h : FunctionChecked t f signature g t')
    (types : Annotates (f.params.map (·.type)) f.result signature)
    (hnamed : ∀ name c, t.find? name = some c → c.name? p = some name) : g.Resolves p f := by
  cases h with
  | @intro scope scope' body _ hparams hbody _ =>
    have hlength : f.params.length = signature.params.length := by
      simpa using types.length_params
    obtain ⟨hlists, hlocals, -⟩ := functionScope_lists hparams types
    have hself := Surface.eraseDups_of_nodup hlists.distinct
    rw [← hself] at hlists
    obtain ⟨hresolves, hlists'⟩ := hbody.resolves hlists (List.prefix_refl _) hnamed
    rw [← Surface.Block.accesses_eq] at hresolves hlists'
    have hcount : scope'.paramCount = signature.params.length := by
      have hparamCount := hlists.length
      rw [hself, hlocals, List.length_map, List.length_nil] at hparamCount
      rw [hbody.extends.2.paramCount]
      omega
    refine ⟨rfl, rfl, types, ?_, hlists'.distinct, ?_, hresolves⟩
    · have hinit := Surface.eraseDups_prefix (f.params.map (·.name)) (written f.body.accesses)
      rwa [hself] at hinit
    · rw [Surface.Function.varNames, hlists'.length, hcount, Function.slots, List.length_append]

theorem FunctionsChecked.resolves {p : Surface.Program} {t t' : Callables}
    {fs : List Surface.Function} {signatures : List Signature} {gs : List Function}
    (h : FunctionsChecked t (fs.zip signatures) gs t')
    (types : List.Forall₂ (fun f s => Annotates (f.params.map (·.type)) f.result s) fs signatures)
    (hnamed : ∀ name c, t.find? name = some c → c.name? p = some name) :
    List.Forall₂ (Function.Resolves p) fs gs := by
  induction types generalizing t gs with
  | nil =>
    cases h with
    | nil => exact .nil
  | cons hs _ ih =>
    cases h with
    | cons hf hfs =>
      exact .cons (hf.resolves hs hnamed) (ih hfs (hf.extends.keep_named hnamed))

theorem Entered.resolves {i : Surface.Import} {q q' : PendingImport}
    {calls : List (List ExprType)} (h : Entered i q) (hinfers : Infers q calls q') :
    Import.Resolves i calls q'.declared := by
  cases h with
  | unannotated hnone =>
    have habsurd : ∀ a, i.signature = some a → False := by
      intro a ha
      rw [hnone] at ha
      cases ha
    cases hinfers with
    | known _ hknown => cases hknown
    | uncalled _ => exact ⟨rfl, rfl, rfl, fun a ha => (habsurd a ha).elim, fun _ => ⟨rfl, rfl⟩⟩
    | called _ _ => exact ⟨rfl, rfl, rfl, fun a ha => (habsurd a ha).elim, fun _ => ⟨rfl, rfl⟩⟩
  | @annotated a s hsome types =>
    have hwritten : i.signature ≠ none := by simp [hsome]
    cases hinfers with
    | known _ _ =>
      refine ⟨rfl, rfl, rfl, ?_, fun hnone => (hwritten hnone).elim⟩
      intro b hb
      rw [hsome] at hb
      obtain rfl := Option.some.inj hb
      exact types
    | uncalled hpending => cases hpending
    | called _ hpending => cases hpending

theorem ProgramChecked.resolves {p : Surface.Program} {m : Module} (h : ProgramChecked p m) :
    m.Resolves p := by
  obtain @⟨t, t', functions, hdeclared, hfunctions⟩ := h
  have hby := Callables.declaredBy_of_ofProgram hdeclared
  refine ⟨hby.distinct, ?_, ?_, ?_⟩
  · exact hfunctions.resolves hby.functions fun name c hc => (hby.names name c).mp hc
  · rw [List.length_map, hfunctions.extends.imports, hby.imports.length_eq]
  · intro index i hi
    obtain ⟨-, q, hq, hentered⟩ := hby.import_at hi
    obtain ⟨q', hq', hinfers⟩ := hfunctions.infers index q hq
    exact ⟨q'.declared, by simp [hq'], hentered.resolves hinfers⟩

/-- **The checker is sound and faithful.**  What it makes of a program has the program's
    imports and functions with their names resolved, and it is well typed, if slots can tell
    the variables of each function apart. -/
theorem Module.ofProgram_faithful {p : Surface.Program} {m : Module}
    (h : Module.ofProgram p = .ok m) :
    m.Resolves p ∧
      ((∀ f ∈ p.functions, f.varNames.length ≤ UInt32.size) → m.WellTyped) := by
  have hresolves : m.Resolves p := (Module.ofProgram_ok h).resolves
  refine ⟨hresolves, ?_⟩
  intro fits
  refine Module.wellTyped_of_ofProgram h ?_
  intro g hg
  obtain ⟨f, hf, hfg⟩ := exists_left_of_mem hresolves.functions hg
  rw [← hfg.slots]
  exact fits f hf

/-- An import that gets its types in a branch, one that is never called, and a variable that
    both branches assign first:

        from env import log, mark

        def f(n: int) -> int:
            if n < ord('a'):
                k = n
                log(k, 1.5)
            else:
                k = 0
            while 0 < k:
                k = k - 1
                log(k, 0.5)
            return k
-/
def typedInBranch : Surface.Program where
  imports := [⟨"env", "log", none, .nowhere⟩, ⟨"env", "mark", none, .nowhere⟩]
  functions :=
    [{ name := "f"
       params := [⟨"n", ⟨"int", .nowhere⟩, .nowhere⟩]
       result := some ⟨"int", .nowhere⟩
       body :=
         ⟨[.ifElse (.compare .lt (.symbol "n" .nowhere) (.char 'a' .nowhere) .nowhere)
             ⟨[.assign "k" (.symbol "n" .nowhere) .nowhere,
               .perform (.call "log"
                 [.symbol "k" .nowhere, .float ⟨0x3FF8000000000000⟩ .nowhere] .nowhere) .nowhere],
               .nowhere⟩
             ⟨[.assign "k" (.number 0 .nowhere) .nowhere], .nowhere⟩ .nowhere,
           .whileDo (.compare .lt (.number 0 .nowhere) (.symbol "k" .nowhere) .nowhere)
             ⟨[.assign "k" (.binary .sub (.symbol "k" .nowhere) (.number 1 .nowhere) .nowhere)
                 .nowhere,
               .perform (.call "log"
                 [.symbol "k" .nowhere, .float ⟨0x3FE0000000000000⟩ .nowhere] .nowhere) .nowhere],
               .nowhere⟩ .nowhere,
           .ret (some (.symbol "k" .nowhere)) .nowhere], .nowhere⟩
       span := .nowhere }]

theorem typedInBranch_faithful :
    ∃ m, Module.ofProgram typedInBranch = .ok m ∧ m.Resolves typedInBranch ∧ m.WellTyped ∧
      m.imports.map (·.signature) = [⟨[.int, .float], none⟩, ⟨[], none⟩] := by
  obtain ⟨hresolves, htyped⟩ := Module.ofProgram_faithful (p := typedInBranch) rfl
  exact ⟨_, rfl, hresolves, htyped (by decide), rfl⟩

end Offside.Typed

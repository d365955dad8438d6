/-
  Offside/Proofs/Typed/Checked.lean
  =================================
  **What the checker does, as rules.**  The checker is written as a sequence of steps over a
  state.  Here the same is said by rules without steps: what an expression of the surface
  tree becomes in a scope, and how the callables and the scope change on the way.  Whatever
  the checker accepts is derived by the rules (`checkExpr_ok` to `Module.ofProgram_ok`), so
  that a property of accepted programs is proved by induction over a derivation and never
  by going through the checker again.
-/
import Offside.Proofs.Sequence
import Offside.Typed.Check

namespace Offside.Typed

/-! ### Rules for expressions -/

/-- The callables after a first look at a call: if the callee was pending, its signature
    now has the types of the arguments and no result. -/
inductive Settles (t : Callables) (callee : Callee) (arguments : List Expr) :
    Callables → Prop where
  | known (h : t.pending? callee = none) : Settles t callee arguments t
  | first {index : Nat} {i : Import} {params : List NumType}
      (h : t.pending? callee = some (index, i))
      (types : arguments.map Expr.type = params.map ExprType.value) :
      Settles t callee arguments (t.settle index ⟨params, none⟩)

mutual

/-- What an expression becomes in a scope, and the callables afterwards. -/
inductive ExprChecked (scope : Scope) :
    Callables → Surface.Expr → Expr → Callables → Prop where
  | number (t : Callables) (value : Int32) (span : Span) :
      ExprChecked scope t (.number value span) (.int value (.value .int) span) t
  | float (t : Callables) (value : Number.Binary64) (span : Span) :
      ExprChecked scope t (.float value span) (.float value (.value .float) span) t
  | char (t : Callables) (value : Char) (span : Span) :
      ExprChecked scope t (.char value span)
        (.int (Int32.ofInt value.toNat) (.value .int) span) t
  | symbol {t : Callables} {name : String} {v : Variable} {span : Span}
      (declared : scope.find? name = some v) :
      ExprChecked scope t (.symbol name span) (.slot v.slot (.value v.type) span) t
  | binary {t t₁ t₂ : Callables} {op : BinaryOp} {left right : Surface.Expr} {l r : Expr}
      {n : NumType} {span : Span} (hl : ExprChecked scope t left l t₁)
      (hr : ExprChecked scope t₁ right r t₂) (tl : l.type = .value n) (tr : r.type = .value n) :
      ExprChecked scope t (.binary op left right span) (.binary op l r (.value n) span) t₂
  | compare {t t₁ t₂ : Callables} {op : CompareOp} {left right : Surface.Expr} {l r : Expr}
      {n : NumType} {span : Span} (hl : ExprChecked scope t left l t₁)
      (hr : ExprChecked scope t₁ right r t₂) (tl : l.type = .value n) (tr : r.type = .value n) :
      ExprChecked scope t (.compare op left right span) (.compare op n l r .bool span) t₂
  | logic {t t₁ t₂ : Callables} {op : BoolOp} {left right : Surface.Expr} {l r : Expr}
      {span : Span} (hl : ExprChecked scope t left l t₁)
      (hr : ExprChecked scope t₁ right r t₂) (tl : l.type = .bool) (tr : r.type = .bool) :
      ExprChecked scope t (.logic op left right span) (.logic op l r .bool span) t₂
  | negate {t t₁ : Callables} {operand : Surface.Expr} {e : Expr} {n : NumType} {span : Span}
      (he : ExprChecked scope t operand e t₁) (te : e.type = .value n) :
      ExprChecked scope t (.negate operand span) (.negate e (.value n) span) t₁
  | call {t t₁ t₂ : Callables} {name : String} {callee : Callee}
      {arguments : List Surface.Expr} {args : List Expr} {span : Span}
      (declared : t.find? name = some callee) (hargs : ExprsChecked scope t arguments args t₁)
      (settles : Settles t₁ callee args t₂)
      (types : args.map Expr.type = (t₂.signature callee).params.map ExprType.value) :
      ExprChecked scope t (.call name arguments span)
        (.call callee args (.ofResult (t₂.signature callee).result) span) t₂

/-- What expressions become, from left to right. -/
inductive ExprsChecked (scope : Scope) :
    Callables → List Surface.Expr → List Expr → Callables → Prop where
  | nil (t : Callables) : ExprsChecked scope t [] [] t
  | cons {t t₁ t₂ : Callables} {e : Surface.Expr} {es : List Surface.Expr} {e' : Expr}
      {es' : List Expr} (he : ExprChecked scope t e e' t₁)
      (hes : ExprsChecked scope t₁ es es' t₂) :
      ExprsChecked scope t (e :: es) (e' :: es') t₂

end

/-! ### Rules for statements -/

/-- The slot that a value is assigned to under a name, and the scope afterwards. -/
inductive AssignsTo (scope : Scope) (name : String) (type : NumType) :
    UInt32 → Scope → Prop where
  | known {v : Variable} (h : scope.find? name = some v) (same : v.type = type) :
      AssignsTo scope name type v.slot scope
  | fresh (h : scope.find? name = none) :
      AssignsTo scope name type scope.nextLocal (scope.declareLocal name type)

mutual

/-- What a statement becomes, and the callables and the scope afterwards. -/
inductive StmtChecked :
    Callables → Scope → Surface.Stmt → Stmt → Callables → Scope → Prop where
  | assign {t t' : Callables} {scope scope' : Scope} {target : String} {value : Surface.Expr}
      {e : Expr} {n : NumType} {slot : UInt32} {span : Span}
      (he : ExprChecked scope t value e t') (te : e.type = .value n)
      (assigns : AssignsTo scope target n slot scope') :
      StmtChecked t scope (.assign target value span) (.assign slot e span) t' scope'
  | perform {t t' : Callables} {scope : Scope} {call : Surface.Expr} {e : Expr} {span : Span}
      (he : ExprChecked scope t call e t') :
      StmtChecked t scope (.perform call span) (.perform e span) t' scope
  | ifThen {t t₁ t' : Callables} {scope scope' : Scope} {condition : Surface.Expr}
      {body : List Surface.Stmt} {e : Expr} {ss : List Stmt} {inner span : Span}
      (he : ExprChecked scope t condition e t₁) (te : e.type = .bool)
      (hss : StmtsChecked t₁ scope body ss t' scope') :
      StmtChecked t scope (.ifThen condition ⟨body, inner⟩ span) (.branch e ss [] span) t' scope'
  | ifElse {t t₁ t₂ t' : Callables} {scope scope₁ scope' : Scope} {condition : Surface.Expr}
      {body orElse : List Surface.Stmt} {e : Expr} {ss ss' : List Stmt}
      {inner inner' span : Span} (he : ExprChecked scope t condition e t₁) (te : e.type = .bool)
      (hss : StmtsChecked t₁ scope body ss t₂ scope₁)
      (hss' : StmtsChecked t₂ scope₁ orElse ss' t' scope') :
      StmtChecked t scope (.ifElse condition ⟨body, inner⟩ ⟨orElse, inner'⟩ span)
        (.branch e ss ss' span) t' scope'
  | whileDo {t t₁ t' : Callables} {scope scope' : Scope} {condition : Surface.Expr}
      {body : List Surface.Stmt} {e : Expr} {ss : List Stmt} {inner span : Span}
      (he : ExprChecked scope t condition e t₁) (te : e.type = .bool)
      (hss : StmtsChecked t₁ scope body ss t' scope') :
      StmtChecked t scope (.whileDo condition ⟨body, inner⟩ span) (.whileDo e ss span) t' scope'
  | retNone {t : Callables} {scope : Scope} {span : Span} (result : scope.result = none) :
      StmtChecked t scope (.ret none span) (.ret none span) t scope
  | ret {t t' : Callables} {scope : Scope} {value : Surface.Expr} {e : Expr} {n : NumType}
      {span : Span} (result : scope.result = some n) (he : ExprChecked scope t value e t')
      (te : e.type = .value n) :
      StmtChecked t scope (.ret (some value) span) (.ret (some e) span) t' scope
  | pass (t : Callables) (scope : Scope) (span : Span) :
      StmtChecked t scope (.pass span) .pass t scope
  | brk (t : Callables) (scope : Scope) (span : Span) :
      StmtChecked t scope (.brk span) (.brk span) t scope
  | cont (t : Callables) (scope : Scope) (span : Span) :
      StmtChecked t scope (.cont span) (.cont span) t scope

/-- What statements become, in order. -/
inductive StmtsChecked :
    Callables → Scope → List Surface.Stmt → List Stmt → Callables → Scope → Prop where
  | nil (t : Callables) (scope : Scope) : StmtsChecked t scope [] [] t scope
  | cons {t t₁ t' : Callables} {scope scope₁ scope' : Scope} {s : Surface.Stmt}
      {ss : List Surface.Stmt} {s' : Stmt} {ss' : List Stmt}
      (hs : StmtChecked t scope s s' t₁ scope₁)
      (hss : StmtsChecked t₁ scope₁ ss ss' t' scope') :
      StmtsChecked t scope (s :: ss) (s' :: ss') t' scope'

end

/-! ### Rules for functions and programs -/

/-- What a function becomes under its signature. -/
inductive FunctionChecked (t : Callables) (f : Surface.Function) (signature : Signature) :
    Function → Callables → Prop where
  | intro {scope scope' : Scope} {body : List Stmt} {t' : Callables}
      (params : paramScope (Scope.empty f.name signature.result)
        (f.params.zip signature.params) = .ok scope)
      (hbody : StmtsChecked t scope f.body.body body t' scope')
      (returns : signature.result.isSome = true → bodyReturns body = true) :
      FunctionChecked t f signature ⟨f.name, signature, scope'.locals, body, f.span⟩ t'

/-- What functions become, in order. -/
inductive FunctionsChecked :
    Callables → List (Surface.Function × Signature) → List Function → Callables → Prop where
  | nil (t : Callables) : FunctionsChecked t [] [] t
  | cons {t t₁ t' : Callables} {f : Surface.Function} {signature : Signature}
      {fs : List (Surface.Function × Signature)} {g : Function} {gs : List Function}
      (hf : FunctionChecked t f signature g t₁) (hfs : FunctionsChecked t₁ fs gs t') :
      FunctionsChecked t ((f, signature) :: fs) (g :: gs) t'

/-- What a program becomes. -/
inductive ProgramChecked (p : Surface.Program) : Module → Prop where
  | intro {t t' : Callables} {functions : List Function}
      (declared : Callables.ofProgram p = .ok t)
      (hfunctions : FunctionsChecked t (p.functions.zip t.signatures) functions t') :
      ProgramChecked p ⟨t'.imports.map (·.declared), functions⟩

/-! ### Requirements -/

theorem ofExcept_run {α : Type} {x : Except Diagnostic α} {a : α} {s s' : CheckState} :
    ofExcept x s = .ok a s' ↔ x = .ok a ∧ s = s' := by
  cases x with
  | ok b => simp [ofExcept, pure_run_eq_ok]
  | error d => simp [ofExcept, throw_run_eq_ok]

theorem refuse_run {α : Type} {cause : Cause} {position : Position} {a : α}
    {s s' : CheckState} : refuse cause position s = .ok a s' ↔ False := throw_run_eq_ok

theorem requireValue_ok {e : Expr} {n : NumType} :
    requireValue e = .ok n ↔ e.type = .value n := by
  rw [requireValue]
  cases e.type <;> simp

theorem requireValues_ok {es : List Expr} {ns : List NumType} :
    requireValues es = .ok ns ↔ es.map Expr.type = ns.map ExprType.value := by
  induction es generalizing ns with
  | nil => cases ns <;> simp [requireValues]
  | cons e es ih =>
    simp only [requireValues, bind_eq_ok, requireValue_ok, pure_eq_ok, ih]
    constructor
    · rintro ⟨n, hn, ms, hms, rfl⟩
      simp [hn, hms]
    · intro h
      cases ns with
      | nil => simp at h
      | cons n ns =>
        rw [List.map_cons, List.map_cons, List.cons.injEq] at h
        exact ⟨n, h.1, ns, h.2, rfl⟩

theorem requireBool_ok {e : Expr} {u : Unit} : requireBool e = .ok u ↔ e.type = .bool := by
  rw [requireBool]
  cases e.type <;> simp

theorem requireType_ok {n : NumType} {e : Expr} {u : Unit} :
    requireType n e = .ok u ↔ e.type = .value n := by
  simp only [requireType, bind_eq_ok, requireValue_ok]
  constructor
  · rintro ⟨received, hreceived, h⟩
    by_cases hn : received = n
    · rwa [hn] at hreceived
    · rw [if_neg hn, throw_eq_ok] at h
      exact h.elim
  · intro h
    exact ⟨n, h, by rw [if_pos rfl]; rfl⟩

theorem requireCount_ok {expected received : Nat} {position : Position} {u : Unit} :
    requireCount expected received position = .ok u ↔ expected = received := by
  rw [requireCount]
  split
  · simp; omega
  · split
    · simp; omega
    · simp; omega

theorem requireArguments_ok {ns : List NumType} {es : List Expr} {u : Unit}
    (hlen : ns.length = es.length) :
    requireArguments ns es = .ok u ↔ es.map Expr.type = ns.map ExprType.value := by
  induction ns generalizing es with
  | nil =>
    cases es with
    | nil => simp [requireArguments]
    | cons e es => cases hlen
  | cons n ns ih =>
    cases es with
    | nil => cases hlen
    | cons e es =>
      simp only [requireArguments, bind_eq_ok, requireValue_ok, List.map_cons,
        List.cons.injEq]
      constructor
      · rintro ⟨received, hreceived, h⟩
        by_cases hn : received = n
        · rw [if_pos hn] at h
          exact ⟨by rw [hreceived, hn], (ih (Nat.succ.inj hlen)).mp h⟩
        · rw [if_neg hn, throw_eq_ok] at h
          exact h.elim
      · rintro ⟨he, hes⟩
        exact ⟨n, he, by rw [if_pos rfl]; exact (ih (Nat.succ.inj hlen)).mpr hes⟩

/-! ### Expressions -/

theorem settlePending_ok {callee : Callee} {arguments : List Expr} {u : Unit}
    {s s' : CheckState} (h : settlePending callee arguments s = .ok u s') :
    s'.scope = s.scope ∧ Settles s.callables callee arguments s'.callables := by
  simp only [settlePending, bind_run_eq_ok, get_run_eq_ok] at h
  obtain ⟨_, _, ⟨rfl, rfl⟩, h⟩ := h
  cases hpending : s.callables.pending? callee with
  | none =>
    rw [hpending] at h
    obtain ⟨-, rfl⟩ := pure_run_eq_ok.mp h
    exact ⟨rfl, .known hpending⟩
  | some found =>
    obtain ⟨index, i⟩ := found
    rw [hpending] at h
    simp only [bind_run_eq_ok, ofExcept_run, requireValues_ok, note, modify_run_eq_ok] at h
    obtain ⟨params, _, ⟨htypes, rfl⟩, -, _, rfl, rfl⟩ := h
    exact ⟨rfl, .first hpending htypes⟩

theorem checkCall_ok {callee : Callee} {arguments : List Expr} {span : Span} {e : Expr}
    {s s' : CheckState} (h : checkCall callee arguments span s = .ok e s') :
    s'.scope = s.scope ∧ Settles s.callables callee arguments s'.callables ∧
      arguments.map Expr.type = (s'.callables.signature callee).params.map ExprType.value ∧
      e = .call callee arguments (.ofResult (s'.callables.signature callee).result) span := by
  simp only [checkCall, bind_run_eq_ok, get_run_eq_ok, ofExcept_run, requireCount_ok,
    pure_run_eq_ok] at h
  obtain ⟨_, s₁, hsettle, _, _, ⟨rfl, rfl⟩, _, _, ⟨hcount, rfl⟩, _, _, ⟨htypes, rfl⟩, rfl, rfl⟩ := h
  obtain ⟨hscope, hsettles⟩ := settlePending_ok hsettle
  exact ⟨hscope, hsettles, (requireArguments_ok hcount).mp htypes, rfl⟩

mutual

theorem checkExpr_ok {e : Surface.Expr} {e' : Expr} {s s' : CheckState}
    (h : checkExpr e s = .ok e' s') :
    s'.scope = s.scope ∧ ExprChecked s.scope s.callables e e' s'.callables := by
  cases e with
  | number value span =>
    obtain ⟨rfl, rfl⟩ := pure_run_eq_ok.mp h
    exact ⟨rfl, .number _ _ _⟩
  | float value span =>
    obtain ⟨rfl, rfl⟩ := pure_run_eq_ok.mp h
    exact ⟨rfl, .float _ _ _⟩
  | char value span =>
    obtain ⟨rfl, rfl⟩ := pure_run_eq_ok.mp h
    exact ⟨rfl, .char _ _ _⟩
  | symbol name span =>
    simp only [checkExpr, bind_run_eq_ok, get_run_eq_ok] at h
    obtain ⟨_, _, ⟨rfl, rfl⟩, h⟩ := h
    cases hfind : s.scope.find? name with
    | none =>
      rw [hfind] at h
      exact (refuse_run.mp h).elim
    | some v =>
      rw [hfind] at h
      obtain ⟨rfl, rfl⟩ := pure_run_eq_ok.mp h
      exact ⟨rfl, .symbol hfind⟩
  | binary op left right span =>
    simp only [checkExpr, bind_run_eq_ok, ofExcept_run, requireValue_ok, requireType_ok,
      pure_run_eq_ok] at h
    obtain ⟨l, s₁, hl, r, s₂, hr, n, _, ⟨tl, rfl⟩, -, _, ⟨tr, rfl⟩, rfl, rfl⟩ := h
    obtain ⟨hscope₁, hl'⟩ := checkExpr_ok hl
    obtain ⟨hscope₂, hr'⟩ := checkExpr_ok hr
    rw [hscope₁] at hr' hscope₂
    exact ⟨hscope₂, .binary hl' hr' tl tr⟩
  | compare op left right span =>
    simp only [checkExpr, bind_run_eq_ok, ofExcept_run, requireValue_ok, requireType_ok,
      pure_run_eq_ok] at h
    obtain ⟨l, s₁, hl, r, s₂, hr, n, _, ⟨tl, rfl⟩, -, _, ⟨tr, rfl⟩, rfl, rfl⟩ := h
    obtain ⟨hscope₁, hl'⟩ := checkExpr_ok hl
    obtain ⟨hscope₂, hr'⟩ := checkExpr_ok hr
    rw [hscope₁] at hr' hscope₂
    exact ⟨hscope₂, .compare hl' hr' tl tr⟩
  | logic op left right span =>
    simp only [checkExpr, bind_run_eq_ok, ofExcept_run, requireBool_ok, pure_run_eq_ok] at h
    obtain ⟨l, s₁, hl, r, s₂, hr, -, _, ⟨tl, rfl⟩, -, _, ⟨tr, rfl⟩, rfl, rfl⟩ := h
    obtain ⟨hscope₁, hl'⟩ := checkExpr_ok hl
    obtain ⟨hscope₂, hr'⟩ := checkExpr_ok hr
    rw [hscope₁] at hr' hscope₂
    exact ⟨hscope₂, .logic hl' hr' tl tr⟩
  | negate operand span =>
    simp only [checkExpr, bind_run_eq_ok, ofExcept_run, requireValue_ok, pure_run_eq_ok] at h
    obtain ⟨e, s₁, he, n, _, ⟨te, rfl⟩, rfl, rfl⟩ := h
    obtain ⟨hscope, he'⟩ := checkExpr_ok he
    exact ⟨hscope, .negate he' te⟩
  | call name arguments span =>
    simp only [checkExpr, bind_run_eq_ok, get_run_eq_ok] at h
    obtain ⟨_, _, ⟨rfl, rfl⟩, h⟩ := h
    cases hfind : s.callables.find? name with
    | none =>
      rw [hfind] at h
      exact (refuse_run.mp h).elim
    | some callee =>
      rw [hfind] at h
      obtain ⟨args, s₁, hargs, hcall⟩ := bind_run_eq_ok.mp h
      obtain ⟨hscope₁, hargs'⟩ := checkExprs_ok hargs
      obtain ⟨hscope₂, hsettles, htypes, rfl⟩ := checkCall_ok hcall
      exact ⟨hscope₂.trans hscope₁, .call hfind hargs' hsettles htypes⟩

theorem checkExprs_ok {es : List Surface.Expr} {es' : List Expr} {s s' : CheckState}
    (h : checkExprs es s = .ok es' s') :
    s'.scope = s.scope ∧ ExprsChecked s.scope s.callables es es' s'.callables := by
  cases es with
  | nil =>
    obtain ⟨rfl, rfl⟩ := pure_run_eq_ok.mp h
    exact ⟨rfl, .nil _⟩
  | cons e es =>
    simp only [checkExprs, bind_run_eq_ok, pure_run_eq_ok] at h
    obtain ⟨t, s₁, ht, ts, s₂, hts, rfl, rfl⟩ := h
    obtain ⟨hscope₁, ht'⟩ := checkExpr_ok ht
    obtain ⟨hscope₂, hts'⟩ := checkExprs_ok hts
    rw [hscope₁] at hts' hscope₂
    exact ⟨hscope₂, .cons ht' hts'⟩

end

/-! ### Statements -/

theorem assignSlot_ok {name : String} {n : NumType} {position : Position} {slot : UInt32}
    {s s' : CheckState} (h : assignSlot name n position s = .ok slot s') :
    s'.callables = s.callables ∧ AssignsTo s.scope name n slot s'.scope := by
  simp only [assignSlot, bind_run_eq_ok, get_run_eq_ok] at h
  obtain ⟨_, _, ⟨rfl, rfl⟩, h⟩ := h
  cases hfind : s.scope.find? name with
  | none =>
    rw [hfind] at h
    simp only [bind_run_eq_ok, modify_run_eq_ok, pure_run_eq_ok] at h
    obtain ⟨_, _, rfl, rfl, rfl⟩ := h
    exact ⟨rfl, .fresh hfind⟩
  | some v =>
    rw [hfind] at h
    by_cases htype : v.type = n
    · simp only [if_pos htype, pure_run_eq_ok] at h
      obtain ⟨rfl, rfl⟩ := h
      exact ⟨rfl, .known hfind htype⟩
    · simp only [if_neg htype] at h
      exact (refuse_run.mp h).elim

theorem checkCondition_ok {e : Surface.Expr} {e' : Expr} {s s' : CheckState}
    (h : checkCondition e s = .ok e' s') :
    s'.scope = s.scope ∧ ExprChecked s.scope s.callables e e' s'.callables ∧
      e'.type = .bool := by
  simp only [checkCondition, bind_run_eq_ok, ofExcept_run, requireBool_ok,
    pure_run_eq_ok] at h
  obtain ⟨e', s₁, he, _, _, ⟨te, rfl⟩, rfl, rfl⟩ := h
  obtain ⟨hscope, he'⟩ := checkExpr_ok he
  exact ⟨hscope, he', te⟩

theorem checkReturn_ok {value : Option Surface.Expr} {span : Span} {value' : Option Expr}
    {s s' : CheckState} (h : checkReturn value span s = .ok value' s') :
    s'.scope = s.scope ∧
      StmtChecked s.callables s.scope (.ret value span) (.ret value' span) s'.callables
        s.scope := by
  simp only [checkReturn, bind_run_eq_ok, get_run_eq_ok] at h
  obtain ⟨_, _, ⟨rfl, rfl⟩, h⟩ := h
  cases value with
  | none =>
    cases hresult : s.scope.result with
    | none =>
      rw [hresult] at h
      obtain ⟨rfl, rfl⟩ := pure_run_eq_ok.mp h
      exact ⟨rfl, .retNone hresult⟩
    | some n =>
      rw [hresult] at h
      exact (refuse_run.mp h).elim
  | some e =>
    cases hresult : s.scope.result with
    | none =>
      rw [hresult] at h
      exact (refuse_run.mp h).elim
    | some n =>
      rw [hresult] at h
      simp only [bind_run_eq_ok, ofExcept_run, requireType_ok, pure_run_eq_ok] at h
      obtain ⟨e', s₁, he, _, _, ⟨te, rfl⟩, rfl, rfl⟩ := h
      obtain ⟨hscope, he'⟩ := checkExpr_ok he
      exact ⟨hscope, .ret hresult he' te⟩

mutual

theorem checkStmt_ok {st : Surface.Stmt} {st' : Stmt} {s s' : CheckState}
    (h : checkStmt st s = .ok st' s') :
    StmtChecked s.callables s.scope st st' s'.callables s'.scope := by
  cases st with
  | assign target value span =>
    simp only [checkStmt, bind_run_eq_ok, ofExcept_run, requireValue_ok, pure_run_eq_ok] at h
    obtain ⟨e, s₁, he, n, _, ⟨te, rfl⟩, slot, s₂, hslot, rfl, rfl⟩ := h
    obtain ⟨hscope, he'⟩ := checkExpr_ok he
    obtain ⟨hcallables, hassigns⟩ := assignSlot_ok hslot
    rw [hscope] at hassigns
    rw [hcallables]
    exact .assign he' te hassigns
  | perform call span =>
    simp only [checkStmt, bind_run_eq_ok, pure_run_eq_ok] at h
    obtain ⟨e, s₁, he, rfl, rfl⟩ := h
    obtain ⟨hscope, he'⟩ := checkExpr_ok he
    rw [hscope]
    exact .perform he'
  | ifThen condition body span =>
    obtain ⟨body, inner⟩ := body
    simp only [checkStmt, checkBlock, bind_run_eq_ok, pure_run_eq_ok] at h
    obtain ⟨e, s₁, he, ss, s₂, hss, rfl, rfl⟩ := h
    obtain ⟨hscope, he', te⟩ := checkCondition_ok he
    have hss' := checkStmts_ok hss
    rw [hscope] at hss'
    exact .ifThen he' te hss'
  | ifElse condition body orElse span =>
    obtain ⟨body, inner⟩ := body
    obtain ⟨orElse, inner'⟩ := orElse
    simp only [checkStmt, checkBlock, bind_run_eq_ok, pure_run_eq_ok] at h
    obtain ⟨e, s₁, he, ss, s₂, hss, os, s₃, hos, rfl, rfl⟩ := h
    obtain ⟨hscope, he', te⟩ := checkCondition_ok he
    have hss' := checkStmts_ok hss
    rw [hscope] at hss'
    exact .ifElse he' te hss' (checkStmts_ok hos)
  | whileDo condition body span =>
    obtain ⟨body, inner⟩ := body
    simp only [checkStmt, checkBlock, bind_run_eq_ok, pure_run_eq_ok] at h
    obtain ⟨e, s₁, he, ss, s₂, hss, rfl, rfl⟩ := h
    obtain ⟨hscope, he', te⟩ := checkCondition_ok he
    have hss' := checkStmts_ok hss
    rw [hscope] at hss'
    exact .whileDo he' te hss'
  | ret value span =>
    simp only [checkStmt, bind_run_eq_ok, pure_run_eq_ok] at h
    obtain ⟨value', s₁, hvalue, rfl, rfl⟩ := h
    obtain ⟨hscope, hret⟩ := checkReturn_ok hvalue
    rw [hscope]
    exact hret
  | pass span =>
    obtain ⟨rfl, rfl⟩ := pure_run_eq_ok.mp h
    exact .pass _ _ _
  | brk span =>
    obtain ⟨rfl, rfl⟩ := pure_run_eq_ok.mp h
    exact .brk _ _ _
  | cont span =>
    obtain ⟨rfl, rfl⟩ := pure_run_eq_ok.mp h
    exact .cont _ _ _

theorem checkStmts_ok {ss : List Surface.Stmt} {ss' : List Stmt} {s s' : CheckState}
    (h : checkStmts ss s = .ok ss' s') :
    StmtsChecked s.callables s.scope ss ss' s'.callables s'.scope := by
  cases ss with
  | nil =>
    obtain ⟨rfl, rfl⟩ := pure_run_eq_ok.mp h
    exact .nil _ _
  | cons st ss =>
    simp only [checkStmts, bind_run_eq_ok, pure_run_eq_ok] at h
    obtain ⟨t, s₁, ht, ts, s₂, hts, rfl, rfl⟩ := h
    exact .cons (checkStmt_ok ht) (checkStmts_ok hts)

end

theorem checkBlock_ok {b : Surface.Block Surface.Stmt} {ss : List Stmt} {s s' : CheckState}
    (h : checkBlock b s = .ok ss s') :
    StmtsChecked s.callables s.scope b.body ss s'.callables s'.scope := by
  obtain ⟨body, span⟩ := b
  rw [checkBlock] at h
  exact checkStmts_ok h

/-! ### Functions and programs -/

theorem checkFunction_ok {f : Surface.Function} {signature : Signature} {g : Function}
    {s s' : CheckState} (h : checkFunction f signature s = .ok g s') :
    FunctionChecked s.callables f signature g s'.callables := by
  simp only [checkFunction, bind_run_eq_ok, ofExcept_run, modify_run_eq_ok] at h
  obtain ⟨scope, _, ⟨hparams, rfl⟩, _, _, rfl, body, s₁, hbody, h⟩ := h
  have hbody' := checkBlock_ok hbody
  by_cases hreturns : signature.result.isSome = true ∧ bodyReturns body = false
  · rw [if_pos hreturns] at h
    exact (refuse_run.mp h).elim
  · rw [if_neg hreturns] at h
    simp only [bind_run_eq_ok, get_run_eq_ok, note, modify_run_eq_ok, pure_run_eq_ok] at h
    obtain ⟨_, _, ⟨rfl, rfl⟩, _, _, rfl, rfl, rfl⟩ := h
    refine .intro hparams hbody' fun hsome => ?_
    simpa [hsome] using hreturns

theorem checkFunctions_ok {fs : List (Surface.Function × Signature)} {gs : List Function}
    {s s' : CheckState} (h : checkFunctions fs s = .ok gs s') :
    FunctionsChecked s.callables fs gs s'.callables := by
  induction fs generalizing gs s with
  | nil =>
    obtain ⟨rfl, rfl⟩ := pure_run_eq_ok.mp h
    exact .nil _
  | cons f fs ih =>
    simp only [checkFunctions, bind_run_eq_ok, pure_run_eq_ok] at h
    obtain ⟨g, s₁, hg, gs, s₂, hgs, rfl, rfl⟩ := h
    exact .cons (checkFunction_ok hg) (ih hgs)

/-- A program that is accepted becomes what the rules say. -/
theorem Module.ofProgram_ok {p : Surface.Program} {m : Module}
    (h : Module.ofProgram p = .ok m) : ProgramChecked p m := by
  rw [Module.ofProgram, Module.check] at h
  cases hcheck : checkProgram p .start with
  | error d s => simp [hcheck] at h
  | ok m' s =>
    obtain rfl : m' = m := by simpa [hcheck] using h
    simp only [checkProgram, bind_run_eq_ok, ofExcept_run, modify_run_eq_ok, get_run_eq_ok,
      pure_run_eq_ok] at hcheck
    obtain ⟨t, _, ⟨ht, rfl⟩, _, _, rfl, fs, s₁, hfs, _, _, ⟨rfl, rfl⟩, rfl, rfl⟩ := hcheck
    exact .intro ht (checkFunctions_ok hfs)

end Offside.Typed

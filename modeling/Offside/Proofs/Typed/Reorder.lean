/-
  Offside/Proofs/Typed/Reorder.lean
  =================================
  **Functions may stand in any order.**  If the functions of a program are put in another
  order, the program is accepted as before, and it becomes the same typed module, with its
  functions in the new order and its calls numbered anew (`Module.ofProgram_reorder`).

  That it is accepted follows from typability, which asks nothing about order.  The trees
  are compared by going through two derivations for the same body.  Where the checker looks
  up a callee it finds the same one under its new number.  The signature of an import may
  then be known in the one run and not yet in the other, but the type of a call depends on
  the result alone, and an import that has no signature yet never has a result.  Which call
  of such an import comes first does depend on the order, but all its calls agree.
-/
import Mathlib.Data.List.Perm.Basic
import Offside.Proofs.Typed.Typable

namespace Offside

/-! ### Lists in another order -/

/-- The elements with the given indices, in the order of these. -/
def reorder {α : Type} (order : List Nat) (xs : List α) : List α := order.filterMap (xs[·]?)

theorem getElem?_reorder {α : Type} {order : List Nat} {xs : List α}
    (h : ∀ index ∈ order, index < xs.length) (place : Nat) :
    (reorder order xs)[place]? = order[place]?.bind (xs[·]?) := by
  induction order generalizing place with
  | nil => rfl
  | cons index order ih =>
    have hindex := List.getElem?_eq_getElem (h index List.mem_cons_self)
    rw [reorder, List.filterMap_cons_some hindex]
    cases place with
    | zero => exact hindex.symm
    | succ place => exact ih (fun i hi => h i (List.mem_cons_of_mem index hi)) place

theorem reorder_range {α : Type} (xs : List α) : reorder (List.range xs.length) xs = xs := by
  apply List.ext_getElem?
  intro place
  rw [getElem?_reorder (fun index hindex => List.mem_range.mp hindex)]
  by_cases hplace : place < xs.length
  · rw [List.getElem?_range hplace]
    rfl
  · rw [List.getElem?_eq_none (by simpa using hplace),
      List.getElem?_eq_none (by simpa using hplace)]
    rfl

/-- Nothing is lost or doubled if every index occurs once. -/
theorem perm_reorder {α : Type} {order : List Nat} {xs : List α}
    (h : order.Perm (List.range xs.length)) : (reorder order xs).Perm xs := by
  have hperm : (reorder order xs).Perm (reorder (List.range xs.length) xs) := h.filterMap _
  rwa [reorder_range] at hperm

theorem getElem?_idxOf_of_perm {order : List Nat} {n index : Nat}
    (h : order.Perm (List.range n)) (hindex : index < n) :
    order[order.idxOf index]? = some index :=
  List.getElem?_idxOf (h.mem_iff.mpr (List.mem_range.mpr hindex))

/-- The program with its functions in another order. -/
def Surface.Program.reorder (order : List Nat) (p : Program) : Program :=
  { p with functions := Offside.reorder order p.functions }

namespace Typed

/-! ### Trees with other callees -/

mutual

/-- The expression with every callee replaced. -/
def Expr.renumber (ρ : Callee → Callee) : Expr → Expr
  | .int value t span => .int value t span
  | .float value t span => .float value t span
  | .slot slot t span => .slot slot t span
  | .binary op l r t span => .binary op (l.renumber ρ) (r.renumber ρ) t span
  | .negate e t span => .negate (e.renumber ρ) t span
  | .compare op n l r t span => .compare op n (l.renumber ρ) (r.renumber ρ) t span
  | .logic op l r t span => .logic op (l.renumber ρ) (r.renumber ρ) t span
  | .call callee args t span => .call (ρ callee) (renumberExprs ρ args) t span

def renumberExprs (ρ : Callee → Callee) : List Expr → List Expr
  | [] => []
  | e :: es => e.renumber ρ :: renumberExprs ρ es

end

mutual

/-- The statement with every callee replaced. -/
def Stmt.renumber (ρ : Callee → Callee) : Stmt → Stmt
  | .assign slot e span => .assign slot (e.renumber ρ) span
  | .perform e span => .perform (e.renumber ρ) span
  | .branch e ss ss' span =>
    .branch (e.renumber ρ) (renumberStmts ρ ss) (renumberStmts ρ ss') span
  | .whileDo e ss span => .whileDo (e.renumber ρ) (renumberStmts ρ ss) span
  | .ret value span => .ret (value.map (·.renumber ρ)) span
  | .pass => .pass
  | .brk span => .brk span
  | .cont span => .cont span

def renumberStmts (ρ : Callee → Callee) : List Stmt → List Stmt
  | [] => []
  | s :: ss => s.renumber ρ :: renumberStmts ρ ss

end

def Function.renumber (ρ : Callee → Callee) (f : Function) : Function :=
  { f with body := renumberStmts ρ f.body }

/-- The number that a callee has after its functions were put in another order. -/
def Callee.reorder (order : List Nat) : Callee → Callee
  | .imported index => .imported index
  | .defined index => .defined (order.idxOf index)

/-- The module with its functions in another order. -/
def Module.reorder (order : List Nat) (m : Module) : Module where
  imports := m.imports
  functions := (Offside.reorder order m.functions).map (·.renumber (Callee.reorder order))

@[simp] theorem Expr.type_renumber (ρ : Callee → Callee) (e : Expr) :
    (e.renumber ρ).type = e.type := by
  cases e <;> rfl

theorem map_type_renumberExprs (ρ : Callee → Callee) (es : List Expr) :
    (renumberExprs ρ es).map Expr.type = es.map Expr.type := by
  induction es with
  | nil => rfl
  | cons e es ih => rw [renumberExprs, List.map_cons, List.map_cons, ih, Expr.type_renumber]

section Calls

variable {ρ : Callee → Callee} {c : Callee}

mutual

theorem Expr.callsOf_renumber (hρ : ∀ callee, ρ callee = c ↔ callee = c) :
    ∀ e : Expr, (e.renumber ρ).callsOf c = e.callsOf c
  | .int _ _ _ => rfl
  | .float _ _ _ => rfl
  | .slot _ _ _ => rfl
  | .binary _ l r _ _ => by
    rw [Expr.renumber, Expr.callsOf, Expr.callsOf, l.callsOf_renumber hρ, r.callsOf_renumber hρ]
  | .negate e _ _ => by rw [Expr.renumber, Expr.callsOf, Expr.callsOf, e.callsOf_renumber hρ]
  | .compare _ _ l r _ _ => by
    rw [Expr.renumber, Expr.callsOf, Expr.callsOf, l.callsOf_renumber hρ, r.callsOf_renumber hρ]
  | .logic _ l r _ _ => by
    rw [Expr.renumber, Expr.callsOf, Expr.callsOf, l.callsOf_renumber hρ, r.callsOf_renumber hρ]
  | .call callee args _ _ => by
    rw [Expr.renumber, Expr.callsOf, Expr.callsOf, exprCallsOf_renumber hρ args,
      map_type_renumberExprs]
    simp only [hρ callee]

theorem exprCallsOf_renumber (hρ : ∀ callee, ρ callee = c ↔ callee = c) :
    ∀ es : List Expr, exprCallsOf c (renumberExprs ρ es) = exprCallsOf c es
  | [] => rfl
  | e :: es => by
    rw [renumberExprs, exprCallsOf, exprCallsOf, e.callsOf_renumber hρ, exprCallsOf_renumber hρ es]

end

mutual

theorem Stmt.callsOf_renumber (hρ : ∀ callee, ρ callee = c ↔ callee = c) :
    ∀ s : Stmt, (s.renumber ρ).callsOf c = s.callsOf c
  | .assign _ e _ => by rw [Stmt.renumber, Stmt.callsOf, Stmt.callsOf, e.callsOf_renumber hρ]
  | .perform e _ => by rw [Stmt.renumber, Stmt.callsOf, Stmt.callsOf, e.callsOf_renumber hρ]
  | .branch e ss ss' _ => by
    rw [Stmt.renumber, Stmt.callsOf, Stmt.callsOf, e.callsOf_renumber hρ,
      stmtCallsOf_renumber hρ ss, stmtCallsOf_renumber hρ ss']
  | .whileDo e ss _ => by
    rw [Stmt.renumber, Stmt.callsOf, Stmt.callsOf, e.callsOf_renumber hρ,
      stmtCallsOf_renumber hρ ss]
  | .ret none _ => rfl
  | .ret (some e) _ => by
    rw [Stmt.renumber, Option.map_some, Stmt.callsOf, Stmt.callsOf, e.callsOf_renumber hρ]
  | .pass => rfl
  | .brk _ => rfl
  | .cont _ => rfl

theorem stmtCallsOf_renumber (hρ : ∀ callee, ρ callee = c ↔ callee = c) :
    ∀ ss : List Stmt, stmtCallsOf c (renumberStmts ρ ss) = stmtCallsOf c ss
  | [] => rfl
  | s :: ss => by
    rw [renumberStmts, stmtCallsOf, stmtCallsOf, s.callsOf_renumber hρ, stmtCallsOf_renumber hρ ss]

end

end Calls

/-! ### All calls of a callee agree -/

section Agree

variable {final : Callables} {c : Callee}

/-- The calls have the argument types that the table gives to `c`. -/
def CallsFit (final : Callables) (c : Callee) (calls : List (List ExprType)) : Prop :=
  ∀ types ∈ calls, types = (final.signature c).params.map ExprType.value

theorem CallsFit.append {calls calls' : List (List ExprType)} (h : CallsFit final c calls)
    (h' : CallsFit final c calls') : CallsFit final c (calls ++ calls') :=
  fun types hmem => (List.mem_append.mp hmem).elim (h types) (h' types)

theorem callsFit_nil : CallsFit final c [] := fun _ hmem => absurd hmem List.not_mem_nil

mutual

theorem ExprChecked.callsFit {scope : Scope} {t t' : Callables} {e : Surface.Expr} {e' : Expr}
    (h : ExprChecked scope t e e' t') (names : t.NamesDeclared) (hfinal : t'.Extends final) :
    CallsFit final c (e'.callsOf c) := by
  cases h with
  | number | float | char | symbol => exact callsFit_nil
  | binary hl hr _ _ =>
    exact (hl.callsFit names (hr.extends.trans hfinal)).append
      (hr.callsFit (names.extends hl.extends) hfinal)
  | compare hl hr _ _ =>
    exact (hl.callsFit names (hr.extends.trans hfinal)).append
      (hr.callsFit (names.extends hl.extends) hfinal)
  | logic hl hr _ _ =>
    exact (hl.callsFit names (hr.extends.trans hfinal)).append
      (hr.callsFit (names.extends hl.extends) hfinal)
  | negate he _ => exact he.callsFit names hfinal
  | @call _ t₁ _ name callee _ args _ declared hargs settles types =>
    refine (hargs.callsFit names (settles.extends.trans hfinal)).append ?_
    by_cases hcallee : callee = c
    · subst hcallee
      rw [if_pos rfl]
      intro types' hmem
      have hfind : t₁.find? name = some callee := (hargs.extends.find?_eq name).trans declared
      have hknown := settles.known_signature (names.extends hargs.extends _ _ hfind)
      rw [List.mem_singleton.mp hmem, types,
        Callables.signature_of_known (hfinal.known _ _ hknown)]
    · rw [if_neg hcallee]
      exact callsFit_nil

theorem ExprsChecked.callsFit {scope : Scope} {t t' : Callables} {es : List Surface.Expr}
    {es' : List Expr} (h : ExprsChecked scope t es es' t') (names : t.NamesDeclared)
    (hfinal : t'.Extends final) : CallsFit final c (exprCallsOf c es') := by
  cases h with
  | nil => exact callsFit_nil
  | cons he hes =>
    exact (he.callsFit names (hes.extends.trans hfinal)).append
      (hes.callsFit (names.extends he.extends) hfinal)

end

mutual

theorem StmtChecked.callsFit {t t' : Callables} {scope scope' : Scope} {st : Surface.Stmt}
    {st' : Stmt} (h : StmtChecked t scope st st' t' scope') (names : t.NamesDeclared)
    (hfinal : t'.Extends final) : CallsFit final c (st'.callsOf c) := by
  cases h with
  | assign he _ _ => exact he.callsFit names hfinal
  | perform he => exact he.callsFit names hfinal
  | ifThen he _ hss =>
    have hbody := hss.callsFit (names.extends he.extends) hfinal
    exact (he.callsFit names (hss.extends.1.trans hfinal)).append (hbody.append callsFit_nil)
  | ifElse he _ hss hos =>
    have hfinal₁ := hos.extends.1.trans hfinal
    have hbody := hss.callsFit (names.extends he.extends) hfinal₁
    have helse := hos.callsFit (names.extends (he.extends.trans hss.extends.1)) hfinal
    exact (he.callsFit names (hss.extends.1.trans hfinal₁)).append (hbody.append helse)
  | whileDo he _ hss =>
    exact (he.callsFit names (hss.extends.1.trans hfinal)).append
      (hss.callsFit (names.extends he.extends) hfinal)
  | ret _ he _ => exact he.callsFit names hfinal
  | retNone | pass | brk | cont => exact callsFit_nil

theorem StmtsChecked.callsFit {t t' : Callables} {scope scope' : Scope}
    {ss : List Surface.Stmt} {ss' : List Stmt} (h : StmtsChecked t scope ss ss' t' scope')
    (names : t.NamesDeclared) (hfinal : t'.Extends final) :
    CallsFit final c (stmtCallsOf c ss') := by
  cases h with
  | nil => exact callsFit_nil
  | cons hs hss =>
    exact (hs.callsFit names (hss.extends.1.trans hfinal)).append
      (hss.callsFit (names.extends hs.extends.1) hfinal)

end

theorem FunctionsChecked.callsFit {t t' : Callables}
    {fs : List (Surface.Function × Signature)} {gs : List Function}
    (h : FunctionsChecked t fs gs t') (names : t.NamesDeclared) (hfinal : t'.Extends final) :
    CallsFit final c (gs.flatMap fun g => stmtCallsOf c g.body) := by
  induction h with
  | nil t => exact callsFit_nil
  | cons hf hfs ih =>
    have hrest := ih (names.extends hf.extends) hfinal
    cases hf with
    | intro _ hbody _ => exact (hbody.callsFit names (hfs.extends.trans hfinal)).append hrest

end Agree

/-! ### Two derivations for one body -/

section Renumbered

variable {ρ : Callee → Callee} {final final' : Callables}

/-- Every name stands for the same callable, renumbered, and the results are the same. -/
structure Callables.Renumbers (ρ : Callee → Callee) (t t' : Callables) : Prop where
  callee : ∀ name c, t.find? name = some c → t'.find? name = some (ρ c)
  result : ∀ name c, t.find? name = some c →
    (t.signature c).result = (t'.signature (ρ c)).result

/-- The type of a call is given by the result that its callee has in the end. -/
theorem Settles.result_eq {t t₁ t₂ : Callables} {name : String} {callee : Callee}
    {args : List Expr} (names : t.NamesDeclared) (declared : t.find? name = some callee)
    (hargs : t.Extends t₁) (settles : Settles t₁ callee args t₂) (hfinal : t₂.Extends final) :
    final.find? name = some callee ∧
      (t₂.signature callee).result = (final.signature callee).result := by
  have hfind : t₁.find? name = some callee := (hargs.find?_eq name).trans declared
  have hknown := settles.known_signature (names.extends hargs _ _ hfind)
  refine ⟨?_, by rw [Callables.signature_of_known (hfinal.known _ _ hknown)]⟩
  rw [hfinal.find?_eq, settles.extends.find?_eq, hfind]

mutual

theorem ExprChecked.renumber {scope : Scope} {t t' u u' : Callables} {e : Surface.Expr}
    {a b : Expr} (h : ExprChecked scope t e a t') (h' : ExprChecked scope u e b u')
    (names : t.NamesDeclared) (names' : u.NamesDeclared) (hfinal : t'.Extends final)
    (hfinal' : u'.Extends final') (hρ : final.Renumbers ρ final') : b = a.renumber ρ := by
  cases h with
  | number | float | char =>
    cases h'
    rfl
  | symbol declared =>
    cases h' with
    | symbol declared' =>
      obtain rfl := Option.some.inj (declared.symm.trans declared')
      rfl
  | binary hl hr tl tr =>
    cases h' with
    | binary hl' hr' tl' tr' =>
      obtain rfl := hl.renumber hl' names names' (hr.extends.trans hfinal)
        (hr'.extends.trans hfinal') hρ
      obtain rfl := hr.renumber hr' (names.extends hl.extends) (names'.extends hl'.extends)
        hfinal hfinal' hρ
      rw [Expr.type_renumber, tl] at tl'
      cases tl'
      rfl
  | compare hl hr tl tr =>
    cases h' with
    | compare hl' hr' tl' tr' =>
      obtain rfl := hl.renumber hl' names names' (hr.extends.trans hfinal)
        (hr'.extends.trans hfinal') hρ
      obtain rfl := hr.renumber hr' (names.extends hl.extends) (names'.extends hl'.extends)
        hfinal hfinal' hρ
      rw [Expr.type_renumber, tl] at tl'
      cases tl'
      rfl
  | logic hl hr tl tr =>
    cases h' with
    | logic hl' hr' tl' tr' =>
      obtain rfl := hl.renumber hl' names names' (hr.extends.trans hfinal)
        (hr'.extends.trans hfinal') hρ
      obtain rfl := hr.renumber hr' (names.extends hl.extends) (names'.extends hl'.extends)
        hfinal hfinal' hρ
      rfl
  | negate he te =>
    cases h' with
    | negate he' te' =>
      obtain rfl := he.renumber he' names names' hfinal hfinal' hρ
      rw [Expr.type_renumber, te] at te'
      cases te'
      rfl
  | call declared hargs settles types =>
    cases h' with
    | call declared' hargs' settles' types' =>
      obtain rfl := hargs.renumber hargs' names names' (settles.extends.trans hfinal)
        (settles'.extends.trans hfinal') hρ
      obtain ⟨hfind, hresult⟩ := settles.result_eq names declared hargs.extends hfinal
      obtain ⟨hfind', hresult'⟩ := settles'.result_eq names' declared' hargs'.extends hfinal'
      obtain rfl := Option.some.inj ((hρ.callee _ _ hfind).symm.trans hfind')
      rw [Expr.renumber, hresult', hresult, hρ.result _ _ hfind]

theorem ExprsChecked.renumber {scope : Scope} {t t' u u' : Callables} {es : List Surface.Expr}
    {as bs : List Expr} (h : ExprsChecked scope t es as t') (h' : ExprsChecked scope u es bs u')
    (names : t.NamesDeclared) (names' : u.NamesDeclared) (hfinal : t'.Extends final)
    (hfinal' : u'.Extends final') (hρ : final.Renumbers ρ final') : bs = renumberExprs ρ as := by
  cases h with
  | nil =>
    cases h'
    rfl
  | cons he hes =>
    cases h' with
    | cons he' hes' =>
      obtain rfl := he.renumber he' names names' (hes.extends.trans hfinal)
        (hes'.extends.trans hfinal') hρ
      obtain rfl := hes.renumber hes' (names.extends he.extends) (names'.extends he'.extends)
        hfinal hfinal' hρ
      rfl

end

theorem AssignsTo.unique {scope scope₁ scope₂ : Scope} {name : String} {n : NumType}
    {slot slot' : UInt32} (h : AssignsTo scope name n slot scope₁)
    (h' : AssignsTo scope name n slot' scope₂) : slot' = slot ∧ scope₂ = scope₁ := by
  cases h with
  | known hv same =>
    cases h' with
    | known hv' same' =>
      obtain rfl := Option.some.inj (hv.symm.trans hv')
      exact ⟨rfl, rfl⟩
    | fresh hnew =>
      rw [hv] at hnew
      cases hnew
  | fresh hnew =>
    cases h' with
    | known hv' _ =>
      rw [hnew] at hv'
      cases hv'
    | fresh _ => exact ⟨rfl, rfl⟩

mutual

theorem StmtChecked.renumber {t t' u u' : Callables} {scope scope₁ scope₂ : Scope}
    {st : Surface.Stmt} {a b : Stmt} (h : StmtChecked t scope st a t' scope₁)
    (h' : StmtChecked u scope st b u' scope₂) (names : t.NamesDeclared)
    (names' : u.NamesDeclared) (hfinal : t'.Extends final) (hfinal' : u'.Extends final')
    (hρ : final.Renumbers ρ final') : b = a.renumber ρ ∧ scope₂ = scope₁ := by
  cases h with
  | assign he te assigns =>
    cases h' with
    | assign he' te' assigns' =>
      obtain rfl := he.renumber he' names names' hfinal hfinal' hρ
      rw [Expr.type_renumber, te] at te'
      cases te'
      obtain ⟨rfl, rfl⟩ := assigns.unique assigns'
      exact ⟨rfl, rfl⟩
  | perform he =>
    cases h' with
    | perform he' =>
      obtain rfl := he.renumber he' names names' hfinal hfinal' hρ
      exact ⟨rfl, rfl⟩
  | ifThen he te hss =>
    cases h' with
    | ifThen he' te' hss' =>
      obtain rfl := he.renumber he' names names' (hss.extends.1.trans hfinal)
        (hss'.extends.1.trans hfinal') hρ
      obtain ⟨rfl, rfl⟩ := hss.renumber hss' (names.extends he.extends)
        (names'.extends he'.extends) hfinal hfinal' hρ
      exact ⟨rfl, rfl⟩
  | ifElse he te hss hos =>
    cases h' with
    | ifElse he' te' hss' hos' =>
      have hfinal₁ := hos.extends.1.trans hfinal
      have hfinal₁' := hos'.extends.1.trans hfinal'
      obtain rfl := he.renumber he' names names' (hss.extends.1.trans hfinal₁)
        (hss'.extends.1.trans hfinal₁') hρ
      obtain ⟨rfl, rfl⟩ := hss.renumber hss' (names.extends he.extends)
        (names'.extends he'.extends) hfinal₁ hfinal₁' hρ
      obtain ⟨rfl, rfl⟩ := hos.renumber hos'
        (names.extends (he.extends.trans hss.extends.1))
        (names'.extends (he'.extends.trans hss'.extends.1)) hfinal hfinal' hρ
      exact ⟨rfl, rfl⟩
  | whileDo he te hss =>
    cases h' with
    | whileDo he' te' hss' =>
      obtain rfl := he.renumber he' names names' (hss.extends.1.trans hfinal)
        (hss'.extends.1.trans hfinal') hρ
      obtain ⟨rfl, rfl⟩ := hss.renumber hss' (names.extends he.extends)
        (names'.extends he'.extends) hfinal hfinal' hρ
      exact ⟨rfl, rfl⟩
  | ret _ he _ =>
    cases h' with
    | ret _ he' _ =>
      obtain rfl := he.renumber he' names names' hfinal hfinal' hρ
      exact ⟨rfl, rfl⟩
  | retNone | pass | brk | cont =>
    cases h'
    exact ⟨rfl, rfl⟩

theorem StmtsChecked.renumber {t t' u u' : Callables} {scope scope₁ scope₂ : Scope}
    {ss : List Surface.Stmt} {as bs : List Stmt} (h : StmtsChecked t scope ss as t' scope₁)
    (h' : StmtsChecked u scope ss bs u' scope₂) (names : t.NamesDeclared)
    (names' : u.NamesDeclared) (hfinal : t'.Extends final) (hfinal' : u'.Extends final')
    (hρ : final.Renumbers ρ final') : bs = renumberStmts ρ as ∧ scope₂ = scope₁ := by
  cases h with
  | nil =>
    cases h'
    exact ⟨rfl, rfl⟩
  | cons hs hss =>
    cases h' with
    | cons hs' hss' =>
      obtain ⟨rfl, rfl⟩ := hs.renumber hs' names names' (hss.extends.1.trans hfinal)
        (hss'.extends.1.trans hfinal') hρ
      obtain ⟨rfl, rfl⟩ := hss.renumber hss' (names.extends hs.extends.1)
        (names'.extends hs'.extends.1) hfinal hfinal' hρ
      exact ⟨rfl, rfl⟩

end

theorem FunctionChecked.renumber {t t' u u' : Callables} {f : Surface.Function}
    {signature : Signature} {g g' : Function} (h : FunctionChecked t f signature g t')
    (h' : FunctionChecked u f signature g' u') (names : t.NamesDeclared)
    (names' : u.NamesDeclared) (hfinal : t'.Extends final) (hfinal' : u'.Extends final')
    (hρ : final.Renumbers ρ final') : g' = g.renumber ρ := by
  cases h with
  | intro hparams hbody _ =>
    cases h' with
    | intro hparams' hbody' _ =>
      obtain rfl := Except.ok.inj (hparams.symm.trans hparams')
      obtain ⟨rfl, rfl⟩ := hbody.renumber hbody' names names' hfinal hfinal' hρ
      rfl

end Renumbered

/-! ### Programs -/

variable {p q : Surface.Program}

theorem callableNames_perm (himports : q.imports = p.imports)
    (hfunctions : q.functions.Perm p.functions) : (callableNames q).Perm (callableNames p) := by
  rw [callableNames, callableNames, himports]
  exact (hfunctions.map _).append_left _

/-- Typability asks nothing about the order of the functions. -/
theorem typable_of_perm (h : p.Typable) (himports : q.imports = p.imports)
    (hfunctions : q.functions.Perm p.functions) : q.Typable := by
  have hnames := callableNames_perm himports hfunctions
  obtain ⟨signatureOf, hdeclares, htypable⟩ := h.typed
  refine ⟨hnames.nodup_iff.mpr h.names, ?_, ?_, ?_, signatureOf, ⟨?_, ?_, ?_, ?_⟩, ?_⟩
  · rw [hnames.mem_iff]
    exact h.notOrd
  · rw [himports]
    exact h.importTypes
  · intro f hf
    exact h.functionTypes f (hfunctions.mem_iff.mp hf)
  · rw [himports]
    exact hdeclares.annotated
  · rw [himports]
    exact hdeclares.unannotated
  · intro f hf
    exact hdeclares.functions f (hfunctions.mem_iff.mp hf)
  · intro name hname
    rw [hnames.mem_iff] at hname
    exact hdeclares.others name hname
  · intro f hf
    exact htypable f (hfunctions.mem_iff.mp hf)

/-- What a program declares fixes the results. -/
theorem Declares.result_eq {S S' : String → Option Signature} (h : p.Declares S)
    (h' : q.Declares S') (himports : q.imports = p.imports)
    (hfunctions : q.functions.Perm p.functions) {name : String} (hname : name ∈ callableNames p) :
    ∃ s s', S name = some s ∧ S' name = some s' ∧ s.result = s'.result := by
  rcases List.mem_append.mp hname with hmem | hmem
  · obtain ⟨i, hi, rfl⟩ := List.mem_map.mp hmem
    have hi' : i ∈ q.imports := by rwa [himports]
    cases ha : i.signature with
    | none =>
      obtain ⟨params, hs⟩ := h.unannotated i hi ha
      obtain ⟨params', hs'⟩ := h'.unannotated i hi' ha
      exact ⟨_, _, hs, hs', rfl⟩
    | some a =>
      obtain ⟨s, hs, types⟩ := h.annotated i hi a ha
      obtain ⟨s', hs', types'⟩ := h'.annotated i hi' a ha
      exact ⟨s, s', hs, hs', by rw [types.unique types']⟩
  · obtain ⟨f, hf, rfl⟩ := List.mem_map.mp hmem
    obtain ⟨s, hs, types⟩ := h.functions f hf
    obtain ⟨s', hs', types'⟩ := h'.functions f (hfunctions.mem_iff.mpr hf)
    exact ⟨s, s', hs, hs', by rw [types.unique types']⟩

/-- Each function is checked with tables between the first and the last. -/
theorem FunctionsChecked.function_at {t t' : Callables}
    {fs : List (Surface.Function × Signature)} {gs : List Function}
    (h : FunctionsChecked t fs gs t') (names : t.NamesDeclared) {index : Nat}
    {f : Surface.Function} {signature : Signature} (hf : fs[index]? = some (f, signature)) :
    ∃ g u u', gs[index]? = some g ∧ FunctionChecked u f signature g u' ∧ u.NamesDeclared ∧
      u'.Extends t' := by
  induction h generalizing index with
  | nil t => cases hf
  | @cons t t₁ _ _ _ _ g _ hg hgs ih =>
    cases index with
    | zero =>
      obtain ⟨rfl, rfl⟩ := Prod.mk.inj (Option.some.inj hf)
      exact ⟨g, t, t₁, rfl, hg, names, hgs.extends⟩
    | succ index => exact ih (names.extends hg.extends) hf

theorem FunctionsChecked.length_eq {t t' : Callables}
    {fs : List (Surface.Function × Signature)} {gs : List Function}
    (h : FunctionsChecked t fs gs t') : gs.length = fs.length := by
  induction h with
  | nil t => rfl
  | cons _ _ ih => rw [List.length_cons, List.length_cons, ih]

/-- An import is fixed by what is written for it and by the types in its first call. -/
theorem Import.Resolves.unique {i : Surface.Import} {calls calls' : List (List ExprType)}
    {j j' : Import} (h : Import.Resolves i calls j) (h' : Import.Resolves i calls' j')
    (hcalls : calls'.headD [] = calls.headD []) : j' = j := by
  obtain ⟨module, name, ⟨params, result⟩, span⟩ := j
  obtain ⟨module', name', ⟨params', result'⟩, span'⟩ := j'
  obtain rfl : module' = module := h'.module.trans h.module.symm
  obtain rfl : name' = name := h'.name.trans h.name.symm
  obtain rfl : span' = span := h'.span.trans h.span.symm
  cases ha : i.signature with
  | some a =>
    obtain ⟨rfl, rfl⟩ := Signature.mk.inj ((h'.annotated a ha).unique (h.annotated a ha))
    rfl
  | none =>
    obtain ⟨hresult, hparams⟩ := h.inferred ha
    obtain ⟨hresult', hparams'⟩ := h'.inferred ha
    obtain rfl : result' = result := hresult'.trans hresult.symm
    obtain rfl : params' = params := by
      apply List.map_injective_iff.mpr (fun _ _ => ExprType.value.inj)
      exact hparams'.trans (hcalls.trans hparams.symm)
    rfl

theorem headD_eq_of_perm {α : Type} {xs ys : List α} {a : α} (h : ∀ x ∈ xs, x = a)
    (hperm : ys.Perm xs) (d : α) : ys.headD d = xs.headD d := by
  cases xs with
  | nil => rw [hperm.eq_nil]
  | cons x xs =>
    cases ys with
    | nil => exact absurd hperm.symm.eq_nil (List.cons_ne_nil x xs)
    | cons y ys =>
      rw [List.headD_cons, List.headD_cons, h x List.mem_cons_self,
        h y (hperm.mem_iff.mp List.mem_cons_self)]

section Reordered

variable {order : List Nat} {t t' T T' : Callables} {gs gs' : List Function}

theorem Callee.name?_reorder (horder : order.Perm (List.range p.functions.length)) {c : Callee}
    {name : String} (h : c.name? p = some name) :
    (c.reorder order).name? (p.reorder order) = some name := by
  cases c with
  | imported index => exact h
  | defined index =>
    rw [Callee.name?, List.getElem?_map] at h
    obtain ⟨f, hf, hname⟩ := Option.map_eq_some_iff.mp h
    have hindex : index < p.functions.length := (List.getElem?_eq_some_iff.mp hf).1
    have hbound : ∀ i ∈ order, i < p.functions.length := fun i hi =>
      List.mem_range.mp (horder.mem_iff.mp hi)
    rw [Callee.reorder, Callee.name?, List.getElem?_map, Surface.Program.reorder,
      getElem?_reorder hbound, getElem?_idxOf_of_perm horder hindex, Option.bind_some, hf,
      Option.map_some, hname]

theorem renumbers_reorder (horder : order.Perm (List.range p.functions.length))
    (hby : DeclaredBy p t) (hby' : DeclaredBy (p.reorder order) t')
    (h : FunctionsChecked t (p.functions.zip t.signatures) gs T)
    (h' : FunctionsChecked t' ((p.reorder order).functions.zip t'.signatures) gs' T') :
    T.Renumbers (Callee.reorder order) T' := by
  have hcallee : ∀ name c, T.find? name = some c →
      T'.find? name = some (Callee.reorder order c) := by
    intro name c hc
    rw [h.extends.find?_eq, hby.names] at hc
    rw [h'.extends.find?_eq, hby'.names]
    exact Callee.name?_reorder horder hc
  refine ⟨hcallee, ?_⟩
  intro name c hc
  have hname : name ∈ callableNames p := by
    rw [h.extends.find?_eq, hby.names] at hc
    exact Callee.mem_of_name? hc
  obtain ⟨s, s', hs, hs', hresult⟩ := Declares.result_eq (h.declares hby) (h'.declares hby') rfl
    (perm_reorder horder) hname
  rw [Callables.signatureOf, hc] at hs
  rw [Callables.signatureOf, hcallee name c hc] at hs'
  obtain rfl := Option.some.inj hs
  obtain rfl := Option.some.inj hs'
  exact hresult

theorem functions_reorder (horder : order.Perm (List.range p.functions.length))
    (hby : DeclaredBy p t) (hby' : DeclaredBy (p.reorder order) t')
    (h : FunctionsChecked t (p.functions.zip t.signatures) gs T)
    (h' : FunctionsChecked t' ((p.reorder order).functions.zip t'.signatures) gs' T') :
    gs' = (Offside.reorder order gs).map (·.renumber (Callee.reorder order)) := by
  have hlength : gs.length = p.functions.length := by
    rw [h.length_eq, List.length_zip, ← hby.functions.length_eq, Nat.min_self]
  have hbound : ∀ i ∈ order, i < p.functions.length := fun i hi =>
    List.mem_range.mp (horder.mem_iff.mp hi)
  apply List.ext_getElem?
  intro place
  rw [List.getElem?_map, getElem?_reorder (by rwa [hlength])]
  have hplace : (p.reorder order).functions[place]? = order[place]?.bind (p.functions[·]?) :=
    getElem?_reorder hbound place
  cases horderPlace : order[place]? with
  | none =>
    rw [horderPlace, Option.bind_none] at hplace
    rw [Option.bind_none, Option.map_none, List.getElem?_eq_none_iff, h'.length_eq,
      List.length_zip, ← hby'.functions.length_eq, Nat.min_self]
    exact List.getElem?_eq_none_iff.mp hplace
  | some index =>
    have hindex := hbound index (List.mem_of_getElem? horderPlace)
    have hf := List.getElem?_eq_getElem hindex
    rw [horderPlace, Option.bind_some, hf] at hplace
    obtain ⟨-, s, hs, types⟩ := hby.function_at hf
    obtain ⟨-, s', hs', types'⟩ := hby'.function_at hplace
    obtain rfl := types.unique types'
    obtain ⟨g, u, u₁, hg, hchecked, hnames, hlast⟩ := h.function_at hby.namesDeclared
      (List.getElem?_zip_eq_some.mpr ⟨hf, hs⟩)
    obtain ⟨g', u', u₁', hg', hchecked', hnames', hlast'⟩ := h'.function_at hby'.namesDeclared
      (List.getElem?_zip_eq_some.mpr ⟨hplace, hs'⟩)
    rw [hg', Option.bind_some, hg, Option.map_some, hchecked.renumber hchecked' hnames hnames'
      hlast hlast' (renumbers_reorder horder hby hby' h h')]

end Reordered

theorem Module.callsOf_reorder {order : List Nat} {m : Module}
    (horder : order.Perm (List.range m.functions.length)) (index : Nat) :
    ((m.reorder order).callsOf (.imported index)).Perm (m.callsOf (.imported index)) := by
  have hcallee : ∀ callee, Callee.reorder order callee = .imported index ↔
      callee = .imported index := by
    intro callee
    cases callee <;> simp [Callee.reorder]
  rw [Module.callsOf, Module.reorder, List.flatMap_map]
  simp only [Function.renumber, stmtCallsOf_renumber hcallee]
  exact (perm_reorder horder).flatMap_right _

/-- What becomes of a program whose functions were put in another order. -/
theorem ProgramChecked.reorder {order : List Nat}
    (horder : order.Perm (List.range p.functions.length)) {m m' : Module}
    (h : ProgramChecked p m) (h' : ProgramChecked (p.reorder order) m') :
    m' = m.reorder order := by
  have hresolves := h.resolves
  have hresolves' := h'.resolves
  obtain @⟨t, T, gs, hdeclared, hfunctions⟩ := h
  obtain @⟨t', T', gs', hdeclared', hfunctions'⟩ := h'
  have hby := Callables.declaredBy_of_ofProgram hdeclared
  have hby' := Callables.declaredBy_of_ofProgram hdeclared'
  have hgs := functions_reorder horder hby hby' hfunctions hfunctions'
  have hlength : gs.length = p.functions.length := hresolves.functions.length_eq.symm
  have himports : T'.imports.map (·.declared) = T.imports.map (·.declared) := by
    apply List.ext_getElem?
    intro index
    by_cases hindex : index < p.imports.length
    · have hi := List.getElem?_eq_getElem hindex
      obtain ⟨j, hj, hjresolves⟩ := hresolves.imports index _ hi
      obtain ⟨j', hj', hjresolves'⟩ := hresolves'.imports index _ hi
      have horder' : order.Perm (List.range gs.length) := by rwa [hlength]
      have hperm := Module.callsOf_reorder (m := ⟨T.imports.map (·.declared), gs⟩) horder' index
      have hfit := hfunctions.callsFit (c := .imported index) hby.namesDeclared (.refl T)
      have hcalls := headD_eq_of_perm hfit hperm []
      rw [hj', hj]
      refine congrArg some (hjresolves.unique hjresolves' ?_)
      rw [hgs]
      exact hcalls
    · have hnone : ∀ is : List Import, is.length = p.imports.length → is[index]? = none := by
        intro is his
        exact List.getElem?_eq_none (by omega)
      rw [hnone _ hresolves.importCount, hnone _ hresolves'.importCount]
  rw [Module.reorder, himports, hgs]

/-- **The order of functions does not matter.**  A program whose functions are put in another
    order is accepted if and only if it was accepted before, and becomes the same module with
    its functions in that order. -/
theorem Module.ofProgram_reorder {order : List Nat}
    (horder : order.Perm (List.range p.functions.length)) (m' : Module) :
    Module.ofProgram (p.reorder order) = .ok m' ↔
      ∃ m, Module.ofProgram p = .ok m ∧ m' = m.reorder order := by
  have hperm : (p.reorder order).functions.Perm p.functions := perm_reorder horder
  constructor
  · intro h'
    have htypable : p.Typable :=
      typable_of_perm (Module.ofProgram_ok h').typable rfl hperm.symm
    obtain ⟨m, h⟩ := exists_ofProgram_of_typable htypable
    exact ⟨m, h, (Module.ofProgram_ok h).reorder horder (Module.ofProgram_ok h')⟩
  · rintro ⟨m, h, rfl⟩
    have htypable : (p.reorder order).Typable :=
      typable_of_perm (Module.ofProgram_ok h).typable rfl hperm
    obtain ⟨m', h'⟩ := exists_ofProgram_of_typable htypable
    rw [h', (Module.ofProgram_ok h).reorder horder (Module.ofProgram_ok h')]

/-- Two functions that call each other.  The types of the import follow from a call in the
    one or in the other, whichever is first:

        from env import log

        def ping(n: int):
            log(n)
            pong(n)

        def pong(n: int):
            ping(n)
            log(0)
-/
def pingPong : Surface.Program where
  imports := [⟨"env", "log", none, .nowhere⟩]
  functions :=
    [{ name := "ping"
       params := [⟨"n", ⟨"int", .nowhere⟩, .nowhere⟩]
       result := none
       body :=
         ⟨[.perform (.call "log" [.symbol "n" .nowhere] .nowhere) .nowhere,
           .perform (.call "pong" [.symbol "n" .nowhere] .nowhere) .nowhere], .nowhere⟩
       span := .nowhere },
     { name := "pong"
       params := [⟨"n", ⟨"int", .nowhere⟩, .nowhere⟩]
       result := none
       body :=
         ⟨[.perform (.call "ping" [.symbol "n" .nowhere] .nowhere) .nowhere,
           .perform (.call "log" [.number 0 .nowhere] .nowhere) .nowhere], .nowhere⟩
       span := .nowhere }]

theorem pingPong_reorder :
    ∃ m, Module.ofProgram pingPong = .ok m ∧
      Module.ofProgram (pingPong.reorder [1, 0]) = .ok (m.reorder [1, 0]) ∧
      (m.reorder [1, 0]).functions.map (·.name) = ["pong", "ping"] := by
  obtain ⟨m, hm⟩ : ∃ m, Module.ofProgram pingPong = .ok m := ⟨_, rfl⟩
  refine ⟨m, hm, (Module.ofProgram_reorder (by decide) _).mpr ⟨m, hm, rfl⟩, ?_⟩
  obtain rfl := Except.ok.inj hm
  rfl

end Typed
end Offside

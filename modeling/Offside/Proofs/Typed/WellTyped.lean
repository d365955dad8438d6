/-
  Offside/Proofs/Typed/WellTyped.lean
  ===================================
  **Well-typed modules, and that the checker makes them.**  An expression of the typed tree
  carries its type; it is well typed if that type is the one its parts, the slots of its
  function and the signatures of the module give it.  Statements and functions follow.

  The checker fixes signatures of imports and adds variables while it goes, so a part that
  was checked early was checked against less than the finished module has.  Nothing that was
  known is ever changed (`Callables.Extends`, `Scope.Extends`), and being well typed
  survives every such extension; hence all parts are well typed in the end
  (`Module.wellTyped_of_ofProgram`).  It begins with the table of what the program declares
  (`DeclaredBy`).  Slots are 32-bit numbers, and the statement is about functions whose
  variables they can tell apart.
-/
import Offside.Proofs.Typed.Declared

namespace Offside.Typed

/-! ### Well-typed trees -/

/-- Holds of an expression that carries the type it has, for the signatures of the callees
    and the types of the slots. -/
inductive Expr.WellTyped (signatureOf : Callee → Option Signature) (slots : List NumType) :
    Expr → Prop where
  | int (value : Int32) (span : Span) :
      Expr.WellTyped signatureOf slots (.int value (.value .int) span)
  | float (value : Number.Binary64) (span : Span) :
      Expr.WellTyped signatureOf slots (.float value (.value .float) span)
  | slot {slot : UInt32} {n : NumType} {span : Span} (declared : slots[slot.toNat]? = some n) :
      Expr.WellTyped signatureOf slots (.slot slot (.value n) span)
  | binary {op : BinaryOp} {l r : Expr} {n : NumType} {span : Span}
      (hl : l.WellTyped signatureOf slots) (hr : r.WellTyped signatureOf slots)
      (tl : l.type = .value n) (tr : r.type = .value n) :
      Expr.WellTyped signatureOf slots (.binary op l r (.value n) span)
  | negate {e : Expr} {n : NumType} {span : Span} (he : e.WellTyped signatureOf slots)
      (te : e.type = .value n) : Expr.WellTyped signatureOf slots (.negate e (.value n) span)
  | compare {op : CompareOp} {l r : Expr} {n : NumType} {span : Span}
      (hl : l.WellTyped signatureOf slots) (hr : r.WellTyped signatureOf slots)
      (tl : l.type = .value n) (tr : r.type = .value n) :
      Expr.WellTyped signatureOf slots (.compare op n l r .bool span)
  | logic {op : BoolOp} {l r : Expr} {span : Span} (hl : l.WellTyped signatureOf slots)
      (hr : r.WellTyped signatureOf slots) (tl : l.type = .bool) (tr : r.type = .bool) :
      Expr.WellTyped signatureOf slots (.logic op l r .bool span)
  | call {callee : Callee} {args : List Expr} {signature : Signature} {span : Span}
      (hargs : ∀ e ∈ args, e.WellTyped signatureOf slots)
      (known : signatureOf callee = some signature)
      (types : args.map Expr.type = signature.params.map ExprType.value) :
      Expr.WellTyped signatureOf slots (.call callee args (.ofResult signature.result) span)

/-- Holds of a statement whose parts fit together, in a function with the given result. -/
inductive Stmt.WellTyped (signatureOf : Callee → Option Signature) (slots : List NumType)
    (result : Option NumType) : Stmt → Prop where
  | assign {slot : UInt32} {e : Expr} {n : NumType} {span : Span}
      (he : e.WellTyped signatureOf slots) (te : e.type = .value n)
      (declared : slots[slot.toNat]? = some n) :
      Stmt.WellTyped signatureOf slots result (.assign slot e span)
  | perform {e : Expr} {span : Span} (he : e.WellTyped signatureOf slots) :
      Stmt.WellTyped signatureOf slots result (.perform e span)
  | branch {e : Expr} {ss ss' : List Stmt} {span : Span} (he : e.WellTyped signatureOf slots)
      (te : e.type = .bool) (hss : ∀ s ∈ ss, s.WellTyped signatureOf slots result)
      (hss' : ∀ s ∈ ss', s.WellTyped signatureOf slots result) :
      Stmt.WellTyped signatureOf slots result (.branch e ss ss' span)
  | whileDo {e : Expr} {ss : List Stmt} {span : Span} (he : e.WellTyped signatureOf slots)
      (te : e.type = .bool) (hss : ∀ s ∈ ss, s.WellTyped signatureOf slots result) :
      Stmt.WellTyped signatureOf slots result (.whileDo e ss span)
  | retNone {span : Span} (declared : result = none) :
      Stmt.WellTyped signatureOf slots result (.ret none span)
  | ret {e : Expr} {n : NumType} {span : Span} (declared : result = some n)
      (he : e.WellTyped signatureOf slots) (te : e.type = .value n) :
      Stmt.WellTyped signatureOf slots result (.ret (some e) span)
  | pass : Stmt.WellTyped signatureOf slots result .pass
  | brk (span : Span) : Stmt.WellTyped signatureOf slots result (.brk span)
  | cont (span : Span) : Stmt.WellTyped signatureOf slots result (.cont span)

/-- The signature of a callee in a module. -/
def Module.signatureOf (m : Module) : Callee → Option Signature
  | .imported index => m.imports[index]?.map (·.signature)
  | .defined index => m.functions[index]?.map (·.signature)

/-- Holds of a function of the module whose body is well typed and, if it has a result,
    returns on every path. -/
structure Function.WellTyped (m : Module) (f : Function) : Prop where
  body : ∀ s ∈ f.body, s.WellTyped m.signatureOf f.slots f.signature.result
  returns : f.signature.result.isSome = true → bodyReturns f.body = true

def Module.WellTyped (m : Module) : Prop := ∀ f ∈ m.functions, f.WellTyped m

/-! ### More signatures and more slots -/

variable {sig sig' : Callee → Option Signature} {slots slots' : List NumType}

theorem getElem?_extend {α : Type} {xs ys : List α} {i : Nat} {x : α} (h : xs <+: ys)
    (hx : xs[i]? = some x) : ys[i]? = some x := by
  obtain ⟨zs, rfl⟩ := h
  obtain ⟨hi, -⟩ := List.getElem?_eq_some_iff.mp hx
  rwa [List.getElem?_append_left hi]

theorem Expr.WellTyped.mono {e : Expr} (h : e.WellTyped sig slots)
    (hsig : ∀ c s, sig c = some s → sig' c = some s) (hslots : slots <+: slots') :
    e.WellTyped sig' slots' := by
  induction h with
  | int value span => exact .int value span
  | float value span => exact .float value span
  | slot declared => exact .slot (getElem?_extend hslots declared)
  | binary _ _ tl tr hl hr => exact .binary hl hr tl tr
  | negate _ te he => exact .negate he te
  | compare _ _ tl tr hl hr => exact .compare hl hr tl tr
  | logic _ _ tl tr hl hr => exact .logic hl hr tl tr
  | call _ known types hargs => exact .call hargs (hsig _ _ known) types

theorem Stmt.WellTyped.mono {result : Option NumType} {s : Stmt}
    (h : s.WellTyped sig slots result) (hsig : ∀ c s, sig c = some s → sig' c = some s)
    (hslots : slots <+: slots') : s.WellTyped sig' slots' result := by
  induction h with
  | assign he te declared =>
    exact .assign (he.mono hsig hslots) te (getElem?_extend hslots declared)
  | perform he => exact .perform (he.mono hsig hslots)
  | branch he te _ _ hss hss' => exact .branch (he.mono hsig hslots) te hss hss'
  | whileDo he te _ hss => exact .whileDo (he.mono hsig hslots) te hss
  | retNone declared => exact .retNone declared
  | ret declared he te => exact .ret declared (he.mono hsig hslots) te
  | pass => exact .pass
  | brk span => exact .brk span
  | cont span => exact .cont span

/-! ### What the checker knows -/

/-- The signature of a callee, unless it is still to be fixed. -/
def Callables.known (t : Callables) : Callee → Option Signature
  | .imported index =>
    match t.imports[index]? with
    | some i => if i.pending then none else some i.declared.signature
    | none => none
  | .defined index => t.signatures[index]?

/-- Nothing that was known is changed, and nothing is declared. -/
structure Callables.Extends (t t' : Callables) : Prop where
  known : ∀ c s, t.known c = some s → t'.known c = some s
  names : t'.names = t.names
  signatures : t'.signatures = t.signatures
  imports : t'.imports.length = t.imports.length

theorem Callables.Extends.refl (t : Callables) : t.Extends t :=
  ⟨fun _ _ h => h, rfl, rfl, rfl⟩

theorem Callables.Extends.trans {t t' t'' : Callables} (h : t.Extends t')
    (h' : t'.Extends t'') : t.Extends t'' :=
  ⟨fun c s hs => h'.known c s (h.known c s hs), h'.names.trans h.names,
    h'.signatures.trans h.signatures, h'.imports.trans h.imports⟩

/-- Holds of a callee that the table has an entry for. -/
def Callables.Declares (t : Callables) : Callee → Prop
  | .imported index => index < t.imports.length
  | .defined index => index < t.signatures.length

/-- Every name stands for a callee that is declared. -/
def Callables.NamesDeclared (t : Callables) : Prop :=
  ∀ name c, t.find? name = some c → t.Declares c

theorem Callables.NamesDeclared.extends {t t' : Callables} (h : t.NamesDeclared)
    (he : t.Extends t') : t'.NamesDeclared := by
  intro name c hc
  have hc' : t.find? name = some c := by
    rwa [Callables.find?, he.names] at hc
  have hd := h name c hc'
  cases c with
  | imported index =>
    change index < t'.imports.length
    rw [he.imports]
    exact hd
  | defined index =>
    change index < t'.signatures.length
    rw [he.signatures]
    exact hd

theorem Callables.pending?_eq_some {t : Callables} {callee : Callee} {index : Nat} {i : Import}
    (h : t.pending? callee = some (index, i)) :
    callee = .imported index ∧ t.imports[index]? = some ⟨i, true⟩ := by
  cases callee with
  | defined _ => cases h
  | imported j =>
    cases hj : t.imports[j]? with
    | none => simp [Callables.pending?, hj] at h
    | some p =>
      obtain ⟨declared, pending⟩ := p
      cases pending with
      | false => simp [Callables.pending?, hj] at h
      | true =>
        obtain ⟨rfl, rfl⟩ : j = index ∧ declared = i := by simpa [Callables.pending?, hj] using h
        exact ⟨rfl, hj⟩

theorem Callables.settle_extends {t : Callables} {index : Nat} {i : Import}
    (h : t.imports[index]? = some ⟨i, true⟩) (signature : Signature) :
    t.Extends (t.settle index signature) := by
  refine ⟨fun c s hs => ?_, rfl, rfl, by simp [Callables.settle]⟩
  cases c with
  | defined _ => exact hs
  | imported j =>
    by_cases hj : index = j
    · subst hj
      simp [Callables.known, h] at hs
    · simpa [Callables.known, Callables.settle, List.getElem?_modify, hj] using hs

theorem Settles.extends {t t' : Callables} {callee : Callee} {args : List Expr}
    (h : Settles t callee args t') : t.Extends t' := by
  cases h with
  | known _ => exact .refl t
  | first h _ => exact Callables.settle_extends (Callables.pending?_eq_some h).2 _

/-- Once a call was looked at, the signature of its callee is known. -/
theorem Settles.known_signature {t t' : Callables} {callee : Callee} {args : List Expr}
    (h : Settles t callee args t') (hd : t.Declares callee) :
    t'.known callee = some (t'.signature callee) := by
  cases h with
  | known h =>
    cases callee with
    | defined index =>
      have hi : index < t.signatures.length := hd
      simp [Callables.known, Callables.signature, hi]
    | imported index =>
      have hi : index < t.imports.length := hd
      have hp : t.imports[index].pending = false := by
        simpa [Callables.pending?, hi] using h
      simp [Callables.known, Callables.signature, hi, hp]
  | first h _ =>
    obtain ⟨rfl, hi⟩ := Callables.pending?_eq_some h
    simp [Callables.known, Callables.signature, Callables.settle, hi]

/-! ### Expressions -/

/-- Every variable in scope has the type of its slot. -/
def Scope.VarsIn (scope : Scope) (slots : List NumType) : Prop :=
  ∀ name v, scope.find? name = some v → slots[v.slot.toNat]? = some v.type

mutual

theorem ExprChecked.extends {scope : Scope} {t t' : Callables} {e : Surface.Expr} {e' : Expr}
    (h : ExprChecked scope t e e' t') : t.Extends t' := by
  cases h with
  | number | float | char | symbol => exact .refl t
  | binary hl hr _ _ => exact hl.extends.trans hr.extends
  | compare hl hr _ _ => exact hl.extends.trans hr.extends
  | logic hl hr _ _ => exact hl.extends.trans hr.extends
  | negate he _ => exact he.extends
  | call _ hargs settles _ => exact hargs.extends.trans settles.extends

theorem ExprsChecked.extends {scope : Scope} {t t' : Callables} {es : List Surface.Expr}
    {es' : List Expr} (h : ExprsChecked scope t es es' t') : t.Extends t' := by
  cases h with
  | nil => exact .refl t
  | cons he hes => exact he.extends.trans hes.extends

end

mutual

theorem ExprChecked.wellTyped {scope : Scope} {t t' : Callables} {e : Surface.Expr} {e' : Expr}
    (h : ExprChecked scope t e e' t') (names : t.NamesDeclared) (vars : scope.VarsIn slots) :
    e'.WellTyped t'.known slots := by
  cases h with
  | number _ value span => exact .int value span
  | float _ value span => exact .float value span
  | char _ value span => exact .int _ span
  | symbol declared => exact .slot (vars _ _ declared)
  | binary hl hr tl tr =>
    have hl' := (hl.wellTyped names vars).mono hr.extends.known (List.prefix_refl slots)
    exact .binary hl' (hr.wellTyped (names.extends hl.extends) vars) tl tr
  | compare hl hr tl tr =>
    have hl' := (hl.wellTyped names vars).mono hr.extends.known (List.prefix_refl slots)
    exact .compare hl' (hr.wellTyped (names.extends hl.extends) vars) tl tr
  | logic hl hr tl tr =>
    have hl' := (hl.wellTyped names vars).mono hr.extends.known (List.prefix_refl slots)
    exact .logic hl' (hr.wellTyped (names.extends hl.extends) vars) tl tr
  | negate he te => exact .negate (he.wellTyped names vars) te
  | call declared hargs settles types =>
    have hknown := settles.known_signature (names.extends hargs.extends _ _ (by
      rw [Callables.find?, hargs.extends.names]
      exact declared))
    refine .call (fun e he => ?_) hknown types
    exact (hargs.wellTyped names vars e he).mono settles.extends.known (List.prefix_refl slots)

theorem ExprsChecked.wellTyped {scope : Scope} {t t' : Callables} {es : List Surface.Expr}
    {es' : List Expr} (h : ExprsChecked scope t es es' t') (names : t.NamesDeclared)
    (vars : scope.VarsIn slots) : ∀ e ∈ es', e.WellTyped t'.known slots := by
  cases h with
  | nil => simp
  | cons he hes =>
    intro e hmem
    rcases List.mem_cons.mp hmem with rfl | hmem
    · exact (he.wellTyped names vars).mono hes.extends.known (List.prefix_refl slots)
    · exact hes.wellTyped (names.extends he.extends) vars e hmem

end

/-! ### Scopes -/

/-- Parameters and result stay, and variables are added behind the others. -/
structure Scope.Extends (scope scope' : Scope) : Prop where
  result : scope'.result = scope.result
  paramCount : scope'.paramCount = scope.paramCount
  locals : scope.locals <+: scope'.locals

theorem Scope.Extends.refl (scope : Scope) : scope.Extends scope :=
  ⟨rfl, rfl, List.prefix_refl _⟩

theorem Scope.Extends.trans {scope scope' scope'' : Scope} (h : scope.Extends scope')
    (h' : scope'.Extends scope'') : scope.Extends scope'' :=
  ⟨h'.result.trans h.result, h'.paramCount.trans h.paramCount, h.locals.trans h'.locals⟩

theorem AssignsTo.extends {scope scope' : Scope} {name : String} {n : NumType} {slot : UInt32}
    (h : AssignsTo scope name n slot scope') : scope.Extends scope' := by
  cases h with
  | known _ _ => exact .refl scope
  | fresh _ => exact ⟨rfl, rfl, List.prefix_append _ _⟩

/-- The parameters of the scope have the types `params`, and every variable the type of its
    slot. -/
structure Scope.Slots (params : List NumType) (scope : Scope) : Prop where
  paramCount : scope.paramCount = params.length
  vars : scope.VarsIn (params ++ scope.locals)

theorem Scope.find?_enter_eq (scope : Scope) (v : Variable) (x : String) :
    (scope.enter v).find? x = if x = v.name then some v else scope.find? x := by
  rw [Scope.find?, Scope.enter, List.find?_cons]
  by_cases hx : x = v.name
  · simp [hx]
  · have hne : ¬ v.name = x := fun h => hx h.symm
    simp only [hne, decide_false, if_neg hx]
    rw [List.find?_filter, Scope.find?]
    congr 1
    funext u
    by_cases hu : u.name = x
    · simp [hu, hx]
    · simp [hu]

theorem Scope.find?_enter {scope : Scope} {v w : Variable} {name : String}
    (h : (scope.enter v).find? name = some w) : w = v ∨ scope.find? name = some w := by
  rw [Scope.find?_enter_eq] at h
  split at h
  · exact .inl (Option.some.inj h).symm
  · exact .inr h

theorem AssignsTo.fits_slots {params : List NumType} {scope scope' : Scope} {name : String}
    {n : NumType} {slot : UInt32} (h : AssignsTo scope name n slot scope')
    (hslots : scope.Slots params) (fits : (params ++ scope'.locals).length ≤ UInt32.size) :
    scope'.Slots params ∧ (params ++ scope'.locals)[slot.toNat]? = some n := by
  cases h with
  | known hfind same =>
    subst same
    exact ⟨hslots, hslots.vars _ _ hfind⟩
  | fresh hfind =>
    have hlast : (params ++ (scope.locals ++ [n]))[scope.nextLocal.toNat]? = some n := by
      have hcount : scope.paramCount + scope.locals.length = (params ++ scope.locals).length := by
        rw [hslots.paramCount, List.length_append]
      have hlt : (params ++ scope.locals).length < UInt32.size := by
        simp only [Scope.declareLocal, List.length_append, List.length_singleton] at fits ⊢
        omega
      rw [Scope.nextLocal, hcount, UInt32.toNat_ofNat_of_lt' hlt, ← List.append_assoc]
      exact List.getElem?_concat_length
    refine ⟨⟨hslots.paramCount, fun x v hv => ?_⟩, hlast⟩
    rcases Scope.find?_enter hv with rfl | hv
    · exact hlast
    · have hpre : params ++ scope.locals <+: params ++ (scope.locals ++ [n]) := by
        rw [← List.append_assoc]
        exact List.prefix_append _ _
      exact getElem?_extend hpre (hslots.vars x v hv)

/-! ### Statements -/

mutual

theorem StmtChecked.extends {t t' : Callables} {scope scope' : Scope} {st : Surface.Stmt}
    {st' : Stmt} (h : StmtChecked t scope st st' t' scope') :
    t.Extends t' ∧ scope.Extends scope' := by
  cases h with
  | assign he _ assigns => exact ⟨he.extends, assigns.extends⟩
  | perform he => exact ⟨he.extends, .refl scope⟩
  | ifThen he _ hss => exact ⟨he.extends.trans hss.extends.1, hss.extends.2⟩
  | ifElse he _ hss hss' =>
    exact ⟨(he.extends.trans hss.extends.1).trans hss'.extends.1,
      hss.extends.2.trans hss'.extends.2⟩
  | whileDo he _ hss => exact ⟨he.extends.trans hss.extends.1, hss.extends.2⟩
  | ret _ he _ => exact ⟨he.extends, .refl scope⟩
  | retNone | pass | brk | cont => exact ⟨.refl t, .refl scope⟩

theorem StmtsChecked.extends {t t' : Callables} {scope scope' : Scope}
    {ss : List Surface.Stmt} {ss' : List Stmt} (h : StmtsChecked t scope ss ss' t' scope') :
    t.Extends t' ∧ scope.Extends scope' := by
  cases h with
  | nil => exact ⟨.refl t, .refl scope⟩
  | cons hs hss =>
    exact ⟨hs.extends.1.trans hss.extends.1, hs.extends.2.trans hss.extends.2⟩

end

theorem Scope.Extends.fits {params : List NumType} {scope scope' : Scope}
    (h : scope.Extends scope') (fits : (params ++ scope'.locals).length ≤ UInt32.size) :
    (params ++ scope.locals).length ≤ UInt32.size := by
  have := h.locals.length_le
  simp only [List.length_append] at fits ⊢
  omega

theorem Scope.Extends.slots_le {scope scope' : Scope} (h : scope.Extends scope')
    (params : List NumType) : params ++ scope.locals <+: params ++ scope'.locals :=
  List.prefix_append_right_inj params |>.mpr h.locals

mutual

theorem StmtChecked.wellTyped {params : List NumType} {t t' : Callables}
    {scope scope' : Scope} {st : Surface.Stmt} {st' : Stmt}
    (h : StmtChecked t scope st st' t' scope') (names : t.NamesDeclared)
    (hslots : scope.Slots params) (fits : (params ++ scope'.locals).length ≤ UInt32.size) :
    scope'.Slots params ∧
      st'.WellTyped t'.known (params ++ scope'.locals) scope.result := by
  cases h with
  | assign he te assigns =>
    obtain ⟨hslots', hslot⟩ := assigns.fits_slots hslots fits
    have he' := he.wellTyped names hslots.vars
    exact ⟨hslots', .assign (he'.mono (fun _ _ h => h) (assigns.extends.slots_le params)) te hslot⟩
  | perform he => exact ⟨hslots, .perform (he.wellTyped names hslots.vars)⟩
  | ifThen he te hss =>
    obtain ⟨hslots', hss'⟩ := hss.wellTyped (names.extends he.extends) hslots fits
    have he' := (he.wellTyped names hslots.vars).mono hss.extends.1.known
      (hss.extends.2.slots_le params)
    exact ⟨hslots', .branch he' te hss' (by simp)⟩
  | ifElse he te hss hos =>
    obtain ⟨hslots₁, hss'⟩ := hss.wellTyped (names.extends he.extends) hslots
      (hos.extends.2.fits fits)
    obtain ⟨hslots', hos'⟩ := hos.wellTyped
      (names.extends (he.extends.trans hss.extends.1)) hslots₁ fits
    have he' := (he.wellTyped names hslots.vars).mono (hss.extends.1.trans hos.extends.1).known
      ((hss.extends.2.trans hos.extends.2).slots_le params)
    rw [hss.extends.2.result] at hos'
    refine ⟨hslots', .branch he' te (fun s hs => ?_) hos'⟩
    exact (hss' s hs).mono hos.extends.1.known (hos.extends.2.slots_le params)
  | whileDo he te hss =>
    obtain ⟨hslots', hss'⟩ := hss.wellTyped (names.extends he.extends) hslots fits
    have he' := (he.wellTyped names hslots.vars).mono hss.extends.1.known
      (hss.extends.2.slots_le params)
    exact ⟨hslots', .whileDo he' te hss'⟩
  | retNone declared => exact ⟨hslots, .retNone declared⟩
  | ret declared he te => exact ⟨hslots, .ret declared (he.wellTyped names hslots.vars) te⟩
  | pass => exact ⟨hslots, .pass⟩
  | brk _ _ span => exact ⟨hslots, .brk span⟩
  | cont _ _ span => exact ⟨hslots, .cont span⟩

theorem StmtsChecked.wellTyped {params : List NumType} {t t' : Callables}
    {scope scope' : Scope} {ss : List Surface.Stmt} {ss' : List Stmt}
    (h : StmtsChecked t scope ss ss' t' scope') (names : t.NamesDeclared)
    (hslots : scope.Slots params) (fits : (params ++ scope'.locals).length ≤ UInt32.size) :
    scope'.Slots params ∧
      ∀ s ∈ ss', s.WellTyped t'.known (params ++ scope'.locals) scope.result := by
  cases h with
  | nil => exact ⟨hslots, by simp⟩
  | cons hs hss =>
    obtain ⟨hslots₁, hs'⟩ := hs.wellTyped names hslots (hss.extends.2.fits fits)
    obtain ⟨hslots', hss'⟩ := hss.wellTyped (names.extends hs.extends.1) hslots₁ fits
    rw [hs.extends.2.result] at hss'
    refine ⟨hslots', fun s hmem => ?_⟩
    rcases List.mem_cons.mp hmem with rfl | hmem
    · exact hs'.mono hss.extends.1.known (hss.extends.2.slots_le params)
    · exact hss' s hmem

end

/-! ### Functions -/

theorem Scope.empty_slots (function : String) (result : Option NumType) :
    (Scope.empty function result).Slots [] :=
  ⟨rfl, fun name v h => by simp [Scope.empty, Scope.find?] at h⟩

theorem declareParam_slots {params : List NumType} {scope scope' : Scope} {name : String}
    {n : NumType} {position : Position} (h : scope.declareParam name n position = .ok scope')
    (hslots : scope.Slots params) (hlocals : scope.locals = [])
    (fits : (params ++ [n]).length ≤ UInt32.size) :
    scope'.Slots (params ++ [n]) ∧ scope'.locals = [] ∧ scope'.result = scope.result := by
  rw [Scope.declareParam] at h
  cases hfind : scope.find? name with
  | some v => simp [hfind] at h
  | none =>
    simp only [hfind, Except.ok.injEq] at h
    subst h
    refine ⟨⟨by simp [hslots.paramCount], fun x v hv => ?_⟩, hlocals, rfl⟩
    change (params ++ [n] ++ scope.locals)[v.slot.toNat]? = some v.type
    rw [hlocals, List.append_nil]
    rcases Scope.find?_enter hv with rfl | hv
    · have hlt : params.length < UInt32.size := by
        rw [List.length_append, List.length_singleton] at fits
        omega
      change (params ++ [n])[(UInt32.ofNat scope.paramCount).toNat]? = some n
      rw [hslots.paramCount, UInt32.toNat_ofNat_of_lt' hlt]
      exact List.getElem?_concat_length
    · have hv' := hslots.vars x v hv
      rw [hlocals, List.append_nil] at hv'
      exact getElem?_extend (List.prefix_append _ _) hv'

theorem paramScope_slots {ps : List (Surface.Parameter × NumType)} {params : List NumType}
    {scope scope' : Scope} (h : paramScope scope ps = .ok scope') (hslots : scope.Slots params)
    (hlocals : scope.locals = []) (fits : (params ++ ps.map Prod.snd).length ≤ UInt32.size) :
    scope'.Slots (params ++ ps.map Prod.snd) ∧ scope'.locals = [] ∧
      scope'.result = scope.result := by
  induction ps generalizing params scope with
  | nil =>
    obtain rfl := Except.ok.inj h
    rw [List.map_nil, List.append_nil]
    exact ⟨hslots, hlocals, rfl⟩
  | cons p ps ih =>
    obtain ⟨p, n⟩ := p
    obtain ⟨s₁, hs₁, hrest⟩ := bind_eq_ok.mp h
    have hassoc : params ++ ((p, n) :: ps).map Prod.snd = params ++ [n] ++ ps.map Prod.snd := by
      simp
    rw [hassoc] at fits ⊢
    have fits₁ : (params ++ [n]).length ≤ UInt32.size := by
      rw [List.length_append] at fits
      omega
    obtain ⟨hslots₁, hlocals₁, hresult₁⟩ := declareParam_slots hs₁ hslots hlocals fits₁
    obtain ⟨hslots', hlocals', hresult'⟩ := ih hrest hslots₁ hlocals₁ fits
    exact ⟨hslots', hlocals', hresult'.trans hresult₁⟩

theorem FunctionChecked.extends {t t' : Callables} {f : Surface.Function} {g : Function}
    {signature : Signature} (h : FunctionChecked t f signature g t') : t.Extends t' := by
  cases h with
  | intro _ hbody _ => exact hbody.extends.1

theorem FunctionChecked.wellTyped {t t' : Callables} {f : Surface.Function} {g : Function}
    {signature : Signature} (h : FunctionChecked t f signature g t') (names : t.NamesDeclared)
    (hlen : f.params.length = signature.params.length) (fits : g.slots.length ≤ UInt32.size) :
    (∀ s ∈ g.body, s.WellTyped t'.known g.slots g.signature.result) ∧
      (g.signature.result.isSome = true → bodyReturns g.body = true) := by
  cases h with
  | @intro scope scope' body _ hparams hbody returns =>
    have hsnd : (f.params.zip signature.params).map Prod.snd = signature.params :=
      List.map_snd_zip (by omega)
    have fits' : (signature.params ++ scope'.locals).length ≤ UInt32.size := fits
    have fits₀ : ([] ++ (f.params.zip signature.params).map Prod.snd).length ≤ UInt32.size := by
      rw [hsnd, List.nil_append]
      rw [List.length_append] at fits'
      omega
    obtain ⟨hslots, -, hresult⟩ := paramScope_slots hparams (Scope.empty_slots _ _) rfl fits₀
    rw [hsnd, List.nil_append] at hslots
    obtain ⟨-, hbody'⟩ := hbody.wellTyped names hslots fits
    rw [hresult] at hbody'
    exact ⟨hbody', returns⟩

theorem FunctionsChecked.extends {t t' : Callables}
    {fs : List (Surface.Function × Signature)} {gs : List Function}
    (h : FunctionsChecked t fs gs t') : t.Extends t' := by
  induction h with
  | nil t => exact .refl t
  | cons hf _ ih => exact hf.extends.trans ih

theorem FunctionsChecked.signatures {t t' : Callables}
    {fs : List (Surface.Function × Signature)} {gs : List Function}
    (h : FunctionsChecked t fs gs t') :
    gs.map Function.signature = fs.map Prod.snd := by
  induction h with
  | nil t => rfl
  | cons hf _ ih =>
    cases hf with
    | intro => simp [ih]

theorem FunctionsChecked.wellTyped {t t' : Callables}
    {fs : List (Surface.Function × Signature)} {gs : List Function}
    (h : FunctionsChecked t fs gs t') (names : t.NamesDeclared)
    (hlen : ∀ f ∈ fs, f.1.params.length = f.2.params.length)
    (fits : ∀ g ∈ gs, g.slots.length ≤ UInt32.size) :
    ∀ g ∈ gs, (∀ s ∈ g.body, s.WellTyped t'.known g.slots g.signature.result) ∧
      (g.signature.result.isSome = true → bodyReturns g.body = true) := by
  induction h with
  | nil t => simp
  | @cons _ _ _ f signature fs g gs hf hfs ih =>
    intro g' hmem
    rcases List.mem_cons.mp hmem with rfl | hmem
    · obtain ⟨hbody, returns⟩ := hf.wellTyped names (hlen (f, signature) (by simp))
        (fits g' (by simp))
      refine ⟨fun s hs => ?_, returns⟩
      exact (hbody s hs).mono hfs.extends.known (List.prefix_refl _)
    · exact ih (names.extends hf.extends) (fun f' hf' => hlen f' (by simp [hf']))
        (fun g'' hg'' => fits g'' (by simp [hg''])) g' hmem

/-! ### Programs -/

theorem DeclaredBy.namesDeclared {p : Surface.Program} {t : Callables} (h : DeclaredBy p t) :
    t.NamesDeclared := by
  intro name c hc
  have hname := (h.names name c).mp hc
  cases c with
  | imported index =>
    have hlt := (List.getElem?_eq_some_iff.mp hname).1
    rwa [List.length_map, h.imports.length_eq] at hlt
  | defined index =>
    have hlt := (List.getElem?_eq_some_iff.mp hname).1
    rwa [List.length_map, h.functions.length_eq] at hlt

theorem known_signatureOf {t : Callables} {functions : List Function}
    (hsigs : functions.map Function.signature = t.signatures) {c : Callee} {s : Signature}
    (h : t.known c = some s) :
    (Module.mk (t.imports.map (·.declared)) functions).signatureOf c = some s := by
  cases c with
  | imported index =>
    cases hi : t.imports[index]? with
    | none => simp [Callables.known, hi] at h
    | some i =>
      cases hp : i.pending with
      | true => simp [Callables.known, hi, hp] at h
      | false => simpa [Callables.known, Module.signatureOf, hi, hp] using h
  | defined index =>
    rw [Callables.known, ← hsigs, List.getElem?_map] at h
    exact h

/-- **The checker makes well-typed modules.** -/
theorem Module.wellTyped_of_ofProgram {p : Surface.Program} {m : Module}
    (h : Module.ofProgram p = .ok m) (fits : ∀ f ∈ m.functions, f.slots.length ≤ UInt32.size) :
    m.WellTyped := by
  obtain @⟨t, t', functions, hdeclared, hfunctions⟩ := Module.ofProgram_ok h
  have hby := Callables.declaredBy_of_ofProgram hdeclared
  have hparams : ∀ f ∈ p.functions.zip t.signatures, f.1.params.length = f.2.params.length := by
    rintro ⟨f, s⟩ hf
    have hannotates := (List.forall₂_iff_zip.mp hby.functions).2 hf
    simpa using hannotates.length_params
  have hsigs : functions.map Function.signature = t'.signatures := by
    rw [hfunctions.signatures, hfunctions.extends.signatures]
    exact List.map_snd_zip (Nat.le_of_eq hby.functions.length_eq.symm)
  intro f hf
  obtain ⟨hbody, returns⟩ := hfunctions.wellTyped hby.namesDeclared hparams fits f hf
  refine ⟨fun s hs => ?_, returns⟩
  exact (hbody s hs).mono (fun c s h => known_signatureOf hsigs h) (List.prefix_refl _)

end Offside.Typed

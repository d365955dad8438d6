/-
  Offside/Proofs/Typed/Declared.lean
  ==================================
  **What a program declares.**  Before any body is checked, the callables of a program are
  entered into a table: every import and every function under its name and its index, with
  the signature that its annotations name.  `DeclaredBy` says this of a table, one fact for
  each part of it.

  The table is made exactly if it can be (`Callables.declaredBy_of_ofProgram` and
  `Callables.exists_ofProgram`): the names are distinct and none is that of the builtin,
  and every annotation is the name of a number type.  Both are proved for the declarations
  made so far, which grow at their end.
-/
import Mathlib.Data.List.Forall2
import Offside.Proofs.Typed.Checked

namespace Offside

/-! ### Annotations -/

theorem NumType.ofName?_eq_some {name : String} {n : NumType} :
    NumType.ofName? name = some n ↔ name = n.name := by
  constructor
  · intro h
    rw [NumType.ofName?] at h
    split at h
    · rename_i hint
      obtain rfl := Option.some.inj h
      exact hint
    · split at h
      · rename_i hfloat
        obtain rfl := Option.some.inj h
        exact hfloat
      · cases h
  · rintro rfl
    exact NumType.ofName?_name n

namespace Typed

/-- The annotations name the types of the signature. -/
structure Annotates (params : List Surface.TypeExpr) (result : Option Surface.TypeExpr)
    (s : Signature) : Prop where
  params : params.map (·.name) = s.params.map NumType.name
  result : result.map (·.name) = s.result.map NumType.name

theorem Annotates.length_params {params : List Surface.TypeExpr}
    {result : Option Surface.TypeExpr} {s : Signature} (h : Annotates params result s) :
    params.length = s.params.length := by
  have := congrArg List.length h.params
  simpa using this

theorem Annotates.isSome_result {params : List Surface.TypeExpr}
    {result : Option Surface.TypeExpr} {s : Signature} (h : Annotates params result s) :
    s.result.isSome = result.isSome := by
  have := congrArg Option.isSome h.result
  simpa using this.symm

theorem eq_of_mem_zip {α β γ : Type} {f : α → γ} {g : β → γ} {as : List α} {bs : List β}
    (h : as.map f = bs.map g) {a : α} {b : β} (hmem : (a, b) ∈ as.zip bs) : f a = g b := by
  induction as generalizing bs with
  | nil => cases hmem
  | cons a' as ih =>
    cases bs with
    | nil => cases hmem
    | cons b' bs =>
      obtain ⟨hhead, htail⟩ := List.cons.inj h
      rcases List.mem_cons.mp hmem with heq | hmem
      · obtain ⟨rfl, rfl⟩ := Prod.mk.inj heq
        exact hhead
      · exact ih htail hmem

theorem exists_mem_zip {α β : Type} {as : List α} {bs : List β} (h : as.length = bs.length)
    {a : α} (ha : a ∈ as) : ∃ b, (a, b) ∈ as.zip bs := by
  have hfst : (as.zip bs).map Prod.fst = as := List.map_fst_zip (by omega)
  rw [← hfst] at ha
  obtain ⟨⟨a, b⟩, hmem, rfl⟩ := List.mem_map.mp ha
  exact ⟨b, hmem⟩

theorem Annotates.param {params : List Surface.Parameter} {result : Option Surface.TypeExpr}
    {s : Signature} (h : Annotates (params.map (·.type)) result s) {q : Surface.Parameter}
    {n : NumType} (hmem : (q, n) ∈ params.zip s.params) : q.type.name = n.name := by
  have hparams := h.params
  rw [List.map_map] at hparams
  exact eq_of_mem_zip hparams hmem

theorem resolve_ok {a : Surface.TypeExpr} {n : NumType} :
    resolve a = .ok n ↔ a.name = n.name := by
  rw [← NumType.ofName?_eq_some, resolve]
  cases NumType.ofName? a.name <;> simp

theorem resolveAll_ok {as : List Surface.TypeExpr} {ns : List NumType} :
    resolveAll as = .ok ns ↔ as.map (·.name) = ns.map NumType.name := by
  induction as generalizing ns with
  | nil => cases ns <;> simp [resolveAll]
  | cons a as ih =>
    simp only [resolveAll, bind_eq_ok, resolve_ok, pure_eq_ok, ih]
    constructor
    · rintro ⟨n, hn, ms, hms, rfl⟩
      simp [hn, hms]
    · intro h
      cases ns with
      | nil => simp at h
      | cons n ns =>
        rw [List.map_cons, List.map_cons, List.cons.injEq] at h
        exact ⟨n, h.1, ns, h.2, rfl⟩

theorem resolveResult_ok {a : Option Surface.TypeExpr} {n : Option NumType} :
    resolveResult a = .ok n ↔ a.map (·.name) = n.map NumType.name := by
  cases a with
  | none => cases n <;> simp [resolveResult]
  | some a =>
    simp only [resolveResult, bind_eq_ok, resolve_ok, pure_eq_ok]
    cases n with
    | none => simp
    | some n => simp

theorem resolveSignature_ok {params : List Surface.TypeExpr} {result : Option Surface.TypeExpr}
    {s : Signature} : resolveSignature params result = .ok s ↔ Annotates params result s := by
  simp only [resolveSignature, bind_eq_ok, resolveAll_ok, resolveResult_ok, pure_eq_ok]
  constructor
  · rintro ⟨ns, hparams, n, hresult, rfl⟩
    exact ⟨hparams, hresult⟩
  · intro h
    exact ⟨s.params, h.params, s.result, h.result, rfl⟩

theorem NumType.exists_name_iff {name : String} :
    (∃ n : NumType, name = n.name) ↔ name = "int" ∨ name = "float" := by
  constructor
  · rintro ⟨n, rfl⟩
    cases n
    · exact .inl rfl
    · exact .inr rfl
  · rintro (rfl | rfl)
    · exact ⟨.int, rfl⟩
    · exact ⟨.float, rfl⟩

theorem Annotates.exists_name {params : List Surface.TypeExpr}
    {result : Option Surface.TypeExpr} {s : Signature} (h : Annotates params result s) :
    ∀ a ∈ params ++ result.toList, ∃ n : NumType, a.name = n.name := by
  intro a ha
  rcases List.mem_append.mp ha with ha | ha
  · have hmem : a.name ∈ params.map (·.name) := List.mem_map.mpr ⟨a, ha, rfl⟩
    rw [h.params] at hmem
    obtain ⟨n, -, hn⟩ := List.mem_map.mp hmem
    exact ⟨n, hn.symm⟩
  · have hresult := h.result
    rw [Option.mem_toList.mp ha] at hresult
    cases hs : s.result with
    | none =>
      rw [hs] at hresult
      cases hresult
    | some n =>
      rw [hs] at hresult
      exact ⟨n, Option.some.inj hresult⟩

/-- Annotations that are names of number types name a signature. -/
theorem exists_annotates {params : List Surface.TypeExpr} {result : Option Surface.TypeExpr}
    (h : ∀ a ∈ params ++ result.toList, ∃ n : NumType, a.name = n.name) :
    ∃ s, Annotates params result s := by
  have hparams : ∀ a ∈ params, ∃ n : NumType, a.name = n.name := fun a ha =>
    h a (List.mem_append_left _ ha)
  have hresult : ∀ a ∈ result, ∃ n : NumType, a.name = n.name := fun a ha =>
    h a (List.mem_append_right _ (Option.mem_toList.mpr ha))
  clear h
  have hexists : ∃ ns : List NumType, params.map (·.name) = ns.map NumType.name := by
    induction params with
    | nil => exact ⟨[], rfl⟩
    | cons a as ih =>
      obtain ⟨n, hn⟩ := hparams a List.mem_cons_self
      obtain ⟨ns, hns⟩ := ih fun b hb => hparams b (List.mem_cons_of_mem a hb)
      exact ⟨n :: ns, by simp [hn, hns]⟩
  obtain ⟨ns, hns⟩ := hexists
  cases result with
  | none => exact ⟨⟨ns, none⟩, hns, rfl⟩
  | some a =>
    obtain ⟨n, hn⟩ := hresult a rfl
    exact ⟨⟨ns, some n⟩, hns, congrArg some hn⟩

theorem NumType.name_injective : Function.Injective NumType.name := by
  intro m n h
  have hm := NumType.ofName?_name m
  rw [h, NumType.ofName?_name n] at hm
  exact (Option.some.inj hm).symm

theorem Annotates.unique {params : List Surface.TypeExpr} {result : Option Surface.TypeExpr}
    {s s' : Signature} (h : Annotates params result s) (h' : Annotates params result s') :
    s = s' := by
  obtain ⟨ns, n⟩ := s
  obtain ⟨ns', n'⟩ := s'
  have hparams : ns = ns' :=
    List.map_injective_iff.mpr NumType.name_injective (h.params.symm.trans h'.params)
  have hresult : n = n' :=
    Option.map_injective NumType.name_injective (h.result.symm.trans h'.result)
  rw [hparams, hresult]

/-! ### Names -/

/-- The names that a program declares for its imports and functions. -/
def callableNames (p : Surface.Program) : List String :=
  p.imports.map (·.name) ++ p.functions.map (·.name)

/-- The name of the import or function that a callee stands for. -/
def Callee.name? (p : Surface.Program) : Callee → Option String
  | .imported index => (p.imports.map (·.name))[index]?
  | .defined index => (p.functions.map (·.name))[index]?

theorem Callee.mem_of_name? {p : Surface.Program} {name : String} {c : Callee}
    (h : c.name? p = some name) : name ∈ callableNames p := by
  cases c with
  | imported index => exact List.mem_append_left _ (List.mem_of_getElem? h)
  | defined index => exact List.mem_append_right _ (List.mem_of_getElem? h)

theorem exists_name? {p : Surface.Program} {name : String} (h : name ∈ callableNames p) :
    ∃ c : Callee, c.name? p = some name := by
  rcases List.mem_append.mp h with h | h
  · obtain ⟨index, hindex⟩ := List.mem_iff_getElem?.mp h
    exact ⟨.imported index, hindex⟩
  · obtain ⟨index, hindex⟩ := List.mem_iff_getElem?.mp h
    exact ⟨.defined index, hindex⟩

theorem getElem?_concat_eq_some {α : Type} {xs : List α} {x y : α} {index : Nat} :
    (xs ++ [x])[index]? = some y ↔ xs[index]? = some y ∨ index = xs.length ∧ x = y := by
  rcases Nat.lt_trichotomy index xs.length with hlt | heq | hgt
  · rw [List.getElem?_append_left hlt]
    simp [Nat.ne_of_lt hlt]
  · subst heq
    simp
  · have hnone : xs[index]? = none := List.getElem?_eq_none (Nat.le_of_lt hgt)
    have hnone' : (xs ++ [x])[index]? = none := List.getElem?_eq_none (by simp; omega)
    simp [hnone, hnone', Nat.ne_of_gt hgt]

theorem nodup_concat {xs : List String} {x : String} (h : xs.Nodup) (hx : x ∉ xs) :
    (xs ++ [x]).Nodup := by
  rw [List.nodup_append]
  refine ⟨h, by simp, ?_⟩
  rintro a ha b hb rfl
  rw [List.mem_singleton.mp hb] at ha
  exact hx ha

theorem Callables.find?_enter (t : Callables) (name x : String) (callee : Callee) :
    (t.enter name callee).find? x = if x = name then some callee else t.find? x := by
  rw [Callables.find?, Callables.enter, List.lookup_cons]
  by_cases hx : x = name
  · simp [hx]
  · have hbeq : (x == name) = false := by simpa using hx
    rw [hbeq, if_neg hx]
    rfl

theorem Callables.find?_enter_eq_some {t : Callables} {name x : String} {callee c : Callee}
    (hnew : t.find? name = none) :
    (t.enter name callee).find? x = some c ↔ t.find? x = some c ∨ x = name ∧ c = callee := by
  rw [Callables.find?_enter]
  by_cases hx : x = name
  · subst hx
    simp [hnew, eq_comm]
  · simp [hx]

theorem exists_left_of_mem {α β : Type} {R : α → β → Prop} {as : List α} {bs : List β}
    (h : List.Forall₂ R as bs) {b : β} (hb : b ∈ bs) : ∃ a ∈ as, R a b := by
  induction h with
  | nil => cases hb
  | @cons a b' as bs hab _ ih =>
    rcases List.mem_cons.mp hb with rfl | hb
    · exact ⟨a, List.mem_cons_self, hab⟩
    · obtain ⟨a', ha', hab'⟩ := ih hb
      exact ⟨a', List.mem_cons_of_mem a ha', hab'⟩

/-! ### Tables of what was declared -/

/-- The entry of an import before any call of it is seen. -/
inductive Entered (i : Surface.Import) : PendingImport → Prop where
  | unannotated (h : i.signature = none) :
      Entered i ⟨⟨i.module, i.name, Signature.empty, i.span⟩, true⟩
  | annotated {a : Surface.ImportSignature} {s : Signature} (h : i.signature = some a)
      (types : Annotates a.params a.result s) :
      Entered i ⟨⟨i.module, i.name, s, i.span⟩, false⟩

/-- Holds of the table for the imports and functions of a program. -/
structure DeclaredBy (p : Surface.Program) (t : Callables) : Prop where
  names : ∀ name c, t.find? name = some c ↔ c.name? p = some name
  imports : List.Forall₂ Entered p.imports t.imports
  functions : List.Forall₂ (fun f s => Annotates (f.params.map (·.type)) f.result s)
    p.functions t.signatures
  distinct : (callableNames p).Nodup
  notOrd : Surface.ordName ∉ callableNames p

theorem DeclaredBy.find?_eq_none {p : Surface.Program} {t : Callables} (h : DeclaredBy p t)
    {name : String} : t.find? name = none ↔ name ∉ callableNames p := by
  constructor
  · intro hnone hmem
    obtain ⟨c, hc⟩ := exists_name? hmem
    rw [(h.names name c).mpr hc] at hnone
    cases hnone
  · intro hmem
    cases hfind : t.find? name with
    | none => rfl
    | some c => exact (hmem (Callee.mem_of_name? ((h.names name c).mp hfind))).elim

theorem DeclaredBy.import_at {p : Surface.Program} {t : Callables} (h : DeclaredBy p t)
    {index : Nat} {i : Surface.Import} (hi : p.imports[index]? = some i) :
    t.find? i.name = some (.imported index) ∧ ∃ q, t.imports[index]? = some q ∧ Entered i q := by
  constructor
  · rw [h.names]
    simp [Callee.name?, hi]
  · obtain ⟨hlt, rfl⟩ := List.getElem?_eq_some_iff.mp hi
    have hlt' : index < t.imports.length := h.imports.length_eq ▸ hlt
    exact ⟨_, List.getElem?_eq_getElem hlt', h.imports.get hlt hlt'⟩

theorem DeclaredBy.function_at {p : Surface.Program} {t : Callables} (h : DeclaredBy p t)
    {index : Nat} {f : Surface.Function} (hf : p.functions[index]? = some f) :
    t.find? f.name = some (.defined index) ∧
      ∃ s, t.signatures[index]? = some s ∧ Annotates (f.params.map (·.type)) f.result s := by
  constructor
  · rw [h.names]
    simp [Callee.name?, hf]
  · obtain ⟨hlt, rfl⟩ := List.getElem?_eq_some_iff.mp hf
    have hlt' : index < t.signatures.length := h.functions.length_eq ▸ hlt
    exact ⟨_, List.getElem?_eq_getElem hlt', h.functions.get hlt hlt'⟩

theorem declaredBy_empty : DeclaredBy ⟨[], []⟩ Callables.empty where
  names name c := by cases c <;> simp [Callables.empty, Callables.find?, Callee.name?]
  imports := .nil
  functions := .nil
  distinct := List.nodup_nil
  notOrd := List.not_mem_nil

theorem declareName_ok_iff {p : Surface.Program} {t t' : Callables} (h : DeclaredBy p t)
    {name : String} {callee : Callee} {position : Position} :
    declareName t name callee position = .ok t' ↔
      (name ≠ Surface.ordName ∧ name ∉ callableNames p) ∧ t.enter name callee = t' := by
  rw [declareName, ← h.find?_eq_none]
  by_cases hord : name = Surface.ordName
  · simp [hord]
  · cases hfind : t.find? name <;> simp [hord]

theorem declareImport_ok {i : Surface.Import} {q : PendingImport} :
    declareImport i = .ok q ↔ Entered i q := by
  rw [declareImport]
  cases hsig : i.signature with
  | none =>
    constructor
    · intro h
      obtain rfl := Except.ok.inj h
      exact .unannotated hsig
    · intro h
      cases h with
      | unannotated _ => rfl
      | annotated h _ => rw [hsig] at h; cases h
  | some a =>
    simp only [bind_eq_ok, resolveSignature_ok, pure_eq_ok]
    constructor
    · rintro ⟨s, hs, rfl⟩
      exact .annotated hsig hs
    · intro h
      cases h with
      | unannotated h => rw [hsig] at h; cases h
      | @annotated b s h types =>
        obtain rfl : a = b := by rw [hsig] at h; exact Option.some.inj h
        exact ⟨s, types, rfl⟩

/-! ### One more declaration -/

variable {is : List Surface.Import} {fs : List Surface.Function} {t : Callables}

theorem DeclaredBy.addImport (h : DeclaredBy ⟨is, []⟩ t) {i : Surface.Import}
    {q : PendingImport} (hentered : Entered i q) (hord : i.name ≠ Surface.ordName)
    (hnew : i.name ∉ callableNames ⟨is, []⟩) :
    DeclaredBy ⟨is ++ [i], []⟩ ((t.enter i.name (.imported t.imports.length)).addImport q) where
  names name c := by
    have hlength : is.length = t.imports.length := h.imports.length_eq
    change (t.enter i.name (.imported t.imports.length)).find? name = some c ↔ _
    rw [Callables.find?_enter_eq_some (h.find?_eq_none.mpr hnew), h.names]
    cases c with
    | imported index =>
      simp only [Callee.name?, List.map_append, List.map_cons, List.map_nil]
      rw [getElem?_concat_eq_some, List.length_map, hlength]
      simp [and_comm, eq_comm]
    | defined index => simp [Callee.name?]
  imports := List.rel_append h.imports (.cons hentered .nil)
  functions := h.functions
  distinct := by
    have hdistinct := h.distinct
    simp only [callableNames, List.map_nil, List.append_nil] at hdistinct hnew
    simp only [callableNames, List.map_append, List.map_cons, List.map_nil, List.append_nil]
    exact nodup_concat hdistinct hnew
  notOrd := by
    have hnotOrd := h.notOrd
    simp only [callableNames, List.map_nil, List.append_nil] at hnotOrd
    simp [callableNames, hnotOrd, hord.symm]

theorem DeclaredBy.addFunction (h : DeclaredBy ⟨is, fs⟩ t) {f : Surface.Function}
    {s : Signature} (types : Annotates (f.params.map (·.type)) f.result s)
    (hord : f.name ≠ Surface.ordName) (hnew : f.name ∉ callableNames ⟨is, fs⟩) :
    DeclaredBy ⟨is, fs ++ [f]⟩ ((t.enter f.name (.defined t.signatures.length)).addFunction s) where
  names name c := by
    have hlength : fs.length = t.signatures.length := h.functions.length_eq
    change (t.enter f.name (.defined t.signatures.length)).find? name = some c ↔ _
    rw [Callables.find?_enter_eq_some (h.find?_eq_none.mpr hnew), h.names]
    cases c with
    | imported index => simp [Callee.name?]
    | defined index =>
      simp only [Callee.name?, List.map_append, List.map_cons, List.map_nil]
      rw [getElem?_concat_eq_some, List.length_map, hlength]
      simp [and_comm, eq_comm]
  imports := h.imports
  functions := List.rel_append h.functions (.cons types .nil)
  distinct := by
    simp only [callableNames, List.map_append, List.map_cons, List.map_nil, ← List.append_assoc]
    exact nodup_concat h.distinct hnew
  notOrd := by
    have hnotOrd := h.notOrd
    simp only [callableNames, List.mem_append, not_or] at hnotOrd
    simp [callableNames, hnotOrd, hord.symm]

/-! ### All declarations -/

theorem declareImports_declaredBy {more : List Surface.Import} {t' : Callables}
    (h : declareImports t more = .ok t') (hdeclared : DeclaredBy ⟨is, []⟩ t) :
    DeclaredBy ⟨is ++ more, []⟩ t' := by
  induction more generalizing is t with
  | nil =>
    obtain rfl := Except.ok.inj h
    rw [List.append_nil]
    exact hdeclared
  | cons i more ih =>
    simp only [declareImports, bind_eq_ok, declareName_ok_iff hdeclared, declareImport_ok] at h
    obtain ⟨_, ⟨⟨hord, hnew⟩, rfl⟩, q, hentered, hrest⟩ := h
    have hmore := ih hrest (hdeclared.addImport hentered hord hnew)
    rwa [List.append_assoc, List.singleton_append] at hmore

theorem declareFunctions_declaredBy {more : List Surface.Function} {t' : Callables}
    (h : declareFunctions t more = .ok t') (hdeclared : DeclaredBy ⟨is, fs⟩ t) :
    DeclaredBy ⟨is, fs ++ more⟩ t' := by
  induction more generalizing fs t with
  | nil =>
    obtain rfl := Except.ok.inj h
    rw [List.append_nil]
    exact hdeclared
  | cons f more ih =>
    simp only [declareFunctions, bind_eq_ok, declareName_ok_iff hdeclared,
      resolveSignature_ok] at h
    obtain ⟨_, ⟨⟨hord, hnew⟩, rfl⟩, s, types, hrest⟩ := h
    have hmore := ih hrest (hdeclared.addFunction types hord hnew)
    rwa [List.append_assoc, List.singleton_append] at hmore

theorem Callables.declaredBy_of_ofProgram {p : Surface.Program}
    (h : Callables.ofProgram p = .ok t) : DeclaredBy p t := by
  obtain ⟨t₁, himports, hfunctions⟩ := bind_eq_ok.mp h
  exact declareFunctions_declaredBy hfunctions (declareImports_declaredBy himports declaredBy_empty)

theorem exists_declareImports {more : List Surface.Import}
    (hdistinct : (callableNames ⟨is ++ more, []⟩).Nodup)
    (hord : Surface.ordName ∉ callableNames ⟨is ++ more, []⟩)
    (hentered : ∀ i ∈ more, ∃ q, Entered i q) (hdeclared : DeclaredBy ⟨is, []⟩ t) :
    ∃ t', declareImports t more = .ok t' := by
  induction more generalizing is t with
  | nil => exact ⟨t, rfl⟩
  | cons i more ih =>
    obtain ⟨q, hq⟩ := hentered i List.mem_cons_self
    have hnew : i.name ∉ callableNames ⟨is, []⟩ := by
      intro hmem
      simp only [callableNames, List.map_append, List.map_cons, List.map_nil, List.append_nil,
        List.nodup_append] at hdistinct hmem
      exact hdistinct.2.2 _ hmem _ List.mem_cons_self rfl
    have hne : i.name ≠ Surface.ordName := by
      rintro heq
      simp [callableNames, ← heq] at hord
    rw [List.append_cons] at hdistinct hord
    obtain ⟨t', ht'⟩ := ih hdistinct hord (fun j hj => hentered j (List.mem_cons_of_mem i hj))
      (hdeclared.addImport hq hne hnew)
    refine ⟨t', ?_⟩
    simp only [declareImports, bind_eq_ok, declareName_ok_iff hdeclared, declareImport_ok]
    exact ⟨_, ⟨⟨hne, hnew⟩, rfl⟩, q, hq, ht'⟩

theorem exists_declareFunctions {more : List Surface.Function}
    (hdistinct : (callableNames ⟨is, fs ++ more⟩).Nodup)
    (hord : Surface.ordName ∉ callableNames ⟨is, fs ++ more⟩)
    (htypes : ∀ f ∈ more, ∃ s, Annotates (f.params.map (·.type)) f.result s)
    (hdeclared : DeclaredBy ⟨is, fs⟩ t) : ∃ t', declareFunctions t more = .ok t' := by
  induction more generalizing fs t with
  | nil => exact ⟨t, rfl⟩
  | cons f more ih =>
    obtain ⟨s, hs⟩ := htypes f List.mem_cons_self
    have hnew : f.name ∉ callableNames ⟨is, fs⟩ := by
      intro hmem
      simp only [callableNames, List.map_append, List.map_cons, ← List.append_assoc]
        at hdistinct hmem
      rw [List.nodup_append] at hdistinct
      exact hdistinct.2.2 _ hmem _ List.mem_cons_self rfl
    have hne : f.name ≠ Surface.ordName := by
      rintro heq
      simp [callableNames, ← heq] at hord
    rw [List.append_cons] at hdistinct hord
    obtain ⟨t', ht'⟩ := ih hdistinct hord (fun g hg => htypes g (List.mem_cons_of_mem f hg))
      (hdeclared.addFunction hs hne hnew)
    refine ⟨t', ?_⟩
    simp only [declareFunctions, bind_eq_ok, declareName_ok_iff hdeclared, resolveSignature_ok]
    exact ⟨_, ⟨⟨hne, hnew⟩, rfl⟩, s, hs, ht'⟩

theorem Callables.exists_ofProgram {p : Surface.Program} (hdistinct : (callableNames p).Nodup)
    (hord : Surface.ordName ∉ callableNames p) (hentered : ∀ i ∈ p.imports, ∃ q, Entered i q)
    (htypes : ∀ f ∈ p.functions, ∃ s, Annotates (f.params.map (·.type)) f.result s) :
    ∃ t, Callables.ofProgram p = .ok t := by
  have hinit : callableNames ⟨[] ++ p.imports, []⟩ <+: callableNames p := by
    simp [callableNames]
  obtain ⟨t₁, ht₁⟩ := exists_declareImports (hdistinct.sublist hinit.sublist)
    (fun hmem => hord (hinit.subset hmem)) hentered declaredBy_empty
  obtain ⟨t, ht⟩ := exists_declareFunctions hdistinct hord htypes
    (declareImports_declaredBy ht₁ declaredBy_empty)
  exact ⟨t, bind_eq_ok.mpr ⟨t₁, ht₁, ht⟩⟩

end Typed
end Offside

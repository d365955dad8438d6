/-
  Offside/Proofs/Lowering/Assembly.lean
  =====================================
  **What a lowered module consists of.**  Lowering a module adds its imports and then its
  functions, one after the other, and each brings its type along.  A type that is there
  already is not added again, so a type index is found by searching.  What matters is that
  the search comes out right: `Assembled` says of a module what it was put together from,
  with each type index replaced by the type it stands for.  Each addition preserves this,
  as long as the indices fit into 32 bits.
-/
import Offside.Proofs.Lowering.Nodes
import Offside.Proofs.Wasm.Typing

namespace Offside

open Wasm (Instr ValType FuncType)

namespace Wasm.Module

variable {w : Module}

/-! ### Types -/

/-- Entries keep their types when types are added. -/
theorem map_type?_append {α β γ : Type} {typeIndex : α → UInt32} {a : α → γ} {b : β → γ}
    {t : β → FuncType} {xs : List α} {ys : List β}
    (h : xs.map (fun x => (a x, w.type? (typeIndex x))) = ys.map fun y => (b y, some (t y)))
    {w' : Module} {more : List FuncType} (hw : w'.types = w.types ++ more) :
    xs.map (fun x => (a x, w'.type? (typeIndex x))) = ys.map fun y => (b y, some (t y)) := by
  induction xs generalizing ys with
  | nil => exact h
  | cons x xs ih =>
    cases ys with
    | nil => cases h
    | cons y ys =>
      simp only [List.map_cons, List.cons.injEq, Prod.mk.injEq] at h ⊢
      obtain ⟨⟨ha, ht⟩, hrest⟩ := h
      refine ⟨⟨ha, ?_⟩, ih hrest⟩
      rw [type?, hw, List.getElem?_append_left (List.getElem?_eq_some_iff.mp ht).1]
      exact ht

/-- Adding a type changes nothing but the types.  If there is an index left, the one that is
    given leads to the type. -/
theorem addType_spec (w : Module) (t : FuncType) :
    ∃ ti more, w.addType t = (ti, { w with types := w.types ++ more }) ∧ more.length ≤ 1 ∧
      (w.types.length < UInt32.size → (w.types ++ more)[ti.toNat]? = some t) := by
  rw [addType]
  cases hindex : w.typeIndex? t with
  | some index =>
    obtain ⟨hlt, hfound, -⟩ := List.idxOf?_eq_some_iff.mp hindex
    refine ⟨UInt32.ofNat index, [], by simp, by simp, fun fits => ?_⟩
    have htoNat : (UInt32.ofNat index).toNat = index := UInt32.toNat_ofNat_of_lt' (by omega)
    rw [htoNat, List.append_nil, List.getElem?_eq_getElem hlt, hfound]
  | none =>
    refine ⟨UInt32.ofNat w.types.length, [t], rfl, by simp, fun fits => ?_⟩
    have htoNat : (UInt32.ofNat w.types.length).toNat = w.types.length :=
      UInt32.toNat_ofNat_of_lt' fits
    rw [htoNat]
    simp

end Wasm.Module

/-- A function is added if its body was generated and checked. -/
theorem addFunctions_cons_ok {m : Typed.Module} {w w' : Wasm.Module} {f : Typed.Function}
    {more : List Typed.Function} (h : (addFunctions m w (f :: more)).2 = .ok w') :
    ∃ body, generate m f = .ok body ∧ verify m f body = .ok () ∧
      (addFunctions m (addFunction w f body) more).2 = .ok w' := by
  cases hbody : generate m f with
  | error why => simp [addFunctions, hbody] at h
  | ok body =>
    cases hverify : verify m f body with
    | error why => simp [addFunctions, hbody, hverify] at h
    | ok u => exact ⟨body, rfl, hverify, by simpa [addFunctions, hbody, hverify] using h⟩

/-! ### What was put together -/

theorem map_signature {m : Typed.Module} {gs : List (Typed.Function × List Instr)}
    (hfst : gs.map Prod.fst = m.functions) :
    gs.map (·.1.signature) = m.functions.map (·.signature) := by
  rw [← hfst, List.map_map]
  rfl

/-- Holds of a module that the imports and functions, with their bodies, were put together
    to. -/
structure Assembled (w : Wasm.Module) (is : List Typed.Import)
    (gs : List (Typed.Function × List Instr)) : Prop where
  imports : w.imports.map (fun i => ((i.module, i.name), w.type? i.typeIndex)) =
    is.map fun i => ((i.module, i.name), some (FuncType.ofSignature i.signature))
  functions : w.functions.map (fun g => ((g.locals, g.body), w.type? g.typeIndex)) =
    gs.map fun g => ((g.1.locals.map ValType.ofNumType, g.2),
      some (FuncType.ofSignature g.1.signature))
  exports : w.exports = gs.mapIdx fun k g => ⟨g.1.name, UInt32.ofNat (is.length + k)⟩
  types : w.types.length ≤ is.length + gs.length

namespace Assembled

variable {w : Wasm.Module} {is : List Typed.Import}
  {gs : List (Typed.Function × List Instr)}

theorem empty : Assembled .empty [] [] := ⟨rfl, rfl, rfl, by simp [Wasm.Module.empty]⟩

theorem imports_length (h : Assembled w is gs) :
    w.imports.length = is.length := by
  simpa using congrArg List.length h.imports

theorem functions_length (h : Assembled w is gs) :
    w.functions.length = gs.length := by
  simpa using congrArg List.length h.functions

theorem map_type?_imports (h : Assembled w is gs) :
    w.imports.map (fun i => w.type? i.typeIndex) =
      is.map fun i => some (FuncType.ofSignature i.signature) := by
  simpa [Function.comp_def] using congrArg (List.map Prod.snd) h.imports

theorem map_type?_functions (h : Assembled w is gs) :
    w.functions.map (fun g => w.type? g.typeIndex) =
      gs.map fun g => some (FuncType.ofSignature g.1.signature) := by
  simpa [Function.comp_def] using congrArg (List.map Prod.snd) h.functions

/-- The types of all functions, the imports first. -/
theorem map_type? (h : Assembled w is gs) :
    (w.imports.map (·.typeIndex) ++ w.functions.map (·.typeIndex)).map w.type? =
      (is.map (·.signature) ++ gs.map (·.1.signature)).map fun s =>
        some (FuncType.ofSignature s) := by
  simp [Function.comp_def, h.map_type?_imports, h.map_type?_functions]

/-- A function index leads to the type of the import or function it counts. -/
theorem functionType (h : Assembled w is gs) (index : Nat) :
    w.functionType index =
      ((is.map (·.signature) ++ gs.map (·.1.signature))[index]?).map FuncType.ofSignature := by
  have hindex := congrArg (·[index]?.bind id) h.map_type?
  simp only [List.getElem?_map, Option.bind_map, Function.id_comp] at hindex
  rw [Wasm.Module.functionType, hindex]
  cases (is.map (·.signature) ++ gs.map (·.1.signature))[index]? <;> rfl

theorem getElem?_functions (h : Assembled w is gs) {index : Nat} {f : Typed.Function}
    {body : List Instr} (hg : gs[index]? = some (f, body)) :
    ∃ g, w.functions[index]? = some g ∧ g.locals = f.locals.map ValType.ofNumType ∧
      g.body = body ∧ w.type? g.typeIndex = some (FuncType.ofSignature f.signature) := by
  have hindex := congrArg (·[index]?) h.functions
  simp only [List.getElem?_map, hg, Option.map_some] at hindex
  obtain ⟨g, hw, hentry⟩ := Option.map_eq_some_iff.mp hindex
  simp only [Prod.mk.injEq] at hentry
  exact ⟨g, hw, hentry.1.1, hentry.1.2, hentry.2⟩

theorem addImport (h : Assembled w is []) (i : Typed.Import)
    (fits : is.length < UInt32.size) :
    Assembled (w.addImport i.module i.name (FuncType.ofSignature i.signature)).2
      (is ++ [i]) [] := by
  have htypes : w.types.length ≤ is.length := by simpa using h.types
  obtain ⟨ti, more, hadd, hmore, hindex⟩ := w.addType_spec (FuncType.ofSignature i.signature)
  have hti := hindex (by omega)
  rw [Wasm.Module.addImport, hadd]
  refine ⟨?_, Wasm.Module.map_type?_append h.functions rfl, h.exports, ?_⟩
  · rw [List.map_append, List.map_append, Wasm.Module.map_type?_append h.imports rfl]
    simp [Wasm.Module.type?, hti]
  · simp only [List.length_append, List.length_cons, List.length_nil]
    omega

theorem addFunction (h : Assembled w is gs) (f : Typed.Function)
    (body : List Instr) (fits : is.length + gs.length < UInt32.size) :
    Assembled (Offside.addFunction w f body) is (gs ++ [(f, body)]) := by
  have htypes := h.types
  obtain ⟨ti, more, hadd, hmore, hindex⟩ := w.addType_spec (FuncType.ofSignature f.signature)
  have hti := hindex (by omega)
  rw [Offside.addFunction, Wasm.Module.addFunction, hadd]
  refine ⟨Wasm.Module.map_type?_append h.imports rfl, ?_, ?_, ?_⟩
  · simp only [Wasm.Module.addExport]
    rw [List.map_append, List.map_append, Wasm.Module.map_type?_append h.functions rfl]
    simp [Wasm.Module.type?, hti]
  · simp [Wasm.Module.addExport, h.exports, h.imports_length, h.functions_length]
  · simp only [Wasm.Module.addExport, List.length_append, List.length_cons, List.length_nil]
    omega

theorem addImports (h : Assembled w is []) (more : List Typed.Import)
    (fits : is.length + more.length ≤ UInt32.size) :
    Assembled (Offside.addImports w more) (is ++ more) [] := by
  induction more generalizing w is with
  | nil =>
    rw [List.append_nil]
    exact h
  | cons i more ih =>
    simp only [List.length_cons] at fits
    have hmore := ih (h.addImport i (by omega)) (by simp; omega)
    rwa [List.append_assoc, List.singleton_append] at hmore

/-- Functions are added in order, each with a body that was generated and checked. -/
theorem addFunctions {m : Typed.Module} {w' : Wasm.Module} {more : List Typed.Function}
    (h : Assembled w is gs)
    (fits : is.length + gs.length + more.length ≤ UInt32.size)
    (hw : (Offside.addFunctions m w more).2 = .ok w') :
    ∃ added, added.map Prod.fst = more ∧
      (∀ g ∈ added, generate m g.1 = .ok g.2 ∧ verify m g.1 g.2 = .ok ()) ∧
      Assembled w' is (gs ++ added) := by
  induction more generalizing w gs with
  | nil =>
    obtain rfl : w = w' := Except.ok.inj hw
    exact ⟨[], rfl, by simp, by simpa using h⟩
  | cons f more ih =>
    simp only [List.length_cons] at fits
    obtain ⟨body, hbody, hverify, hrest⟩ := addFunctions_cons_ok hw
    obtain ⟨added, hfst, hall, hadded⟩ :=
      ih (h.addFunction f body (by omega)) (by simp; omega) hrest
    refine ⟨(f, body) :: added, by simp [hfst], ?_, by simpa using hadded⟩
    intro g hg
    rcases List.mem_cons.mp hg with rfl | hg
    · exact ⟨hbody, hverify⟩
    · exact hall g hg

end Assembled

/-! ### Lowered modules -/

theorem addImports_lengths (w : Wasm.Module) (is : List Typed.Import) :
    (addImports w is).imports.length = w.imports.length + is.length ∧
      (addImports w is).functions = w.functions := by
  induction is generalizing w with
  | nil => exact ⟨rfl, rfl⟩
  | cons i is ih =>
    obtain ⟨himports, hfunctions⟩ :=
      ih (w.addImport i.module i.name (FuncType.ofSignature i.signature)).2
    rw [addImports, himports, hfunctions]
    obtain ⟨ti, more, hadd, -⟩ := w.addType_spec (FuncType.ofSignature i.signature)
    rw [Wasm.Module.addImport, hadd]
    refine ⟨?_, rfl⟩
    simp only [List.length_append, List.length_cons, List.length_nil]
    omega

theorem addFunctions_lengths {m : Typed.Module} {w w' : Wasm.Module} {fs : List Typed.Function}
    (h : (addFunctions m w fs).2 = .ok w') :
    w'.imports = w.imports ∧ w'.functions.length = w.functions.length + fs.length := by
  induction fs generalizing w with
  | nil =>
    obtain rfl : w = w' := Except.ok.inj h
    exact ⟨rfl, rfl⟩
  | cons f fs ih =>
    obtain ⟨body, -, -, hrest⟩ := addFunctions_cons_ok h
    obtain ⟨himports, hfunctions⟩ := ih hrest
    rw [himports, hfunctions]
    obtain ⟨ti, more, hadd, -⟩ := w.addType_spec (FuncType.ofSignature f.signature)
    rw [addFunction, Wasm.Module.addFunction, hadd]
    refine ⟨rfl, ?_⟩
    simp only [Wasm.Module.addExport, List.length_append, List.length_cons, List.length_nil]
    omega

theorem lowerModule_lengths {m : Typed.Module} {w : Wasm.Module}
    (h : (lowerModule m).2 = .ok w) :
    w.imports.length = m.imports.length ∧ w.functions.length = m.functions.length := by
  obtain ⟨himports, hfunctions⟩ := addImports_lengths .empty m.imports
  obtain ⟨himports', hfunctions'⟩ := addFunctions_lengths h
  rw [himports', hfunctions', himports, hfunctions]
  simp [Wasm.Module.empty]

/-- A lowered module has the imports of the module and its functions, with bodies that were
    generated and checked. -/
theorem lowerModule_assembled {m : Typed.Module} {w : Wasm.Module}
    (h : (lowerModule m).2 = .ok w)
    (fits : m.imports.length + m.functions.length ≤ UInt32.size) :
    ∃ functions, functions.map Prod.fst = m.functions ∧
      (∀ g ∈ functions, generate m g.1 = .ok g.2 ∧ verify m g.1 g.2 = .ok ()) ∧
      Assembled w m.imports functions := by
  have himports := Assembled.empty.addImports m.imports (by simp; omega)
  exact himports.addFunctions (by simp; omega) h

end Offside

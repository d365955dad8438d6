/-
  Offside/Proofs/Validity.lean
  ============================
  **What is compiled is valid.**  A module is valid if its indices lead to something, its
  exports have different names and each body has the type of its function.  The bytes of a
  compiled text can be read back and stand for a valid module, as long as its sizes can be
  written in 32 bits.

  Each stage contributes to this: the checker refuses a second function of a name, the
  lowering checks the code that it generates and numbers functions and types densely, and
  the writer's sizes are met by what they announce.
-/
import Offside.Compile
import Offside.Proofs.Lowering.Assembly
import Offside.Proofs.Typed.WellTyped
import Offside.Proofs.Wasm.Decode
import Offside.Proofs.Wasm.StackCheck

namespace Offside

open Wasm (FuncType ValType Instr)

/-! ### Valid modules -/

namespace Wasm

/-- What the body of a function of the given type may refer to. -/
def Module.bodyContext (w : Module) (f : Function) (t : FuncType) : StackContext where
  slots := t.params ++ f.locals
  results := t.results
  -- in a valid module no type is left out
  imports := w.imports.filterMap fun i => w.type? i.typeIndex
  functions := w.functions.filterMap fun f => w.type? f.typeIndex

structure Module.Valid (w : Module) : Prop where
  importTypes : ∀ i ∈ w.imports, i.typeIndex.toNat < w.types.length
  functionTypes : ∀ f ∈ w.functions, f.typeIndex.toNat < w.types.length
  exported : ∀ e ∈ w.exports, e.functionIndex.toNat < w.imports.length + w.functions.length
  names : (w.exports.map (·.name)).Nodup
  bodies : ∀ f ∈ w.functions, ∃ t ns, w.type? f.typeIndex = some t ∧ flattenAll ns = f.body ∧
    CodeType (w.bodyContext f t) [t.results] ns [] t.results

end Wasm

/-! ### Lowered modules -/

theorem Wasm.Module.lt_of_type? {w : Wasm.Module} {index : UInt32} {t : FuncType}
    (h : w.type? index = some t) : index.toNat < w.types.length :=
  (List.getElem?_eq_some_iff.mp h).1

theorem filterMap_of_map_eq {α β γ : Type} {f : α → Option γ} {g : β → γ} {xs : List α}
    {ys : List β} (h : xs.map f = ys.map fun y => some (g y)) : xs.filterMap f = ys.map g := by
  have hall := congrArg (List.filterMap id) h
  rw [List.filterMap_map, List.filterMap_map] at hall
  exact hall.trans (congrFun List.filterMap_eq_map _)

namespace Assembled

variable {m : Typed.Module} {w : Wasm.Module} {is : List Typed.Import}
  {gs : List (Typed.Function × List Instr)}

theorem mem_imports (h : Assembled w is gs) {i : Wasm.Import} (hi : i ∈ w.imports) :
    ∃ t, w.type? i.typeIndex = some t := by
  have hmem : ((i.module, i.name), w.type? i.typeIndex) ∈
      w.imports.map fun i => ((i.module, i.name), w.type? i.typeIndex) :=
    List.mem_map.mpr ⟨i, hi, rfl⟩
  rw [h.imports] at hmem
  obtain ⟨p, -, heq⟩ := List.mem_map.mp hmem
  exact ⟨_, (congrArg Prod.snd heq).symm⟩

theorem mem_functions (h : Assembled w is gs) {g : Wasm.Function} (hg : g ∈ w.functions) :
    ∃ f body, (f, body) ∈ gs ∧ g.locals = f.locals.map ValType.ofNumType ∧ g.body = body ∧
      w.type? g.typeIndex = some (FuncType.ofSignature f.signature) := by
  have hmem : ((g.locals, g.body), w.type? g.typeIndex) ∈
      w.functions.map fun g => ((g.locals, g.body), w.type? g.typeIndex) :=
    List.mem_map.mpr ⟨g, hg, rfl⟩
  rw [h.functions] at hmem
  obtain ⟨⟨f, body⟩, hp, heq⟩ := List.mem_map.mp hmem
  simp only [Prod.mk.injEq] at heq
  exact ⟨f, body, hp, heq.1.1.symm, heq.1.2.symm, heq.2.symm⟩

theorem export_names (h : Assembled w is gs) :
    w.exports.map (·.name) = (gs.map Prod.fst).map (·.name) := by
  rw [h.exports]
  apply List.ext_getElem?
  simp [Function.comp_def]

/-- A function's code is checked against what the module offers to it. -/
theorem bodyContext (h : Assembled w m.imports gs) (hfst : gs.map Prod.fst = m.functions)
    {f : Typed.Function} {g : Wasm.Function}
    (hlocals : g.locals = f.locals.map ValType.ofNumType) :
    w.bodyContext g (FuncType.ofSignature f.signature) = stackContext m f := by
  rw [Wasm.Module.bodyContext, stackContext, filterMap_of_map_eq h.map_type?_imports,
    filterMap_of_map_eq h.map_type?_functions, ← hfst, List.map_map, hlocals]
  simp [FuncType.ofSignature, Typed.Function.slots, Function.comp_def]

theorem valid (h : Assembled w m.imports gs) (hfst : gs.map Prod.fst = m.functions)
    (checked : ∀ g ∈ gs, verify m g.1 g.2 = .ok ())
    (names : (m.functions.map (·.name)).Nodup) : w.Valid where
  importTypes i hi := by
    obtain ⟨t, ht⟩ := h.mem_imports hi
    exact Wasm.Module.lt_of_type? ht
  functionTypes g hg := by
    obtain ⟨f, body, -, -, -, ht⟩ := h.mem_functions hg
    exact Wasm.Module.lt_of_type? ht
  exported e he := by
    rw [h.exports] at he
    obtain ⟨k, hk, rfl⟩ := List.mem_mapIdx.mp he
    rw [h.imports_length, h.functions_length]
    exact Nat.lt_of_le_of_lt (Nat.mod_le _ _) (by omega)
  names := by
    rw [h.export_names, hfst]
    exact names
  bodies g hg := by
    obtain ⟨f, body, hmem, hlocals, rfl, ht⟩ := h.mem_functions hg
    have hcheck := verify_ok.mp (checked (f, g.body) hmem)
    rw [← h.bodyContext hfst hlocals] at hcheck
    obtain ⟨ns, hflatten, htyped⟩ := Wasm.codeType_of_checkBody hcheck
    exact ⟨_, ns, ht, hflatten, htyped⟩

end Assembled

/-! ### Names -/

namespace Typed

theorem FunctionsChecked.names {t t' : Callables}
    {fs : List (Surface.Function × Signature)} {gs : List Function}
    (h : FunctionsChecked t fs gs t') :
    gs.map (·.name) = (fs.map Prod.fst).map (·.name) := by
  induction h with
  | nil t => rfl
  | cons hf _ ih =>
    cases hf with
    | intro => simp [ih]

/-- The functions of a checked program have different names. -/
theorem Module.nodup_names_of_ofProgram {p : Surface.Program} {m : Module}
    (h : Module.ofProgram p = .ok m) : (m.functions.map (·.name)).Nodup := by
  obtain @⟨t, t', functions, hdeclared, hfunctions⟩ := Module.ofProgram_ok h
  have hby := Callables.declaredBy_of_ofProgram hdeclared
  have hnames := hfunctions.names
  rw [List.map_fst_zip (Nat.le_of_eq hby.functions.length_eq)] at hnames
  rw [hnames]
  exact (List.nodup_append.mp hby.distinct).2.1

end Typed

/-! ### The whole way -/

/-- The module that a source text is compiled to. -/
def translate (source : String) : Except Diagnostic Wasm.Module := do
  let tokens ← Token.ofSource source
  let program ← Surface.Program.ofTokens tokens
  let typed ← Typed.Module.ofProgram program
  (lowerModule typed).2

theorem compile_eq (source : String) :
    compile source = do
      let w ← translate source
      return w.encode := by
  simp only [compile, translate, bind_assoc]

theorem translate_valid {source : String} {w : Wasm.Module} (h : translate source = .ok w)
    (fits : w.Encodable) : w.Valid := by
  simp only [translate, bind_eq_ok] at h
  obtain ⟨tokens, -, program, -, typed, htyped, hlower⟩ := h
  obtain ⟨himports, hfunctions⟩ := lowerModule_lengths hlower
  have hlt := fits.functions_lt
  rw [himports, hfunctions] at hlt
  obtain ⟨gs, hfst, hchecked, hassembled⟩ := lowerModule_assembled hlower (Nat.le_of_lt hlt)
  exact hassembled.valid hfst (fun g hg => (hchecked g hg).2)
    (Typed.Module.nodup_names_of_ofProgram htyped)

/-- **What is compiled is valid.**  The bytes that a source text is compiled to stand for a
    module, and it is valid. -/
theorem compile_valid {source : String} {bytes : List UInt8} (h : compile source = .ok bytes)
    (fits : ∀ w, translate source = .ok w → w.Encodable) :
    ∃ w, translate source = .ok w ∧ Wasm.Module.decode bytes = some w ∧ w.Valid := by
  rw [compile_eq, bind_eq_ok] at h
  obtain ⟨w, hw, hbytes⟩ := h
  obtain rfl := pure_eq_ok.mp hbytes
  exact ⟨w, hw, Wasm.Module.decode_encode (fits w hw), translate_valid hw (fits w hw)⟩

/-- A loop, an import whose type follows from its call, and a function that calls another. -/
def countdown : String :=
  "from env import log\n\n" ++
  "def f(n: int):\n    while 0 < n:\n        n = n - 1\n        log(n)\n\n" ++
  "def g():\n    f(5)\n"

theorem compile_valid_countdown :
    ∃ bytes w, compile countdown = .ok bytes ∧ w.Encodable ∧ translate countdown = .ok w ∧
      Wasm.Module.decode bytes = some w ∧ w.Valid := by
  obtain ⟨w, hmem, fits⟩ : ∃ w ∈ (translate countdown).toOption, w.Encodable := by
    decide +kernel
  have hw : translate countdown = .ok w := by
    cases h : translate countdown with
    | error why =>
      rw [h] at hmem
      cases hmem
    | ok w' =>
      rw [h] at hmem
      exact congrArg Except.ok (Option.some.inj hmem)
  have hbytes : compile countdown = .ok w.encode := by
    rw [compile_eq, hw]
    rfl
  obtain ⟨w', hw', hdecode, hvalid⟩ := compile_valid hbytes fun w' hw' => by
    obtain rfl := Except.ok.inj (hw.symm.trans hw')
    exact fits
  obtain rfl := Except.ok.inj (hw.symm.trans hw')
  exact ⟨w.encode, w, hbytes, fits, hw, hdecode, hvalid⟩

end Offside

/-
  Offside/Proofs/Lowering/Indices.lean
  ====================================
  **The index spaces of a lowered module.**  A call names its function by an index, which
  counts the imports first and the functions behind them.  Four parts of the compiler count
  so, each in its own way: the code of a call, the check of a body, the module that is put
  together, and the bytes that are written.  `lowerModule_indexSpaces` says that they agree,
  for well-typed modules and for others, as long as the indices fit into 32 bits.

  Types have indices of their own.  A type is added where it is used first and found again
  where it is used later, so the types of a module are those in use, each once and in the
  order of first use (`FirstUses`); one step of adding a type preserves this.
-/
import Offside.Proofs.Lowering.Accepted
import Offside.Proofs.Lowering.Assembly
import Offside.Proofs.Surface.Alike
import Offside.Proofs.Wasm.Decode

namespace Offside

open Wasm (ValType FuncType StackState)

/-! ### Function spaces -/

namespace Typed.Module

/-- What function indices count: the imports, and the functions behind them. -/
def functionSpace (m : Module) : List (Import ⊕ Function) :=
  m.imports.map .inl ++ m.functions.map .inr

/-- The import or function that is called. -/
def called? (m : Module) : Callee → Option (Import ⊕ Function)
  | .imported index => m.imports[index]?.map .inl
  | .defined index => m.functions[index]?.map .inr

theorem getElem?_indexOf {m : Module} {callee : Callee} {target : Import ⊕ Function}
    (h : m.called? callee = some target) : m.functionSpace[m.indexOf callee]? = some target := by
  cases callee with
  | imported index =>
    obtain ⟨i, hi, rfl⟩ := Option.map_eq_some_iff.mp h
    have hlt : index < m.imports.length := (List.getElem?_eq_some_iff.mp hi).1
    rw [functionSpace, indexOf, List.getElem?_append_left (by simpa using hlt), List.getElem?_map,
      hi]
    rfl
  | defined index =>
    rw [functionSpace, indexOf, List.getElem?_append_right (by simp), List.length_map,
      Nat.add_sub_cancel_left, List.getElem?_map]
    exact h

theorem exists_signatureOf {m : Module} {callee : Callee} {target : Import ⊕ Function}
    (h : m.called? callee = some target) : ∃ s, m.signatureOf callee = some s := by
  cases callee with
  | imported index | defined index =>
    obtain ⟨entry, hentry, -⟩ := Option.map_eq_some_iff.mp h
    exact ⟨entry.signature, by rw [signatureOf, hentry]; rfl⟩

end Typed.Module

/-- The type of an import or function. -/
def targetType : Typed.Import ⊕ Typed.Function → FuncType
  | .inl i => FuncType.ofSignature i.signature
  | .inr f => FuncType.ofSignature f.signature

theorem callee?_stackContext (m : Typed.Module) (f : Typed.Function) (index : Nat) :
    (stackContext m f).callee? index = (m.functionSpace.map targetType)[index]? := by
  rw [Wasm.StackContext.callee?_eq, callees_stackContext]
  simp [Typed.Module.functionSpace, Function.comp_def, targetType]

namespace Wasm

namespace Module

/-- What the function indices of a module count. -/
def functionSpace (w : Module) : List (Import ⊕ Function) :=
  w.imports.map .inl ++ w.functions.map .inr

/-- The bytes of the entries of a section, which is left out if it has none. -/
def payload (w : Module) (id : UInt8) : List UInt8 :=
  (w.sections.filter (·.id = id)).flatMap (·.payload)

end Module

/-- The bytes that declare an import or a function. -/
def declaration : Import ⊕ Function → List UInt8
  | .inl i => i.encode
  | .inr f => u32Leb f.typeIndex

/-- The bytes that define a function. -/
def definition : Import ⊕ Function → List UInt8
  | .inl _ => []
  | .inr f => sized f.encode

/-- A section that is left out has no bytes to miss. -/
theorem flatMap_payload_filter {ss : List Section}
    (h : ∀ s ∈ ss, s.count = 0 → s.payload = []) (id : UInt8) :
    ((ss.filter (0 < ·.count)).filter (·.id = id)).flatMap (·.payload) =
      ss.flatMap fun s => if s.id = id then s.payload else [] := by
  induction ss with
  | nil => rfl
  | cons s ss ih =>
    have hrest := ih fun s' hs' => h s' (List.mem_cons_of_mem s hs')
    have hs := h s List.mem_cons_self
    rw [List.flatMap_cons, ← hrest, List.filter_cons]
    by_cases hcount : 0 < s.count
    · by_cases hid : s.id = id <;> simp [hcount, hid]
    · simp [hcount, hs (by omega)]

theorem payload_ofEntries {α : Type} {id : UInt8} {encode : α → List UInt8} {entries : List α}
    (h : (Section.ofEntries id encode entries).count = 0) :
    (Section.ofEntries id encode entries).payload = [] := by
  obtain rfl : entries = [] := List.eq_nil_of_length_eq_zero h
  rfl

theorem Module.payload_eq (w : Module) :
    w.payload 2 = w.imports.flatMap Import.encode ∧
      w.payload 3 = w.functions.flatMap (fun f => u32Leb f.typeIndex) ∧
      w.payload 10 = w.functions.flatMap (fun f => sized f.encode) := by
  have hpayload : ∀ id, w.payload id = _ := fun id => flatMap_payload_filter (by
    simp only [List.mem_cons, List.not_mem_nil, or_false, forall_eq_or_imp, forall_eq]
    exact ⟨payload_ofEntries, payload_ofEntries, payload_ofEntries, payload_ofEntries,
      payload_ofEntries⟩) id
  refine ⟨?_, ?_, ?_⟩ <;> rw [hpayload] <;> simp [Section.ofEntries]

theorem payload_declarations (w : Module) :
    w.payload 2 ++ w.payload 3 = w.functionSpace.flatMap declaration := by
  rw [w.payload_eq.1, w.payload_eq.2.1, Module.functionSpace, List.flatMap_append,
    List.flatMap_map, List.flatMap_map]
  rfl

theorem payload_definitions (w : Module) : w.payload 10 = w.functionSpace.flatMap definition := by
  rw [w.payload_eq.2.2, Module.functionSpace, List.flatMap_append, List.flatMap_map,
    List.flatMap_map]
  simp [definition]

end Wasm

/-! ### Types -/

/-- The types in use, each once and in the order of first use. -/
structure FirstUses (used types : List FuncType) : Prop where
  mem_iff : ∀ t, t ∈ types ↔ t ∈ used
  order : types.Pairwise fun t u => used.idxOf t < used.idxOf u

namespace FirstUses

variable {used : List FuncType} {w w' : Wasm.Module}

theorem empty : FirstUses [] Wasm.Module.empty.types := ⟨fun _ => Iff.rfl, .nil⟩

theorem nodup {types : List FuncType} (h : FirstUses used types) : types.Nodup := by
  refine h.order.imp fun hlt heq => ?_
  rw [heq] at hlt
  exact Nat.lt_irrefl _ hlt

theorem again {types : List FuncType} (h : FirstUses used types) {t : FuncType} (ht : t ∈ used) :
    FirstUses (used ++ [t]) types := by
  refine ⟨fun u => ?_, h.order.imp_of_mem fun {u v} hu hv huv => ?_⟩
  · rw [h.mem_iff, List.mem_append, List.mem_singleton]
    exact ⟨.inl, fun hu => hu.elim id fun hut => hut ▸ ht⟩
  · rw [List.idxOf_append_of_mem ((h.mem_iff u).mp hu),
      List.idxOf_append_of_mem ((h.mem_iff v).mp hv)]
    exact huv

theorem first {types : List FuncType} (h : FirstUses used types) {t : FuncType} (ht : t ∉ used) :
    FirstUses (used ++ [t]) (types ++ [t]) := by
  have hindex : ∀ u ∈ types, (used ++ [t]).idxOf u = used.idxOf u := fun u hu =>
    List.idxOf_append_of_mem ((h.mem_iff u).mp hu)
  refine ⟨fun u => ?_, List.pairwise_append.mpr ⟨?_, List.pairwise_singleton _ _, ?_⟩⟩
  · rw [List.mem_append, List.mem_append, h.mem_iff]
  · refine h.order.imp_of_mem fun {u v} hu hv huv => ?_
    rwa [hindex u hu, hindex v hv]
  · intro u hu v hv
    rw [List.mem_singleton.mp hv, hindex u hu, List.idxOf_append_of_notMem ht]
    exact Nat.lt_add_right _ (List.idxOf_lt_length_of_mem ((h.mem_iff u).mp hu))

theorem addType (h : FirstUses used w.types) (t : FuncType) :
    FirstUses (used ++ [t]) (w.addType t).2.types := by
  rw [Wasm.Module.addType]
  cases hindex : w.typeIndex? t with
  | some index =>
    obtain ⟨hlt, hfound, -⟩ := List.idxOf?_eq_some_iff.mp hindex
    refine h.again ((h.mem_iff t).mp ?_)
    rw [← hfound]
    exact List.getElem_mem hlt
  | none => exact h.first fun ht => List.idxOf?_eq_none_iff.mp hindex ((h.mem_iff t).mpr ht)

theorem addImports (h : FirstUses used w.types) (is : List Typed.Import) :
    FirstUses (used ++ is.map fun i => FuncType.ofSignature i.signature)
      (Offside.addImports w is).types := by
  induction is generalizing w used with
  | nil =>
    rw [List.map_nil, List.append_nil]
    exact h
  | cons i is ih =>
    have hnext : FirstUses (used ++ [FuncType.ofSignature i.signature])
        (w.addImport i.module i.name (FuncType.ofSignature i.signature)).2.types := h.addType _
    have hrest := ih hnext
    rwa [List.append_assoc, List.singleton_append] at hrest

theorem addFunctions {m : Typed.Module} {fs : List Typed.Function}
    (h : FirstUses used w.types) (hw : (Offside.addFunctions m w fs).2 = .ok w') :
    FirstUses (used ++ fs.map fun f => FuncType.ofSignature f.signature) w'.types := by
  induction fs generalizing w used with
  | nil =>
    obtain rfl : w = w' := Except.ok.inj hw
    rw [List.map_nil, List.append_nil]
    exact h
  | cons f fs ih =>
    obtain ⟨body, -, -, hmore⟩ := addFunctions_cons_ok hw
    have hnext : FirstUses (used ++ [FuncType.ofSignature f.signature])
        (addFunction w f body).types := h.addType _
    have hrest := ih hnext hmore
    rwa [List.append_assoc, List.singleton_append] at hrest

end FirstUses

theorem lowerModule_types {m : Typed.Module} {w : Wasm.Module} (h : (lowerModule m).2 = .ok w) :
    FirstUses (m.functionSpace.map targetType) w.types := by
  have hall := (FirstUses.empty.addImports m.imports).addFunctions h
  simpa [Typed.Module.functionSpace, Function.comp_def, targetType] using hall

/-! ### Entries -/

/-- Holds if an entry of the module `w` stands for an import or function of `m`. -/
inductive Denotes (m : Typed.Module) (w : Wasm.Module) :
    Wasm.Import ⊕ Wasm.Function → Typed.Import ⊕ Typed.Function → Prop where
  | imported {e : Wasm.Import} {i : Typed.Import} (hmodule : e.module = i.module)
      (hname : e.name = i.name)
      (htype : w.type? e.typeIndex = some (FuncType.ofSignature i.signature)) :
      Denotes m w (.inl e) (.inl i)
  | defined {e : Wasm.Function} {f : Typed.Function}
      (htype : w.type? e.typeIndex = some (FuncType.ofSignature f.signature))
      (hlocals : e.locals = f.locals.map ValType.ofNumType) (hbody : generate m f = .ok e.body) :
      Denotes m w (.inr e) (.inr f)

section Assembled

variable {m : Typed.Module} {w : Wasm.Module} {gs : List (Typed.Function × List Wasm.Instr)}

theorem forall₂_of_map_eq {α β γ : Type} {f : α → γ} {g : β → γ} {xs : List α} {ys : List β}
    (h : xs.map f = ys.map g) : List.Forall₂ (fun x y => f x = g y) xs ys := by
  rw [← List.forall₂_map_right_iff, ← List.forall₂_map_left_iff, List.forall₂_eq_eq_eq]
  exact h

theorem Assembled.forall₂_imports (h : Assembled w m.imports gs) :
    List.Forall₂ (fun e i => Denotes m w (.inl e) (.inl i)) w.imports m.imports := by
  refine (forall₂_of_map_eq h.imports).imp fun e i hei => ?_
  simp only [Prod.mk.injEq] at hei
  exact .imported hei.1.1 hei.1.2 hei.2

theorem Assembled.forall₂_functions (h : Assembled w m.imports gs)
    (hfst : gs.map Prod.fst = m.functions)
    (hall : ∀ g ∈ gs, generate m g.1 = .ok g.2) :
    List.Forall₂ (fun e f => Denotes m w (.inr e) (.inr f)) w.functions m.functions := by
  rw [← hfst, List.forall₂_map_right_iff]
  have hpairs := ((List.forall₂_and_left _ _).mpr ⟨hall, (forall₂_of_map_eq h.functions).flip⟩).flip
  refine hpairs.imp fun e g heg => ?_
  simp only [Prod.mk.injEq] at heg
  refine .defined heg.2.2 heg.2.1.1 ?_
  rw [heg.2.1.2]
  exact heg.1

theorem Assembled.forall₂_functionSpace (h : Assembled w m.imports gs)
    (hfst : gs.map Prod.fst = m.functions)
    (hall : ∀ g ∈ gs, generate m g.1 = .ok g.2) :
    List.Forall₂ (Denotes m w) w.functionSpace m.functionSpace := by
  refine List.rel_append ?_ ?_
  · rw [List.forall₂_map_left_iff, List.forall₂_map_right_iff]
    exact h.forall₂_imports
  · rw [List.forall₂_map_left_iff, List.forall₂_map_right_iff]
    exact h.forall₂_functions hfst hall

theorem Assembled.exports_eq (h : Assembled w m.imports gs) (hfst : gs.map Prod.fst = m.functions)
    (fits : m.imports.length + m.functions.length ≤ UInt32.size) :
    w.exports.map (fun e => (e.name, e.functionIndex.toNat)) =
      m.functions.mapIdx fun k f => (f.name, m.imports.length + k) := by
  rw [← hfst, List.length_map] at fits
  rw [h.exports, ← hfst]
  apply List.ext_getElem (by simp)
  intro k hk _
  simp only [List.length_map, List.length_mapIdx] at hk
  simp only [List.getElem_map, List.getElem_mapIdx, Prod.mk.injEq, true_and]
  exact UInt32.toNat_ofNat_of_lt' (by omega)

end Assembled

/-! ### Agreement -/

/-- Holds if every part of the compiler counts the imports and functions of a module in the
    same way. -/
structure IndexSpacesAgree (m : Typed.Module) (w : Wasm.Module) : Prop where
  imports : w.imports.length = m.imports.length
  functions : w.functions.length = m.functions.length
  entries : List.Forall₂ (Denotes m w) w.functionSpace m.functionSpace
  distinct : w.types.Nodup
  types : FirstUses (m.functionSpace.map targetType) w.types
  exports : w.exports.map (fun e => (e.name, e.functionIndex.toNat)) =
    m.functions.mapIdx fun k f => (f.name, m.imports.length + k)
  /-- The index of a callee leads to it in the tree, in the check and in the module. -/
  calls : ∀ callee target, m.called? callee = some target →
    m.functionSpace[(functionIndex m callee).toNat]? = some target ∧
    (∀ f, StackState.functionType (stackContext m f) (functionIndex m callee) =
      .ok (targetType target)) ∧
    ∃ entry, w.functionSpace[(functionIndex m callee).toNat]? = some entry ∧
      Denotes m w entry target
  /-- The entries are written in the order of their indices. -/
  declarations : w.payload 2 ++ w.payload 3 = w.functionSpace.flatMap Wasm.declaration
  definitions : w.payload 10 = w.functionSpace.flatMap Wasm.definition
  readBack : w.Encodable → Wasm.Module.decode w.encode = some w

theorem lowerModule_indexSpaces {m : Typed.Module} {w : Wasm.Module}
    (h : (lowerModule m).2 = .ok w)
    (fits : m.imports.length + m.functions.length ≤ UInt32.size) : IndexSpacesAgree m w := by
  obtain ⟨gs, hfst, hall, hw⟩ := lowerModule_assembled h fits
  have hentries := hw.forall₂_functionSpace hfst fun g hg => (hall g hg).1
  refine ⟨(lowerModule_lengths h).1, (lowerModule_lengths h).2, hentries,
    (lowerModule_types h).nodup, lowerModule_types h, hw.exports_eq hfst fits,
    fun callee target hcalled => ?_, Wasm.payload_declarations w, Wasm.payload_definitions w,
    Wasm.Module.decode_encode⟩
  have htarget : m.functionSpace[(functionIndex m callee).toNat]? = some target := by
    obtain ⟨s, hs⟩ := Typed.Module.exists_signatureOf hcalled
    rw [toNat_functionIndex fits hs]
    exact Typed.Module.getElem?_indexOf hcalled
  refine ⟨htarget, fun f => ?_, ?_⟩
  · rw [StackState.functionType, callee?_stackContext, List.getElem?_map, htarget]
    rfl
  · have hrel := forall₂_getElem? hentries (functionIndex m callee).toNat
    rw [htarget] at hrel
    cases hentry : w.functionSpace[(functionIndex m callee).toNat]? with
    | none =>
      rw [hentry] at hrel
      cases hrel
    | some entry =>
      rw [hentry] at hrel
      cases hrel with
      | some hdenotes => exact ⟨entry, rfl, hdenotes⟩

/-- A module that repeats signatures, and whose trees have types that are not their own. -/
def mistyped : Typed.Module where
  imports :=
    [⟨"env", "print", ⟨[.int], none⟩, .nowhere⟩,
      ⟨"env", "scale", ⟨[.float], some .float⟩, .nowhere⟩,
      ⟨"env", "flush", ⟨[.int], none⟩, .nowhere⟩]
  functions :=
    [{ name := "half"
       signature := ⟨[.float], some .float⟩
       locals := [.int]
       body := [.ret (some (.call (.imported 1) [.slot 0 .bool .nowhere] .void .nowhere)) .nowhere]
       span := .nowhere },
     { name := "main"
       signature := ⟨[], none⟩
       locals := []
       body :=
         [.perform (.call (.defined 0) [.float ⟨0⟩ (.value .int) .nowhere] .bool .nowhere) .nowhere]
       span := .nowhere }]

theorem mistyped_indexSpaces :
    ∃ w, (lowerModule mistyped).2 = .ok w ∧ w.types.length = 3 ∧
      (functionIndex mistyped (.defined 0)).toNat = 3 ∧ IndexSpacesAgree mistyped w := by
  have htypes : (lowerModule mistyped).2.toOption.map (·.types.length) = some 3 := by
    decide +kernel
  cases hw : (lowerModule mistyped).2 with
  | error why =>
    rw [hw] at htypes
    cases htypes
  | ok w =>
    rw [hw] at htypes
    exact ⟨w, rfl, Option.some.inj htypes, by decide, lowerModule_indexSpaces hw (by decide)⟩

end Offside

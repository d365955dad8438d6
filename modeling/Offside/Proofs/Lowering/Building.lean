/-
  Offside/Proofs/Lowering/Building.lean
  =====================================
  **Indices hold for good.**  A module is put together by calls, in any order and number: for
  types, imports, functions and exports.  A call gives an index, and later calls must not make
  that index mean something else.  `Extends` says that nothing is taken back: types, imports
  and functions are only added behind those that are there.  One call extends the module, so
  any calls do, and an index leads to the same type at every later moment.

  A type is found by searching, which is slow where there are many.  A `Builder` keeps a table
  of the types with their indices beside the module and looks there instead.  Table and types
  never come apart (`Builder.Tracks`), so both ways give the same indices and the same modules.

  Function indices count the imports first.  A function that was added before an import would
  have its index taken, so these indices are right if no import comes late
  (`ImportsFirst`).
-/
import Mathlib.Data.List.Induction
import Offside.Proofs.Lowering.Indices

namespace Offside.Wasm

deriving instance Hashable for ValType
deriving instance Hashable for FuncType

/-! ### Calls -/

/-- A call on a module that is put together. -/
inductive Call where
  | addType (t : FuncType)
  | addImport (module name : String) (t : FuncType)
  | addFunction (t : FuncType) (locals : List ValType) (body : List Instr)
  | addExport (name : String) (functionIndex : UInt32)
deriving DecidableEq, Repr

namespace Call

def isImport : Call → Bool
  | addImport _ _ _ => true
  | _ => false

def isFunction : Call → Bool
  | addFunction _ _ _ => true
  | _ => false

end Call

/-- No import is added behind a function. -/
def ImportsFirst (calls : List Call) : Prop :=
  calls.Pairwise fun call later => call.isFunction → ¬ later.isImport

theorem getElem?_concat_eq_some {α : Type} {xs : List α} {x y : α} {k : Nat} :
    (xs ++ [x])[k]? = some y ↔ xs[k]? = some y ∨ k = xs.length ∧ x = y := by
  rcases Nat.lt_trichotomy k xs.length with hk | rfl | hk
  · have hne : k ≠ xs.length := Nat.ne_of_lt hk
    simp [List.getElem?_append_left hk, hne]
  · simp
  · have hlength : (xs ++ [x]).length ≤ k := by simpa using Nat.succ_le_of_lt hk
    have hne : k ≠ xs.length := Nat.ne_of_gt hk
    simp [List.getElem?_eq_none hlength, List.getElem?_eq_none (Nat.le_of_lt hk), hne]

namespace Module

@[simp]
theorem addType_imports (w : Module) (t : FuncType) : (w.addType t).2.imports = w.imports := by
  rw [addType]
  split <;> rfl

@[simp]
theorem addType_functions (w : Module) (t : FuncType) :
    (w.addType t).2.functions = w.functions := by
  rw [addType]
  split <;> rfl

/-- The index that a call gives, if it gives one, and the module behind it. -/
def perform (w : Module) : Call → Option UInt32 × Module
  | .addType t => ((w.addType t).1, (w.addType t).2)
  | .addImport module name t => ((w.addImport module name t).1, (w.addImport module name t).2)
  | .addFunction t locals body => ((w.addFunction t locals body).1, (w.addFunction t locals body).2)
  | .addExport name functionIndex => (none, w.addExport name functionIndex)

def performAll (w : Module) (calls : List Call) : Module :=
  calls.foldl (fun w call => (w.perform call).2) w

/-- The module after calls, from the empty one on. -/
def after (calls : List Call) : Module := empty.performAll calls

/-- The index that a call gives behind others. -/
def answer (before : List Call) (call : Call) : Option UInt32 := ((after before).perform call).1

theorem performAll_append (w : Module) (calls later : List Call) :
    w.performAll (calls ++ later) = (w.performAll calls).performAll later := List.foldl_append

theorem after_append (calls later : List Call) :
    after (calls ++ later) = (after calls).performAll later := performAll_append _ _ _

theorem after_concat (calls : List Call) (call : Call) :
    after (calls ++ [call]) = ((after calls).perform call).2 := after_append _ _

end Module

/-! ### A table of types -/

/-- A module that is put together, with the indices of its types in a table. -/
structure Builder where
  module : Module
  lookup : Std.HashMap FuncType UInt32

namespace Builder

def empty : Builder := ⟨.empty, ∅⟩

/-- The index of a type, which is added if the table does not have it. -/
def addType (b : Builder) (t : FuncType) : UInt32 × Builder :=
  match b.lookup[t]? with
  | some index => (index, b)
  | none =>
    let index := UInt32.ofNat b.module.types.length
    (index, ⟨{ b.module with types := b.module.types ++ [t] }, b.lookup.insert t index⟩)

/-- The index that a call gives, if it gives one, and the builder behind it. -/
def perform (b : Builder) : Call → Option UInt32 × Builder
  | .addType t => ((b.addType t).1, (b.addType t).2)
  | .addImport module name t =>
    let (typeIndex, b') := b.addType t
    let imports := b'.module.imports ++ [⟨module, name, typeIndex⟩]
    (UInt32.ofNat (imports.length - 1), { b' with module := { b'.module with imports } })
  | .addFunction t locals body =>
    let (typeIndex, b') := b.addType t
    let functions := b'.module.functions ++ [⟨typeIndex, locals, body⟩]
    (UInt32.ofNat (b'.module.imports.length + functions.length - 1),
     { b' with module := { b'.module with functions } })
  | .addExport name functionIndex =>
    (none, { b with module := b.module.addExport name functionIndex })

/-- The builder after calls, from the empty one on. -/
def after (calls : List Call) : Builder := calls.foldl (fun b call => (b.perform call).2) empty

/-- The index that a call gives behind others. -/
def answer (before : List Call) (call : Call) : Option UInt32 := ((after before).perform call).1

theorem after_concat (calls : List Call) (call : Call) :
    after (calls ++ [call]) = ((after calls).perform call).2 := List.foldl_append

/-- Holds if the builder is at the module `w`, whose types are distinct, and its table has
    their indices. -/
structure Tracks (b : Builder) (w : Module) : Prop where
  module : b.module = w
  distinct : w.types.Nodup
  lookup : ∀ t i, b.lookup[t]? = some i ↔ ∃ k, w.types[k]? = some t ∧ UInt32.ofNat k = i

theorem tracks_empty : empty.Tracks .empty := by
  refine ⟨rfl, .nil, fun t i => ?_⟩
  simp [empty, Module.empty]

variable {b : Builder} {w : Module}

theorem Tracks.addType (h : b.Tracks w) (t : FuncType) :
    (b.addType t).1 = (w.addType t).1 ∧ (b.addType t).2.Tracks (w.addType t).2 := by
  cases hindex : w.typeIndex? t with
  | some k =>
    obtain ⟨hlt, hfound, -⟩ := List.idxOf?_eq_some_iff.mp hindex
    have hlookup : b.lookup[t]? = some (UInt32.ofNat k) :=
      (h.lookup t _).mpr ⟨k, by rw [List.getElem?_eq_getElem hlt, hfound], rfl⟩
    simp only [Builder.addType, hlookup, Module.addType, hindex]
    exact ⟨trivial, h⟩
  | none =>
    have hnew : t ∉ w.types := List.idxOf?_eq_none_iff.mp hindex
    have hlookup : b.lookup[t]? = none := by
      refine Option.eq_none_iff_forall_ne_some.mpr fun i hi => ?_
      obtain ⟨k, hk, -⟩ := (h.lookup t i).mp hi
      exact hnew (List.mem_of_getElem? hk)
    simp only [Builder.addType, hlookup, Module.addType, hindex, h.module]
    refine ⟨trivial, rfl, ?_, fun u i => ?_⟩
    · refine List.nodup_append.mpr ⟨h.distinct, by simp, ?_⟩
      simpa using fun u hu => ne_of_mem_of_not_mem hu hnew
    · rw [Std.HashMap.getElem?_insert]
      simp only [getElem?_concat_eq_some, beq_iff_eq]
      by_cases htu : t = u
      · -- the type is nowhere else
        subst htu
        have hnone : ∀ k, w.types[k]? ≠ some t := fun k hk => hnew (List.mem_of_getElem? hk)
        simp [hnone]
      · simp [htu, h.lookup]

/-- Only the types of a module are in the table. -/
theorem Tracks.of_types (h : b.Tracks w) {w' : Module} (htypes : w'.types = w.types) :
    Tracks ⟨w', b.lookup⟩ w' := by
  refine ⟨rfl, ?_, fun t i => ?_⟩
  · rw [htypes]
    exact h.distinct
  · rw [htypes]
    exact h.lookup t i

theorem Tracks.perform (h : b.Tracks w) (call : Call) :
    (b.perform call).1 = (w.perform call).1 ∧ (b.perform call).2.Tracks (w.perform call).2 := by
  cases call with
  | addType t =>
    obtain ⟨hindex, htracks⟩ := h.addType t
    exact ⟨congrArg some hindex, htracks⟩
  | addImport module name t =>
    obtain ⟨hindex, htracks⟩ := h.addType t
    simp only [Builder.perform, Module.perform, Module.addImport, hindex, htracks.module,
      Module.addType_imports]
    exact ⟨by simp, htracks.of_types rfl⟩
  | addFunction t locals body =>
    obtain ⟨hindex, htracks⟩ := h.addType t
    simp only [Builder.perform, Module.perform, Module.addFunction, hindex, htracks.module,
      Module.addType_imports, Module.addType_functions]
    exact ⟨by simp, htracks.of_types rfl⟩
  | addExport name functionIndex =>
    simp only [Builder.perform, Module.perform, h.module]
    exact ⟨trivial, h.of_types rfl⟩

theorem tracks_after (calls : List Call) : (after calls).Tracks (Module.after calls) := by
  induction calls using List.reverseRecOn with
  | nil => exact tracks_empty
  | append_singleton calls call ih =>
    rw [after_concat, Module.after_concat]
    exact (ih.perform call).2

theorem answer_eq (before : List Call) (call : Call) :
    answer before call = Module.answer before call := ((tracks_after before).perform call).1

end Builder

/-! ### Nothing is taken back -/

/-- The module `w'` has everything of `w` at the same place. -/
structure Extends (w w' : Module) : Prop where
  types : w.types <+: w'.types
  imports : w.imports <+: w'.imports
  functions : w.functions <+: w'.functions

namespace Extends

variable {w w' w'' : Module}

theorem refl (w : Module) : Extends w w := ⟨List.prefix_rfl, List.prefix_rfl, List.prefix_rfl⟩

theorem trans (h : Extends w w') (h' : Extends w' w'') : Extends w w'' :=
  ⟨h.types.trans h'.types, h.imports.trans h'.imports, h.functions.trans h'.functions⟩

theorem type? (h : Extends w w') {i : UInt32} {t : FuncType} (ht : w.type? i = some t) :
    w'.type? i = some t := by
  obtain ⟨more, hmore⟩ := h.types
  rw [Module.type?, ← hmore, List.getElem?_append_left (List.getElem?_eq_some_iff.mp ht).1]
  exact ht

theorem perform (w : Module) (call : Call) : Extends w (w.perform call).2 := by
  cases call with
  | addType t =>
    obtain ⟨ti, more, hadd, -⟩ := w.addType_spec t
    simp only [Module.perform, hadd]
    exact ⟨List.prefix_append _ _, List.prefix_rfl, List.prefix_rfl⟩
  | addImport module name t =>
    obtain ⟨ti, more, hadd, -⟩ := w.addType_spec t
    simp only [Module.perform, Module.addImport, hadd]
    exact ⟨List.prefix_append _ _, List.prefix_append _ _, List.prefix_rfl⟩
  | addFunction t locals body =>
    obtain ⟨ti, more, hadd, -⟩ := w.addType_spec t
    simp only [Module.perform, Module.addFunction, hadd]
    exact ⟨List.prefix_append _ _, List.prefix_rfl, List.prefix_append _ _⟩
  | addExport name functionIndex => exact ⟨List.prefix_rfl, List.prefix_rfl, List.prefix_rfl⟩

theorem performAll (w : Module) (calls : List Call) : Extends w (w.performAll calls) := by
  induction calls generalizing w with
  | nil => exact .refl w
  | cons call calls ih => exact (perform w call).trans (ih (w.perform call).2)

theorem after_append (calls later : List Call) :
    Extends (Module.after calls) (Module.after (calls ++ later)) := by
  rw [Module.after_append]
  exact performAll _ later

theorem after_call (before : List Call) (call : Call) (later : List Call) :
    Extends ((Module.after before).perform call).2 (Module.after (before ++ call :: later)) := by
  rw [List.append_cons, ← Module.after_concat]
  exact after_append _ later

end Extends

/-! ### What a call adds -/

/-- The entry is what the call asked for, with the type it asked for. -/
inductive Adds (w : Module) : Call → Import ⊕ Function → Prop where
  | imported {e : Import} {t : FuncType} (htype : w.type? e.typeIndex = some t) :
      Adds w (.addImport e.module e.name t) (.inl e)
  | defined {e : Function} {t : FuncType} (htype : w.type? e.typeIndex = some t) :
      Adds w (.addFunction t e.locals e.body) (.inr e)

theorem Adds.mono {w w' : Module} (hw : Extends w w') {call : Call} {e : Import ⊕ Function}
    (h : Adds w call e) : Adds w' call e := by
  cases h with
  | imported htype => exact .imported (hw.type? htype)
  | defined htype => exact .defined (hw.type? htype)

/-- What a call on the module `w` can do: it adds no entry, an import or a function, and gives
    the number of entries before it as its index. -/
inductive Effect (w : Module) (call : Call) (index : Option UInt32) (w' : Module) : Prop where
  | neither (himport : call.isImport = false) (hfunction : call.isFunction = false)
      (imports : w'.imports = w.imports) (functions : w'.functions = w.functions)
  | imported (e : Import) (himport : call.isImport = true) (hfunction : call.isFunction = false)
      (adds : Adds w' call (.inl e)) (imports : w'.imports = w.imports ++ [e])
      (functions : w'.functions = w.functions)
      (hindex : index = some (UInt32.ofNat w.imports.length))
  | defined (e : Function) (himport : call.isImport = false) (hfunction : call.isFunction = true)
      (adds : Adds w' call (.inr e)) (imports : w'.imports = w.imports)
      (functions : w'.functions = w.functions ++ [e])
      (hindex : index = some (UInt32.ofNat (w.imports.length + w.functions.length)))

theorem Module.perform_effect {w : Module} (fits : w.types.length < UInt32.size) (call : Call) :
    Effect w call (w.perform call).1 (w.perform call).2 := by
  cases call with
  | addType t => exact .neither rfl rfl (w.addType_imports t) (w.addType_functions t)
  | addExport name functionIndex => exact .neither rfl rfl rfl rfl
  | addImport module name t =>
    obtain ⟨ti, more, hadd, -, hti⟩ := w.addType_spec t
    simp only [perform, addImport, hadd]
    let e : Import := ⟨module, name, ti⟩
    exact .imported e rfl rfl (Adds.imported (e := e) (hti fits)) rfl rfl rfl
  | addFunction t locals body =>
    obtain ⟨ti, more, hadd, -, hti⟩ := w.addType_spec t
    simp only [perform, addFunction, hadd]
    let e : Function := ⟨ti, locals, body⟩
    exact .defined e rfl rfl (Adds.defined (e := e) (hti fits)) rfl rfl rfl

/-- Every call for an import or a function has its entry, in the order of the calls. -/
theorem after_entries {calls : List Call}
    (fits : (Module.after calls).types.length < UInt32.size) :
    List.Forall₂ (fun call e => Adds (Module.after calls) call (.inl e))
        (calls.filter Call.isImport) (Module.after calls).imports ∧
      List.Forall₂ (fun call e => Adds (Module.after calls) call (.inr e))
        (calls.filter Call.isFunction) (Module.after calls).functions := by
  induction calls using List.reverseRecOn with
  | nil => exact ⟨.nil, .nil⟩
  | append_singleton calls call ih =>
    have hext : Extends (Module.after calls) (Module.after (calls ++ [call])) := .after_append _ _
    have fits' : (Module.after calls).types.length < UInt32.size :=
      Nat.lt_of_le_of_lt hext.types.length_le fits
    obtain ⟨himports, hfunctions⟩ := ih fits'
    replace himports := himports.imp fun call e h => h.mono hext
    replace hfunctions := hfunctions.imp fun call e h => h.mono hext
    have heffect := Module.perform_effect fits' call
    rw [← Module.after_concat] at heffect
    rw [List.filter_append, List.filter_append]
    cases heffect with
    | neither himport hfunction imports functions =>
      rw [imports, functions]
      simpa [himport, hfunction] using ⟨himports, hfunctions⟩
    | imported e himport hfunction adds imports functions _ =>
      rw [imports, functions]
      simp only [List.filter_cons, himport, hfunction, List.filter_nil]
      exact ⟨List.rel_append himports (.cons adds .nil), by simpa using hfunctions⟩
    | defined e himport hfunction adds imports functions _ =>
      rw [imports, functions]
      simp only [List.filter_cons, himport, hfunction, List.filter_nil]
      exact ⟨by simpa using himports, List.rel_append hfunctions (.cons adds .nil)⟩

/-! ### Indices of functions -/

theorem ImportsFirst.not_function {before later : List Call} {call : Call}
    (h : ImportsFirst (before ++ call :: later)) (hcall : call.isImport = true) :
    before.filter Call.isFunction = [] := by
  obtain ⟨-, -, hbefore⟩ := List.pairwise_append.mp h
  refine List.filter_eq_nil_iff.mpr fun c hc hfunction => ?_
  exact hbefore c hc call List.mem_cons_self hfunction hcall

theorem ImportsFirst.not_import {before later : List Call} {call : Call}
    (h : ImportsFirst (before ++ call :: later)) (hcall : call.isFunction = true) :
    later.filter Call.isImport = [] := by
  obtain ⟨-, hlater, -⟩ := List.pairwise_append.mp h
  obtain ⟨hlater, -⟩ := List.pairwise_cons.mp hlater
  exact List.filter_eq_nil_iff.mpr fun c hc => hlater c hc hcall

namespace Module

/-- If no import comes late, the entries that a call finds keep their places in front of the
    one that it adds. -/
theorem functionSpace_after {before later : List Call} {call : Call} {w : Module}
    (hw : after (before ++ call :: later) = w) (first : ImportsFirst (before ++ call :: later))
    (fits : w.types.length < UInt32.size)
    (hcall : call.isImport = true ∨ call.isFunction = true) :
    answer before call = some (UInt32.ofNat (after before).functionSpace.length) ∧
      ∃ e rest, Adds w call e ∧ w.functionSpace = (after before).functionSpace ++ e :: rest := by
  have hext : Extends (after before) w := by
    rw [← hw]
    exact .after_append _ _
  have hext' : Extends ((after before).perform call).2 w := by
    rw [← hw]
    exact .after_call before call later
  have fits' : (after before).types.length < UInt32.size :=
    Nat.lt_of_le_of_lt hext.types.length_le fits
  obtain ⟨himports, hfunctions⟩ := after_entries fits'
  cases perform_effect fits' call with
  | neither himport hfunction => simp [himport, hfunction] at hcall
  | imported e himport _ adds imports _ hindex =>
    -- no function is there yet
    rw [first.not_function himport, List.forall₂_nil_left_iff] at hfunctions
    obtain ⟨more, hmore⟩ := hext'.imports
    refine ⟨hindex.trans (by simp [functionSpace, hfunctions]), .inl e,
      more.map .inl ++ w.functions.map .inr, adds.mono hext', ?_⟩
    simp [functionSpace, hfunctions, ← hmore, imports]
  | defined e himport hfunction adds imports functions hindex =>
    -- all imports are there already
    have hall : w.imports = (after before).imports := by
      subst hw
      have hlength := (after_entries fits).1.length_eq
      simp only [List.filter_append, List.filter_cons, himport,
        first.not_import hfunction] at hlength
      exact (hext.imports.eq_of_length (by simpa [himports.length_eq] using hlength)).symm
    obtain ⟨more, hmore⟩ := hext'.functions
    refine ⟨hindex.trans (by simp [functionSpace]), .inr e, more.map .inr, adds.mono hext', ?_⟩
    simp [functionSpace, hall, ← hmore, functions]

end Module

/-! ### What holds after any calls -/

/-- What can be relied on after calls on a module, from the empty one on. -/
structure IndicesHold (calls : List Call) : Prop where
  /-- Looking types up in the table gives the same module and the same indices. -/
  module : (Builder.after calls).module = Module.after calls
  answers : ∀ before call later, calls = before ++ call :: later →
    Builder.answer before call = Module.answer before call
  distinct : (Module.after calls).types.Nodup
  lookup : ∀ t i, (Builder.after calls).lookup[t]? = some i ↔ (Module.after calls).type? i = some t
  /-- A type index means the same at every later moment. -/
  stable : ∀ before later, calls = before ++ later → ∀ i t,
    (Module.after before).type? i = some t → (Module.after calls).type? i = some t
  typed : ∀ before t later, calls = before ++ .addType t :: later →
    ∃ i, Module.answer before (.addType t) = some i ∧ (Module.after calls).type? i = some t
  /-- Equal types have the same index at any two moments. -/
  same : ∀ before later before' later' t, calls = before ++ .addType t :: later →
    calls = before' ++ .addType t :: later' →
      Module.answer before (.addType t) = Module.answer before' (.addType t)
  imports : List.Forall₂ (fun call e => Adds (Module.after calls) call (.inl e))
    (calls.filter Call.isImport) (Module.after calls).imports
  functions : List.Forall₂ (fun call e => Adds (Module.after calls) call (.inr e))
    (calls.filter Call.isFunction) (Module.after calls).functions
  /-- The index of an import or function is the place where its entry stands in the end. -/
  places : ImportsFirst calls → ∀ before call later, calls = before ++ call :: later →
    call.isImport = true ∨ call.isFunction = true →
      ∃ i e rest, Module.answer before call = some i ∧ Adds (Module.after calls) call e ∧
        (Module.after calls).functionSpace = (Module.after before).functionSpace ++ e :: rest ∧
        i.toNat = (Module.after before).functionSpace.length

theorem Builder.Tracks.lookup_iff {b : Builder} {w : Module} (h : b.Tracks w)
    (fits : w.types.length < UInt32.size) (t : FuncType) (i : UInt32) :
    b.lookup[t]? = some i ↔ w.type? i = some t := by
  rw [h.lookup, Module.type?]
  constructor
  · rintro ⟨k, hk, rfl⟩
    have hlt : k < w.types.length := (List.getElem?_eq_some_iff.mp hk).1
    rw [UInt32.toNat_ofNat_of_lt' (by omega)]
    exact hk
  · intro hi
    exact ⟨i.toNat, hi, UInt32.ofNat_toNat⟩

theorem Module.answer_addType {before later : List Call} {t : FuncType}
    (fits : (after (before ++ .addType t :: later)).types.length < UInt32.size) :
    ∃ i, answer before (.addType t) = some i ∧
      (after (before ++ .addType t :: later)).type? i = some t := by
  have hext : Extends (after before) (after (before ++ .addType t :: later)) := .after_append _ _
  have hext' := Extends.after_call before (.addType t) later
  obtain ⟨i, more, hadd, -, htype⟩ := (after before).addType_spec t
  have hi := htype (Nat.lt_of_le_of_lt hext.types.length_le fits)
  simp only [perform, hadd] at hext'
  exact ⟨i, by simp [answer, perform, hadd], hext'.type? hi⟩

/-- **Indices hold for good.**  After any calls, as long as there are indices for all entries,
    types are distinct and found by the table that was kept with them, type indices mean what
    they meant when they were given, and so do function indices if all imports came first. -/
theorem indices_hold {calls : List Call} (fits : (Module.after calls).types.length < UInt32.size)
    (fits' : (Module.after calls).functionSpace.length < UInt32.size) : IndicesHold calls := by
  have htracks := Builder.tracks_after calls
  obtain ⟨himports, hfunctions⟩ := after_entries fits
  have htyped : ∀ before t later, calls = before ++ .addType t :: later →
      ∃ i, Module.answer before (.addType t) = some i ∧ (Module.after calls).type? i = some t := by
    rintro before t later rfl
    exact Module.answer_addType fits
  refine ⟨htracks.module, fun before call _ _ => Builder.answer_eq before call, htracks.distinct,
    htracks.lookup_iff fits, ?_, htyped, ?_, himports, hfunctions, ?_⟩
  · rintro before later rfl i t
    exact (Extends.after_append before later).type?
  · intro before later before' later' t hcalls hcalls'
    obtain ⟨i, hi, htype⟩ := htyped before t later hcalls
    obtain ⟨j, hj, htype'⟩ := htyped before' t later' hcalls'
    rw [← htracks.lookup_iff fits] at htype htype'
    rw [hi, hj, ← htype, htype']
  · intro first before call later hcalls hcall
    subst hcalls
    obtain ⟨hanswer, e, rest, hadds, hspace⟩ := Module.functionSpace_after rfl first fits hcall
    have hlt : (Module.after before).functionSpace.length < UInt32.size := by
      rw [hspace, List.length_append, List.length_cons] at fits'
      omega
    exact ⟨_, e, rest, hanswer, hadds, hspace, UInt32.toNat_ofNat_of_lt' hlt⟩

/-- Calls for three entries that share two types, with one type asked for by itself before and
    after. -/
def sharedTypes : List Call :=
  [.addType ⟨[.i32], []⟩, .addImport "env" "size" ⟨[], [.i32]⟩,
    .addImport "env" "print" ⟨[.i32], []⟩, .addFunction ⟨[], [.i32]⟩ [.f64] [.i32Const 1],
    .addType ⟨[.i32], []⟩, .addExport "main" 2]

theorem sharedTypes_indices_hold :
    (Module.after sharedTypes).types = [⟨[.i32], []⟩, ⟨[], [.i32]⟩] ∧
      (Module.after sharedTypes).functionSpace.length = 3 ∧ ImportsFirst sharedTypes ∧
      Module.answer (sharedTypes.take 3) (.addFunction ⟨[], [.i32]⟩ [.f64] [.i32Const 1]) = some 2 ∧
      Module.answer [] (.addType ⟨[.i32], []⟩) =
        Module.answer (sharedTypes.take 4) (.addType ⟨[.i32], []⟩) ∧
      IndicesHold sharedTypes := by
  have hhold : IndicesHold sharedTypes := indices_hold (by decide) (by decide)
  refine ⟨rfl, rfl, ?_, rfl, ?_, hhold⟩
  · simp [ImportsFirst, sharedTypes, Call.isFunction, Call.isImport]
  · exact hhold.same [] _ (sharedTypes.take 4) _ _ rfl rfl

end Offside.Wasm

/-
  Offside/Proofs/Wasm/Decode.lean
  ===============================
  **Reading a module back.**  The grammar of the binary format as a reader, for the sections
  and the instructions that modules have here.  Its opcodes and other marks are those of
  the WebAssembly specification, stated on their own and not taken from the writer.  The
  sections come in the order of their numbers, each at most once; a section's size and a
  body's size are met exactly; there are as many bodies as functions; and nothing stands
  behind the last section.

  Every module whose sections and lists of locals are small enough for their sizes to be
  written in 32 bits is read back as it was (`decode_encode`), whatever its bodies hold; so
  two such modules are never written by the same bytes (`encode_uniquely_read`).
-/
import Offside.Proofs.Wasm.Reader
import Offside.Wasm.Binary

namespace Offside.Wasm

namespace Reader

/-! ### Instructions -/

def index : Reader UInt32 := do
  let n ← u32
  return UInt32.ofNat n

/-- The instruction that a construct of the empty block type begins with. -/
def opening (i : Instr) : Reader Instr := do
  literal [0x40]
  return i

/-- What follows each opcode. -/
def opcodes : List (UInt8 × Reader Instr) :=
  [(0x00, pure .unreachable),
   (0x02, opening .block),
   (0x03, opening .loop),
   (0x04, opening .ifThen),
   (0x05, pure .elseThen),
   (0x0B, pure .endBlock),
   (0x0C, .br <$> index),
   (0x0D, .brIf <$> index),
   (0x0F, pure .ret),
   (0x10, .call <$> index),
   (0x1A, pure .drop),
   (0x20, .localGet <$> index),
   (0x21, .localSet <$> index),
   (0x41, (fun n => .i32Const (Int32.ofInt n)) <$> i32),
   (0x44, (fun bits => .f64Const ⟨bits⟩) <$> bits64),
   (0x45, pure .i32Eqz),
   (0x46, pure (.compare .i32 .eq)),
   (0x47, pure (.compare .i32 .ne)),
   (0x48, pure (.compare .i32 .lt)),
   (0x4A, pure (.compare .i32 .gt)),
   (0x4C, pure (.compare .i32 .le)),
   (0x4E, pure (.compare .i32 .ge)),
   (0x61, pure (.compare .f64 .eq)),
   (0x62, pure (.compare .f64 .ne)),
   (0x63, pure (.compare .f64 .lt)),
   (0x64, pure (.compare .f64 .gt)),
   (0x65, pure (.compare .f64 .le)),
   (0x66, pure (.compare .f64 .ge)),
   (0x6A, pure (.arith .i32 .add)),
   (0x6B, pure (.arith .i32 .sub)),
   (0x6C, pure (.arith .i32 .mul)),
   (0x6D, pure (.arith .i32 .div)),
   (0x71, pure (.logic .and)),
   (0x72, pure (.logic .or)),
   (0x9A, pure .f64Neg),
   (0xA0, pure (.arith .f64 .add)),
   (0xA1, pure (.arith .f64 .sub)),
   (0xA2, pure (.arith .f64 .mul)),
   (0xA3, pure (.arith .f64 .div))]

def instr : Reader Instr := do
  let opcode ← byte
  let operands ← ofOption (opcodes.lookup opcode)
  operands

/-! ### Functions -/

def valType : Reader ValType := do
  let b ← byte
  ofOption ([(0x7F, ValType.i32), (0x7C, .f64)].lookup b)

/-- The locals that a list of runs stands for. -/
def expand (rs : List (Nat × ValType)) : List ValType :=
  rs.flatMap fun (n, t) => List.replicate n t

/-- Locals, in runs of a count and a type; there are fewer than 2³² of them. -/
def locals : Reader (List ValType) := do
  let rs ← vec do
    let n ← u32
    let t ← valType
    return (n, t)
  ofOption (if (expand rs).length < 2 ^ 32 then some (expand rs) else none)

/-- The instructions up to the end of a region, the last of which is an `end`. -/
def expression : Reader (List Instr) := do
  let is ← all instr
  ofOption (if is.getLast? = some .endBlock then some is.dropLast else none)

def code : Reader (List ValType × List Instr) := do
  let ts ← locals
  let body ← expression
  return (ts, body)

/-! ### Sections -/

def name : Reader String := region text

def valTypes : Reader (List ValType) := vec valType

def funcType : Reader FuncType := do
  literal [0x60]
  let params ← valTypes
  let results ← valTypes
  return ⟨params, results⟩

def importEntry : Reader Import := do
  let module ← name
  let name ← name
  literal [0x00]
  let typeIndex ← index
  return ⟨module, name, typeIndex⟩

def exportEntry : Reader Export := do
  let name ← name
  literal [0x00]
  let functionIndex ← index
  return ⟨name, functionIndex⟩

/-- The entries of the section with the given number.  If another section follows, or none,
    there are no entries. -/
def entries {α : Type} (id : UInt8) (r : Reader α) : Reader (List α) := fun bytes =>
  if bytes.head? = some id then region (vec r) bytes.tail else some ([], bytes)

def module : Reader Module := do
  literal [0x00, 0x61, 0x73, 0x6D]
  literal [0x01, 0x00, 0x00, 0x00]
  let types ← entries 1 funcType
  let imports ← entries 2 importEntry
  let typeIndices ← entries 3 index
  let exports ← entries 7 exportEntry
  let codes ← entries 10 (region code)
  ofOption <|
    if typeIndices.length = codes.length then
      let functions := List.zipWith (fun i c => ⟨i, c.1, c.2⟩) typeIndices codes
      some ⟨types, imports, functions, exports⟩
    else none

end Reader

/-- The module that the bytes stand for. -/
def Module.decode (bytes : List UInt8) : Option Module := Reader.whole Reader.module bytes

/-! ### Sizes -/

theorem length_unsignedLeb_pos (n : Nat) : 0 < (unsignedLeb n).length := by
  rw [unsignedLeb]
  split <;> exact Nat.succ_pos _

theorem length_u32Leb_pos (n : UInt32) : 0 < (u32Leb n).length := length_unsignedLeb_pos _

theorem length_le_sized (bytes : List UInt8) : bytes.length ≤ (sized bytes).length := by
  simp [sized]

theorem length_le_length_flatMap {α β : Type} (f : α → List β) {x : α} {xs : List α}
    (h : x ∈ xs) : (f x).length ≤ (xs.flatMap f).length :=
  (List.sublist_flatten_of_mem (List.mem_map_of_mem h)).length_le

/-- The entries of a section are counted by its bytes, if each has at least `k` of them. -/
theorem mul_length_le_length_flatMap {α β : Type} {f : α → List β} {xs : List α} {k : Nat}
    (h : ∀ x ∈ xs, k ≤ (f x).length) : k * xs.length ≤ (xs.flatMap f).length := by
  induction xs with
  | nil => simp
  | cons x xs ih =>
    have hx := h x List.mem_cons_self
    have hxs := ih fun y hy => h y (List.mem_cons_of_mem x hy)
    rw [List.length_cons, List.flatMap_cons, List.length_append, Nat.mul_succ]
    omega

theorem Import.two_le_length_encode (i : Import) : 2 ≤ i.encode.length := by
  have hpos := length_u32Leb_pos i.typeIndex
  simp only [encode, List.length_append, List.length_cons]
  omega

theorem Function.two_le_length_sized (f : Function) : 2 ≤ (sized f.encode).length := by
  have hpos : 0 < (countLeb f.encode.length).length := length_u32Leb_pos _
  have hend : 1 ≤ f.encode.length := by
    simp only [encode, Instr.encode, List.length_append, List.length_cons]
    omega
  rw [sized, List.length_append]
  omega

/-- The sizes and counts of a module can be written in 32 bits.  All others are bounded by
    the sizes of the sections. -/
structure Module.Encodable (w : Module) : Prop where
  sections : ∀ s ∈ w.sections, s.contents.length < 2 ^ 32
  locals : ∀ f ∈ w.functions, f.locals.length < 2 ^ 32

instance (w : Module) : Decidable w.Encodable :=
  decidable_of_iff ((∀ s ∈ w.sections, s.contents.length < 2 ^ 32) ∧
      ∀ f ∈ w.functions, f.locals.length < 2 ^ 32)
    ⟨fun h => ⟨h.1, h.2⟩, fun h => ⟨h.sections, h.locals⟩⟩

/-- All functions have an index: an import takes at least two bytes and so does the code of a
    function. -/
theorem Module.Encodable.functions_lt {w : Module} (h : w.Encodable) :
    w.imports.length + w.functions.length < 2 ^ 32 := by
  have hsections := h.sections
  simp only [Module.sections, List.mem_filter, List.mem_cons, List.not_mem_nil, or_false,
    and_imp, forall_eq_or_imp, forall_eq, decide_eq_true_eq, Section.contents,
    Section.ofEntries, List.length_append] at hsections
  obtain ⟨-, himports, -, -, hcodes⟩ := hsections
  have himport := mul_length_le_length_flatMap fun i (_ : i ∈ w.imports) =>
    i.two_le_length_encode
  have hcode := mul_length_le_length_flatMap fun f (_ : f ∈ w.functions) =>
    f.two_le_length_sized
  omega

namespace Reader

/-! ### Instructions are read back -/

theorem Reads.index (n : UInt32) : Reads index (u32Leb n) n :=
  (Reads.u32 n).bind_nil (.ofOption (congrArg some UInt32.ofNat_toNat))

theorem Reads.opening (i : Instr) : Reads (opening i) [0x40] i :=
  (Reads.literal [0x40]).bind_nil (.pure i)

theorem toNat_byte (bits : UInt64) {i : Nat} (h : i < 8) :
    (bits >>> UInt64.ofNat (8 * i)).toUInt8.toNat = bits.toNat / 2 ^ (8 * i) % 256 := by
  have hshift : (UInt64.ofNat (8 * i)).toNat % 64 = 8 * i := by
    rw [UInt64.toNat_ofNat_of_lt' (by change 8 * i < 2 ^ 64; omega)]
    omega
  rw [UInt64.toNat_toUInt8, UInt64.toNat_shiftRight, hshift, Nat.shiftRight_eq_div_pow]

theorem foldr_littleEndian (bits : UInt64) :
    (littleEndian bits).foldr (fun b n => b.toNat + 256 * n) 0 = bits.toNat := by
  have hlt := bits.toNat_lt
  rw [littleEndian, show List.range 8 = [0, 1, 2, 3, 4, 5, 6, 7] from rfl]
  simp (disch := decide) only [List.map_cons, List.map_nil, List.foldr_cons, List.foldr_nil,
    toNat_byte]
  omega

theorem Reads.bits64 (bits : UInt64) : Reads bits64 (littleEndian bits) bits := by
  have hlength : (littleEndian bits).length = 8 := by simp [littleEndian]
  have htake := Reads.take (littleEndian bits)
  rw [hlength] at htake
  apply htake.bind_nil
  rw [foldr_littleEndian, UInt64.ofNat_toNat]
  exact .pure bits

/-- An instruction is read by what its opcode leads to. -/
theorem Reads.ofOpcode {i : Instr} {r : Reader Instr} (h : opcodes.lookup i.opcode = some r)
    (operands : Reads r i.operands i) : Reads instr i.encode i :=
  (Reads.byte i.opcode).bind ((Reads.ofOption h).bind operands)

theorem Reads.instr (i : Instr) : Reads instr i.encode i := by
  cases i with
  | block | loop | ifThen => exact .ofOpcode rfl (.opening _)
  | br n => exact .ofOpcode rfl (.map (.index n))
  | brIf n => exact .ofOpcode rfl (.map (.index n))
  | call n => exact .ofOpcode rfl (.map (.index n))
  | localGet n => exact .ofOpcode rfl (.map (.index n))
  | localSet n => exact .ofOpcode rfl (.map (.index n))
  | i32Const n =>
    have hread : Reads ((fun n => Instr.i32Const (Int32.ofInt n)) <$> Reader.i32)
        (i32Leb n) (.i32Const (Int32.ofInt n.toInt)) := .map (.i32 n)
    rw [Int32.ofInt_toInt] at hread
    exact .ofOpcode rfl hread
  | f64Const x => exact .ofOpcode rfl (.map (.bits64 x.bits))
  | compare t op => cases t <;> cases op <;> exact .ofOpcode rfl (.pure _)
  | arith t op => cases t <;> cases op <;> exact .ofOpcode rfl (.pure _)
  | logic op => cases op <;> exact .ofOpcode rfl (.pure _)
  | unreachable | elseThen | endBlock | ret | drop | i32Eqz | f64Neg =>
    exact .ofOpcode rfl (.pure _)

/-! ### Functions are read back -/

theorem Reads.valType (t : ValType) : Reads valType [t.byte] t := by
  refine (Reads.byte t.byte).bind_nil (.ofOption ?_)
  cases t <;> rfl

theorem expand_cons (n : Nat) (t : ValType) (rs : List (Nat × ValType)) :
    expand ((n, t) :: rs) = List.replicate n t ++ expand rs := rfl

theorem expand_runs (ts : List ValType) : expand (runs ts) = ts := by
  induction ts with
  | nil => rfl
  | cons t ts ih =>
    rw [runs]
    cases hruns : runs ts with
    | nil =>
      rw [hruns] at ih
      exact congrArg (t :: ·) ih
    | cons run more =>
      obtain ⟨n, u⟩ := run
      rw [hruns] at ih
      by_cases htu : t = u
      · -- the run grows by one at its front
        subst htu
        simp only [↓reduceIte]
        rw [expand_cons, List.replicate_succ, List.cons_append, ← expand_cons, ih]
      · simp only [if_neg htu]
        rw [expand_cons, ih]
        rfl

theorem length_runs_le (ts : List ValType) : (runs ts).length ≤ ts.length := by
  fun_induction runs ts with
  | case1 => simp
  | case2 t ts _ _ => simp
  | case3 ts n u more hruns ih =>
    simp only [hruns, List.length_cons] at ih ⊢
    omega
  | case4 t ts n u more hruns htu ih =>
    simp only [hruns, List.length_cons] at ih ⊢
    omega

theorem Reads.locals {ts : List ValType} (fits : ts.length < 2 ^ 32) :
    Reads locals (encodeLocals ts) ts := by
  refine (Reads.vec (Nat.lt_of_le_of_lt (length_runs_le ts) fits) ?_).bind_nil (.ofOption ?_)
  · intro run hrun
    have hle := length_le_length_flatMap (fun (n, t) => List.replicate n t) hrun
    rw [List.length_replicate] at hle
    change run.1 ≤ (expand (runs ts)).length at hle
    rw [expand_runs] at hle
    exact (Reads.count (by omega)).bind ((Reads.valType run.2).bind_nil (.pure run))
  · rw [expand_runs, if_pos fits]

theorem Fills.expression (body : List Instr) :
    Fills expression ((body ++ [Instr.endBlock]).flatMap Instr.encode) body := by
  have hall : Fills (Reader.all Reader.instr) ((body ++ [Instr.endBlock]).flatMap Instr.encode)
      (body ++ [Instr.endBlock]) :=
    .all fun i _ => ⟨.instr i, List.cons_ne_nil _ _⟩
  refine hall.bind (Reads.ofOption ?_).fills
  rw [if_pos List.getLast?_concat, List.dropLast_concat]

theorem Fills.code {f : Function} (fits : f.locals.length < 2 ^ 32) :
    Fills code f.encode (f.locals, f.body) := by
  have hbytes : f.encode =
      encodeLocals f.locals ++ (f.body ++ [Instr.endBlock]).flatMap Instr.encode := by
    simp [Function.encode]
  rw [hbytes]
  exact (Reads.locals fits).bind_fills
    ((Fills.expression f.body).bind (Reads.pure (f.locals, f.body)).fills)

/-! ### Sections are read back -/

theorem Reads.name {s : String} (fits : (encodeName s).length < 2 ^ 32) :
    Reads name (encodeName s) s :=
  Fills.region (Nat.lt_of_le_of_lt (length_le_sized _) fits) (.text s)

theorem Reads.valTypes {ts : List ValType} (fits : (encodeValTypes ts).length < 2 ^ 32) :
    Reads valTypes (encodeValTypes ts) ts := by
  have hcount : ts.length < 2 ^ 32 := by
    simp only [encodeValTypes, List.length_append, List.length_map] at fits
    omega
  rw [encodeValTypes, List.map_eq_flatMap]
  exact .vec hcount fun t _ => .valType t

theorem Reads.funcType {t : FuncType} (fits : t.encode.length < 2 ^ 32) :
    Reads funcType t.encode t := by
  simp only [FuncType.encode, List.length_append, List.length_cons] at fits
  have hparams : Reads Reader.valTypes (encodeValTypes t.params) t.params :=
    .valTypes (by omega)
  have hresults : Reads Reader.valTypes (encodeValTypes t.results) t.results :=
    .valTypes (by omega)
  exact (Reads.literal [0x60]).bind (hparams.bind (hresults.bind_nil (.pure t)))

theorem Reads.importEntry {i : Import} (fits : i.encode.length < 2 ^ 32) :
    Reads importEntry i.encode i := by
  simp only [Import.encode, List.length_append] at fits
  rw [Import.encode, List.append_assoc]
  have hmodule : Reads Reader.name (encodeName i.module) i.module := .name (by omega)
  have hname : Reads Reader.name (encodeName i.name) i.name := .name (by omega)
  exact hmodule.bind (hname.bind
    ((Reads.literal [0x00]).bind ((Reads.index i.typeIndex).bind_nil (.pure i))))

theorem Reads.exportEntry {e : Export} (fits : e.encode.length < 2 ^ 32) :
    Reads exportEntry e.encode e := by
  simp only [Export.encode, List.length_append] at fits
  have hname : Reads Reader.name (encodeName e.name) e.name := .name (by omega)
  exact hname.bind
    ((Reads.literal [0x00]).bind ((Reads.index e.functionIndex).bind_nil (.pure e)))

theorem head?_flatMap_encode (ss : List Section) :
    (ss.flatMap Section.encode).head? = ss.head?.map Section.id := by
  cases ss <;> rfl

/-- A section is read back in front of sections with other numbers, and what stands there if
    it is left out is not taken for it. -/
theorem entries_flatMap_encode {α : Type} {id : UInt8} {r : Reader α} {enc : α → List UInt8}
    {xs : List α} {later : List Section}
    (fits : 0 < xs.length → (Section.ofEntries id enc xs).contents.length < 2 ^ 32)
    (hreads : ∀ x ∈ xs, (enc x).length < 2 ^ 32 → Reads r (enc x) x)
    (hpos : ∀ x ∈ xs, 1 ≤ (enc x).length) (hlater : ∀ s ∈ later, s.id ≠ id) :
    entries id r
        (((Section.ofEntries id enc xs :: later).filter (0 < ·.count)).flatMap Section.encode) =
      some (xs, (later.filter (0 < ·.count)).flatMap Section.encode) := by
  rw [List.filter_cons]
  by_cases hcount : 0 < (Section.ofEntries id enc xs).count
  · have hsize := fits hcount
    have hbytes : (xs.flatMap enc).length < 2 ^ 32 := by
      simp only [Section.contents, Section.ofEntries, List.length_append] at hsize
      omega
    have hvec : Reads (vec r) (Section.ofEntries id enc xs).contents xs := by
      refine .vec ?_ fun x hx => hreads x hx ?_
      · have hle := mul_length_le_length_flatMap hpos
        omega
      · exact Nat.lt_of_le_of_lt (length_le_length_flatMap enc hx) hbytes
    rw [if_pos (decide_eq_true hcount), List.flatMap_cons, entries]
    exact (if_pos rfl).trans (hvec.fills.region hsize _)
  · obtain rfl : xs = [] := List.eq_nil_of_length_eq_zero (Nat.eq_zero_of_not_pos hcount)
    have hhead : ((later.filter (0 < ·.count)).flatMap Section.encode).head? ≠ some id := by
      rw [head?_flatMap_encode]
      intro h
      obtain ⟨s, hs, hid⟩ := Option.map_eq_some_iff.mp h
      exact hlater s (List.mem_filter.mp (List.mem_of_head? hs)).1 hid
    rw [if_neg (by simp [Section.ofEntries]), entries, if_neg hhead]

end Reader

/-! ### Modules are read back -/

theorem Section.ofEntries_map {α β : Type} (id : UInt8) (g : α → β) (enc : β → List UInt8)
    (xs : List α) :
    Section.ofEntries id enc (xs.map g) = Section.ofEntries id (fun x => enc (g x)) xs := by
  simp [Section.ofEntries, List.flatMap_map]

/-- The sections of a module, with the functions' type indices apart from their code. -/
theorem Module.sections_eq (w : Module) :
    w.sections =
      [.ofEntries 1 FuncType.encode w.types,
       .ofEntries 2 Import.encode w.imports,
       .ofEntries 3 u32Leb (w.functions.map (·.typeIndex)),
       .ofEntries 7 Export.encode w.exports,
       .ofEntries 10 (fun c : List ValType × List Instr => sized (Function.encode ⟨0, c.1, c.2⟩))
         (w.functions.map fun f => (f.locals, f.body))].filter (0 < ·.count) := by
  simp only [Section.ofEntries_map]
  rfl

open Reader in
theorem Module.decode_encode {w : Module} (h : w.Encodable) : decode w.encode = some w := by
  have hsections := h.sections
  simp only [sections_eq, List.mem_filter, List.mem_cons, List.not_mem_nil, or_false, and_imp,
    forall_eq_or_imp, forall_eq, decide_eq_true_eq] at hsections
  obtain ⟨htypes, himports, hindices, hexports, hcodes⟩ := hsections
  refine Fills.whole ?_
  rw [encode, sections_eq]
  refine (Reads.literal [0x00, 0x61, 0x73, 0x6D]).bind_fills ?_
  refine (Reads.literal [0x01, 0x00, 0x00, 0x00]).bind_fills ?_
  refine (bind_eq (entries_flatMap_encode htypes ?_ ?_ ?_)).trans ?_
  · exact fun t _ => .funcType
  · exact fun t _ => Nat.succ_pos _
  · simp [Section.ofEntries]
  refine (bind_eq (entries_flatMap_encode himports ?_ ?_ ?_)).trans ?_
  · exact fun i _ => .importEntry
  · exact fun i _ => Nat.le_of_succ_le i.two_le_length_encode
  · simp [Section.ofEntries]
  refine (bind_eq (entries_flatMap_encode hindices ?_ ?_ ?_)).trans ?_
  · exact fun i _ _ => .index i
  · exact fun i _ => length_u32Leb_pos i
  · simp [Section.ofEntries]
  refine (bind_eq (entries_flatMap_encode hexports ?_ ?_ ?_)).trans ?_
  · exact fun i _ => .exportEntry
  · intro e _
    simp only [Export.encode, List.length_append, List.length_cons]
    omega
  · simp [Section.ofEntries]
  refine (bind_eq (entries_flatMap_encode hcodes ?_ ?_ ?_)).trans ?_
  · intro c hc fits
    obtain ⟨f, hf, rfl⟩ := List.mem_map.mp hc
    have hfills : Fills code (Function.encode ⟨0, f.locals, f.body⟩) (f.locals, f.body) :=
      .code (h.locals f hf)
    exact hfills.region (Nat.lt_of_le_of_lt (length_le_sized _) fits)
  · exact fun c _ => Nat.le_of_succ_le (Function.two_le_length_sized _)
  · simp
  refine (Reads.ofOption ?_).fills
  rw [if_pos (by simp), List.zipWith_map, List.zipWith_self]
  simp

theorem Module.reads_of_decode {bytes : List UInt8} {w : Module} (h : decode bytes = some w) :
    Reader.module bytes = some (w, []) := by
  rw [decode, Reader.whole] at h
  split at h
  · rename_i w' heq
    rw [heq, Option.some.inj h]
  · cases h

/-- **The binary format is read back.**  A module is what its bytes stand for; reading it uses
    them up, and no other module is written by them. -/
theorem Module.encode_uniquely_read {w : Module} (h : w.Encodable) :
    decode w.encode = some w ∧ Reader.module w.encode = some (w, []) ∧
      ∀ w' : Module, w'.Encodable → w'.encode = w.encode → w' = w := by
  have hdecode : decode w.encode = some w := decode_encode h
  refine ⟨hdecode, reads_of_decode hdecode, ?_⟩
  intro w' h' hbytes
  have hdecode' : decode w'.encode = some w' := decode_encode h'
  rw [hbytes, hdecode] at hdecode'
  exact (Option.some.inj hdecode').symm

/-- A module that no function checker would pass: an index that leads nowhere and a body of
    stray ends, with a signed constant of two bytes, a NaN with a payload and three runs of
    locals. -/
def Module.strayEnds : Module where
  types := [⟨[.i32, .f64], [.f64]⟩]
  imports := [⟨"env", "größe", 300⟩]
  functions :=
    [⟨0, [.i32, .i32, .f64, .i32],
      [.endBlock, .elseThen, .i32Const (-65), .f64Const ⟨0x7FF8000000000001⟩, .br 4294967295]⟩]
  exports := [⟨"", 7⟩, ⟨"", 7⟩]

theorem Module.strayEnds_uniquely_read :
    strayEnds.Encodable ∧ decode strayEnds.encode = some strayEnds ∧
      ∀ w' : Module, w'.Encodable → w'.encode = strayEnds.encode → w' = strayEnds := by
  have fits : strayEnds.Encodable := by decide +kernel
  obtain ⟨hdecode, -, hunique⟩ := encode_uniquely_read fits
  exact ⟨fits, hdecode, hunique⟩

end Offside.Wasm

/-
  Offside/Proofs/Wasm/StackFrames.lean
  ====================================
  **What the operand-stack check does inside one frame.**  The check keeps a stack of types
  with a mark for the frame in hand.  Here a state is taken apart into that frame, the
  values `top` that were pushed inside it and what lies out of its reach
  (`StackState.inside`), and each step is described by the stacks that the frame stands for
  before and after (`Covers`).  Where nothing is executed these are all stacks that end in
  the values at hand.

  A plain instruction either exchanges values, drops one of any type, or leaves the code
  (`step_plain_cases`).  That description gives both directions: what is accepted is an
  instruction of the typing rules (`step_plain_sound`), and each of those is accepted
  (`step_of_plainType`).
-/
import Offside.Proofs.Sequence
import Offside.Proofs.Wasm.Typing

namespace Offside.Wasm

/-! ### The stacks that a frame stands for -/

/-- Holds of the stacks `ts` that a frame with the values `top`, the topmost first, stands
    for: exactly these values, or these over any others where nothing is executed. -/
def Covers (top : List ValType) (dead : Bool) (ts : List ValType) : Prop :=
  ∃ us, ts = us ++ top.reverse ∧ (dead = false → us = [])

variable {top top' : List ValType} {dead : Bool} {ts us : List ValType} {t : ValType}

theorem covers_reverse (top : List ValType) (dead : Bool) : Covers top dead top.reverse :=
  ⟨[], rfl, fun _ => rfl⟩

theorem covers_dead_nil (ts : List ValType) : Covers [] true ts := ⟨ts, by simp, by simp⟩

theorem covers_live_nil : Covers [] false ts ↔ ts = [] := by
  constructor
  · rintro ⟨us, rfl, hus⟩
    simpa using hus rfl
  · rintro rfl
    exact covers_reverse [] false

theorem covers_nil : Covers top dead [] ↔ top = [] := by
  constructor
  · rintro ⟨us, h, -⟩
    simpa using (List.append_eq_nil_iff.mp h.symm).2
  · rintro rfl
    exact covers_reverse [] dead

theorem covers_cons {u : ValType} :
    Covers (u :: top) dead (ts ++ [t]) ↔ u = t ∧ Covers top dead ts := by
  constructor
  · rintro ⟨us, h, hus⟩
    rw [List.reverse_cons, ← List.append_assoc] at h
    obtain ⟨hts, ht⟩ := List.append_inj' h rfl
    exact ⟨by simpa using ht.symm, us, hts, hus⟩
  · rintro ⟨rfl, us, rfl, hus⟩
    exact ⟨us, by simp, hus⟩

/-- Values that were pushed are on top of every stack that is stood for. -/
theorem covers_push : Covers (us.reverse ++ top) dead ts ↔
    ∃ below, Covers top dead below ∧ ts = below ++ us := by
  constructor
  · rintro ⟨vs, rfl, hvs⟩
    exact ⟨vs ++ top.reverse, ⟨vs, rfl, hvs⟩, by simp⟩
  · rintro ⟨_, ⟨vs, rfl, hvs⟩, rfl⟩
    exact ⟨vs, by simp, hvs⟩

/-! ### Taking values inside a frame -/

namespace StackState

variable {kind : FrameKind} {below : List ValType} {fs : List Frame} {s s' : StackState}

/-- The state whose innermost frame has the values `top`, the topmost first, over the
    stack `below` that it was opened on. -/
def inside (kind : FrameKind) (below : List ValType) (fs : List Frame) (dead : Bool)
    (top : List ValType) : StackState :=
  ⟨top ++ below, ⟨kind, below.length, dead⟩ :: fs⟩

theorem pop_inside_nil (e : Option ValType) :
    (inside kind below fs dead []).pop e =
      if dead then .ok (inside kind below fs dead []) else .error (.emptyStack e) := by
  cases dead <;> simp [inside, pop, frame, bind, Except.bind, pure, Except.pure, throw,
    throwThe, MonadExceptOf.throw]

theorem pop_inside_cons (u : ValType) (e : Option ValType) :
    (inside kind below fs dead (u :: top)).pop e =
      if e = none ∨ e = some u then .ok (inside kind below fs dead top)
      else .error (.wrongType (e.getD u) u) := by
  have hlen : ¬ top.length + below.length + 1 = below.length := by omega
  cases e with
  | none => simp [inside, pop, frame, bind, Except.bind, pure, Except.pure, hlen]
  | some t =>
    by_cases h : t = u
    · simp [inside, pop, frame, bind, Except.bind, pure, Except.pure, hlen, h]
    · simp [inside, pop, frame, bind, Except.bind, throw, throwThe, MonadExceptOf.throw,
        hlen, h]

/-- What is left after a value is taken stands for the stacks that it was on top of. -/
theorem pop_ok {e : Option ValType} (h : (inside kind below fs dead top).pop e = .ok s') :
    ∃ top', s' = inside kind below fs dead top' ∧
      ∀ ts, Covers top' dead ts ↔ ∃ t, (e = none ∨ e = some t) ∧ Covers top dead (ts ++ [t]) := by
  cases top with
  | nil =>
    rw [pop_inside_nil] at h
    cases dead with
    | false => simp at h
    | true =>
      obtain rfl := Except.ok.inj h
      refine ⟨[], rfl, fun ts => ⟨fun _ => ?_, fun _ => covers_dead_nil _⟩⟩
      exact ⟨e.getD .i32, by cases e <;> simp, covers_dead_nil _⟩
  | cons u top =>
    rw [pop_inside_cons] at h
    by_cases he : e = none ∨ e = some u
    · rw [if_pos he] at h
      obtain rfl := Except.ok.inj h
      refine ⟨top, rfl, fun ts => ?_⟩
      simp only [covers_cons]
      constructor
      · intro hts
        exact ⟨u, he, rfl, hts⟩
      · rintro ⟨_, -, -, hts⟩
        exact hts
    · rw [if_neg he] at h
      cases h

theorem exists_pop {e : Option ValType} (he : e = none ∨ e = some t)
    (h : Covers top dead (ts ++ [t])) :
    ∃ s', (inside kind below fs dead top).pop e = .ok s' := by
  cases top with
  | nil =>
    cases dead with
    | false => simp [covers_live_nil] at h
    | true => exact ⟨_, pop_inside_nil _⟩
  | cons u top =>
    obtain ⟨rfl, -⟩ := covers_cons.mp h
    exact ⟨_, by rw [pop_inside_cons, if_pos he]⟩

theorem popTopFirst_ok {rs : List ValType} :
    ∀ {top : List ValType}, (inside kind below fs dead top).popTopFirst rs = .ok s' →
      ∃ top', s' = inside kind below fs dead top' ∧
        ∀ ts, Covers top' dead ts ↔ Covers top dead (ts ++ rs.reverse) := by
  induction rs with
  | nil =>
    intro top h
    exact ⟨top, (Except.ok.inj h).symm, fun ts => by simp⟩
  | cons r rs ih =>
    intro top h
    obtain ⟨s₁, hpop, hrest⟩ := bind_eq_ok.mp h
    obtain ⟨top₁, rfl, h₁⟩ := pop_ok hpop
    obtain ⟨top', rfl, h'⟩ := ih hrest
    refine ⟨top', rfl, fun ts => ?_⟩
    rw [h' ts, h₁]
    simp

theorem exists_popTopFirst {rs : List ValType} :
    ∀ {top : List ValType}, Covers top dead (ts ++ rs.reverse) →
      ∃ s', (inside kind below fs dead top).popTopFirst rs = .ok s' := by
  induction rs with
  | nil =>
    intro top _
    exact ⟨_, rfl⟩
  | cons r rs ih =>
    intro top h
    rw [List.reverse_cons, ← List.append_assoc] at h
    obtain ⟨s₁, hpop⟩ : ∃ s₁, (inside kind below fs dead top).pop (some r) = .ok s₁ :=
      exists_pop (.inr rfl) h
    obtain ⟨top₁, rfl, h₁⟩ := pop_ok hpop
    obtain ⟨s', hrest⟩ := ih ((h₁ _).mpr ⟨r, .inr rfl, h⟩)
    exact ⟨s', bind_eq_ok.mpr ⟨_, hpop, hrest⟩⟩

/-! ### What an instruction does to a frame

Every plain instruction does one of three things: it takes some values and leaves others,
it drops a value of any type, or it takes what it carries away and does not go on. -/

/-- Takes values of the types `ps` and leaves values of the types `rs`. -/
def exchange (s : StackState) (ps rs : List ValType) : Except StackFault StackState := do
  let s' ← s.popAll ps
  return s'.pushAll rs

/-- Takes values of the types `carried` and does not go on. -/
def leave (s : StackState) (carried : List ValType) : Except StackFault StackState := do
  let s' ← s.popAll carried
  s'.setUnreachable

theorem exchange_ok {ps rs : List ValType}
    (h : (inside kind below fs dead top).exchange ps rs = .ok s') :
    ∃ top', s' = inside kind below fs dead top' ∧
      ∀ us, Covers top' dead us ↔ ∃ ts, Covers top dead (ts ++ ps) ∧ us = ts ++ rs := by
  obtain ⟨s₁, hpop, hpush⟩ := bind_eq_ok.mp h
  obtain ⟨top₁, rfl, h₁⟩ := popTopFirst_ok hpop
  obtain rfl := pure_eq_ok.mp hpush
  refine ⟨rs.reverse ++ top₁, by simp [pushAll, inside], fun us => ?_⟩
  simp [covers_push, h₁]

theorem exists_exchange {ps : List ValType} (rs : List ValType)
    (h : Covers top dead (ts ++ ps)) :
    ∃ s', (inside kind below fs dead top).exchange ps rs = .ok s' := by
  obtain ⟨s₁, hpop⟩ : ∃ s₁, (inside kind below fs dead top).popAll ps = .ok s₁ :=
    exists_popTopFirst (by simpa using h)
  exact ⟨s₁.pushAll rs, bind_eq_ok.mpr ⟨s₁, hpop, rfl⟩⟩

theorem setUnreachable_inside :
    (inside kind below fs dead top).setUnreachable = .ok (inside kind below fs true []) := by
  simp [inside, setUnreachable]

theorem leave_ok {carried : List ValType}
    (h : (inside kind below fs dead top).leave carried = .ok s') :
    s' = inside kind below fs true [] ∧ ∃ ts, Covers top dead (ts ++ carried) := by
  obtain ⟨s₁, hpop, hset⟩ := bind_eq_ok.mp h
  obtain ⟨top₁, rfl, h₁⟩ := popTopFirst_ok hpop
  rw [setUnreachable_inside] at hset
  refine ⟨(Except.ok.inj hset).symm, top₁.reverse, ?_⟩
  simpa using (h₁ _).mp (covers_reverse top₁ dead)

theorem leave_of_covers {carried : List ValType} (h : Covers top dead (ts ++ carried)) :
    (inside kind below fs dead top).leave carried = .ok (inside kind below fs true []) := by
  obtain ⟨s₁, hpop⟩ : ∃ s₁, (inside kind below fs dead top).popAll carried = .ok s₁ :=
    exists_popTopFirst (by simpa using h)
  obtain ⟨top₁, rfl, -⟩ := popTopFirst_ok hpop
  exact bind_eq_ok.mpr ⟨_, hpop, setUnreachable_inside⟩

/-! ### What an instruction refers to -/

variable {c : StackContext} {i : Instr}

/-- The types that a branch to a frame carries. -/
def labelOf (c : StackContext) (kind : FrameKind) : List ValType :=
  if kind = .function then c.results else []

/-- The types that branches to the frames carry, the innermost first. -/
def labelsOf (c : StackContext) (fs : List Frame) : List (List ValType) :=
  fs.map fun f => labelOf c f.kind

theorem labelTypes_inside {depth : Nat} {carried : List ValType} :
    (inside kind below fs dead top).labelTypes c depth = .ok carried ↔
      (labelOf c kind :: labelsOf c fs)[depth]? = some carried := by
  have hlabels : labelOf c kind :: labelsOf c fs =
      labelsOf c (inside kind below fs dead top).frames := rfl
  rw [hlabels, labelTypes, labelsOf, List.getElem?_map]
  cases (inside kind below fs dead top).frames[depth]? with
  | none => simp
  | some f => simp [labelOf]

theorem functionType_ok {index : UInt32} {f : FuncType} :
    functionType c index = .ok f ↔ (c.imports ++ c.functions)[index.toNat]? = some f := by
  rw [functionType, c.callee?_eq]
  cases (c.imports ++ c.functions)[index.toNat]? <;> simp

theorem slotType_ok {slot : UInt32} : slotType c slot = .ok t ↔ c.slots[slot.toNat]? = some t := by
  rw [slotType]
  cases c.slots[slot.toNat]? <;> simp

/-! ### What an instruction does -/

theorem pop_eq_exchange (s : StackState) (t : ValType) :
    s.pop (some t) = s.exchange [t] [] := by
  simp only [exchange, popAll, List.reverse_singleton, popTopFirst]
  cases s.pop (some t) <;> rfl

theorem unary_eq_exchange (s : StackState) (t r : ValType) :
    s.unary t r = s.exchange [t] [r] := by
  simp only [unary, exchange, popAll, List.reverse_singleton, popTopFirst]
  cases s.pop (some t) <;> rfl

theorem binary_eq_exchange (s : StackState) (t r : ValType) :
    s.binary t r = s.exchange [t, t] [r] := by
  simp only [binary, exchange, popAll, List.reverse_cons, List.reverse_nil, List.nil_append,
    List.cons_append, popTopFirst]
  cases s.pop (some t) with
  | error e => rfl
  | ok s₁ =>
    change (s₁.pop (some t) >>= fun s₂ => pure (s₂.push r)) =
      ((s₁.pop (some t) >>= fun s₂ => .ok s₂) >>= fun s₂ => pure (s₂.pushAll [r]))
    cases s₁.pop (some t) <;> rfl

/-- A conditional branch takes what it carries and a truth value, and leaves what it
    carries. -/
theorem brIf_eq_exchange {depth : UInt32} {carried : List ValType}
    (h : (labelOf c kind :: labelsOf c fs)[depth.toNat]? = some carried) :
    (inside kind below fs dead top).step c (.brIf depth) =
      (inside kind below fs dead top).exchange (carried ++ [.i32]) carried := by
  simp only [step, exchange, popAll, List.reverse_append, List.reverse_singleton,
    List.singleton_append, popTopFirst]
  cases hpop : (inside kind below fs dead top).pop (some .i32) with
  | error e => rfl
  | ok s₁ =>
    obtain ⟨top₁, rfl, -⟩ := pop_ok hpop
    have hlabel : (inside kind below fs dead top₁).labelTypes c depth.toNat = .ok carried :=
      labelTypes_inside.mpr h
    change ((inside kind below fs dead top₁).labelTypes c depth.toNat >>= _) = _
    rw [hlabel]
    rfl

/-- Where a plain instruction is accepted it exchanges values of its type, drops a value,
    or leaves with what it carries. -/
theorem step_plain_cases {i : Plain}
    (h : (inside kind below fs dead top).step c i.instr = .ok s') :
    (∃ ps rs, PlainType c (labelOf c kind :: labelsOf c fs) i ps rs ∧
      (inside kind below fs dead top).exchange ps rs = .ok s') ∨
    (i = .drop ∧ (inside kind below fs dead top).pop none = .ok s') ∨
    (∃ carried, (∀ ts us, PlainType c (labelOf c kind :: labelsOf c fs) i (ts ++ carried) us) ∧
      (inside kind below fs dead top).leave carried = .ok s') := by
  cases i with
  | unreachable => exact .inr (.inr ⟨[], fun ts us => .unreachable _ us, h⟩)
  | br depth =>
    obtain ⟨carried, htarget, hleave⟩ := bind_eq_ok.mp h
    exact .inr (.inr ⟨carried, fun ts us => .br ts us (labelTypes_inside.mp htarget), hleave⟩)
  | brIf depth =>
    obtain ⟨s₁, hpop, hrest⟩ := bind_eq_ok.mp h
    obtain ⟨top₁, rfl, -⟩ := pop_ok hpop
    obtain ⟨carried, htarget, -⟩ := bind_eq_ok.mp hrest
    have hlabel := labelTypes_inside.mp htarget
    refine .inl ⟨carried ++ [.i32], carried, .brIf hlabel, ?_⟩
    rw [← brIf_eq_exchange hlabel]
    exact h
  | ret => exact .inr (.inr ⟨c.results, fun ts us => .ret ts us, h⟩)
  | call index =>
    obtain ⟨f, hf, hcall⟩ := bind_eq_ok.mp h
    exact .inl ⟨f.params, f.results, .call (functionType_ok.mp hf), hcall⟩
  | drop => exact .inr (.inl ⟨rfl, h⟩)
  | localGet slot =>
    obtain ⟨t, ht, hget⟩ := bind_eq_ok.mp h
    exact .inl ⟨[], [t], .localGet (slotType_ok.mp ht), hget⟩
  | localSet slot =>
    obtain ⟨t, ht, hset⟩ := bind_eq_ok.mp h
    rw [pop_eq_exchange] at hset
    exact .inl ⟨[t], [], .localSet (slotType_ok.mp ht), hset⟩
  | i32Const value => exact .inl ⟨[], [.i32], .i32Const value, h⟩
  | f64Const value => exact .inl ⟨[], [.f64], .f64Const value, h⟩
  | i32Eqz =>
    rw [Plain.instr, step, unary_eq_exchange] at h
    exact .inl ⟨[.i32], [.i32], .i32Eqz, h⟩
  | f64Neg =>
    rw [Plain.instr, step, unary_eq_exchange] at h
    exact .inl ⟨[.f64], [.f64], .f64Neg, h⟩
  | compare t op =>
    rw [Plain.instr, step, binary_eq_exchange] at h
    exact .inl ⟨[t, t], [.i32], .compare t op, h⟩
  | arith t op =>
    rw [Plain.instr, step, binary_eq_exchange] at h
    exact .inl ⟨[t, t], [t], .arith t op, h⟩
  | logic op =>
    rw [Plain.instr, step, binary_eq_exchange] at h
    exact .inl ⟨[.i32, .i32], [.i32], .logic op, h⟩

/-- What a plain instruction leaves stands for nothing but what its type makes of the
    stacks that were stood for before. -/
theorem step_plain_sound {i : Plain}
    (h : (inside kind below fs dead top).step c i.instr = .ok s') :
    ∃ dead' top', s' = inside kind below fs dead' top' ∧
      ∀ us, Covers top' dead' us → ∃ ts ps rs,
        PlainType c (labelOf c kind :: labelsOf c fs) i ps rs ∧
          Covers top dead (ts ++ ps) ∧ us = ts ++ rs := by
  rcases step_plain_cases h with ⟨ps, rs, htype, hs'⟩ | ⟨rfl, hs'⟩ | ⟨carried, htype, hs'⟩
  · obtain ⟨top', rfl, htop'⟩ := exchange_ok hs'
    refine ⟨dead, top', rfl, fun us hus => ?_⟩
    obtain ⟨ts, hts, rfl⟩ := (htop' us).mp hus
    exact ⟨ts, ps, rs, htype, hts, rfl⟩
  · obtain ⟨top', rfl, htop'⟩ := pop_ok hs'
    refine ⟨dead, top', rfl, fun us hus => ?_⟩
    obtain ⟨t, -, ht⟩ := (htop' us).mp hus
    exact ⟨us, [t], [], .drop t, ht, by simp⟩
  · obtain ⟨rfl, ts, hts⟩ := leave_ok hs'
    refine ⟨true, [], rfl, fun us _ => ?_⟩
    exact ⟨[], ts ++ carried, us, htype ts us, hts, rfl⟩

/-- Accepted as an exchange, an instruction leaves what its type says. -/
theorem step_of_exchange {ps rs : List ValType} (hts : Covers top dead (ts ++ ps))
    (h : (inside kind below fs dead top).step c i =
      (inside kind below fs dead top).exchange ps rs) :
    ∃ dead' top', (inside kind below fs dead top).step c i =
      .ok (inside kind below fs dead' top') ∧ Covers top' dead' (ts ++ rs) := by
  obtain ⟨s', hs'⟩ : ∃ s', (inside kind below fs dead top).exchange ps rs = .ok s' :=
    exists_exchange rs hts
  obtain ⟨top', rfl, htop'⟩ := exchange_ok hs'
  exact ⟨dead, top', h.trans hs', (htop' _).mpr ⟨ts, hts, rfl⟩⟩

/-- Accepted as a leave, an instruction stands for every stack afterwards. -/
theorem step_of_leave {carried : List ValType} (us : List ValType)
    (hts : Covers top dead (ts ++ carried))
    (h : (inside kind below fs dead top).step c i =
      (inside kind below fs dead top).leave carried) :
    ∃ dead' top', (inside kind below fs dead top).step c i =
      .ok (inside kind below fs dead' top') ∧ Covers top' dead' us :=
  ⟨true, [], h.trans (leave_of_covers hts), covers_dead_nil us⟩

/-- An instruction is accepted over every stack that ends in what its type takes. -/
theorem step_of_plainType {i : Plain} {ps rs : List ValType}
    (h : PlainType c (labelOf c kind :: labelsOf c fs) i ps rs)
    (hts : Covers top dead (ts ++ ps)) :
    ∃ dead' top', (inside kind below fs dead top).step c i.instr =
        .ok (inside kind below fs dead' top') ∧ Covers top' dead' (ts ++ rs) := by
  cases h with
  | unreachable =>
    rw [← List.append_nil (ts ++ ps)] at hts
    exact step_of_leave _ hts rfl
  | br us vs htarget =>
    rw [← List.append_assoc] at hts
    refine step_of_leave _ hts ?_
    rw [Plain.instr, step, labelTypes_inside.mpr htarget]
    rfl
  | brIf htarget => exact step_of_exchange hts (brIf_eq_exchange htarget)
  | ret us vs =>
    rw [← List.append_assoc] at hts
    exact step_of_leave _ hts rfl
  | call hcallee =>
    refine step_of_exchange hts ?_
    rw [Plain.instr, step, functionType_ok.mpr hcallee]
    rfl
  | drop t =>
    obtain ⟨s', hs'⟩ : ∃ s', (inside kind below fs dead top).pop none = .ok s' :=
      exists_pop (.inl rfl) hts
    obtain ⟨top', rfl, htop'⟩ := pop_ok hs'
    refine ⟨dead, top', hs', ?_⟩
    simpa using (htop' ts).mpr ⟨t, .inl rfl, hts⟩
  | localGet hslot =>
    refine step_of_exchange hts ?_
    rw [Plain.instr, step, slotType_ok.mpr hslot]
    rfl
  | localSet hslot =>
    refine step_of_exchange hts ?_
    rw [Plain.instr, step, slotType_ok.mpr hslot, ← pop_eq_exchange]
    rfl
  | i32Const value => exact step_of_exchange hts rfl
  | f64Const value => exact step_of_exchange hts rfl
  | i32Eqz => exact step_of_exchange hts (unary_eq_exchange _ _ _)
  | f64Neg => exact step_of_exchange hts (unary_eq_exchange _ _ _)
  | compare t op => exact step_of_exchange hts (binary_eq_exchange _ _ _)
  | arith t op => exact step_of_exchange hts (binary_eq_exchange _ _ _)
  | logic op => exact step_of_exchange hts (binary_eq_exchange _ _ _)

/-! ### Opening, dividing and closing constructs -/

theorem openFrame_inside (kind' : FrameKind) :
    (inside kind below fs dead top).openFrame kind' =
      inside kind' (top ++ below) (⟨kind, below.length, dead⟩ :: fs) false [] := rfl

theorem requireEmpty_inside {u : Unit} :
    (inside kind below fs dead top).requireEmpty = .ok u ↔ top = [] := by
  cases top with
  | nil => simp [inside, requireEmpty, frame, bind, Except.bind, pure, Except.pure]
  | cons v top =>
    have hlen : ¬ top.length + below.length + 1 = below.length := by omega
    simp [inside, requireEmpty, frame, bind, Except.bind, throw, throwThe,
      MonadExceptOf.throw, hlen]

theorem toElse_inside :
    (inside kind below fs dead top).toElse = .ok s' ↔
      kind = .ifThen ∧ top = [] ∧ s' = inside .elseThen below fs false [] := by
  change (if kind = .ifThen then _ else _) = _ ↔ _
  by_cases hkind : kind = .ifThen
  · rw [if_pos hkind]
    constructor
    · intro h
      obtain ⟨u, hempty, hs'⟩ := bind_eq_ok.mp h
      obtain rfl := requireEmpty_inside.mp hempty
      exact ⟨hkind, rfl, (pure_eq_ok.mp hs').symm⟩
    · rintro ⟨-, rfl, rfl⟩
      exact bind_eq_ok.mpr ⟨(), requireEmpty_inside.mpr rfl, rfl⟩
  · rw [if_neg hkind, throw_eq_ok]
    simp [hkind]

theorem close_inside :
    (inside kind below fs dead top).close = .ok s' ↔
      kind ≠ .function ∧ top = [] ∧ s' = ⟨below, fs⟩ := by
  change (if kind = .function then _ else _) = _ ↔ _
  by_cases hkind : kind = .function
  · rw [if_pos hkind, throw_eq_ok]
    simp [hkind]
  · rw [if_neg hkind]
    constructor
    · intro h
      obtain ⟨u, hempty, hs'⟩ := bind_eq_ok.mp h
      obtain rfl := requireEmpty_inside.mp hempty
      exact ⟨hkind, rfl, (pure_eq_ok.mp hs').symm⟩
    · rintro ⟨-, rfl, rfl⟩
      exact bind_eq_ok.mpr ⟨(), requireEmpty_inside.mpr rfl, rfl⟩

theorem step_elseThen :
    (inside .ifThen below fs dead []).step c .elseThen =
      .ok (inside .elseThen below fs false []) :=
  toElse_inside.mpr ⟨rfl, rfl, rfl⟩

theorem step_endBlock (hkind : kind ≠ .function) :
    (inside kind below fs dead []).step c .endBlock = .ok ⟨below, fs⟩ :=
  close_inside.mpr ⟨hkind, rfl, rfl⟩

theorem run_append {s₁ : StackState} {is : List Instr} (h : s.run c is = .ok s₁)
    (js : List Instr) : s.run c (is ++ js) = s₁.run c js := by
  induction is generalizing s with
  | nil =>
    obtain rfl := Except.ok.inj h
    rfl
  | cons i is ih =>
    obtain ⟨s₂, hstep, hrest⟩ := bind_eq_ok.mp h
    simp only [List.cons_append, run, hstep]
    exact ih hrest

theorem run_cons {s₁ : StackState} (h : s.step c i = .ok s₁) (is : List Instr) :
    s.run c (i :: is) = s₁.run c is := by
  simp only [run, h]
  rfl

end StackState

end Offside.Wasm

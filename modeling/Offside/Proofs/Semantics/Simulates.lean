/-
  Offside/Proofs/Semantics/Simulates.lean
  =======================================
  **One run does what another does.**  `Simulates slots P g x y` says that from every frame
  whose slots have the given types, `y` does what `x` does: it comes to the same result, as
  `g` translates it, in the same frame, or it stops for the same reason.  It also says what
  `x` itself keeps to: its result has the property `P`, the slots keep their types, and it
  is never stuck.  Each way of putting runs together has one lemma here, so that a proof
  about code follows the code.
-/
import Offside.Proofs.Semantics.Run

namespace Offside

variable {σ α β γ δ : Type} {slots slots' : List NumType}

def Simulates (slots : List NumType) (P : α → Prop) (g : α → β) (x : Run σ α) (y : Run σ β) :
    Prop :=
  ∀ frame : Frame σ, frame.slots.map Num.type = slots →
    (∃ a frame', x frame = .ok a frame' ∧ P a ∧ frame'.slots.map Num.type = slots ∧
      y frame = .ok (g a) frame') ∨
    (∃ stop frame', x frame = .error stop frame' ∧ stop ≠ .stuck ∧
      y frame = .error stop frame')

theorem bind_of_ok {x : Run σ α} {f : α → Run σ β} {frame frame' : Frame σ} {a : α}
    (h : x frame = .ok a frame') : (x >>= f) frame = f a frame' := by
  simp only [bind, EStateM.bind, h]

theorem bind_of_error {x : Run σ α} {f : α → Run σ β} {frame frame' : Frame σ} {stop : Stop}
    (h : x frame = .error stop frame') : (x >>= f) frame = .error stop frame' := by
  simp only [bind, EStateM.bind, h]

namespace Simulates

theorem pure {P : α → Prop} {g : α → β} {a : α} (ha : P a) :
    Simulates (σ := σ) slots P g (pure a) (pure (g a)) :=
  fun frame hframe => .inl ⟨a, frame, rfl, ha, hframe, rfl⟩

theorem stop {P : α → Prop} {g : α → β} {why : Stop} (h : why ≠ .stuck) :
    Simulates (σ := σ) slots P g (throw why) (throw why) :=
  fun frame _ => .inr ⟨why, frame, rfl, h, rfl⟩

theorem bind {P : α → Prop} {g : α → β} {x : Run σ α} {y : Run σ β} {Q : γ → Prop}
    {k : γ → δ} {f : α → Run σ γ} {f' : β → Run σ δ} (h : Simulates slots P g x y)
    (hf : ∀ a, P a → Simulates slots Q k (f a) (f' (g a))) :
    Simulates slots Q k (x >>= f) (y >>= f') := by
  intro frame hframe
  rcases h frame hframe with ⟨a, frame', hx, ha, hframe', hy⟩ | ⟨why, frame', hx, hwhy, hy⟩
  · rw [bind_of_ok hx, bind_of_ok hy]
    exact hf a ha frame' hframe'
  · rw [bind_of_error hx, bind_of_error hy]
    exact .inr ⟨why, frame', rfl, hwhy, rfl⟩

theorem bindLeft {P : α → Prop} {g : α → β} {x : Run σ α} {y : Run σ β} {Q : γ → Prop}
    {k : γ → β} {f : α → Run σ γ} (h : Simulates slots P g x y)
    (hf : ∀ a, P a → Simulates slots Q k (f a) (Pure.pure (g a))) :
    Simulates slots Q k (x >>= f) y := by
  have hbind := h.bind hf
  rwa [bind_pure] at hbind

theorem bindRight {P : α → Prop} {g : α → β} {x : Run σ α} {y : Run σ β} {Q : α → Prop}
    {k : α → γ} {f : β → Run σ γ} (h : Simulates slots P g x y)
    (hf : ∀ a, P a → Simulates slots Q k (Pure.pure a) (f (g a))) :
    Simulates slots Q k x (y >>= f) := by
  have hbind := h.bind hf
  rwa [bind_pure] at hbind

theorem iterate {P : Option α → Prop} {Q : α → Prop} {g : α → β} {x : Run σ (Option α)}
    {y : Run σ (Option β)} (h : Simulates slots P (Option.map g) x y)
    (hQ : ∀ a, P (some a) → Q a) (bound : Nat) :
    Simulates slots Q g (iterate bound x) (iterate bound y) := by
  induction bound with
  | zero => exact .stop (by simp)
  | succ bound ih =>
    refine h.bind fun a ha => ?_
    cases a with
    | none => exact ih
    | some a => exact .pure (hQ a ha)

theorem readSlot {slot : Nat} {t : NumType} (h : slots[slot]? = some t) :
    Simulates (σ := σ) slots (fun v => v.type = t) id (readSlot slot) (readSlot slot) := by
  intro frame hframe
  subst hframe
  rw [List.getElem?_map] at h
  obtain ⟨v, hv, rfl⟩ := Option.map_eq_some_iff.mp h
  refine .inl ⟨v, frame, ?_, rfl, rfl, ?_⟩ <;> simp [Offside.readSlot, hv]

theorem writeSlot {slot : Nat} {t : NumType} {v : Num} (h : slots[slot]? = some t)
    (hv : v.type = t) :
    Simulates (σ := σ) slots (fun _ => True) id (writeSlot slot v) (writeSlot slot v) := by
  intro frame hframe
  subst hframe
  obtain ⟨hlt, hslot⟩ := List.getElem?_eq_some_iff.mp h
  rw [List.length_map] at hlt
  refine .inl ⟨(), { frame with slots := frame.slots.set slot v }, ?_, trivial, ?_, ?_⟩
  · simp [Offside.writeSlot, hlt]
  · rw [List.map_set, hv, ← hslot, List.set_getElem_self]
  · simp [Offside.writeSlot, hlt]

theorem callHost {imports : List Signature} (host : Host imports σ) {index : Nat}
    {args : List Num} {signature : Signature} (h : imports[index]? = some signature)
    (hargs : args.map Num.type = signature.params) :
    Simulates slots (fun answer => answer.map Num.type = signature.result) id
      (callHost host index args) (callHost host index args) := by
  intro frame hframe
  exact .inl ⟨_, _, rfl, host.typed index args frame.host signature h hargs, hframe, rfl⟩

theorem inFrame {P : α → Prop} {g : α → β} {x : Run σ α} {y : Run σ β} {vs : List Num}
    (hvs : vs.map Num.type = slots') (h : Simulates slots' P g x y) :
    Simulates slots P g (inFrame vs x) (inFrame vs y) := by
  intro frame hframe
  rcases h ⟨vs, frame.host⟩ hvs with ⟨a, frame', hx, ha, -, hy⟩ | ⟨why, frame', hx, hwhy, hy⟩
  · refine .inl ⟨a, ⟨frame.slots, frame'.host⟩, ?_, ha, hframe, ?_⟩
    · simp only [Offside.inFrame, hx]
    · simp only [Offside.inFrame, hy]
  · refine .inr ⟨why, ⟨frame.slots, frame'.host⟩, ?_, hwhy, ?_⟩
    · simp only [Offside.inFrame, hx]
    · simp only [Offside.inFrame, hy]

/-- The same outcomes are seen from outside. -/
theorem outcome? {P : Option Num → Prop} {x : Run σ (Option Num)}
    {y : Run σ (List Num)} (h : Simulates [] P Option.toList x y) (state : σ) :
    Offside.outcome? (do let answer ← x; Pure.pure answer.toList) state =
      Offside.outcome? y state := by
  rcases h ⟨[], state⟩ rfl with ⟨a, frame', hx, -, -, hy⟩ | ⟨why, frame', hx, -, hy⟩
  · rw [Offside.outcome?, Offside.outcome?, bind_of_ok hx, hy]
    rfl
  · rw [Offside.outcome?, Offside.outcome?, bind_of_error hx, hy]

end Simulates

end Offside

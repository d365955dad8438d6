/-
  Offside/Proofs/Semantics/Keeps.lean
  ===================================
  **What one run keeps to.**  `Keeps I E P x` says that from every frame with the property `I`
  the run `x` comes to a result with the property `P`, again in a frame with `I`, or it stops
  for a reason in `E`.  With the types of the slots for `I`, and everything but `stuck` for `E`,
  it says that a run is sound; with nothing for `I` and `E` (`Ends`) it only says how a run can
  end, whatever is in the slots and whatever its calls do.

  Each way of putting runs together has one lemma here.
-/
import Offside.Proofs.Semantics.Simulates

namespace Offside

variable {σ α β : Type} {I : Frame σ → Prop} {E : Stop → Prop} {P : α → Prop} {Q : β → Prop}

def Keeps (I : Frame σ → Prop) (E : Stop → Prop) (P : α → Prop) (x : Run σ α) : Prop :=
  ∀ frame, I frame →
    (∃ a frame', x frame = .ok a frame' ∧ P a ∧ I frame') ∨
    (∃ stop frame', x frame = .error stop frame' ∧ E stop)

/-- The result of the run has the property, if there is one. -/
abbrev Ends (P : α → Prop) (x : Run σ α) : Prop := Keeps (fun _ => True) (fun _ => True) P x

/-- The slots have the given types. -/
def SlotTypes (slots : List NumType) (frame : Frame σ) : Prop := frame.slots.map Num.type = slots

theorem Ends.any (x : Run σ α) : Ends (fun _ => True) x := by
  intro frame _
  cases hx : x frame with
  | ok a frame' => exact .inl ⟨a, frame', rfl, trivial, trivial⟩
  | error stop frame' => exact .inr ⟨stop, frame', rfl, trivial⟩

theorem Ends.result {x : Run σ α} (h : Ends P x) {frame frame' : Frame σ} {a : α}
    (hx : x frame = .ok a frame') : P a := by
  rcases h frame trivial with ⟨b, frame'', hb, hP, -⟩ | ⟨_, _, hstop, -⟩
  · rw [hx] at hb
    cases hb
    exact hP
  · rw [hx] at hstop
    cases hstop

/-- What does nothing after any way to end can be left out. -/
theorem Ends.bind_eq {x : Run σ α} (h : Ends P x) {f : α → Run σ α}
    (hf : ∀ a, P a → f a = Pure.pure a) : x >>= f = x := by
  funext frame
  cases hx : x frame with
  | ok a frame' =>
    rw [bind_of_ok hx, hf a (h.result hx)]
    rfl
  | error stop frame' => exact bind_of_error hx

namespace Keeps

theorem pure {a : α} (ha : P a) : Keeps I E P (pure a) :=
  fun frame hframe => .inl ⟨a, frame, rfl, ha, hframe⟩

theorem stop {why : Stop} (h : E why) : Keeps I E P (throw why) :=
  fun frame _ => .inr ⟨why, frame, rfl, h⟩

theorem bind {x : Run σ α} {f : α → Run σ β} (h : Keeps I E P x)
    (hf : ∀ a, P a → Keeps I E Q (f a)) : Keeps I E Q (x >>= f) := by
  intro frame hframe
  rcases h frame hframe with ⟨a, frame', hx, ha, hframe'⟩ | ⟨why, frame', hx, hwhy⟩
  · rw [bind_of_ok hx]
    exact hf a ha frame' hframe'
  · rw [bind_of_error hx]
    exact .inr ⟨why, frame', rfl, hwhy⟩

theorem iterate {P : Option α → Prop} {Q : α → Prop} {x : Run σ (Option α)} (h : Keeps I E P x)
    (hQ : ∀ a, P (some a) → Q a) (htimeout : E .timeout) (bound : Nat) :
    Keeps I E Q (iterate bound x) := by
  induction bound with
  | zero => exact .stop htimeout
  | succ bound ih =>
    refine h.bind fun a ha => ?_
    cases a with
    | none => exact ih
    | some a => exact .pure (hQ a ha)

theorem imp {P' : α → Prop} {x : Run σ α} (h : Keeps I E P x) (hP : ∀ a, P a → P' a) :
    Keeps I E P' x := by
  intro frame hframe
  rcases h frame hframe with ⟨a, frame', hx, ha, hframe'⟩ | hstop
  · exact .inl ⟨a, frame', hx, hP a ha, hframe'⟩
  · exact .inr hstop

/-- What is known of how a run can end is known of its result. -/
theorem and {P' : α → Prop} {x : Run σ α} (h : Keeps I E P x) (h' : Ends P' x) :
    Keeps I E (fun a => P a ∧ P' a) x := by
  intro frame hframe
  rcases h frame hframe with ⟨a, frame', hx, ha, hframe'⟩ | hstop
  · exact .inl ⟨a, frame', hx, ⟨ha, h'.result hx⟩, hframe'⟩
  · exact .inr hstop

variable {slots slots' : List NumType}

/-- What is said of the first of two runs that do the same. -/
theorem of_simulates {g : α → β} {x : Run σ α} {y : Run σ β} (h : Simulates slots P g x y)
    (hE : ∀ why, why ≠ .stuck → E why) : Keeps (SlotTypes slots) E P x := by
  intro frame hframe
  rcases h frame hframe with ⟨a, frame', hx, ha, hframe', -⟩ | ⟨why, frame', hx, hwhy, -⟩
  · exact .inl ⟨a, frame', hx, ha, hframe'⟩
  · exact .inr ⟨why, frame', hx, hE why hwhy⟩

theorem inFrame {x : Run σ α} {vs : List Num} (hvs : vs.map Num.type = slots')
    (h : Keeps (SlotTypes slots') E P x) : Keeps (SlotTypes slots) E P (inFrame vs x) := by
  intro frame hframe
  rcases h ⟨vs, frame.host⟩ hvs with ⟨a, frame', hx, ha, -⟩ | ⟨why, frame', hx, hwhy⟩
  · refine .inl ⟨a, ⟨frame.slots, frame'.host⟩, ?_, ha, hframe⟩
    simp only [Offside.inFrame, hx]
  · refine .inr ⟨why, ⟨frame.slots, frame'.host⟩, ?_, hwhy⟩
    simp only [Offside.inFrame, hx]

end Keeps

end Offside

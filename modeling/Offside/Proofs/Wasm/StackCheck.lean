/-
  Offside/Proofs/Wasm/StackCheck.lean
  ===================================
  **The operand-stack check decides the typing rules.**  The check walks a flat list once;
  the rules are about structured code and know no order.  Both directions go through the
  frames that are open.

  A state that the check has reached says how the instructions so far are to be read
  (`Reads`): one typed sequence for each open frame, up to the instruction that opened the
  next.  So a body that passes is a typed sequence written down.  Conversely, typed code is
  accepted inside every frame that its labels fit (`Accepted`), also where nothing is
  executed, by induction over the typing.
-/
import Offside.Lowering
import Offside.Proofs.Wasm.StackFrames

namespace Offside.Wasm

open StackState

/-! ### Accepted code is well typed

A state that was reached from the start says how the instructions so far are to be read:
each open frame has a sequence before it, which was typed up to there. -/

section Soundness

variable {c : StackContext} {labels : List (List ValType)} {kind : FrameKind}
  {below : List ValType} {fs : List Frame}

/-- The sequence turns the empty stack into every stack that `top` stands for, with values
    of the types `pending` on top of it. -/
def Reaches (c : StackContext) (labels : List (List ValType)) (ns : List Node)
    (pending top : List ValType) (dead : Bool) : Prop :=
  ∀ ts, Covers top dead ts → CodeType c labels ns [] (ts ++ pending)

/-- The instruction that opens a frame of a kind, and the values it takes. -/
inductive Opens : FrameKind → Instr → List ValType → Prop where
  | block : Opens .block .block []
  | loop : Opens .loop .loop []
  | ifThen : Opens .ifThen .ifThen [.i32]

/-- How the instructions up to the beginning of the innermost frame are to be read, for
    its kind, the stack it was opened on and the frames around it. -/
inductive Before (c : StackContext) :
    FrameKind → List ValType → List Frame → List Instr → Prop where
  | function : Before c .function [] [] []
  | construct {kind' kind : FrameKind} {i : Instr} {pending below top : List ValType}
      {fs : List Frame} {code : List Instr} {ns : List Node} {dead : Bool}
      (opens : Opens kind' i pending) (outer : Before c kind below fs code)
      (reached : Reaches c (labelOf c kind :: labelsOf c fs) ns pending top dead) :
      Before c kind' (top ++ below) (⟨kind, below.length, dead⟩ :: fs)
        (code ++ flattenAll ns ++ [i])
  | elseThen {below : List ValType} {fs : List Frame} {code : List Instr} {ns : List Node}
      (outer : Before c .ifThen below fs code)
      (typed : CodeType c ([] :: labelsOf c fs) ns [] []) :
      Before c .elseThen below fs (code ++ flattenAll ns ++ [.elseThen])

/-- How the instructions up to a state are to be read. -/
inductive Reads (c : StackContext) : StackState → List Instr → Prop where
  | intro {kind : FrameKind} {below top : List ValType} {fs : List Frame}
      {code : List Instr} {ns : List Node} {dead : Bool} (before : Before c kind below fs code)
      (reached : Reaches c (labelOf c kind :: labelsOf c fs) ns [] top dead) :
      Reads c (inside kind below fs dead top) (code ++ flattenAll ns)

theorem reaches_nil : Reaches c labels [] [] [] false := by
  intro ts hts
  obtain rfl := covers_live_nil.mp hts
  exact .nil labels []

theorem Reaches.snoc {ns : List Node} {n : Node} {pending rs top : List ValType} {dead : Bool}
    (h : Reaches c labels ns pending top dead) (hn : NodeType c labels n pending rs) :
    Reaches c labels (ns ++ [n]) rs top dead := fun ts hts => .snoc (h ts hts) hn

/-- The code of a frame and the instructions around it are a node. -/
theorem Opens.exists_node {i : Instr} {pending : List ValType} {ns : List Node}
    (h : Opens kind i pending) (hns : CodeType c ([] :: labels) ns [] []) :
    ∃ n, NodeType c labels n pending [] ∧ n.flatten = i :: (flattenAll ns ++ [.endBlock]) := by
  cases h with
  | block => exact ⟨.block ns, .block hns, rfl⟩
  | loop => exact ⟨.loop ns, .loop hns, rfl⟩
  | ifThen => exact ⟨.ifThen ns, .ifThen hns, rfl⟩

/-- A frame that is closed becomes a node of the frame around it. -/
theorem Before.close {code : List Instr} {ns : List Node} (h : Before c kind below fs code)
    (hkind : kind ≠ .function) (hns : CodeType c ([] :: labelsOf c fs) ns [] []) :
    Reads c ⟨below, fs⟩ (code ++ flattenAll ns ++ [.endBlock]) := by
  cases h with
  | function => exact absurd rfl hkind
  | construct opens outer reached =>
    obtain ⟨n, hn, hflat⟩ := opens.exists_node hns
    have h := Reads.intro outer (reached.snoc hn)
    simpa [hflat, inside] using h
  | elseThen outer hbody =>
    cases outer with
    | construct opens outer reached =>
      cases opens with
      | ifThen =>
        have h := Reads.intro outer (reached.snoc (.ifElse hbody hns))
        simpa [Node.flatten, inside] using h

/-- A construct that is opened encloses nothing yet. -/
theorem Before.opened {kind' : FrameKind} {i : Instr} {pending top : List ValType}
    {code : List Instr} {ns : List Node} {dead : Bool} (outer : Before c kind below fs code)
    (opens : Opens kind' i pending)
    (reached : Reaches c (labelOf c kind :: labelsOf c fs) ns pending top dead) :
    Reads c ((inside kind below fs dead top).openFrame kind') (code ++ flattenAll ns ++ [i]) := by
  have h := Reads.intro (.construct opens outer reached) reaches_nil
  simpa [openFrame_inside] using h

theorem labelOf_of_ne {kind : FrameKind} (h : kind ≠ .function) : labelOf c kind = [] :=
  if_neg h

/-- What a step reads is one instruction more. -/
theorem Reads.step {s s' : StackState} {code : List Instr} {i : Instr} (h : Reads c s code)
    (hstep : s.step c i = .ok s') : Reads c s' (code ++ [i]) := by
  obtain @⟨kind, below, top, fs, code, ns, dead, before, reached⟩ := h
  cases hi : i.plain? with
  | some p =>
    obtain rfl := Instr.instr_of_plain? hi
    obtain ⟨dead', top', rfl, htop'⟩ := step_plain_sound hstep
    have hreached : Reaches c (labelOf c kind :: labelsOf c fs) (ns ++ [.plain p]) []
        top' dead' := by
      intro us hus
      obtain ⟨ts, ps, rs, htype, hts, rfl⟩ := htop' us hus
      have hns := reached _ hts
      rw [List.append_nil] at hns ⊢
      exact .snoc hns (.plain htype)
    have h := Reads.intro before hreached
    simpa [Node.flatten] using h
  | none =>
    cases i with
    | block =>
      obtain rfl := Except.ok.inj hstep
      exact before.opened .block reached
    | loop =>
      obtain rfl := Except.ok.inj hstep
      exact before.opened .loop reached
    | ifThen =>
      obtain ⟨s₁, hpop, hopen⟩ := bind_eq_ok.mp hstep
      obtain ⟨top₁, rfl, htop₁⟩ := pop_ok hpop
      obtain rfl := pure_eq_ok.mp hopen
      refine before.opened .ifThen fun ts hts => ?_
      obtain ⟨t, ht, hcovers⟩ := (htop₁ ts).mp hts
      obtain rfl : .i32 = t := by simpa using ht
      simpa using reached _ hcovers
    | elseThen =>
      obtain ⟨rfl, rfl, rfl⟩ := toElse_inside.mp hstep
      have hns := reached [] (covers_reverse [] dead)
      have h := Reads.intro (.elseThen before hns) reaches_nil
      simpa using h
    | endBlock =>
      obtain ⟨hkind, rfl, rfl⟩ := close_inside.mp hstep
      have hns := reached [] (covers_reverse [] dead)
      rw [labelOf_of_ne hkind] at hns
      exact before.close hkind hns
    | _ => cases hi

theorem Reads.run {s s' : StackState} {code is : List Instr} (h : Reads c s code)
    (hrun : s.run c is = .ok s') : Reads c s' (code ++ is) := by
  induction is generalizing s code with
  | nil =>
    obtain rfl := Except.ok.inj hrun
    simpa using h
  | cons i is ih =>
    obtain ⟨s₁, hstep, hrest⟩ := bind_eq_ok.mp hrun
    simpa using ih (h.step hstep) hrest

theorem reads_start : Reads c .start [] := Reads.intro .function reaches_nil

/-- The outermost frame is the function's. -/
theorem Before.of_no_frames {code : List Instr} (h : Before c kind below [] code) :
    kind = .function ∧ below = [] ∧ code = [] := by
  cases h with
  | function => exact ⟨rfl, rfl, rfl⟩
  | elseThen outer _ => cases outer

theorem codeType_of_checkBody {body : List Instr} (h : checkBody c body = .ok ()) :
    ∃ ns, flattenAll ns = body ∧ CodeType c [c.results] ns [] c.results := by
  obtain ⟨s, hrun, hfinish⟩ := bind_eq_ok.mp h
  have hreads := reads_start.run hrun
  rw [List.nil_append] at hreads
  obtain @⟨kind, below, top, fs, code, ns, dead, before, reached⟩ := hreads
  by_cases hframes : (inside kind below fs dead top).frames.length = 1
  · obtain rfl : fs = [] := by simpa [inside] using hframes
    obtain ⟨rfl, rfl, rfl⟩ := before.of_no_frames
    rw [finish, if_pos hframes] at hfinish
    obtain ⟨s', hpop, hempty⟩ := bind_eq_ok.mp hfinish
    obtain ⟨top', rfl, htop'⟩ := popTopFirst_ok hpop
    by_cases hstack : (inside .function [] [] dead top').stack = []
    · obtain rfl : top' = [] := by simpa [inside] using hstack
      have hresults := (htop' []).mp (covers_reverse [] dead)
      exact ⟨ns, rfl, by simpa [labelOf, labelsOf] using reached _ hresults⟩
    · rw [if_neg hstack, throw_eq_ok] at hempty
      exact hempty.elim
  · rw [finish, if_neg hframes, throw_eq_ok] at hfinish
    exact hfinish.elim

end Soundness

/-! ### Well-typed code is accepted -/

/-- The code is accepted inside every frame with the given labels around it, over every
    stack that is stood for, and leaves a stack that its type says. -/
def Accepted (c : StackContext) (labels : List (List ValType)) (ns : List Node)
    (ts us : List ValType) : Prop :=
  ∀ (kind : FrameKind) (below : List ValType) (fs : List Frame) {dead : Bool}
    {top : List ValType}, labels = labelOf c kind :: labelsOf c fs → Covers top dead ts →
    ∃ dead' top', (inside kind below fs dead top).run c (flattenAll ns) =
      .ok (inside kind below fs dead' top') ∧ Covers top' dead' us

namespace Accepted

variable {c : StackContext} {labels : List (List ValType)} {ns body orElse : List Node}
  {ts us : List ValType}

theorem nil (labels : List (List ValType)) (ts : List ValType) : Accepted c labels [] ts ts :=
  fun _ _ _ _ _ _ hts => ⟨_, _, rfl, hts⟩

theorem plain {i : Plain} {under ps rs : List ValType}
    (hns : Accepted c labels ns ts (under ++ ps)) (htype : PlainType c labels i ps rs) :
    Accepted c labels (ns ++ [.plain i]) ts (under ++ rs) := by
  intro kind below fs dead top hlabels hts
  obtain ⟨dead₁, top₁, hrun₁, hcovers₁⟩ := hns kind below fs hlabels hts
  subst hlabels
  obtain ⟨dead', top', hstep, hcovers⟩ := step_of_plainType htype hcovers₁
  refine ⟨dead', top', ?_, hcovers⟩
  rw [flattenAll_append, run_append hrun₁]
  exact run_cons hstep []

/-- What a construct encloses runs from the empty frame to the empty frame. -/
theorem run_enclosed (hbody : Accepted c ([] :: labels) body [] []) {kind : FrameKind}
    (hkind : kind ≠ .function) (below : List ValType) {fs : List Frame}
    (hlabels : labels = labelsOf c fs) :
    ∃ dead, (inside kind below fs false []).run c (flattenAll body) =
      .ok (inside kind below fs dead []) := by
  have hlabels' : [] :: labels = labelOf c kind :: labelsOf c fs := by
    rw [labelOf_of_ne hkind, hlabels]
  obtain ⟨dead, top, hrun, hcovers⟩ := hbody kind below fs hlabels' (covers_reverse [] false)
  obtain rfl := covers_nil.mp hcovers
  exact ⟨dead, hrun⟩

/-- A construct leaves the frame around it as it was. -/
theorem run_construct (hbody : Accepted c ([] :: labels) body [] []) {kind kind' : FrameKind}
    (hkind : kind' ≠ .function) {below top : List ValType} {fs : List Frame} {dead : Bool}
    (hlabels : labels = labelOf c kind :: labelsOf c fs) :
    (inside kind' (top ++ below) (⟨kind, below.length, dead⟩ :: fs) false []).run c
      (flattenAll body ++ [.endBlock]) = .ok (inside kind below fs dead top) := by
  obtain ⟨dead', hrun⟩ : ∃ dead', (inside kind' (top ++ below)
      (⟨kind, below.length, dead⟩ :: fs) false []).run c (flattenAll body) = .ok _ :=
    hbody.run_enclosed hkind (top ++ below) hlabels
  rw [run_append hrun]
  exact run_cons (step_endBlock hkind) []

theorem block (hns : Accepted c labels ns ts us) (hbody : Accepted c ([] :: labels) body [] []) :
    Accepted c labels (ns ++ [.block body]) ts us := by
  intro kind below fs dead top hlabels hts
  obtain ⟨dead₁, top₁, hrun₁, hcovers₁⟩ := hns kind below fs hlabels hts
  refine ⟨dead₁, top₁, ?_, hcovers₁⟩
  rw [flattenAll_append, flattenAll_singleton, run_append hrun₁]
  exact hbody.run_construct (by simp) hlabels

theorem loop (hns : Accepted c labels ns ts us) (hbody : Accepted c ([] :: labels) body [] []) :
    Accepted c labels (ns ++ [.loop body]) ts us := by
  intro kind below fs dead top hlabels hts
  obtain ⟨dead₁, top₁, hrun₁, hcovers₁⟩ := hns kind below fs hlabels hts
  refine ⟨dead₁, top₁, ?_, hcovers₁⟩
  rw [flattenAll_append, flattenAll_singleton, run_append hrun₁]
  exact hbody.run_construct (by simp) hlabels

/-- Behind its condition, the first branch of an `if` begins in an empty frame. -/
theorem run_condition (hns : Accepted c labels ns ts (us ++ [.i32])) {kind : FrameKind}
    (below : List ValType) {fs : List Frame} {dead : Bool} {top : List ValType}
    (hlabels : labels = labelOf c kind :: labelsOf c fs) (hts : Covers top dead ts) :
    ∃ dead' top', (inside kind below fs dead top).run c (flattenAll ns ++ [.ifThen]) =
      .ok (inside .ifThen (top' ++ below) (⟨kind, below.length, dead'⟩ :: fs) false []) ∧
        Covers top' dead' us := by
  obtain ⟨dead₁, top₁, hrun₁, hcovers₁⟩ := hns kind below fs hlabels hts
  obtain ⟨s', hpop⟩ : ∃ s', (inside kind below fs dead₁ top₁).pop (some .i32) = .ok s' :=
    exists_pop (.inr rfl) hcovers₁
  obtain ⟨top', rfl, htop'⟩ := pop_ok hpop
  refine ⟨dead₁, top', ?_, (htop' us).mpr ⟨.i32, .inr rfl, hcovers₁⟩⟩
  have hstep : (inside kind below fs dead₁ top₁).step c .ifThen =
      .ok ((inside kind below fs dead₁ top').openFrame .ifThen) :=
    bind_eq_ok.mpr ⟨_, hpop, rfl⟩
  rw [run_append hrun₁]
  exact run_cons hstep []

theorem ifThen (hns : Accepted c labels ns ts (us ++ [.i32]))
    (hbody : Accepted c ([] :: labels) body [] []) :
    Accepted c labels (ns ++ [.ifThen body]) ts us := by
  intro kind below fs dead top hlabels hts
  obtain ⟨dead₁, top₁, hrun₁, hcovers₁⟩ := hns.run_condition below hlabels hts
  refine ⟨dead₁, top₁, ?_, hcovers₁⟩
  have hcode : flattenAll (ns ++ [.ifThen body]) =
      (flattenAll ns ++ [.ifThen]) ++ (flattenAll body ++ [.endBlock]) := by
    simp [Node.flatten]
  rw [hcode, run_append hrun₁]
  exact hbody.run_construct (by simp) hlabels

theorem ifElse (hns : Accepted c labels ns ts (us ++ [.i32]))
    (hbody : Accepted c ([] :: labels) body [] [])
    (horElse : Accepted c ([] :: labels) orElse [] []) :
    Accepted c labels (ns ++ [.ifElse body orElse]) ts us := by
  intro kind below fs dead top hlabels hts
  obtain ⟨dead₁, top₁, hrun₁, hcovers₁⟩ := hns.run_condition below hlabels hts
  refine ⟨dead₁, top₁, ?_, hcovers₁⟩
  have hcode : flattenAll (ns ++ [.ifElse body orElse]) = (flattenAll ns ++ [.ifThen]) ++
      (flattenAll body ++ (.elseThen :: (flattenAll orElse ++ [.endBlock]))) := by
    simp [Node.flatten]
  obtain ⟨dead₂, hrun₂⟩ : ∃ dead₂, (inside .ifThen (top₁ ++ below)
      (⟨kind, below.length, dead₁⟩ :: fs) false []).run c (flattenAll body) = .ok _ :=
    hbody.run_enclosed (by simp) (top₁ ++ below) hlabels
  rw [hcode, run_append hrun₁, run_append hrun₂, run_cons step_elseThen]
  exact horElse.run_construct (by simp) hlabels

end Accepted

theorem accepted_of_codeType {c : StackContext} {labels : List (List ValType)}
    {ns : List Node} {ts us : List ValType} (h : CodeType c labels ns ts us) :
    Accepted c labels ns ts us :=
  h.induct Accepted.nil Accepted.plain Accepted.block Accepted.loop Accepted.ifThen
    Accepted.ifElse

theorem checkBody_of_codeType {c : StackContext} {ns : List Node}
    (h : CodeType c [c.results] ns [] c.results) : checkBody c (flattenAll ns) = .ok () := by
  obtain ⟨dead, top, hrun, hcovers⟩ :=
    accepted_of_codeType h .function [] [] rfl (covers_reverse [] false)
  have hresults : Covers top dead ([] ++ c.results.reverse.reverse) := by simpa using hcovers
  obtain ⟨s', hpop⟩ : ∃ s', (inside .function [] [] dead top).popAll c.results = .ok s' :=
    exists_popTopFirst hresults
  obtain ⟨top', rfl, htop'⟩ := popTopFirst_ok hpop
  obtain rfl := covers_nil.mp ((htop' []).mpr hresults)
  refine bind_eq_ok.mpr ⟨_, hrun, ?_⟩
  change (inside .function [] [] dead top).popAll c.results >>= _ = _
  rw [hpop]
  rfl

end Offside.Wasm

namespace Offside

open Wasm

theorem verify_ok {m : Typed.Module} {f : Typed.Function} {body : List Instr} :
    verify m f body = .ok () ↔ checkBody (stackContext m f) body = .ok () := by
  rw [verify]
  cases checkBody (stackContext m f) body <;> simp

/-- A body passes the check exactly if it is well-typed structured code written down. -/
theorem verify_eq_ok_iff (m : Typed.Module) (f : Typed.Function) (body : List Instr) :
    verify m f body = .ok () ↔
      ∃ ns, flattenAll ns = body ∧
        CodeType
          { slots := (f.signature.params ++ f.locals).map ValType.ofNumType
            results := f.signature.result.toList.map ValType.ofNumType
            imports := m.imports.map fun i => FuncType.ofSignature i.signature
            functions := m.functions.map fun f => FuncType.ofSignature f.signature }
          [f.signature.result.toList.map ValType.ofNumType] ns []
          (f.signature.result.toList.map ValType.ofNumType) := by
  rw [verify_ok]
  constructor
  · exact codeType_of_checkBody
  · rintro ⟨ns, rfl, h⟩
    exact checkBody_of_codeType (c := stackContext m f) h

end Offside

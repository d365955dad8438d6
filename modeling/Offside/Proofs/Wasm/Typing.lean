/-
  Offside/Proofs/Wasm/Typing.lean
  ===============================
  **Which code is well typed.**  The rules of WebAssembly say of a piece of code that it
  turns a stack of the types `ts` into a stack of the types `us`; the top of a stack is the
  last of its types.  They are stated here for structured code (`CodeType`), with no order
  of checking in them: an instruction has a type of its own, a sequence may run over any
  values that lie below those it uses, and what stands behind an instruction that does not
  go on may begin with any stack at all.

  The context is what a body may refer to, together with the types that a branch to each
  of the constructs around the code carries, the innermost first.  A construct of the empty
  block type carries none.
-/
import Offside.Proofs.Wasm.Structured
import Offside.Wasm.OperandStack

namespace Offside.Wasm

/-! ### Functions of a module -/

/-- The type that an index stands for. -/
def Module.type? (w : Module) (index : UInt32) : Option FuncType := w.types[index.toNat]?

/-- The type of a function, by its index.  The imports have the first indices. -/
def Module.functionType (w : Module) (index : Nat) : Option FuncType :=
  (w.imports.map (·.typeIndex) ++ w.functions.map (·.typeIndex))[index]?.bind w.type?

/-! ### Code -/

/-- The types of a plain instruction. -/
inductive PlainType (c : StackContext) (labels : List (List ValType)) :
    Plain → List ValType → List ValType → Prop where
  | unreachable (ts us : List ValType) : PlainType c labels .unreachable ts us
  | br {depth : UInt32} {carried : List ValType} (ts us : List ValType)
      (target : labels[depth.toNat]? = some carried) :
      PlainType c labels (.br depth) (ts ++ carried) us
  | brIf {depth : UInt32} {carried : List ValType}
      (target : labels[depth.toNat]? = some carried) :
      PlainType c labels (.brIf depth) (carried ++ [.i32]) carried
  | ret (ts us : List ValType) : PlainType c labels .ret (ts ++ c.results) us
  | call {index : UInt32} {f : FuncType}
      (callee : (c.imports ++ c.functions)[index.toNat]? = some f) :
      PlainType c labels (.call index) f.params f.results
  | drop (t : ValType) : PlainType c labels .drop [t] []
  | localGet {slot : UInt32} {t : ValType} (declared : c.slots[slot.toNat]? = some t) :
      PlainType c labels (.localGet slot) [] [t]
  | localSet {slot : UInt32} {t : ValType} (declared : c.slots[slot.toNat]? = some t) :
      PlainType c labels (.localSet slot) [t] []
  | i32Const (value : Int32) : PlainType c labels (.i32Const value) [] [.i32]
  | f64Const (value : Number.Binary64) : PlainType c labels (.f64Const value) [] [.f64]
  | i32Eqz : PlainType c labels .i32Eqz [.i32] [.i32]
  | f64Neg : PlainType c labels .f64Neg [.f64] [.f64]
  | compare (t : ValType) (op : CompareOp) :
      PlainType c labels (.compare t op) [t, t] [.i32]
  | arith (t : ValType) (op : BinaryOp) : PlainType c labels (.arith t op) [t, t] [t]
  | logic (op : BoolOp) : PlainType c labels (.logic op) [.i32, .i32] [.i32]

mutual

/-- The types of a node inside constructs with the given labels. -/
inductive NodeType (c : StackContext) :
    List (List ValType) → Node → List ValType → List ValType → Prop where
  | plain {labels : List (List ValType)} {i : Plain} {ts us : List ValType}
      (h : PlainType c labels i ts us) : NodeType c labels (.plain i) ts us
  | block {labels : List (List ValType)} {body : List Node}
      (h : CodeType c ([] :: labels) body [] []) : NodeType c labels (.block body) [] []
  | loop {labels : List (List ValType)} {body : List Node}
      (h : CodeType c ([] :: labels) body [] []) : NodeType c labels (.loop body) [] []
  | ifThen {labels : List (List ValType)} {body : List Node}
      (h : CodeType c ([] :: labels) body [] []) :
      NodeType c labels (.ifThen body) [.i32] []
  | ifElse {labels : List (List ValType)} {body orElse : List Node}
      (h : CodeType c ([] :: labels) body [] [])
      (h' : CodeType c ([] :: labels) orElse [] []) :
      NodeType c labels (.ifElse body orElse) [.i32] []

/-- The types of a sequence inside constructs with the given labels.  Its last node leaves
    alone what lies below the values it takes. -/
inductive CodeType (c : StackContext) :
    List (List ValType) → List Node → List ValType → List ValType → Prop where
  | nil (labels : List (List ValType)) (ts : List ValType) : CodeType c labels [] ts ts
  | snoc {labels : List (List ValType)} {ns : List Node} {n : Node}
      {ts below us vs : List ValType}
      (before : CodeType c labels ns ts (below ++ us)) (last : NodeType c labels n us vs) :
      CodeType c labels (ns ++ [n]) ts (below ++ vs)

end

variable {c : StackContext}

/-- Induction over a sequence from its first node to its last and, at each construct, over
    what it encloses. -/
theorem CodeType.induct
    {motive : List (List ValType) → List Node → List ValType → List ValType → Prop}
    (nil : ∀ labels ts, motive labels [] ts ts)
    (plain : ∀ {labels ns ts below us vs} {i : Plain}, motive labels ns ts (below ++ us) →
      PlainType c labels i us vs → motive labels (ns ++ [.plain i]) ts (below ++ vs))
    (block : ∀ {labels ns ts us body}, motive labels ns ts us →
      motive ([] :: labels) body [] [] → motive labels (ns ++ [.block body]) ts us)
    (loop : ∀ {labels ns ts us body}, motive labels ns ts us →
      motive ([] :: labels) body [] [] → motive labels (ns ++ [.loop body]) ts us)
    (ifThen : ∀ {labels ns ts us body}, motive labels ns ts (us ++ [.i32]) →
      motive ([] :: labels) body [] [] → motive labels (ns ++ [.ifThen body]) ts us)
    (ifElse : ∀ {labels ns ts us body orElse}, motive labels ns ts (us ++ [.i32]) →
      motive ([] :: labels) body [] [] → motive ([] :: labels) orElse [] [] →
        motive labels (ns ++ [.ifElse body orElse]) ts us)
    {labels : List (List ValType)} {ns : List Node} {ts us : List ValType}
    (h : CodeType c labels ns ts us) : motive labels ns ts us := by
  -- a node extends every sequence in front of it
  refine @CodeType.rec c
    (fun labels n us vs _ => ∀ ns ts below, motive labels ns ts (below ++ us) →
      motive labels (ns ++ [n]) ts (below ++ vs))
    (fun labels ns ts us _ => motive labels ns ts us)
    ?_ ?_ ?_ ?_ ?_ nil ?_ labels ns ts us h
  · intro labels i us vs htype ns ts below hns
    exact plain hns htype
  · intro labels body _ hbody ns ts below hns
    rw [List.append_nil] at hns ⊢
    exact block hns hbody
  · intro labels body _ hbody ns ts below hns
    rw [List.append_nil] at hns ⊢
    exact loop hns hbody
  · intro labels body _ hbody ns ts below hns
    rw [List.append_nil]
    exact ifThen hns hbody
  · intro labels body orElse _ _ hbody horElse ns ts below hns
    rw [List.append_nil]
    exact ifElse hns hbody horElse
  · intro labels ns n ts below us vs _ _ hns hn
    exact hn ns ts below hns

variable {labels : List (List ValType)}

/-- A node by itself, over any values below. -/
theorem NodeType.code {n : Node} {ts us : List ValType} (h : NodeType c labels n ts us)
    (below : List ValType) : CodeType c labels [n] (below ++ ts) (below ++ us) :=
  .snoc (.nil labels (below ++ ts)) h

/-- Code may run over any values below those it uses. -/
theorem CodeType.over (below : List ValType) :
    ∀ {labels : List (List ValType)} {ns : List Node} {ts us : List ValType},
      CodeType c labels ns ts us → CodeType c labels ns (below ++ ts) (below ++ us)
  | _, _, _, _, .nil labels ts => .nil labels (below ++ ts)
  | _, _, _, _, .snoc before last => by
    have h := CodeType.over below before
    rw [← List.append_assoc] at h ⊢
    exact .snoc h last

theorem CodeType.append :
    ∀ {labels : List (List ValType)} {ns ms : List Node} {ts us vs : List ValType},
      CodeType c labels ns ts us → CodeType c labels ms us vs →
        CodeType c labels (ns ++ ms) ts vs
  | _, _, _, _, _, _, h, .nil _ _ => by rwa [List.append_nil]
  | _, _, _, _, _, _, h, .snoc before last => by
    rw [← List.append_assoc]
    exact .snoc (CodeType.append h before) last

/-- A plain instruction by itself. -/
theorem PlainType.code {i : Plain} {ts us : List ValType} (h : PlainType c labels i ts us) :
    CodeType c labels [.plain i] ts us :=
  NodeType.code (.plain h) []

end Offside.Wasm

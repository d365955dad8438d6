/-
  Offside/Proofs/Wasm/Runs.lean
  =============================
  **Runs of locals are as few as they can be.**  A list of locals is written in runs of a
  count and a type, and many lists of runs stand for the same locals: a run may be cut in
  two, and an empty one may stand anywhere.  Runs are maximal (`MaximalRuns`) if none is empty
  and neighbours differ in their types.  `runs` gives maximal runs, no others stand for the
  same locals (`MaximalRuns.runs_expand`), and no list that does is shorter
  (`length_runs_expand_le`) or as short (`eq_runs_expand`).

  Runs can also be counted from the left, with the last run growing in its place and counts
  of 32 bits (`countRuns`).  What is counted so far is maximal after every local, so it is
  the same list, as long as no count can overflow.
-/
import Mathlib.Data.List.Chain
import Offside.Proofs.Wasm.Decode

namespace Offside.Wasm

open Reader (expand expand_cons expand_runs)

variable {t : ValType} {ts : List ValType} {rs : List (Nat × ValType)}

/-! ### Putting a run in front -/

theorem runs_cons_same {n : Nat} {more : List (Nat × ValType)} (h : runs ts = (n, t) :: more) :
    runs (t :: ts) = (n + 1, t) :: more := by
  simp [runs, h]

theorem runs_cons_other (h : ∀ r ∈ (runs ts).head?, r.2 ≠ t) :
    runs (t :: ts) = (1, t) :: runs ts := by
  cases hruns : runs ts with
  | nil => simp [runs, hruns]
  | cons r more =>
    have hne : t ≠ r.2 := (h r (by simp [hruns])).symm
    simp [runs, hruns, hne]

theorem runs_head_cases (t : ValType) (ts : List ValType) :
    (∃ n more, runs ts = (n, t) :: more) ∨ ∀ r ∈ (runs ts).head?, r.2 ≠ t := by
  cases hruns : runs ts with
  | nil => simp
  | cons r more =>
    by_cases hr : r.2 = t
    · exact .inl ⟨r.1, more, by rw [← hr]⟩
    · exact .inr (by simpa using hr)

/-- Locals of one type either join the first run behind them or are a run of their own. -/
theorem runs_replicate_append (n : Nat) (t : ValType) (ts : List ValType) :
    (∃ k more, runs ts = (k, t) :: more ∧
      runs (List.replicate n t ++ ts) = (n + k, t) :: more) ∨
    ((∀ r ∈ (runs ts).head?, r.2 ≠ t) ∧
      runs (List.replicate n t ++ ts) = if n = 0 then runs ts else (n, t) :: runs ts) := by
  rcases runs_head_cases t ts with ⟨k, more, hmore⟩ | hhead
  · refine .inl ⟨k, more, hmore, ?_⟩
    induction n with
    | zero => simpa using hmore
    | succ n ih =>
      rw [List.replicate_succ, List.cons_append, runs_cons_same ih, Nat.add_right_comm]
  · refine .inr ⟨hhead, ?_⟩
    induction n with
    | zero => simp
    | succ n ih =>
      rw [List.replicate_succ, List.cons_append]
      cases n with
      | zero => exact runs_cons_other hhead
      | succ n => exact runs_cons_same ih

/-! ### Maximal runs -/

/-- No run is empty, and each ends where a local of another type stands. -/
structure MaximalRuns (rs : List (Nat × ValType)) : Prop where
  positive : ∀ r ∈ rs, 1 ≤ r.1
  adjacent : rs.IsChain fun r r' => r.2 ≠ r'.2

theorem maximal_runs (ts : List ValType) : MaximalRuns (runs ts) := by
  induction ts with
  | nil => exact ⟨by simp [runs], by simp [runs]⟩
  | cons t ts ih =>
    rcases runs_head_cases t ts with ⟨n, more, hmore⟩ | hhead
    · rw [hmore] at ih
      rw [runs_cons_same hmore]
      obtain ⟨hpositive, hadjacent⟩ := ih
      constructor
      · simp only [List.mem_cons, forall_eq_or_imp] at hpositive ⊢
        exact ⟨by omega, hpositive.2⟩
      · rw [List.isChain_cons] at hadjacent ⊢
        exact hadjacent
    · rw [runs_cons_other hhead]
      constructor
      · simpa using ih.positive
      · exact List.isChain_cons.mpr ⟨fun r hr => (hhead r hr).symm, ih.adjacent⟩

/-- Maximal runs are found again in what they stand for. -/
theorem MaximalRuns.runs_expand (h : MaximalRuns rs) : runs (expand rs) = rs := by
  induction rs with
  | nil => rfl
  | cons r rs ih =>
    obtain ⟨n, t⟩ := r
    have hpos : 1 ≤ n := h.positive (n, t) List.mem_cons_self
    obtain ⟨hnext, hadjacent⟩ := List.isChain_cons.mp h.adjacent
    have hrest : runs (expand rs) = rs :=
      ih ⟨fun r hr => h.positive r (List.mem_cons_of_mem _ hr), hadjacent⟩
    rw [expand_cons]
    rcases runs_replicate_append n t (expand rs) with ⟨k, more, hhead, -⟩ | ⟨-, heq⟩
    · rw [hrest] at hhead
      exact absurd rfl (hnext (k, t) (by simp [hhead]))
    · rw [heq, if_neg (by omega), hrest]

/-! ### Shortest runs -/

theorem length_runs_expand_le (rs : List (Nat × ValType)) :
    (runs (expand rs)).length ≤ rs.length := by
  induction rs with
  | nil => simp [expand, runs]
  | cons r rs ih =>
    obtain ⟨n, t⟩ := r
    rw [expand_cons, List.length_cons]
    rcases runs_replicate_append n t (expand rs) with ⟨k, more, hhead, heq⟩ | ⟨-, heq⟩
    · rw [hhead, List.length_cons] at ih
      rw [heq, List.length_cons]
      omega
    · rw [heq]
      split
      · omega
      · simpa using ih

/-- A list of runs that cannot be shortened is the list of maximal runs. -/
theorem eq_runs_expand (h : rs.length ≤ (runs (expand rs)).length) : rs = runs (expand rs) := by
  induction rs with
  | nil => rfl
  | cons r rs ih =>
    obtain ⟨n, t⟩ := r
    have hle : (runs (expand rs)).length ≤ rs.length := length_runs_expand_le rs
    rw [expand_cons, List.length_cons] at h
    rw [expand_cons]
    rcases runs_replicate_append n t (expand rs) with ⟨k, more, hhead, heq⟩ | ⟨-, heq⟩
    · -- joined to the run behind it, the first run was one too many
      rw [heq, List.length_cons] at h
      rw [hhead, List.length_cons] at hle
      omega
    · rw [heq] at h ⊢
      by_cases hn : n = 0
      · rw [if_pos hn] at h
        omega
      · rw [if_neg hn, List.length_cons] at h
        rw [if_neg hn, ← ih (by omega)]

/-! ### Counting from the left -/

/-- Counts a local in the last run, if that has its type, and otherwise in a new one. -/
def countLocal (rs : List (UInt32 × ValType)) (t : ValType) : List (UInt32 × ValType) :=
  match rs.getLast? with
  | some (n, u) => if u = t then rs.dropLast ++ [(n + 1, u)] else rs ++ [(1, t)]
  | none => [(1, t)]

/-- Runs of locals, counted from the left in 32 bits. -/
def countRuns (ts : List ValType) : List (UInt32 × ValType) := ts.foldl countLocal []

/-- The runs with their counts as numbers. -/
def widen (rs : List (UInt32 × ValType)) : List (Nat × ValType) :=
  rs.map fun r => (r.1.toNat, r.2)

theorem maximal_concat {r : Nat × ValType} :
    MaximalRuns (rs ++ [r]) ↔ MaximalRuns rs ∧ 1 ≤ r.1 ∧ ∀ r' ∈ rs.getLast?, r'.2 ≠ r.2 := by
  constructor
  · rintro ⟨hpositive, hadjacent⟩
    obtain ⟨hchain, -, hlast⟩ := List.isChain_append.mp hadjacent
    refine ⟨⟨fun r' hr' => hpositive r' (by simp [hr']), hchain⟩, hpositive r (by simp), ?_⟩
    exact fun r' hr' => hlast r' hr' r (by simp)
  · rintro ⟨⟨hpositive, hadjacent⟩, hpos, hlast⟩
    constructor
    · intro r' hr'
      rcases List.mem_append.mp hr' with hr' | hr'
      · exact hpositive r' hr'
      · rw [List.mem_singleton.mp hr']
        exact hpos
    · refine List.isChain_append.mpr ⟨hadjacent, .singleton r, fun r' hr' r'' hr'' => ?_⟩
      obtain rfl : r = r'' := by simpa using hr''
      exact hlast r' hr'

/-- What was counted so far stays maximal and stands for one local more. -/
theorem countLocal_spec {st : List (UInt32 × ValType)} (h : MaximalRuns (widen st))
    (fits : (expand (widen st)).length + 1 < UInt32.size) (t : ValType) :
    MaximalRuns (widen (countLocal st t)) ∧
      expand (widen (countLocal st t)) = expand (widen st) ++ [t] := by
  rcases List.eq_nil_or_concat' st with rfl | ⟨front, ⟨n, u⟩, rfl⟩
  · exact ⟨⟨by simp [countLocal, widen], by simp [countLocal, widen]⟩, rfl⟩
  · have hwiden : widen (front ++ [(n, u)]) = widen front ++ [(n.toNat, u)] := by simp [widen]
    by_cases hut : u = t
    · subst hut
      -- the count is that of locals which are there, so it has room for one more
      have hcount : (n + 1).toNat = n.toNat + 1 := by
        have hle : n.toNat ≤ (expand (widen (front ++ [(n, u)]))).length := by
          simp [hwiden, expand]
        rw [UInt32.toNat_add]
        exact Nat.mod_eq_of_lt (by change n.toNat + 1 < UInt32.size; omega)
      have hgrown : widen (countLocal (front ++ [(n, u)]) u) =
          widen front ++ [(n.toNat + 1, u)] := by
        simp [countLocal, widen, hcount]
      rw [hwiden] at h
      rw [hgrown, hwiden]
      obtain ⟨hfront, -, hlast⟩ := maximal_concat.mp h
      refine ⟨maximal_concat.mpr ⟨hfront, by omega, hlast⟩, ?_⟩
      simp [expand, List.replicate_succ']
    · have hnew : widen (countLocal (front ++ [(n, u)]) t) =
          widen (front ++ [(n, u)]) ++ [(1, t)] := by
        simp [countLocal, widen, hut]
      rw [hnew]
      refine ⟨maximal_concat.mpr ⟨h, Nat.le_refl 1, ?_⟩, ?_⟩
      · intro r' hr'
        rw [hwiden, List.getLast?_concat] at hr'
        obtain rfl := Option.some.inj hr'
        exact hut
      · simp [expand]

theorem foldl_countLocal_spec {st : List (UInt32 × ValType)} (h : MaximalRuns (widen st))
    (fits : (expand (widen st)).length + ts.length < UInt32.size) :
    MaximalRuns (widen (ts.foldl countLocal st)) ∧
      expand (widen (ts.foldl countLocal st)) = expand (widen st) ++ ts := by
  induction ts generalizing st with
  | nil => exact ⟨h, by simp⟩
  | cons t ts ih =>
    rw [List.length_cons] at fits
    obtain ⟨hmaximal, hexpand⟩ := countLocal_spec h (by omega) t
    obtain ⟨hmaximal', hexpand'⟩ := ih hmaximal (by rw [hexpand, List.length_append]; simp; omega)
    refine ⟨hmaximal', ?_⟩
    rw [List.foldl_cons, hexpand', hexpand, List.append_assoc, List.singleton_append]

theorem widen_countRuns (fits : ts.length < UInt32.size) : widen (countRuns ts) = runs ts := by
  obtain ⟨hmaximal, hexpand⟩ :
      MaximalRuns (widen (countRuns ts)) ∧ expand (widen (countRuns ts)) = ts :=
    foldl_countLocal_spec ⟨by simp [widen], by simp [widen]⟩ (by simpa [expand, widen] using fits)
  rw [← hmaximal.runs_expand, hexpand]

/-! ### The runs of a list of locals -/

/-- **Runs of locals are as few as they can be.**  They stand for the locals, none is empty,
    neighbours differ, and every other list of runs for the same locals is longer.  Counting
    from the left in 32 bits gives the same runs. -/
theorem runs_unique_shortest {ts : List ValType} (fits : ts.length < UInt32.size) :
    widen (countRuns ts) = runs ts ∧ expand (runs ts) = ts ∧ (∀ r ∈ runs ts, 1 ≤ r.1) ∧
      (runs ts).IsChain (fun r r' => r.2 ≠ r'.2) ∧
      ∀ rs, expand rs = ts →
        (runs ts).length ≤ rs.length ∧ (rs.length = (runs ts).length → rs = runs ts) := by
  obtain ⟨hpositive, hadjacent⟩ := maximal_runs ts
  refine ⟨widen_countRuns fits, expand_runs ts, hpositive, hadjacent, ?_⟩
  rintro rs rfl
  exact ⟨length_runs_expand_le rs, fun h => eq_runs_expand (Nat.le_of_eq h)⟩

/-- Four locals in three runs, against a list of runs that cuts the first and has an empty
    one. -/
theorem runs_mixedLocals :
    [ValType.i32, .i32, .f64, .i32].length < UInt32.size ∧
      runs [.i32, .i32, .f64, .i32] = [(2, .i32), (1, .f64), (1, .i32)] ∧
      widen (countRuns [.i32, .i32, .f64, .i32]) = runs [.i32, .i32, .f64, .i32] ∧
      expand [(1, .i32), (1, .i32), (1, .f64), (0, .f64), (1, .i32)] = [.i32, .i32, .f64, .i32] ∧
      (runs [.i32, .i32, .f64, .i32]).length ≤ 5 := by
  have fits : [ValType.i32, .i32, .f64, .i32].length < UInt32.size := by decide
  obtain ⟨hcount, -, -, -, hshortest⟩ := runs_unique_shortest fits
  have hother : expand [(1, .i32), (1, .i32), (1, .f64), (0, .f64), (1, .i32)] =
      [.i32, .i32, .f64, .i32] := rfl
  exact ⟨fits, rfl, hcount, hother, (hshortest _ hother).1⟩

end Offside.Wasm

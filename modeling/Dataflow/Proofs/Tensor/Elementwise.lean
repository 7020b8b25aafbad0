import Dataflow.Proofs.Tensor.Broadcasting

/-!
Functions of numbers, element by element. Their results have the inferred types, and broadcasting
reads elements that exist.
-/

namespace Dataflow.Elementwise

-----------------------------------------------------------------------------------------
-- Broadcast positions
-----------------------------------------------------------------------------------------

/-- The coordinates at which stretched axes are read: zero on axes of size one. -/
def collapse (sizes coords : List Nat) : List Nat :=
  List.zipWith (fun size coord => if size = 1 then 0 else coord) sizes coords

/-- The steps of stretched axes: zero on axes of size one. -/
def stretchedSteps (sizes steps : List Nat) : List Nat :=
  List.zipWith (fun size stride => if size = 1 then 0 else stride) sizes steps

/-- Stretched steps read at collapsed coordinates, by induction on the axes. -/
theorem position_stretchedSteps (sizes coords steps : List Nat)
    : RowMajor.position coords (stretchedSteps sizes steps)
      = RowMajor.position (collapse sizes coords) steps := by
  induction sizes generalizing coords steps with
  | nil => simp [stretchedSteps, collapse]
  | cons size sizes ih =>
      cases coords with
      | nil => simp [collapse]
      | cons coord coords =>
          cases steps with
          | nil => simp [stretchedSteps]
          | cons step steps =>
              have later := ih coords steps
              rw [stretchedSteps, collapse] at later ⊢
              rw [List.zipWith_cons_cons, List.zipWith_cons_cons, RowMajor.position_cons,
                RowMajor.position_cons, later]
              by_cases unit : size = 1 <;> simp [unit]

/-- Collapsed coordinates of a point lie below the sizes that stretch to its sizes. -/
theorem inside_collapse {sizes target coords : List Nat}
    (stretches : List.Forall₂ Stretches sizes target) (inside : RowMajor.Inside coords target)
    : RowMajor.Inside (collapse sizes coords) sizes := by
  induction stretches generalizing coords with
  | nil =>
      cases inside
      exact .nil
  | cons here later ih =>
      cases inside with
      | cons below rest =>
          refine .cons ?_ (ih rest)
          rcases here with rfl | rfl
          · simp
          · dsimp only
            split_ifs with unit
            · omega
            · exact below

/-- Zero steps in front skip the coordinates there. -/
theorem position_replicate_zero (count : Nat) (coords steps : List Nat)
    : RowMajor.position coords (List.replicate count 0 ++ steps)
      = RowMajor.position (coords.drop count) steps := by
  induction count generalizing coords with
  | zero => simp
  | succ count ih =>
      cases coords with
      | nil => simp
      | cons coord coords => simp [List.replicate_succ, ih]

/-- Broadcasting reads, for every point of the target, the collapsed coordinates of its last axes.
-/
theorem broadcastPositions_eq {source target : List Nat} (rank : source.length ≤ target.length)
    : broadcastPositions source target
      = (RowMajor.points target).map fun coords =>
          RowMajor.position
            (collapse source (coords.drop (target.length - source.length)))
            (RowMajor.steps source) := by
  have aligned
      : target.length
        = (List.replicate (target.length - source.length) 0
            ++ stretchedSteps source (RowMajor.steps source)).length := by
    simp only [stretchedSteps, List.length_append, List.length_replicate, List.length_zipWith,
      RowMajor.length_steps]
    omega
  rw [broadcastPositions]
  refine (RowMajor.strided_eq aligned).trans (List.map_congr_left ?_)
  intro coords _
  rw [position_replicate_zero, position_stretchedSteps]

/-- Broadcasting reads positions that exist, one for every position of the target. -/
theorem broadcastPositions_inside {source target : List Nat} (stretch : StretchTo source target)
    : (∀ position ∈ broadcastPositions source target, position < RowMajor.count source)
      ∧ (broadcastPositions source target).length = RowMajor.count target := by
  rw [broadcastPositions_eq stretch.rank]
  constructor
  · intro position member
    obtain ⟨coords, point, rfl⟩ := List.mem_map.mp member
    have inside := List.forall₂_drop (target.length - source.length) (RowMajor.mem_points.mp point)
    exact RowMajor.position_lt_count (inside_collapse stretch.axes inside)
  · rw [List.length_map, RowMajor.length_points]

-----------------------------------------------------------------------------------------
-- Results
-----------------------------------------------------------------------------------------

/-- A function of one number is safe, and its result has the type of the operand. -/
theorem safe_unary (kind : UnaryKind) {input : Tensor} {type : TensorType}
    (typed : input.HasType type)
    : Outcome.Safe (fun result => result.HasType type) (unary kind input) := by
  have valid : input.elements.size = RowMajor.count input.sizes := typed.valid
  rw [unary]
  split_ifs
  · refine Outcome.safe_ok ⟨?_, ?_, typed.fits⟩
    · simp [Tensor.Valid, valid]
    · simpa [Tensor.dtype] using typed.dtype
  · cases unaryInt kind with
    | none => exact Outcome.safe_error (by simp)
    | some f =>
        refine Outcome.safe_ok ⟨?_, ?_, typed.fits⟩
        · simp [Tensor.Valid, valid]
        · simpa [Tensor.dtype] using typed.dtype

/-- Fetching existing items is safe, and there is one for each position. -/
theorem safe_fetch {α : Type} {positions : List Nat} {items : List α}
    (inside : ∀ position ∈ positions, position < items.length)
    : Outcome.Safe (fun fetched => fetched.length = positions.length) (fetch positions items) := by
  obtain ⟨selected, done, length⟩ := Elements.exists_select? inside
  exact Outcome.safe_require done length

/-- A function of two integers breaks no promise. -/
theorem safe_binaryInt (kind : BinaryKind) (x y : Int64)
    : Outcome.Safe (fun _ => True) (binaryInt kind x y) := by
  cases kind with
  | div =>
      rw [binaryInt, divide]
      split_ifs
      · exact Outcome.safe_fail _ _
      · exact Outcome.safe_ok trivial
  | add => exact Outcome.safe_ok trivial
  | sub => exact Outcome.safe_ok trivial
  | mul => exact Outcome.safe_ok trivial
  | maximum => exact Outcome.safe_ok trivial
  | minimum => exact Outcome.safe_ok trivial

/-- The sizes of a broadcast pair break no promise. -/
theorem safe_broadcastSizes (lhs rhs : List Nat)
    : Outcome.Safe (fun sizes => broadcastSizes lhs rhs = .ok sizes) (broadcastSizes lhs rhs) := by
  refine ⟨id, ?_⟩
  have each
      : ∀ pair ∈ (padded (max lhs.length rhs.length) lhs).zip
            (padded (max lhs.length rhs.length) rhs),
          Outcome.Safe (fun _ => True) (broadcastSize pair.1 pair.2) := by
    intro pair _
    rw [broadcastSize]
    split_ifs
    · exact Outcome.safe_ok trivial
    · exact Outcome.safe_ok trivial
    · exact Outcome.safe_ok trivial
    · exact Outcome.safe_fail _ _
  exact (Outcome.Safe.mapM each).kept

/-- A function of two numbers is safe, and its result has the inferred type. -/
theorem safe_binary (kind : BinaryKind) {lhs rhs : Tensor} {lhsType rhsType : TensorType}
    {dims : List Dimension} (typedLhs : lhs.HasType lhsType) (typedRhs : rhs.HasType rhsType)
    (combined : Broadcast.dims lhsType.shape.dims rhsType.shape.dims = some dims)
    : Outcome.Safe (fun result => result.HasType ⟨lhsType.dtype, ⟨dims⟩⟩)
        (binary kind lhs rhs) := by
  refine (safe_broadcastSizes lhs.sizes rhs.sizes).bind ?_
  intro sizes done
  obtain ⟨stretchLhs, stretchRhs⟩ := stretchTo_broadcastSizes done
  obtain ⟨insideLhs, lengthLhs⟩ := broadcastPositions_inside stretchLhs
  obtain ⟨insideRhs, lengthRhs⟩ := broadcastPositions_inside stretchRhs
  have fits := fits_broadcastSizes typedLhs.fits typedRhs.fits combined done
  rw [← typedLhs.valid] at insideLhs
  rw [← typedRhs.valid] at insideRhs
  dsimp only
  split_ifs
  · refine (safe_fetch (by simpa using insideLhs)).bind ?_
    intro xs lengthXs
    refine (safe_fetch (by simpa using insideRhs)).bind ?_
    intro ys lengthYs
    refine Outcome.safe_ok ⟨?_, ?_, fits⟩
    · simp [Tensor.Valid, lengthXs, lengthYs, lengthLhs, lengthRhs]
    · simpa [Tensor.dtype] using typedLhs.dtype
  · refine (safe_fetch (by simpa using insideLhs)).bind ?_
    intro xs lengthXs
    refine (safe_fetch (by simpa using insideRhs)).bind ?_
    intro ys lengthYs
    refine (Outcome.Safe.mapM fun pair _ => safe_binaryInt kind pair.1 pair.2).bind ?_
    intro results each
    have length := each.length_eq
    refine Outcome.safe_ok ⟨?_, ?_, fits⟩
    · simp [Tensor.Valid, ← length, lengthXs, lengthYs, lengthLhs, lengthRhs]
    · simpa [Tensor.dtype] using typedLhs.dtype

end Dataflow.Elementwise

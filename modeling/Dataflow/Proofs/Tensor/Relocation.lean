import Dataflow.Proofs.Execution.Room
import Dataflow.Proofs.Tensor.Acceptance
import Dataflow.Proofs.Tensor.Largest
import Dataflow.Proofs.Tensor.Reading
import Dataflow.Proofs.Tensor.Results

/-!
Kernels that move elements put each one where it belongs. What a tensor is to its reader is the element
at each of its points, whatever the storage. Shuffling, filling and indexing have results whenever
their operands fit, and the element at a point of the result is the element at the point of the operand
that the definition of the operation says. Only memory stands between the kernel and a backend: a
tensor without elements may have more places on an axis than memory holds numbers.
-/

namespace Dataflow

-----------------------------------------------------------------------------------------
-- Single elements
-----------------------------------------------------------------------------------------

/-- One stored element, bit for bit. -/
inductive Element where
  | i1 (byte : UInt8)
  | si32 (value : Int32)
  | si64 (value : Int64)
  | f32 (word : UInt32)
  | f64 (word : UInt64)
  deriving DecidableEq

namespace Elements

/-- The element with a number. -/
def get? : Elements → Nat → Option Element
  | .i1 bytes, place => bytes[place]?.map .i1
  | .si32 values, place => values[place]?.map .si32
  | .si64 values, place => values[place]?.map .si64
  | .f32 words, place => words[place]?.map .f32
  | .f64 words, place => words[place]?.map .f64

/-- Every number below the size has an element. -/
theorem exists_get? {elements : Elements} {place : Nat} (inside : place < elements.size)
    : ∃ element, elements.get? place = some element := by
  cases elements <;> exact ⟨_, congrArg (Option.map _) (List.getElem?_eq_getElem inside)⟩

/-- Selected items are the items at the selected positions, one by one. -/
theorem getElem?_select? {α : Type} {positions : List Nat} {items selected : List α}
    (done : select? positions items = some selected) {place position : Nat}
    (chosen : positions[place]? = some position)
    : selected[place]? = items[position]? := by
  have each := congrArg (·[place]?) (Steps.mapM_eq_some_iff.mp done)
  simp only [List.getElem?_map, chosen, Option.map_some] at each
  cases found : selected[place]? with
  | none => simp [found] at each
  | some item => simpa [found] using each.symm

/-- Gathered elements are the elements at the gathered positions, one by one. -/
theorem get?_gather? {elements gathered : Elements} {positions : List Nat}
    (done : elements.gather? positions = some gathered) {place position : Nat}
    (chosen : positions[place]? = some position)
    : gathered.get? place = elements.get? position := by
  cases elements <;>
    · obtain ⟨selected, found, rfl⟩ := Option.map_eq_some_iff.mp done
      rw [get?, get?, getElem?_select? found chosen]

end Elements

-----------------------------------------------------------------------------------------
-- Points of tensors
-----------------------------------------------------------------------------------------

namespace Tensor

variable {tensor result input : Tensor} {coords : List Nat}

/-- The element at some coordinates. -/
def at? (tensor : Tensor) (coords : List Nat) : Option Element :=
  tensor.elements.get? (RowMajor.position coords (RowMajor.steps tensor.sizes))

/-- The integer at some coordinates. -/
def int? (tensor : Tensor) (coords : List Nat) : Option Int :=
  tensor.elements.toInts[RowMajor.position coords (RowMajor.steps tensor.sizes)]?.map Int64.toInt

/-- A valid tensor has an element at each of its points. -/
theorem Valid.exists_at? (valid : tensor.Valid) (inside : RowMajor.Inside coords tensor.sizes)
    : ∃ element, tensor.at? coords = some element :=
  Elements.exists_get? (valid ▸ RowMajor.position_lt_count inside)

/-- The element at a point of a tensor that reads another one is the element at the source. -/
theorem Reads.at?_eq {source : List Nat → List Nat} (reads : result.Reads input source)
    (inside : RowMajor.Inside coords result.sizes)
    : result.at? coords = input.at? (source coords) := by
  refine Elements.get?_gather? reads.gathers ?_
  rw [List.getElem?_map, RowMajor.getElem?_points inside, Option.map_some]

/-- A tensor that holds, at each of its points, the element of another one at a point that `source`
allows.
-/
structure MovesFrom (result input : Tensor) (source : List Nat → List Nat → Prop) : Prop where
  valid : result.Valid
  dtype : result.dtype = input.dtype
  moves
    : ∀ coords, RowMajor.Inside coords result.sizes →
        ∃ place, RowMajor.Inside place input.sizes ∧ source coords place
          ∧ ∃ element, result.at? coords = some element ∧ input.at? place = some element

/-- A tensor that reads the points of another one moves its elements. -/
theorem Reads.movesFrom {read : List Nat → List Nat} {source : List Nat → List Nat → Prop}
    (reads : result.Reads input read) (valid : input.Valid)
    (allowed : ∀ coords, RowMajor.Inside coords result.sizes → source coords (read coords))
    : result.MovesFrom input source where
  valid := by
    rw [Valid, Elements.size_of_gather? reads.gathers, List.length_map, RowMajor.length_points]
  dtype := Elements.dtype_gather? reads.gathers
  moves coords inside := by
    have there := reads.inside coords inside
    obtain ⟨element, found⟩ := valid.exists_at? there
    exact ⟨read coords, there, allowed coords inside, element,
      (reads.at?_eq inside).trans found, found⟩

end Tensor

-----------------------------------------------------------------------------------------
-- Shuffled points
-----------------------------------------------------------------------------------------

/-- The point of the source that is read at a point of a shuffled tensor: an axis that the order
takes has the coordinate of the place that takes it, and a dropped axis has zero.
-/
structure ShuffleOrder.ReadsAt (order : ShuffleOrder) (coords place : List Nat) : Prop where
  kept : ∀ k axis : Nat, order[k]? = some (.axis axis) → place[axis]? = coords[k]?
  dropped : ∀ axis ∈ order.dropped place.length, place[axis]? = some 0

/-- The source coordinates are that point. -/
theorem ShuffleOrder.readsAt_sourceCoords {rank : Nat} {order : ShuffleOrder} {coords : List Nat}
    (distinct : order.kept.Nodup) (known : ∀ axis ∈ order.kept, axis < rank)
    (length : coords.length = order.length)
    : order.ReadsAt coords (order.sourceCoords rank coords) where
  kept k axis taken := by
    have member : axis ∈ order.kept := ShuffleOrder.mem_kept_iff_exists.mpr ⟨k, taken⟩
    obtain ⟨place, found, same⟩ | ⟨untaken, -⟩ :=
      getElem?_sourceCoords distinct length (known axis member)
    · rw [same, ShuffleOrder.nodup_kept_iff.mp distinct found taken]
    · exact absurd member untaken
  dropped axis member := by
    obtain ⟨inside, untaken⟩ := ShuffleOrder.mem_dropped.mp member
    rw [length_sourceCoords] at inside
    exact sourceCoords_of_not_kept coords untaken inside

-----------------------------------------------------------------------------------------
-- Filled points
-----------------------------------------------------------------------------------------

namespace Elementwise

/-- The point of a value that is read at a point of a tensor filled with it: the axes are aligned at
the last one, and an axis of one element has zero.
-/
def FillsAt (sizes coords place : List Nat) : Prop :=
  ∀ axis size : Nat, sizes[axis]? = some size →
    place[axis]? = if size = 1 then some 0 else coords[axis + (coords.length - sizes.length)]?

/-- The collapsed coordinates are that point. -/
theorem fillsAt_collapse {sizes target coords : List Nat} (stretch : StretchTo sizes target)
    (inside : RowMajor.Inside coords target)
    : FillsAt sizes coords (collapse sizes (coords.drop (target.length - sizes.length))) := by
  intro axis size known
  have below : axis < sizes.length := (List.getElem?_eq_some_iff.mp known).1
  have rank := stretch.rank
  have there : axis + (coords.length - sizes.length) < coords.length := by
    rw [inside.length_eq]
    omega
  rw [collapse, List.getElem?_zipWith, known, List.getElem?_drop, ← inside.length_eq,
    Nat.add_comm _ axis, List.getElem?_eq_getElem there]
  split_ifs with single <;> simp [single]

end Elementwise

-----------------------------------------------------------------------------------------
-- Selected points
-----------------------------------------------------------------------------------------

namespace Slice

/-- A walk over an axis of some size is at a place after `k` steps. The place is never cut off at
zero where the size is a signed word.
-/
structure Walk.IsAt (walk : Walk) (size k place : Nat) : Prop where
  place_eq : place = (walk.start + k * walk.step).toNat
  exact : size < 2 ^ 63 → (place : Int) = walk.start + k * walk.step

theorem signedSize_of_lt {size : Nat} (small : size < 2 ^ 63) : signedSize size = size := by
  rw [signedSize, if_pos (show size < sizeLimit / 2 from small)]

/-- A downward slice stops no earlier than in front of the first place. -/
theorem stop_of_descending {length : Nat} {start stop step : Option Int}
    (positive : 0 < signedSize length) (descends : step.getD 1 < 0)
    : -1 ≤ (walk length start stop step).stop := by
  simp only [walk, descends, if_true, clampBound]
  cases stop with
  | none => exact Int.le_refl _
  | some bound =>
      dsimp only
      split_ifs <;> omega

/-- A slice stays at zero or above, in both directions. -/
theorem nonneg_of_lt_count {length : Nat} (small : length < 2 ^ 63) {start stop step : Option Int}
    {k : Nat} (inside : k < (walk length start stop step).count)
    : 0 ≤ (walk length start stop step).start + k * (walk length start stop step).step := by
  have filled : (walk length start stop step).count ≠ 0 := Nat.ne_zero_of_lt inside
  have positive : 0 < signedSize length := by
    have below := lt_of_mem_positions (List.mem_map.mpr ⟨k, List.mem_range.mpr inside, rfl⟩)
    rw [signedSize_of_lt small]
    omega
  have step_eq : (walk length start stop step).step = step.getD 1 := rfl
  obtain descends | still | ascends := Int.lt_trichotomy (step.getD 1) 0
  · have stays := @stop_of_descending length start stop step positive descends
    have above := (descending_bounds (step_eq ▸ descends) inside).2
    omega
  · exact absurd (count_of_zero_step (step_eq.trans still)) filled
  · have starts := start_nonneg positive filled
    have above := (ascending_bounds (step_eq ▸ ascends) inside).1
    omega

/-- A walk is at its places after as many steps as are in front of them. -/
theorem Walk.isAt {walk : Walk} {size k : Nat} (inside : k < walk.count)
    (stays : size < 2 ^ 63 → 0 ≤ walk.start + k * walk.step)
    : walk.IsAt size k (walk.positions.getD k 0) := by
  have place : walk.positions.getD k 0 = (walk.start + k * walk.step).toNat := by
    simp [Walk.positions, inside]
  refine ⟨place, fun small => ?_⟩
  rw [place, Int.toNat_of_nonneg (stays small)]

end Slice

namespace Movement

open Slice (Walk)

/-- How the entries of an index resolve against sizes: an axis without an entry is taken whole, a
number names a position inside the axis, and a slice is walked in steps that are not zero. The walk
of a slice clamps its bounds to the size.
-/
inductive Resolves (inputs : Inputs) : List Nat → List IndexEntry → List Selection → Prop where
  | none : Resolves inputs [] [] []
  | whole {size : Nat} {sizes : List Nat} {taken : List Selection}
      (later : Resolves inputs sizes [] taken)
      : Resolves inputs (size :: sizes) [] (⟨.whole size, true⟩ :: taken)
  | scalar {size position : Nat} {sizes : List Nat} {scalar : IndexScalar} {index : Int}
      {entries : List IndexEntry} {taken : List Selection}
      (known : inputs.scalar scalar = .ok index)
      (found : Slice.position? index size = some position)
      (later : Resolves inputs sizes entries taken)
      : Resolves inputs (size :: sizes) (.scalar scalar :: entries)
          (⟨.single position, false⟩ :: taken)
  | slice {size : Nat} {sizes : List Nat} {bounds : SliceBounds} {start stop step : Option Int}
      {entries : List IndexEntry} {taken : List Selection}
      (starts : bound inputs bounds.start = .ok start)
      (stops : bound inputs bounds.stop = .ok stop)
      (steps : bound inputs bounds.step = .ok step) (moves : step ≠ some 0)
      (later : Resolves inputs sizes entries taken)
      : Resolves inputs (size :: sizes) (.slice bounds :: entries)
          (⟨Slice.walk size start stop step, true⟩ :: taken)

/-- The point of a tensor that is read at a point of a part of it: on an axis that stays, it is
where the walk of the axis is after as many steps as the coordinate says, and on an axis that goes,
where the walk starts.
-/
inductive CrossesAt : List Nat → List Selection → List Nat → List Nat → Prop where
  | none : CrossesAt [] [] [] []
  | kept {size coord place : Nat} {sizes coords places : List Nat} {walk : Walk}
      {taken : List Selection} (here : walk.IsAt size coord place)
      (later : CrossesAt sizes taken coords places)
      : CrossesAt (size :: sizes) (⟨walk, true⟩ :: taken) (coord :: coords) (place :: places)
  | gone {size place : Nat} {sizes coords places : List Nat} {walk : Walk}
      {taken : List Selection} (here : walk.IsAt size 0 place)
      (later : CrossesAt sizes taken coords places)
      : CrossesAt (size :: sizes) (⟨walk, false⟩ :: taken) coords (place :: places)

variable {inputs : Inputs} {sizes : List Nat} {entries : List IndexEntry} {taken : List Selection}

/-- Resolved entries are no more than there are axes. -/
theorem Resolves.rank (resolves : Resolves inputs sizes entries taken)
    : entries.length ≤ sizes.length := by
  induction resolves with
  | none => exact Nat.le_refl _
  | whole _ ih => exact Nat.zero_le _
  | scalar _ _ _ ih => exact Nat.succ_le_succ ih
  | slice _ _ _ _ _ ih => exact Nat.succ_le_succ ih

/-- Resolved entries are selected, axis by axis. -/
theorem Resolves.selects (resolves : Resolves inputs sizes entries taken) (axis : Nat)
    : (selections inputs axis sizes entries).mapM id = .ok taken := by
  induction resolves generalizing axis with
  | none => rfl
  | whole _ ih => exact mapM_selections_cons_eq_ok_iff.mpr ⟨_, _, rfl, ih (axis + 1), rfl⟩
  | scalar known found _ ih =>
      refine mapM_selections_cons_eq_ok_iff.mpr ⟨_, _, ?_, ih (axis + 1), rfl⟩
      rw [selectFirst, select, known, Steps.ok_bind, found]
  | slice starts stops steps moves _ ih =>
      refine mapM_selections_cons_eq_ok_iff.mpr ⟨_, _, ?_, ih (axis + 1), rfl⟩
      rw [selectFirst, select, sliceWalk, steps, Steps.ok_bind, if_neg moves, starts, Steps.ok_bind,
        stops, Steps.ok_bind]
      rfl

/-- The places of resolved entries are where the walks are. -/
theorem Resolves.crossesAt (resolves : Resolves inputs sizes entries taken) {coords : List Nat}
    (inside : RowMajor.Inside coords (keptCounts taken))
    : CrossesAt sizes taken coords (places taken coords) := by
  induction resolves generalizing coords with
  | none =>
      cases inside
      exact .none
  | @whole size _ _ _ ih =>
      obtain _ | ⟨here, later⟩ := inside
      exact .kept (Walk.isAt here fun _ => by simp [Walk.whole]) (ih later)
  | @scalar size position _ _ _ _ _ _ _ _ ih =>
      have first : 0 < (Walk.single position).count := by simp
      exact .gone (Walk.isAt first fun _ => by simp [Walk.single]) (ih inside)
  | slice _ _ _ _ _ ih =>
      obtain _ | ⟨here, later⟩ := inside
      exact .kept (Walk.isAt here fun small => Slice.nonneg_of_lt_count small here) (ih later)

/-- The places of selected axes lie inside. -/
theorem inside_places {coords : List Nat} (inside : List.Forall₂ Selection.Inside taken sizes)
    (point : RowMajor.Inside coords (keptCounts taken))
    : RowMajor.Inside (places taken coords) sizes := by
  refine inside_of_choice inside (RowMajor.mem_choices.mp ?_)
  rw [choices_eq_map_places inside]
  exact List.mem_map_of_mem (RowMajor.mem_points.mpr point)

-----------------------------------------------------------------------------------------
-- The kernels
-----------------------------------------------------------------------------------------

variable {input : Tensor}

/-- Shuffling needs no memory of its own. -/
theorem delivers_shuffle {order : ShuffleOrder} {result : Tensor}
    (shuffled : shuffle order input = .ok result)
    : Memory.Delivers (.shuffle order) [.tensor input] [] (.tensor result) :=
  Memory.delivers_of_isEnough (Kernel.onFirst_eq_ok_iff.mpr ⟨input, result, rfl, shuffled, rfl⟩) rfl

/-- A tensor is shuffled into every order that its type can be shuffled into. -/
theorem exists_shuffled {order : ShuffleOrder} {type : TensorType} {shape : Shape}
    (typed : input.HasType type) (shaped : Typing.shuffledShape order type.shape = .ok shape)
    : ∃ result : Tensor,
        Memory.Delivers (.shuffle order) [.tensor input] [] (.tensor result)
        ∧ result.HasType ⟨type.dtype, shape⟩
        ∧ ShuffleOrder.Picks input.sizes 1 order result.sizes
        ∧ result.MovesFrom input order.ReadsAt := by
  have distinct := (Typing.shuffledShape_eq_ok_iff.mp shaped).distinct
  obtain ⟨result, shuffled⟩ := exists_shuffle typed shaped
  obtain ⟨-, picks, reads⟩ := (shuffle_eq_ok_iff distinct).mp shuffled
  refine ⟨result, delivers_shuffle shuffled, (safe_shuffle typed shaped).holds shuffled, picks,
    reads.movesFrom typed.valid fun coords inside => ?_⟩
  exact ShuffleOrder.readsAt_sourceCoords distinct (fun axis => lt_of_mem_kept picks)
    (inside.length_eq.trans picks.length_eq.symm)

/-- A tensor is filled with every value that stretches to its sizes. -/
theorem exists_filled {extents : List ExtentSource} {target : List Nat}
    (first : inputs.tensor 0 = .ok input) (valid : input.Valid)
    (sized : extents.mapM (allocSize inputs) = .ok target)
    (stretch : Elementwise.StretchTo input.sizes target)
    : ∃ result : Tensor,
        Memory.Delivers (.alloc extents) inputs [RowMajor.count target] (.tensor result)
        ∧ result.sizes = target
        ∧ result.MovesFrom input (Elementwise.FillsAt input.sizes) := by
  obtain ⟨result, rfl, reads⟩ := valid.exists_reads fun coords point =>
    Elementwise.inside_collapse stretch.axes (List.forall₂_drop _ point)
  have filled := (alloc_eq_ok_iff first).mpr ⟨sized, stretch, reads⟩
  refine ⟨result, Memory.delivers_of_isEnough (Kernel.tensor_eq_ok_tensor_iff.mpr filled) ?_, rfl,
    reads.movesFrom valid fun coords inside => Elementwise.fillsAt_collapse stretch inside⟩
  rw [Memory.isEnough_alloc first filled]
  simp

/-- A part of a tensor is taken by all entries that resolve. -/
theorem exists_taken (first : inputs.tensor 0 = .ok input) (valid : input.Valid)
    (resolves : Resolves inputs input.sizes entries taken)
    : ∃ result : Tensor,
        Memory.Delivers (.subtensor entries) inputs (taken.map (·.walk.count)) (.tensor result)
        ∧ result.sizes = keptCounts taken
        ∧ result.MovesFrom input (CrossesAt input.sizes taken) := by
  have selects := resolves.selects 0
  obtain ⟨result, sizes, reads⟩ := valid.exists_reads fun coords point =>
    inside_places (selections_inside selects) point
  have indexed := (subtensor_eq_ok_iff first).mpr ⟨taken, resolves.rank, selects, sizes, reads⟩
  refine ⟨result, Memory.delivers_of_isEnough (Kernel.tensor_eq_ok_tensor_iff.mpr indexed) ?_,
    sizes, reads.movesFrom valid fun coords inside => resolves.crossesAt (sizes ▸ inside)⟩
  rw [isEnough_subtensor first resolves.rank selects, List.all_map]
  rfl

/-- A matrix of one row. -/
def oneRow : Tensor := ⟨[1, 3], .si32 [7, 8, 9]⟩

/-- A matrix of very many rows without elements. -/
def endlessRows : Tensor := ⟨[2 ^ 60, 0], .f64 []⟩

end Movement

end Dataflow

import Dataflow.Execution.Memory
import Dataflow.Proofs.Tensor.Shuffling
import Dataflow.Rewrite.Rules.Shuffle
import Mathlib.Algebra.Group.Nat.Defs

/-!
Indexed tensors and shuffles. Indexing reads the places on the walks of the axes. An axis that is
sliced to one place and then dropped can be indexed at this place.
-/

namespace Dataflow.Movement

-----------------------------------------------------------------------------------------
-- Places on walks
-----------------------------------------------------------------------------------------

/-- The places that are read at some coordinates of the axes that stay. -/
def places : List Selection → List Nat → List Nat
  | [], _ => []
  | selection :: taken, coords =>
    if selection.isKept then
      selection.walk.positions.getD (coords.headD 0) 0 :: places taken coords.tail
    else
      selection.walk.positions.getD 0 0 :: places taken coords

/-- The choices of places on all walks are those at the points of the result, by induction on the
axes.
-/
theorem choices_eq_map_places {taken : List Selection} {sizes : List Nat}
    (inside : List.Forall₂ Selection.Inside taken sizes)
    : RowMajor.choices (taken.map (·.walk.positions))
      = (RowMajor.points (keptCounts taken)).map (places taken) := by
  induction inside with
  | nil => rfl
  | cons here _ ih =>
      rename_i selection _ taken _ _
      rw [List.map_cons, RowMajor.choices]
      cases kept : selection.isKept with
      | true =>
          have all : selection.walk.positions
              = (List.range selection.walk.count).map (selection.walk.positions.getD · 0) := by
            apply List.ext_getElem
            · simp
            · intro place bound _
              have inside : place < selection.walk.positions.length := bound
              simp [List.getElem?_eq_getElem inside]
          rw [keptCounts_cons_kept taken kept, RowMajor.points, List.map_cons, RowMajor.choices,
            List.map_flatMap, all, List.flatMap_map]
          congr 1
          funext coord
          rw [ih, List.map_map, List.map_map]
          apply List.map_congr_left
          intro coords _
          simp [places, kept]
      | false =>
          have single : selection.walk.positions = [selection.walk.positions.getD 0 0] := by
            have one : selection.walk.positions.length = 1 := by simp [here.single kept]
            obtain ⟨place, same⟩ := List.length_eq_one_iff.mp one
            simp [same]
          rw [keptCounts_cons_gone taken kept, single, List.flatMap_singleton, ih, List.map_map]
          apply List.map_congr_left
          intro coords _
          simp [places, kept]

/-- A part of a tensor: the sizes are the numbers of places on the axes that stay, and the elements
are those at the places.
-/
structure Takes (entries : List IndexEntry) (inputs : Inputs) (input result : Tensor)
    (taken : List Selection) : Prop where
  rank : entries.length ≤ input.sizes.length
  selects : (selections inputs 0 input.sizes entries).mapM id = .ok taken
  sizes : result.sizes = keptCounts taken
  reads : result.Reads input (places taken)

/-- What is taken from an axis by the first of some entries. -/
def selectFirst (inputs : Inputs) (axis size : Nat) : List IndexEntry → Outcome Selection
  | [] => .ok ⟨.whole size, true⟩
  | entry :: _ => select inputs axis size entry

theorem selections_cons (inputs : Inputs) (axis size : Nat) (sizes : List Nat)
    (entries : List IndexEntry)
    : selections inputs axis (size :: sizes) entries
      = selectFirst inputs axis size entries
        :: selections inputs (axis + 1) sizes entries.tail := by
  cases entries <;> rfl

theorem selections_nil (inputs : Inputs) (axis : Nat) (entries : List IndexEntry)
    : selections inputs axis [] entries = [] := by
  cases entries <;> rfl

/-- All axes are selected from iff the first one and the others are. -/
theorem mapM_selections_cons_eq_ok_iff {inputs : Inputs} {axis size : Nat} {sizes : List Nat}
    {entries : List IndexEntry} {taken : List Selection}
    : (selections inputs axis (size :: sizes) entries).mapM id = .ok taken
      ↔ ∃ selection rest,
          selectFirst inputs axis size entries = .ok selection
          ∧ (selections inputs (axis + 1) sizes entries.tail).mapM id = .ok rest
          ∧ taken = selection :: rest := by
  rw [selections_cons, Steps.mapM_eq_ok_iff]
  simp only [Steps.mapM_eq_ok_iff, List.map_id]
  constructor
  · intro same
    cases taken with
    | nil => cases same
    | cons selection rest =>
        obtain ⟨here, later⟩ := List.cons.inj same
        exact ⟨selection, rest, here, later, rfl⟩
  · rintro ⟨selection, rest, here, later, rfl⟩
    rw [here, later, List.map_cons]

/-- What is taken from an axis stays inside. -/
theorem inside_of_select {inputs : Inputs} {axis size : Nat} {entry : IndexEntry}
    {selection : Selection} (done : select inputs axis size entry = .ok selection)
    : selection.Inside size := by
  cases entry with
  | scalar scalar =>
      obtain ⟨index, -, done⟩ := Steps.bind_eq_ok_iff.mp done
      split at done
      · rename_i position found
        obtain rfl := Except.ok.inj done
        refine ⟨?_, fun _ => Slice.count_single position⟩
        intro other member
        rw [Slice.positions_single, List.mem_singleton] at member
        exact member ▸ Slice.lt_of_position? found
      · cases done
  | slice bounds =>
      obtain ⟨walk, walked, done⟩ := Steps.bind_eq_ok_iff.mp done
      obtain rfl := Except.ok.inj done
      refine ⟨?_, fun gone => nomatch gone⟩
      obtain ⟨step, -, walked⟩ := Steps.bind_eq_ok_iff.mp walked
      split_ifs at walked
      · cases walked
      · obtain ⟨start, -, walked⟩ := Steps.bind_eq_ok_iff.mp walked
        obtain ⟨stop, -, walked⟩ := Steps.bind_eq_ok_iff.mp walked
        obtain rfl := Except.ok.inj walked
        exact fun position member => Slice.lt_of_mem_positions member

/-- What is taken from all axes stays inside, by induction on the axes. -/
theorem selections_inside {inputs : Inputs} {axis : Nat} {sizes : List Nat}
    {entries : List IndexEntry} {taken : List Selection}
    (done : (selections inputs axis sizes entries).mapM id = .ok taken)
    : List.Forall₂ Selection.Inside taken sizes := by
  induction sizes generalizing axis entries taken with
  | nil =>
      rw [selections_nil] at done
      obtain rfl := Except.ok.inj done
      exact .nil
  | cons size sizes ih =>
      obtain ⟨selection, rest, here, later, rfl⟩ := mapM_selections_cons_eq_ok_iff.mp done
      refine .cons ?_ (ih later)
      cases entries with
      | nil =>
          obtain rfl := Except.ok.inj here
          exact inside_whole size
      | cons entry entries => exact inside_of_select here

/-- A part of a tensor is taken iff all places can be read. -/
theorem subtensor_eq_ok_iff {entries : List IndexEntry} {inputs : Inputs} {input result : Tensor}
    (first : inputs.tensor 0 = .ok input)
    : subtensor entries inputs = .ok result
      ↔ ∃ taken, Takes entries inputs input result taken := by
  rw [subtensor, first, Steps.ok_bind]
  have positions {taken : List Selection}
      (inside : List.Forall₂ Selection.Inside taken input.sizes)
      : crossings (taken.map (·.walk)) (RowMajor.steps input.sizes)
        = (RowMajor.points (keptCounts taken)).map fun coords =>
            RowMajor.position (places taken coords) (RowMajor.steps input.sizes) := by
    have aligned : (taken.map (·.walk)).length = (RowMajor.steps input.sizes).length := by
      rw [List.length_map, RowMajor.length_steps, inside.length_eq]
    rw [crossings_eq aligned, List.map_map]
    change (RowMajor.choices (taken.map (·.walk.positions))).map _ = _
    rw [choices_eq_map_places inside, List.map_map]
    rfl
  constructor
  · intro done
    split_ifs at done with long
    · cases done
    · obtain ⟨taken, selects, gathered⟩ := Steps.bind_eq_ok_iff.mp done
      have inside := selections_inside selects
      obtain ⟨sizes, gathers⟩ := Tensor.gather_eq_ok_iff.mp gathered
      rw [positions inside] at gathers
      refine ⟨taken, Nat.le_of_not_lt long, selects, sizes, ?_, ?_⟩
      · intro coords point
        refine inside_of_choice inside (RowMajor.mem_choices.mp ?_)
        rw [choices_eq_map_places inside]
        refine List.mem_map_of_mem (RowMajor.mem_points.mpr ?_)
        have sizes : result.sizes = keptCounts taken := sizes
        exact sizes ▸ point
      · have sizes : result.sizes = keptCounts taken := sizes
        rw [sizes]
        exact gathers
  · rintro ⟨taken, takes⟩
    rw [if_neg (Nat.not_lt.mpr takes.rank : ¬input.rank < entries.length), takes.selects,
      Steps.ok_bind]
    refine Tensor.gather_eq_ok_iff.mpr ⟨takes.sizes, ?_⟩
    rw [positions (selections_inside takes.selects), ← takes.sizes]
    exact takes.reads.gathers

-----------------------------------------------------------------------------------------
-- Dropped axes
-----------------------------------------------------------------------------------------

/-- The selections with the axes in `dropped` taken at their first place. The axes that stay are
counted from `axis`.
-/
def narrow (dropped : List Nat) : Nat → List Selection → List Selection
  | _, [] => []
  | axis, selection :: taken =>
    if !selection.isKept then selection :: narrow dropped axis taken
    else if dropped.contains axis then
      ⟨.single (selection.walk.positions.getD 0 0), false⟩ :: narrow dropped (axis + 1) taken
    else selection :: narrow dropped (axis + 1) taken

/-- The first coordinate of an order belongs to its first axis. -/
theorem drop_sourceCoords_axis {rank axis coord : Nat} (order : ShuffleOrder) (coords : List Nat)
    (inside : axis < rank)
    : (ShuffleOrder.sourceCoords rank (.axis axis :: order) (coord :: coords)).drop axis
      = coord :: (order.sourceCoords rank coords).drop (axis + 1) := by
  have bound : axis < (order.sourceCoords rank coords).length := by simpa using inside
  rw [ShuffleOrder.sourceCoords, List.drop_set, if_neg (Nat.lt_irrefl axis), Nat.sub_self,
    List.drop_eq_getElem_cons bound, List.set_cons_zero]

/-- A dropped axis has the coordinate zero. -/
theorem drop_sourceCoords_dropped {rank axis : Nat} {order : ShuffleOrder} (coords : List Nat)
    (inside : axis < rank) (untaken : axis ∉ order.kept)
    : (order.sourceCoords rank coords).drop axis
      = 0 :: (order.sourceCoords rank coords).drop (axis + 1) := by
  have bound : axis < (order.sourceCoords rank coords).length := by simpa using inside
  have zero := ShuffleOrder.sourceCoords_of_not_kept coords untaken inside
  rw [List.getElem?_eq_getElem bound, Option.some.injEq] at zero
  rw [List.drop_eq_getElem_cons bound, zero]

/-- Dropping axes behind a selection, and keeping the others in their order, is narrowing the
selection. By induction on the selections; the axes that stay are counted from `axis`.
-/
theorem narrow_of_order {taken : List Selection} {order : ShuffleOrder} {sizes picked : List Nat}
    {axis : Nat} (counts : sizes.drop axis = keptCounts taken)
    (picks : ShuffleOrder.Picks sizes 1 order picked) (plain : .broadcast ∉ order)
    (ordered : order.kept.Pairwise (· < ·)) (behind : ∀ source ∈ order.kept, axis ≤ source)
    {dropped : List Nat} (exact : ∀ source, axis ≤ source → source < sizes.length →
      (dropped.contains source = true ↔ source ∉ order.kept))
    : keptCounts (narrow dropped axis taken) = picked
      ∧ ∀ coords : List Nat, coords.length = order.length
          → places (narrow dropped axis taken) coords
            = places taken ((order.sourceCoords sizes.length coords).drop axis) := by
  induction taken generalizing order picked axis with
  | nil =>
      have outside : sizes.length ≤ axis := List.drop_eq_nil_iff.mp counts
      have empty : order = [] := by
        cases order with
        | nil => rfl
        | cons first order =>
            cases first with
            | broadcast => exact absurd List.mem_cons_self plain
            | axis source =>
                have member : source ∈ ShuffleOrder.kept (.axis source :: order) :=
                  List.mem_cons_self
                have := behind source member
                have := lt_of_mem_kept picks member
                omega
      subst empty
      cases picks
      exact ⟨rfl, fun _ _ => rfl⟩
  | cons selection taken ih =>
      cases kept : selection.isKept with
      | false =>
          rw [keptCounts_cons_gone taken kept] at counts
          obtain ⟨sized, placed⟩ := ih counts picks plain ordered behind exact
          rw [narrow, kept, Bool.not_false, if_pos rfl]
          refine ⟨by rw [keptCounts_cons_gone _ kept, sized], fun coords length => ?_⟩
          rw [places, places, kept, if_neg Bool.false_ne_true, if_neg Bool.false_ne_true,
            placed coords length]
      | true =>
          rw [keptCounts_cons_kept taken kept] at counts
          have inside : axis < sizes.length := by
            have length := congrArg List.length counts
            rw [List.length_drop, List.length_cons] at length
            omega
          rw [List.drop_eq_getElem_cons inside, List.cons.injEq] at counts
          rw [narrow, kept, Bool.not_true, if_neg Bool.false_ne_true]
          by_cases stays : axis ∈ order.kept
          · have other : dropped.contains axis = false :=
              Bool.eq_false_iff.mpr fun found =>
                (exact axis (Nat.le_refl _) inside).mp found stays
            rw [other, if_neg Bool.false_ne_true]
            cases picks with
            | nil => exact absurd stays List.not_mem_nil
            | cons here picks =>
                rename_i first size order picked
                cases first with
                | broadcast => exact absurd List.mem_cons_self plain
                | axis source =>
                    rw [ShuffleOrder.kept_cons_axis] at ordered behind stays exact
                    obtain ⟨before, rest⟩ := List.pairwise_cons.mp ordered
                    obtain rfl : axis = source := by
                      obtain same | later := List.mem_cons.mp stays
                      · exact same
                      · exact absurd (before axis later)
                          (Nat.not_lt.mpr (behind source List.mem_cons_self))
                    obtain ⟨sized, placed⟩ := ih counts.2 picks
                      (fun member => plain (List.mem_cons_of_mem _ member)) rest before
                      (fun source above bound => by
                        rw [exact source (Nat.le_of_succ_le above) bound, List.mem_cons, not_or]
                        exact and_iff_right (Nat.ne_of_gt above))
                    have here : sizes[axis]? = some size := here
                    rw [List.getElem?_eq_getElem inside, Option.some.injEq] at here
                    refine ⟨by rw [keptCounts_cons_kept _ kept, sized, ← counts.1, here], ?_⟩
                    intro coords length
                    cases coords with
                    | nil => cases length
                    | cons coord coords =>
                        rw [places, places, kept, if_pos rfl, if_pos rfl,
                          drop_sourceCoords_axis order coords inside, List.headD_cons,
                          List.headD_cons, List.tail_cons, List.tail_cons,
                          placed coords (Nat.succ.inj length)]
          · have found := (exact axis (Nat.le_refl _) inside).mpr stays
            rw [found, if_pos rfl]
            obtain ⟨sized, placed⟩ := ih counts.2 picks plain ordered
              (fun source member => Nat.lt_of_le_of_ne (behind source member)
                fun same => stays (same ▸ member))
              (fun source above bound => exact source (Nat.le_of_succ_le above) bound)
            refine ⟨by rw [keptCounts_cons_gone _ rfl, sized], fun coords length => ?_⟩
            rw [places, places, kept, if_pos rfl, if_neg Bool.false_ne_true,
              drop_sourceCoords_dropped coords inside stays, Slice.positions_single,
              placed coords length]
            rfl

end Dataflow.Movement

-----------------------------------------------------------------------------------------
-- Walks of one place
-----------------------------------------------------------------------------------------

namespace Dataflow.Slice

/-- A walk of one place is at its start. -/
theorem positions_of_count_one {walk : Walk} (single : walk.count = 1)
    : walk.positions = [walk.start.toNat] := by
  rw [Walk.positions, single]
  simp

/-- A slice that takes something starts at a position, if the length is a positive word. -/
theorem start_nonneg {length : Nat} {start stop step : Option Int}
    (positive : 0 < signedSize length) (some : (walk length start stop step).count ≠ 0)
    : 0 ≤ (walk length start stop step).start := by
  obtain descends | still | ascends := Int.lt_trichotomy (step.getD 1) 0
  · have moves : (walk length start stop step).stop < (walk length start stop step).start := by
      by_contra none
      refine some ?_
      rw [Walk.count, if_neg fun up => ?_, if_neg fun down => none down.2]
      exact absurd up.1 (Int.not_lt.mpr (Int.le_of_lt descends))
    have stops : -1 ≤ (walk length start stop step).stop := by
      simp only [walk, descends, if_true, clampBound]
      cases stop with
      | none => exact Int.le_refl _
      | some bound =>
          dsimp only
          split_ifs <;> omega
    omega
  · exact absurd (count_of_zero_step still) some
  · have up : ¬ step.getD 1 < 0 := by omega
    simp only [walk, up, if_false, clampBound]
    cases start with
    | none => exact Int.le_refl _
    | some bound =>
        dsimp only
        split_ifs <;> omega

/-- The start of a slice that takes something is its own position. -/
theorem position?_start {length position : Nat} {start stop step : Option Int}
    (found : position? (walk length start stop step).start length = some position)
    (some : (walk length start stop step).count ≠ 0)
    : position = (walk length start stop step).start.toNat := by
  rw [position?] at found
  split_ifs at found with negative inside inside
  · have start := start_nonneg (by omega) some
    exact absurd negative (Int.not_lt.mpr start)
  · exact (Option.some.inj found).symm

/-- A slice without bounds counts the length. -/
theorem count_full (length : Nat)
    : (walk length none none none).count = (signedSize length).toNat := by
  have bounds : walk length none none none = ⟨0, signedSize length, 1⟩ := rfl
  rw [bounds, Walk.count]
  dsimp only
  by_cases some : 0 < signedSize length
  · rw [if_pos ⟨Int.one_pos, some⟩, Int.ediv_one]
    omega
  · rw [if_neg fun up => some up.2, if_neg fun down => absurd down.1 (by decide)]
    omega

theorem position?_zero {length : Nat} (single : signedSize length = 1)
    : position? 0 length = some 0 := by
  rw [position?, single]
  rfl

end Dataflow.Slice

namespace Dataflow.Movement

/-- The walk of a slice whose bounds are known is the known one. -/
theorem sliceWalk_eq_of_walk? {bounds : SliceBounds} {inputs : Inputs} {length : Nat}
    {walk known : Slice.Walk} (walked : sliceWalk bounds inputs length = .ok walk)
    (determined : bounds.walk? length = some known)
    : walk = known := by
  obtain ⟨step, stepped, walked⟩ := Steps.bind_eq_ok_iff.mp walked
  split_ifs at walked
  · cases walked
  · obtain ⟨start, started, walked⟩ := Steps.bind_eq_ok_iff.mp walked
    obtain ⟨stop, stopped, walked⟩ := Steps.bind_eq_ok_iff.mp walked
    obtain rfl := Except.ok.inj walked
    simp only [SliceBounds.walk?, Option.bind_eq_bind, Option.bind_eq_some_iff,
      Option.some.injEq] at determined
    obtain ⟨_, first, _, second, _, third, rfl⟩ := determined
    rw [(safe_bound inputs bounds.start).holds started _ first,
      (safe_bound inputs bounds.stop).holds stopped _ second,
      (safe_bound inputs bounds.step).holds stepped _ third]

/-- The walk of a slice is a slice of the length. -/
theorem exists_walk {bounds : SliceBounds} {inputs : Inputs} {length : Nat} {walk : Slice.Walk}
    (walked : sliceWalk bounds inputs length = .ok walk)
    : ∃ start stop step, walk = Slice.walk length start stop step := by
  obtain ⟨step, -, walked⟩ := Steps.bind_eq_ok_iff.mp walked
  split_ifs at walked
  · cases walked
  · obtain ⟨start, -, walked⟩ := Steps.bind_eq_ok_iff.mp walked
    obtain ⟨stop, -, walked⟩ := Steps.bind_eq_ok_iff.mp walked
    exact ⟨start, stop, step, (Except.ok.inj walked).symm⟩

/-- An index that a slice of one place can be replaced with selects this place. -/
theorem select_singleIndex {bounds : SliceBounds} {inputs : Inputs} {dim : Dimension}
    {number axis size : Nat} {index : Int} {left : Option Dimension} {walk : Slice.Walk}
    (allows : dim.Allows size) (single : Rules.singleIndex? bounds dim = some index)
    (typed : Typing.indexedDim number dim (.scalar (.static index)) = .ok left)
    (walked : sliceWalk bounds inputs size = .ok walk) (one : walk.count = 1)
    : select inputs axis size (.scalar (.static index))
      = .ok ⟨.single (walk.positions.getD 0 0), false⟩ := by
  have place : walk.positions.getD 0 0 = walk.start.toNat := by
    rw [Slice.positions_of_count_one one]
    rfl
  have found : Slice.position? index size = some (walk.positions.getD 0 0) := by
    rw [place]
    rw [Rules.singleIndex?] at single
    split at single
    · cases single
    · split_ifs at single with simple
      · obtain rfl := Option.some.inj single
        rw [Bool.or_eq_true, SliceBounds.isFull, decide_eq_true_eq] at simple
        obtain rfl | unit := simple
        · obtain rfl : walk = Slice.walk size none none none :=
            sliceWalk_eq_of_walk? walked rfl
          rw [Slice.count_full] at one
          exact Slice.position?_zero (by omega)
        · have unit : dim = .static 1 := by simpa [Dimension.isUnit] using unit
          subst unit
          obtain rfl : 1 = size := allows
          obtain ⟨start, stop, step, rfl⟩ := exists_walk walked
          have below := @Slice.lt_of_mem_positions _ start stop step _
            (by rw [Slice.positions_of_count_one one]; exact List.mem_singleton_self _)
          rw [Slice.position?_zero rfl, Nat.lt_one_iff.mp below]
      · obtain ⟨length, known, single⟩ := Option.bind_eq_some_iff.mp single
        obtain ⟨exact, determined, single⟩ := Option.bind_eq_some_iff.mp single
        obtain rfl := Option.some.inj single
        cases dim with
        | unknown => cases known
        | static other =>
            obtain rfl : other = length := Option.some.inj known
            obtain rfl : other = size := allows
            obtain rfl := sliceWalk_eq_of_walk? walked determined
            obtain ⟨start, stop, step, rfl⟩ := exists_walk walked
            rw [Typing.indexedDim] at typed
            split_ifs at typed with exists_
            obtain ⟨position, found⟩ := Option.isSome_iff_exists.mp exists_
            rw [found, Slice.position?_start found (by omega)]
  dsimp only [select, Inputs.scalar, Steps.ok_bind]
  rw [found]

/-- A full slice of a length that fits a word takes everything. -/
theorem walk_full {length : Nat} (fits : length < 2 ^ 63)
    : Slice.walk length none none none = .whole length := by
  have signed : signedSize length = length := if_pos fits
  rw [Slice.Walk.whole, ← signed]
  rfl

/-- The first axis and the others are typed one after the other. -/
theorem exists_of_indexedDims_cons {number : Nat} {dim : Dimension} {dims left : List Dimension}
    {entry : IndexEntry} {entries : List IndexEntry}
    (typed : Typing.indexedDims number (dim :: dims) (entry :: entries) = .ok left)
    : ∃ first rest,
        Typing.indexedDim number dim entry = .ok first
        ∧ Typing.indexedDims (number + 1) dims entries = .ok rest := by
  obtain ⟨first, here, typed⟩ := Steps.bind_eq_ok_iff.mp typed
  obtain ⟨rest, later, -⟩ := Steps.bind_eq_ok_iff.mp typed
  exact ⟨first, rest, here, later⟩

/-- A single index drops its axis. -/
theorem isKept_of_select_scalar {inputs : Inputs} {axis size : Nat} {scalar : IndexScalar}
    {selection : Selection} (done : select inputs axis size (.scalar scalar) = .ok selection)
    : selection.isKept = false := by
  obtain ⟨index, -, done⟩ := Steps.bind_eq_ok_iff.mp done
  split at done
  · obtain rfl := Except.ok.inj done
    rfl
  · cases done

/-- Entries with the dropped axes folded into them select what is left of the selection. By
induction on the axes; those that stay are counted from `axis`.
-/
theorem selections_foldDropped {inputs : Inputs} {dropped : List Nat} {axis number : Nat}
    {dims left : List Dimension} {sizes : List Nat} {entries folded : List IndexEntry}
    {taken : List Selection} (fits : Fits dims sizes)
    (done : (selections inputs number sizes entries).mapM id = .ok taken)
    (folds : Rules.foldDropped dropped axis dims entries = some folded)
    (typed : Typing.indexedDims number dims folded = .ok left)
    (ones
      : ∀ place : Nat, dropped.contains (axis + place) = true
          → place < (keptCounts taken).length → (keptCounts taken)[place]? = some 1)
    (bounded : ∀ selection ∈ taken, selection.walk.count < 2 ^ 63)
    : (selections inputs number sizes folded).mapM id = .ok (narrow dropped axis taken) := by
  induction fits generalizing axis number entries folded left taken with
  | nil =>
      rw [selections_nil] at done ⊢
      obtain rfl := Except.ok.inj done
      rfl
  | cons allows fits ih =>
      rename_i dim size dims sizes
      obtain ⟨selection, rest, here, later, rfl⟩ := mapM_selections_cons_eq_ok_iff.mp done
      have boundedRest := fun selection member =>
        bounded selection (List.mem_cons_of_mem _ member)
      -- The axes that stay behind this one, if it stays.
      have onesBehind (kept : selection.isKept = true)
          : ∀ place : Nat, dropped.contains (axis + 1 + place) = true
              → place < (keptCounts rest).length → (keptCounts rest)[place]? = some 1 := by
        intro place found inside
        rw [keptCounts_cons_kept rest kept] at ones
        have shifted := ones (place + 1) (by rwa [← Nat.add_assoc, Nat.add_right_comm])
          (Nat.succ_lt_succ inside)
        simpa using shifted
      have one (kept : selection.isKept = true) (found : dropped.contains axis = true)
          : selection.walk.count = 1 := by
        rw [keptCounts_cons_kept rest kept] at ones
        simpa using ones 0 found (Nat.succ_pos _)
      rw [mapM_selections_cons_eq_ok_iff]
      cases entries with
      | nil =>
          obtain rfl := Except.ok.inj here
          rw [Rules.foldDropped] at folds
          split_ifs at folds with found
          · obtain ⟨index, single, folds⟩ := Option.bind_eq_some_iff.mp folds
            obtain ⟨folded, behind, folds⟩ := Option.bind_eq_some_iff.mp folds
            obtain rfl := Option.some.inj folds
            obtain ⟨first, left, typedFirst, typed⟩ := exists_of_indexedDims_cons typed
            have count := one rfl found
            rw [Slice.count_whole] at count
            subst count
            refine ⟨_, _, @select_singleIndex .full _ _ _ _ _ _ _ _ allows single typedFirst rfl rfl,
              ih later behind typed (onesBehind rfl) boundedRest, ?_⟩
            rw [narrow, if_neg (by simp), if_pos found]
            rfl
          · obtain ⟨folded, behind, folds⟩ := Option.bind_eq_some_iff.mp folds
            obtain rfl := Option.some.inj folds
            have small : size < 2 ^ 63 := by
              simpa using bounded _ List.mem_cons_self
            have narrowed
                : narrow dropped axis (⟨.whole size, true⟩ :: rest)
                  = ⟨.whole size, true⟩ :: narrow dropped (axis + 1) rest := by
              rw [narrow, if_neg (by simp), if_neg found]
            rw [narrowed]
            cases folded with
            | nil =>
                have whole : Typing.indexedDims (number + 1) dims [] = .ok dims := by
                  cases dims <;> rfl
                exact ⟨_, _, rfl, ih later behind whole (onesBehind rfl) boundedRest, rfl⟩
            | cons entry folded =>
                obtain ⟨first, left, -, typed⟩ := exists_of_indexedDims_cons typed
                refine ⟨_, _, ?_, ih later behind typed (onesBehind rfl) boundedRest, rfl⟩
                rw [← walk_full small]
                rfl
      | cons entry entries =>
          cases entry with
          | scalar scalar =>
              obtain ⟨folded, behind, folds⟩ := Option.map_eq_some_iff.mp folds
              subst folds
              obtain ⟨first, left, -, typed⟩ := exists_of_indexedDims_cons typed
              have gone : selection.isKept = false := isKept_of_select_scalar here
              rw [keptCounts_cons_gone rest gone] at ones
              refine ⟨selection, _, here, ih later behind typed ones boundedRest, ?_⟩
              rw [narrow, gone, Bool.not_false, if_pos rfl]
          | slice bounds =>
              obtain ⟨walk, walked, kept⟩ := Steps.bind_eq_ok_iff.mp here
              obtain rfl := Except.ok.inj kept
              rw [Rules.foldDropped] at folds
              split_ifs at folds with found
              · obtain ⟨index, single, folds⟩ := Option.bind_eq_some_iff.mp folds
                obtain ⟨folded, behind, folds⟩ := Option.bind_eq_some_iff.mp folds
                obtain rfl := Option.some.inj folds
                obtain ⟨first, left, typedFirst, typed⟩ := exists_of_indexedDims_cons typed
                refine ⟨_, _, select_singleIndex allows single typedFirst walked (one rfl found),
                  ih later behind typed (onesBehind rfl) boundedRest, ?_⟩
                rw [narrow, if_neg (by simp), if_pos found]
              · obtain ⟨folded, behind, folds⟩ := Option.map_eq_some_iff.mp folds
                subst folds
                obtain ⟨first, left, -, typed⟩ := exists_of_indexedDims_cons typed
                refine ⟨_, _, here, ih later behind typed (onesBehind rfl) boundedRest, ?_⟩
                rw [narrow, if_neg (by simp), if_neg found]

-----------------------------------------------------------------------------------------
-- Shuffles of parts
-----------------------------------------------------------------------------------------

/-- Memory must hold the places on each axis in front of the first one that refuses its entry. -/
theorem isEnough_subtensor_eq {entries : List IndexEntry} {inputs : Inputs} {input : Tensor}
    (first : inputs.tensor 0 = .ok input) (rank : entries.length ≤ input.sizes.length)
    : Memory.isEnough (.subtensor entries) inputs
      = (Memory.untilError (selections inputs 0 input.sizes entries)).all fun selection =>
          Memory.holds selection.walk.count := by
  have asked : Memory.pieces (.subtensor entries) inputs
      = .ok ((Memory.untilError (selections inputs 0 input.sizes entries)).map (·.walk.count)) := by
    rw [Memory.pieces, first, Steps.ok_bind,
      if_neg (Nat.not_lt.mpr rank : ¬input.rank < entries.length)]
  rw [Memory.isEnough, asked]
  simp [List.all_map, Function.comp_def]

/-- If every axis accepts its entry, memory must hold the places of each one. -/
theorem isEnough_subtensor {entries : List IndexEntry} {inputs : Inputs} {input : Tensor}
    {taken : List Selection} (first : inputs.tensor 0 = .ok input)
    (rank : entries.length ≤ input.sizes.length)
    (selects : (selections inputs 0 input.sizes entries).mapM id = .ok taken)
    : Memory.isEnough (.subtensor entries) inputs
      = taken.all fun selection => Memory.holds selection.walk.count := by
  have all : Memory.untilError (selections inputs 0 input.sizes entries) = taken := by
    rw [Steps.mapM_eq_ok_iff, List.map_id] at selects
    rw [selects]
    clear selects
    induction taken with
    | nil => rfl
    | cons selection taken ih => rw [List.map_cons, Memory.untilError, ih]
  rw [isEnough_subtensor_eq first rank, all]

/-- Narrowed selections take what the others take, or one place. -/
theorem mem_narrow {dropped : List Nat} {axis : Nat} {taken : List Selection}
    {selection : Selection} (member : selection ∈ narrow dropped axis taken)
    : selection ∈ taken ∨ selection.walk.count = 1 := by
  induction taken generalizing axis with
  | nil => exact .inl member
  | cons other taken ih =>
      have behind {start : Nat} (later : selection ∈ narrow dropped start taken)
          : selection ∈ other :: taken ∨ selection.walk.count = 1 :=
        (ih later).imp_left (List.mem_cons_of_mem other)
      rw [narrow] at member
      split_ifs at member
      · obtain rfl | later := List.mem_cons.mp member
        · exact .inl List.mem_cons_self
        · exact behind later
      · obtain rfl | later := List.mem_cons.mp member
        · exact .inr (Slice.count_single _)
        · exact behind later
      · obtain rfl | later := List.mem_cons.mp member
        · exact .inl List.mem_cons_self
        · exact behind later

/-- Axes that are dropped behind an indexed tensor can be indexed at once, and this asks for no more
memory.
-/
theorem shuffle_of_subtensor {order : ShuffleOrder} {entries folded : List IndexEntry}
    {dims left : List Dimension} {inputs : Inputs} {input middle result : Tensor}
    (plain : order.insertsAxes = false) (ordered : order.preservesOrder = true)
    (first : inputs.tensor 0 = .ok input) (fits : Fits dims input.sizes)
    (folds : Rules.foldDropped (order.dropped middle.rank) 0 dims entries = some folded)
    (rank : folded.length ≤ dims.length) (typed : Typing.indexedDims 0 dims folded = .ok left)
    (enough : Memory.isEnough (.subtensor entries) inputs = true)
    (indexed : subtensor entries inputs = .ok middle)
    (shuffled : shuffle order middle = .ok result)
    : subtensor folded inputs = .ok result
      ∧ Memory.isEnough (.subtensor folded) inputs = true := by
  have distinct := ShuffleOrder.nodup_kept_of_preservesOrder ordered
  obtain ⟨taken, takes⟩ := (subtensor_eq_ok_iff first).mp indexed
  have shuffles := (shuffle_eq_ok_iff distinct).mp shuffled
  have untaken {axis : Nat} (inside : axis < middle.sizes.length)
      : (order.dropped middle.rank).contains axis = true ↔ axis ∉ order.kept := by
    rw [List.contains_iff_mem, ShuffleOrder.mem_dropped]
    exact and_iff_right inside
  obtain ⟨sized, placed⟩ := @narrow_of_order _ _ _ _ 0 (by rw [List.drop_zero, takes.sizes])
    shuffles.picks (by simpa [ShuffleOrder.insertsAxes] using plain)
    (ShuffleOrder.increasing_iff.mp ordered) (fun axis _ => Nat.zero_le axis)
    _ (fun _ _ inside => untaken inside)
  rw [isEnough_subtensor first takes.rank takes.selects, List.all_eq_true] at enough
  have selects := selections_foldDropped fits takes.selects folds typed
    (fun place dropped inside => by
      rw [Nat.zero_add] at dropped
      rw [← takes.sizes] at inside ⊢
      exact shuffles.dropped place (List.contains_iff_mem.mp dropped))
    (fun selection member => by
      have := of_decide_eq_true (enough selection member)
      rw [Memory.wordSize, Memory.limit] at this
      omega)
  have rank := fits.length_eq ▸ rank
  constructor
  · refine (subtensor_eq_ok_iff first).mpr ⟨_, rank, selects, sized.symm, ?_⟩
    refine (takes.reads.trans shuffles.reads).congr fun coords point => ?_
    rw [Function.comp_apply, placed coords (by
      rw [point.length_eq, shuffles.picks.length_eq]), List.drop_zero]
  · rw [isEnough_subtensor first rank selects, List.all_eq_true]
    intro selection member
    obtain member | single := mem_narrow member
    · exact enough selection member
    · rw [single]
      decide

end Dataflow.Movement

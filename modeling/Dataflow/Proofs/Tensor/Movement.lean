import Dataflow.Proofs.Shape.Orders
import Dataflow.Proofs.Shape.Slices
import Dataflow.Proofs.Tensor.Elementwise
import Dataflow.Tensor.Movement

/-!
Kernels that move elements. They read elements that exist, and their results have the inferred
types: shuffled, filled, indexed and reshaped.
-/

namespace Dataflow.Movement

-----------------------------------------------------------------------------------------
-- Shuffling
-----------------------------------------------------------------------------------------

/-- What is picked for every axis of a result. -/
theorem picks_of_mapM {items picked : List Nat} {unit : Nat} {order : ShuffleOrder}
    (done : order.mapM (pick items unit) = .ok picked)
    : ShuffleOrder.Picks items unit order picked := by
  have each := Steps.mapM_eq_ok_iff.mp done
  clear done
  induction order generalizing picked with
  | nil =>
      obtain rfl : picked = [] := by simpa using each.symm
      exact .nil
  | cons axis order ih =>
      cases picked with
      | nil => simp at each
      | cons item picked =>
          rw [List.map_cons, List.map_cons, List.cons.injEq] at each
          refine .cons ?_ (ih each.2)
          cases axis with
          | broadcast => exact (Except.ok.inj each.1).symm
          | axis source =>
              have here := each.1
              rw [pick] at here
              cases found : items[source]? with
              | none => simp [found, Outcome.require] at here
              | some other =>
                  rw [found] at here
                  exact found.trans (congrArg some (Except.ok.inj here))

/-- Axes that exist can be picked. -/
theorem safe_picks {items : List Nat} (unit : Nat) {order : ShuffleOrder}
    (inside : ∀ source ∈ order.kept, source < items.length)
    : Outcome.Safe (ShuffleOrder.Picks items unit order) (order.mapM (pick items unit)) := by
  refine ⟨picks_of_mapM, ?_⟩
  have each : ∀ axis ∈ order, Outcome.Safe (fun _ => True) (pick items unit axis) := by
    intro axis member
    cases axis with
    | broadcast => exact Outcome.safe_ok trivial
    | axis source =>
        have known := inside source (ShuffleOrder.mem_kept.mpr member)
        exact Outcome.safe_require (List.getElem?_eq_getElem known) trivial
  exact (Outcome.Safe.mapM each).kept

/-- What an order selects: extents that exist, each one once and none of those seen before. By
induction on the order.
-/
theorem selectDims_eq_ok {dims result : List Dimension} {seen : List Nat} {order : ShuffleOrder}
    (done : Typing.selectDims dims seen order = .ok result)
    : List.Forall₂
        (fun axis dim =>
          match axis with
          | .broadcast => dim = .static 1
          | .axis source => dims[source]? = some dim)
        order result
      ∧ order.kept.Nodup
      ∧ ∀ source ∈ order.kept, source ∉ seen := by
  induction order generalizing seen result with
  | nil =>
      obtain rfl := Except.ok.inj done
      exact ⟨.nil, .nil, fun _ member => absurd member List.not_mem_nil⟩
  | cons axis order ih =>
      cases axis with
      | broadcast =>
          obtain ⟨rest, later, same⟩ := Steps.bind_eq_ok_iff.mp done
          obtain rfl := Except.ok.inj same
          obtain ⟨selected, distinct, fresh⟩ := ih later
          exact ⟨.cons rfl selected, distinct, fresh⟩
      | axis source =>
          rw [Typing.selectDims] at done
          cases known : dims[source]? with
          | none => simp [known] at done
          | some dim =>
              rw [known] at done
              dsimp only at done
              split_ifs at done with repeated
              obtain ⟨rest, later, same⟩ := Steps.bind_eq_ok_iff.mp done
              obtain rfl := Except.ok.inj same
              obtain ⟨selected, distinct, fresh⟩ := ih later
              refine ⟨.cons known selected, List.nodup_cons.mpr ⟨?_, distinct⟩, ?_⟩
              · exact fun again => fresh source again List.mem_cons_self
              · intro other member
                rcases List.mem_cons.mp member with rfl | later
                · simpa using repeated
                · exact fun before => fresh other later (List.mem_cons_of_mem _ before)

/-- Picked sizes are allowed by the selected extents. -/
theorem fits_picks {dims result : List Dimension} {sizes picked : List Nat} {order : ShuffleOrder}
    (fits : Fits dims sizes)
    (selected
      : List.Forall₂
          (fun axis dim =>
            match axis with
            | .broadcast => dim = .static 1
            | .axis source => dims[source]? = some dim)
          order result)
    (picks : ShuffleOrder.Picks sizes 1 order picked)
    : Fits result picked := by
  induction selected generalizing picked with
  | nil =>
      cases picks
      exact .nil
  | cons here _ ih =>
      rename_i axis dim order result _
      cases picks with
      | cons same later =>
          refine .cons ?_ (ih later)
          cases axis with
          | broadcast =>
              obtain rfl := here
              exact same.symm
          | axis source =>
              obtain ⟨bound, rfl⟩ := List.getElem?_eq_some_iff.mp here
              obtain ⟨inside, rfl⟩ := List.getElem?_eq_some_iff.mp same
              exact fits.get bound inside

/-- Dropped axes that pass the check have one element. -/
theorem safe_checkDropped (order : ShuffleOrder) (sizes : List Nat)
    : Outcome.Safe (fun _ => ∀ axis ∈ order.dropped sizes.length, sizes[axis]? = some 1)
        ((order.dropped sizes.length).forM (checkDropped sizes)) := by
  refine Outcome.Safe.forM ?_
  intro axis member
  obtain ⟨inside, -⟩ := ShuffleOrder.mem_dropped.mp member
  have known : sizes[axis]? = some sizes[axis] := List.getElem?_eq_getElem inside
  rw [checkDropped, known]
  by_cases one : sizes[axis] = 1
  · rw [one]
    exact Outcome.safe_ok rfl
  · split
    · rename_i same
      exact absurd (Option.some.inj same) one
    · exact Outcome.safe_fail _ _
    · rename_i none
      exact absurd none (Option.some_ne_none _)

/-- A shuffle reads, for every point of the result, its source coordinates. -/
theorem shuffle_positions {order : ShuffleOrder} {sizes picked steps : List Nat}
    (picks : ShuffleOrder.Picks sizes 1 order picked)
    (moves : ShuffleOrder.Picks (RowMajor.steps sizes) 0 order steps)
    (distinct : order.kept.Nodup)
    : RowMajor.strided picked steps
      = (RowMajor.points picked).map fun coords =>
          RowMajor.position (order.sourceCoords sizes.length coords) (RowMajor.steps sizes) := by
  rw [RowMajor.strided_eq (picks.length_eq.symm.trans moves.length_eq)]
  refine List.map_congr_left ?_
  intro coords member
  have length := (RowMajor.mem_points.mp member).length_eq.trans picks.length_eq.symm
  rw [ShuffleOrder.position_sourceCoords moves distinct length, RowMajor.length_steps]

/-- A shuffle is safe, and its result has the inferred type. -/
theorem safe_shuffle {order : ShuffleOrder} {input : Tensor} {type : TensorType} {shape : Shape}
    (typed : input.HasType type) (shaped : Typing.shuffledShape order type.shape = .ok shape)
    : Outcome.Safe (fun result => result.HasType ⟨type.dtype, shape⟩) (shuffle order input) := by
  obtain ⟨dims, selects, shaped⟩ := Steps.bind_eq_ok_iff.mp shaped
  obtain ⟨_, _, shaped⟩ := Steps.bind_eq_ok_iff.mp shaped
  obtain rfl := Except.ok.inj shaped
  obtain ⟨selected, distinct, -⟩ := selectDims_eq_ok selects
  have inside : ∀ source ∈ order.kept, source < input.sizes.length := by
    intro source member
    obtain ⟨place, bound, same⟩ := List.mem_iff_getElem.mp (ShuffleOrder.mem_kept.mp member)
    have here := selected.get bound (selected.length_eq ▸ bound)
    rw [List.get_eq_getElem, same] at here
    obtain ⟨known, -⟩ := List.getElem?_eq_some_iff.mp here
    exact typed.fits.length_eq ▸ known
  refine (safe_checkDropped order input.sizes).bind ?_
  intro _ dropped
  refine (safe_picks 1 inside).bind ?_
  intro sizes picks
  have insideSteps : ∀ source ∈ order.kept, source < (RowMajor.steps input.sizes).length := by
    simpa using inside
  refine (safe_picks 0 insideSteps).bind ?_
  intro steps moves
  rw [shuffle_positions picks moves distinct]
  refine (Tensor.safe_gather ?_ (by simp)).mono ?_
  · intro position member
    obtain ⟨coords, point, rfl⟩ := List.mem_map.mp member
    rw [typed.valid]
    exact RowMajor.position_lt_count
      (ShuffleOrder.inside_sourceCoords picks distinct dropped (RowMajor.mem_points.mp point))
  · rintro result ⟨valid, rfl, dtype⟩
    exact ⟨valid, typed.dtype.trans dtype.symm, fits_picks typed.fits selected picks⟩

-----------------------------------------------------------------------------------------
-- Filling
-----------------------------------------------------------------------------------------

/-- A size from an operand breaks no promise. -/
theorem safe_operandSize (operation : String) (inputs : Inputs) (position : Nat)
    : Outcome.Safe (fun _ => True) (operandSize operation inputs position) := by
  refine (Inputs.safe_index inputs position).bind ?_
  intro value _
  split_ifs
  · exact Outcome.safe_fail _ _
  · exact Outcome.safe_ok trivial

/-- The size of an axis of a new tensor is the known one. -/
theorem safe_allocSize (inputs : Inputs) (extent : ExtentSource)
    : Outcome.Safe (fun size => ∀ known, extent = .static known → size = known)
        (allocSize inputs extent) := by
  cases extent with
  | static size =>
      refine Outcome.safe_ok ?_
      rintro known ⟨⟩
      rfl
  | operand position =>
      exact (safe_operandSize "alloc" inputs position).mono fun _ _ _ same => nomatch same

/-- A checked axis stretches to its target. -/
theorem safe_checkFill (size target : Nat)
    : Outcome.Safe (fun _ => Elementwise.Stretches size target) (checkFill size target) := by
  rw [checkFill]
  split_ifs with stretches
  · exact Outcome.safe_ok stretches
  · exact Outcome.safe_fail _ _

/-- Entries of two zipped lists of one length are related one by one if all pairs are. -/
theorem forall₂_of_zip {α β : Type} {relation : α → β → Prop} {as : List α} {bs : List β}
    (length : as.length = bs.length) (all : ∀ pair ∈ as.zip bs, relation pair.1 pair.2)
    : List.Forall₂ relation as bs :=
  List.forall₂_iff_zip.mpr ⟨length, fun member => all _ member⟩

/-- The sizes of a new tensor: the sizes of the value stretch to them, and known extents have their
sizes.
-/
theorem safe_allocSizes (extents : List ExtentSource) (value : Tensor) (inputs : Inputs)
    : Outcome.Safe
        (fun target =>
          Elementwise.StretchTo value.sizes target
          ∧ List.Forall₂ (fun extent size => ∀ known, extent = .static known → size = known)
              extents target)
        (allocSizes extents value inputs) := by
  refine (Outcome.Safe.mapM fun extent _ => safe_allocSize inputs extent).bind ?_
  intro target sized
  split_ifs with short
  · exact Outcome.safe_fail _ _
  · refine (Outcome.Safe.forM fun pair _ => safe_checkFill pair.1 pair.2).bind ?_
    intro _ fills
    have rank : value.sizes.length ≤ target.length := Nat.le_of_not_lt short
    refine Outcome.safe_ok ⟨⟨rank, forall₂_of_zip ?_ fills⟩, sized⟩
    rw [List.length_drop]
    omega

/-- What is known of the extent of a value, where it has one, leaves a size that stretches to a
target.
-/
def FillsFrom : Option Dimension → Nat → Prop
  | none, _ => True
  | some dim, target => ∃ size, dim.Allows size ∧ Elementwise.Stretches size target

/-- The size of an axis of a new tensor is allowed by the inferred extent. -/
theorem allows_allocDim {axis size : Nat} {extent : ExtentSource} {source : Option Dimension}
    {dim : Dimension} (done : Typing.allocDim axis extent source = .ok dim)
    (sized : ∀ known, extent = .static known → size = known) (fills : FillsFrom source size)
    : dim.Allows size := by
  cases extent with
  | static known =>
      obtain rfl := sized known rfl
      have same : dim = .static size := by
        rcases source with _ | _ | _
        · exact (Except.ok.inj done).symm
        · rw [Typing.allocDim] at done
          split_ifs at done
          exact (Except.ok.inj done).symm
        · exact (Except.ok.inj done).symm
      rw [same]
      rfl
  | operand position =>
      rcases source with _ | known | _
      · obtain rfl := Except.ok.inj done
        trivial
      · obtain rfl := Except.ok.inj done
        obtain ⟨_, rfl, stretches⟩ := fills
        split_ifs with one
        · trivial
        · exact stretches.resolve_left one
      · obtain rfl := Except.ok.inj done
        trivial

/-- The sizes of a new tensor are allowed by the inferred extents, by induction on the extents. -/
theorem fits_allocDims {axis : Nat} {extents : List ExtentSource} {sources : List (Option Dimension)}
    {dims : List Dimension} {target : List Nat}
    (done : Typing.allocDims axis extents sources = .ok dims)
    (sized
      : List.Forall₂ (fun extent size => ∀ known, extent = .static known → size = known)
          extents target)
    (fills : List.Forall₂ FillsFrom sources target)
    : Fits dims target := by
  induction sized generalizing axis sources dims with
  | nil =>
      cases fills
      obtain rfl := Except.ok.inj done
      exact .nil
  | cons here _ ih =>
      cases fills with
      | cons fill fills =>
          obtain ⟨dim, first, done⟩ := Steps.bind_eq_ok_iff.mp done
          obtain ⟨rest, later, done⟩ := Steps.bind_eq_ok_iff.mp done
          obtain rfl := Except.ok.inj done
          exact .cons (allows_allocDim first here fill) (ih later fills)

/-- The extents of a value leave sizes that stretch to the target, in the place of each. -/
theorem fillsFrom_alignedDims {dims : List Dimension} {sizes target : List Nat}
    (fits : Fits dims sizes) (stretch : Elementwise.StretchTo sizes target)
    : List.Forall₂ FillsFrom (Typing.alignedDims target.length dims) target := by
  have front
      : List.Forall₂ FillsFrom (List.replicate (target.length - dims.length) none)
          (target.take (target.length - dims.length)) := by
    refine List.forall₂_iff_get.mpr ⟨?_, ?_⟩
    · simp
    · intro place left right
      rw [List.get_eq_getElem, List.getElem_replicate]
      trivial
  have back
      : List.Forall₂ FillsFrom (dims.map some) (target.drop (target.length - dims.length)) := by
    have stretches := stretch.axes
    rw [← fits.length_eq] at stretches
    rw [List.forall₂_map_left_iff]
    generalize target.drop _ = target at stretches
    clear front stretch
    induction fits generalizing target with
    | nil =>
        cases stretches
        exact .nil
    | cons allows _ ih =>
        cases stretches with
        | cons here later => exact .cons ⟨_, allows, here⟩ (ih _ later)
  have both
      : List.Forall₂ FillsFrom
          (List.replicate (target.length - dims.length) none ++ dims.map some)
          (target.take (target.length - dims.length)
            ++ target.drop (target.length - dims.length)) :=
    List.rel_append front back
  rwa [List.take_append_drop] at both

/-- Filling is safe, and its result has the inferred type. -/
theorem safe_alloc {extents : List ExtentSource} {inputs : Inputs} {value : Tensor}
    {type : TensorType} {dims : List Dimension} (first : inputs.tensor 0 = .ok value)
    (typed : value.HasType type)
    (done
      : Typing.allocDims 0 extents (Typing.alignedDims extents.length type.shape.dims) = .ok dims)
    : Outcome.Safe (fun result => result.HasType ⟨type.dtype, ⟨dims⟩⟩) (alloc extents inputs) := by
  rw [alloc, first]
  refine (safe_allocSizes extents value inputs).bind ?_
  rintro target ⟨stretch, sized⟩
  obtain ⟨inside, length⟩ := Elementwise.broadcastPositions_inside stretch
  refine (Tensor.safe_gather ?_ length).mono ?_
  · rwa [typed.valid]
  · rintro result ⟨valid, rfl, dtype⟩
    have fills := fillsFrom_alignedDims typed.fits stretch
    rw [← sized.length_eq] at fills
    exact ⟨valid, typed.dtype.trans dtype.symm, fits_allocDims done sized fills⟩

-----------------------------------------------------------------------------------------
-- Indexing
-----------------------------------------------------------------------------------------

/-- The bound of a slice is the known one. -/
theorem safe_bound (inputs : Inputs) (scalar : Option IndexScalar)
    : Outcome.Safe (fun value => ∀ known, SliceBounds.known? scalar = some known → value = known)
        (bound inputs scalar) := by
  cases scalar with
  | none =>
      refine Outcome.safe_ok ?_
      rintro known ⟨⟩
      rfl
  | some scalar =>
      cases scalar with
      | static value =>
          refine Outcome.safe_ok ?_
          rintro known ⟨⟩
          rfl
      | operand position =>
          refine (Inputs.safe_index inputs position).bind ?_
          intro value _
          refine Outcome.safe_ok ?_
          intro known same
          simp [SliceBounds.known?, IndexScalar.static?] at same

/-- The walk of a slice stays below the length, and its number of positions is allowed by the
inferred extent.
-/
theorem safe_sliceWalk (bounds : SliceBounds) (inputs : Inputs) {dim : Dimension} {length : Nat}
    (allows : dim.Allows length)
    : Outcome.Safe
        (fun walk =>
          (∀ position ∈ walk.positions, position < length)
          ∧ (bounds.extent dim).Allows walk.count)
        (sliceWalk bounds inputs length) := by
  refine (safe_bound inputs bounds.step).bind ?_
  intro step knownStep
  split_ifs with zero
  · exact Outcome.safe_fail _ _
  refine (safe_bound inputs bounds.start).bind ?_
  intro start knownStart
  refine (safe_bound inputs bounds.stop).bind ?_
  intro stop knownStop
  refine Outcome.safe_ok ⟨fun position member => Slice.lt_of_mem_positions member, ?_⟩
  cases dim with
  | unknown => trivial
  | static known =>
      obtain rfl : known = length := allows
      rw [SliceBounds.extent]
      split
      · rename_i walk found
        simp only [SliceBounds.walk?, Option.bind_eq_bind, Option.bind_eq_some_iff,
          Option.some.injEq] at found
        obtain ⟨_, first, _, second, _, third, rfl⟩ := found
        obtain rfl := knownStart _ first
        obtain rfl := knownStop _ second
        obtain rfl := knownStep _ third
        exact rfl
      · split_ifs with full
        · obtain ⟨rfl, noStart, noStop⟩ := full
          rw [noStart] at knownStart
          rw [noStop] at knownStop
          obtain rfl := knownStart none rfl
          obtain rfl := knownStop none rfl
          exact (Slice.count_full_of_one zero).symm
        · trivial

/-- What is taken from an axis: places that exist, and one of them if the axis goes away. -/
structure Selection.Inside (selection : Selection) (size : Nat) : Prop where
  places : ∀ position ∈ selection.walk.positions, position < size
  single : selection.isKept = false → selection.walk.count = 1

/-- The sizes that are left of the axes that stay. -/
def keptCounts (taken : List Selection) : List Nat :=
  (taken.filter (·.isKept)).map (·.walk.count)

/-- An axis that stays in front. -/
theorem keptCounts_cons_kept {selection : Selection} (taken : List Selection)
    (kept : selection.isKept = true)
    : keptCounts (selection :: taken) = selection.walk.count :: keptCounts taken := by
  simp [keptCounts, kept]

/-- An axis in front that goes away. -/
theorem keptCounts_cons_gone {selection : Selection} (taken : List Selection)
    (gone : selection.isKept = false)
    : keptCounts (selection :: taken) = keptCounts taken := by
  simp [keptCounts, gone]

/-- What an entry takes from an axis, and the extent that it leaves. -/
theorem safe_select {inputs : Inputs} {axis size : Nat} {entry : IndexEntry} {dim : Dimension}
    {left : Option Dimension} (allows : dim.Allows size)
    (done : Typing.indexedDim axis dim entry = .ok left)
    : Outcome.Safe
        (fun selection =>
          selection.Inside size ∧ Fits left.toList (keptCounts [selection]))
        (select inputs axis size entry) := by
  cases entry with
  | scalar scalar =>
      have gone : left = none := by
        cases scalar with
        | operand position => exact (Except.ok.inj done).symm
        | static index =>
            cases dim with
            | unknown => exact (Except.ok.inj done).symm
            | static known =>
                rw [Typing.indexedDim] at done
                split_ifs at done
                exact (Except.ok.inj done).symm
      subst gone
      refine (Inputs.safe_scalar inputs scalar).bind ?_
      intro index _
      cases found : Slice.position? index size with
      | none => exact Outcome.safe_fail _ _
      | some position =>
          refine Outcome.safe_ok ⟨⟨?_, fun _ => Slice.count_single position⟩, ?_⟩
          · intro other member
            rw [Slice.positions_single, List.mem_singleton] at member
            exact member ▸ Slice.lt_of_position? found
          · rw [keptCounts_cons_gone [] rfl]
            exact .nil
  | slice bounds =>
      rw [Typing.indexedDim] at done
      split_ifs at done
      obtain rfl := Except.ok.inj done
      refine (safe_sliceWalk bounds inputs allows).bind ?_
      rintro walk ⟨places, counted⟩
      refine Outcome.safe_ok ⟨⟨places, fun gone => nomatch gone⟩, ?_⟩
      rw [keptCounts_cons_kept [] rfl]
      exact .cons counted .nil

/-- An axis without an entry is kept whole. -/
theorem inside_whole (size : Nat) : Selection.Inside ⟨.whole size, true⟩ size := by
  refine ⟨?_, fun gone => nomatch gone⟩
  intro position member
  rw [Slice.positions_whole, List.mem_range] at member
  exact member

/-- What entries take from all axes, and the extents that they leave. By induction on the axes. -/
theorem safe_selections {inputs : Inputs} {axis : Nat} {dims left : List Dimension}
    {sizes : List Nat} {entries : List IndexEntry} (fits : Fits dims sizes)
    (done : Typing.indexedDims axis dims entries = .ok left)
    : Outcome.Safe
        (fun taken => List.Forall₂ Selection.Inside taken sizes ∧ Fits left (keptCounts taken))
        ((selections inputs axis sizes entries).mapM id) := by
  induction fits generalizing axis entries left with
  | nil =>
      have none : left = [] := by cases entries <;> exact (Except.ok.inj done).symm
      subst none
      have nothing : selections inputs axis [] entries = [] := by cases entries <;> rfl
      rw [nothing]
      exact Outcome.safe_ok ⟨.nil, .nil⟩
  | cons allows rest ih =>
      rename_i dim size dims sizes
      cases entries with
      | nil =>
          obtain rfl := Except.ok.inj done
          rw [selections, List.mapM_cons]
          have whole : Typing.indexedDims (axis + 1) dims [] = .ok dims := by cases dims <;> rfl
          refine (ih whole).bind ?_
          rintro taken ⟨inside, fits⟩
          refine Outcome.safe_ok ⟨.cons (inside_whole size) inside, ?_⟩
          rw [keptCounts_cons_kept taken rfl, Slice.count_whole]
          exact .cons allows fits
      | cons entry entries =>
          obtain ⟨here, first, done⟩ := Steps.bind_eq_ok_iff.mp done
          obtain ⟨others, later, done⟩ := Steps.bind_eq_ok_iff.mp done
          obtain rfl := Except.ok.inj done
          rw [selections, List.mapM_cons]
          refine (safe_select allows first).bind ?_
          rintro selection ⟨insideHere, fitsHere⟩
          refine (ih later).bind ?_
          rintro taken ⟨inside, fits⟩
          refine Outcome.safe_ok ⟨.cons insideHere inside, ?_⟩
          have split : keptCounts (selection :: taken) = keptCounts [selection] ++ keptCounts taken := by
            simp only [keptCounts, ← List.map_append, ← List.filter_append, List.singleton_append]
          rw [split]
          exact List.rel_append fitsHere fits

/-- Crossings are the positions of the choices of one place on each walk. -/
theorem crossings_eq {walks : List Slice.Walk} {steps : List Nat}
    (aligned : walks.length = steps.length)
    : crossings walks steps
      = (RowMajor.choices (walks.map (·.positions))).map (RowMajor.position · steps) := by
  rw [crossings]
  split_ifs with empty
  · obtain ⟨walk, member, none⟩ := List.any_eq_true.mp empty
    have nothing : RowMajor.choices (walks.map (·.positions)) = [] := by
      refine List.length_eq_zero_iff.mp ?_
      rw [RowMajor.length_choices, RowMajor.count_eq_zero_iff, List.map_map, List.mem_map]
      exact ⟨walk, member, by simpa using none⟩
    rw [nothing, List.map_nil]
  · have lists
        : List.zipWith (fun walk stride => walk.positions.map (· * stride)) walks steps
          = List.zipWith (fun places step => places.map (· * step)) (walks.map (·.positions))
              steps := by
      rw [List.zipWith_map_left]
    rw [lists]
    exact RowMajor.select_scaled (by simpa using aligned)

/-- The number of choices is the number of positions of the axes that stay. -/
theorem count_keptCounts {taken : List Selection} {sizes : List Nat}
    (inside : List.Forall₂ Selection.Inside taken sizes)
    : RowMajor.count (taken.map (·.walk.count)) = RowMajor.count (keptCounts taken) := by
  induction inside with
  | nil => rfl
  | cons here _ ih =>
      rename_i selection _ taken _ _
      rw [List.map_cons, RowMajor.count_cons, ih]
      cases kept : selection.isKept with
      | true => rw [keptCounts_cons_kept taken kept, RowMajor.count_cons]
      | false => rw [keptCounts_cons_gone taken kept, here.single kept, Nat.one_mul]

/-- A choice of places on walks that stay inside is a point. -/
theorem inside_of_choice {taken : List Selection} {sizes choice : List Nat}
    (inside : List.Forall₂ Selection.Inside taken sizes)
    (chosen : List.Forall₂ (· ∈ ·) choice (taken.map (·.walk.positions)))
    : RowMajor.Inside choice sizes := by
  induction inside generalizing choice with
  | nil =>
      cases chosen
      exact .nil
  | cons here _ ih =>
      cases chosen with
      | cons member later => exact .cons (here.places _ member) (ih later)

/-- Indexing is safe, and its result has the inferred type. -/
theorem safe_subtensor {entries : List IndexEntry} {inputs : Inputs} {input : Tensor}
    {type : TensorType} {shape : Shape} (first : inputs.tensor 0 = .ok input)
    (typed : input.HasType type) (shaped : Typing.indexedShape entries type.shape = .ok shape)
    : Outcome.Safe (fun result => result.HasType ⟨type.dtype, shape⟩)
        (subtensor entries inputs) := by
  rw [Typing.indexedShape] at shaped
  split_ifs at shaped
  obtain ⟨dims, done, shaped⟩ := Steps.bind_eq_ok_iff.mp shaped
  obtain rfl := Except.ok.inj shaped
  rw [subtensor, first]
  change Outcome.Safe _ (if _ then _ else _)
  split_ifs
  · exact Outcome.safe_fail _ _
  refine (safe_selections typed.fits done).bind ?_
  rintro taken ⟨inside, fits⟩
  have aligned : (taken.map (·.walk)).length = (RowMajor.steps input.sizes).length := by
    rw [List.length_map, RowMajor.length_steps, inside.length_eq]
  dsimp only
  rw [crossings_eq aligned, List.map_map]
  refine (Tensor.safe_gather ?_ ?_).mono ?_
  · intro position member
    obtain ⟨choice, chosen, rfl⟩ := List.mem_map.mp member
    rw [typed.valid]
    exact RowMajor.position_lt_count (inside_of_choice inside (RowMajor.mem_choices.mp chosen))
  · rw [List.length_map, RowMajor.length_choices, List.map_map]
    refine Eq.trans ?_ (count_keptCounts inside)
    simp [Function.comp_def]
  · rintro result ⟨valid, sizes, dtype⟩
    exact ⟨valid, typed.dtype.trans dtype.symm, sizes ▸ fits⟩

-----------------------------------------------------------------------------------------
-- Reshaping
-----------------------------------------------------------------------------------------

/-- A size of a new shape as it is evaluated: known sizes are kept, and a size that is to be
inferred counts as one.
-/
def ReshapesTo (extent : ReshapeExtent) (place : Nat × Bool) : Prop :=
  match extent with
  | .explicit size => place = (size, false)
  | .infer => place = (1, true)
  | .operand _ => place.2 = false

/-- A size of a new shape breaks no promise. -/
theorem safe_reshapeSize (inputs : Inputs) (extent : ReshapeExtent)
    : Outcome.Safe (ReshapesTo extent) (reshapeSize inputs extent) := by
  cases extent with
  | explicit size => exact Outcome.safe_ok rfl
  | infer => exact Outcome.safe_ok rfl
  | operand position =>
      refine (safe_operandSize "reshape" inputs position).bind ?_
      intro size _
      exact Outcome.safe_ok rfl

/-- A place is to be inferred iff its extent is. -/
theorem ReshapesTo.inferred_iff {extent : ReshapeExtent} {place : Nat × Bool}
    (sized : ReshapesTo extent place)
    : place.2 = true ↔ extent = .infer := by
  cases extent with
  | explicit size => simp [show place = (size, false) from sized]
  | infer => simp [show place = (1, true) from sized]
  | operand position => simp [show place.2 = false from sized]

/-- Sizes are allowed by the inferred extents, if none of them is to be inferred. -/
theorem fits_places {dim : Dimension} {extents : List ReshapeExtent} {places : List (Nat × Bool)}
    (sized : List.Forall₂ ReshapesTo extents places) (explicit : .infer ∉ extents)
    : Fits (extents.map (Typing.reshapeDim dim)) (places.map (·.1)) := by
  induction sized with
  | nil => exact .nil
  | cons here _ ih =>
      rename_i extent place extents places _
      rw [List.mem_cons, not_or] at explicit
      refine .cons ?_ (ih explicit.2)
      cases extent with
      | explicit size =>
          obtain rfl : place = (size, false) := here
          rfl
      | infer => exact absurd rfl explicit.1
      | operand position => trivial

/-- Filled sizes are allowed by the inferred extents, if at most one of them is to be inferred. By
induction on the extents.
-/
theorem fits_fillInferred {dim : Dimension} {size : Nat} {extents : List ReshapeExtent}
    {places : List (Nat × Bool)} (sized : List.Forall₂ ReshapesTo extents places)
    (single : extents.count .infer ≤ 1) (allows : dim.Allows size)
    : Fits (extents.map (Typing.reshapeDim dim)) (fillInferred size places) := by
  induction sized with
  | nil => exact .nil
  | cons here later ih =>
      rename_i extent place extents places
      cases extent with
      | explicit known =>
          obtain rfl : place = (known, false) := here
          exact .cons rfl (ih (by simpa using single))
      | infer =>
          obtain rfl : place = (1, true) := here
          rw [List.count_cons_self] at single
          have others : .infer ∉ extents := List.count_eq_zero.mp (by omega)
          exact .cons allows (fits_places later others)
      | operand position =>
          obtain ⟨known, inferred⟩ := place
          obtain rfl : inferred = false := here
          exact .cons trivial (ih (by simpa using single))

/-- The size that is filled in multiplies the number of positions, by induction on the extents. -/
theorem count_fillInferred {size : Nat} {extents : List ReshapeExtent} {places : List (Nat × Bool)}
    (sized : List.Forall₂ ReshapesTo extents places) (some : .infer ∈ extents)
    : RowMajor.count (fillInferred size places) = size * RowMajor.count (places.map (·.1)) := by
  induction sized with
  | nil => exact absurd some List.not_mem_nil
  | cons here _ ih =>
      rename_i extent place extents places _
      cases extent with
      | explicit known =>
          obtain rfl : place = (known, false) := here
          have later := ih (by simpa using some)
          rw [fillInferred, RowMajor.count_cons, later, List.map_cons, RowMajor.count_cons,
            Nat.mul_left_comm]
      | infer =>
          obtain rfl : place = (1, true) := here
          rw [fillInferred, RowMajor.count_cons, List.map_cons, RowMajor.count_cons, Nat.one_mul]
      | operand position =>
          obtain ⟨known, inferred⟩ := place
          obtain rfl : inferred = false := here
          have later := ih (by simpa using some)
          rw [fillInferred, RowMajor.count_cons, later, List.map_cons, RowMajor.count_cons,
            Nat.mul_left_comm]

/-- The number of positions does not depend on the order of the axes. -/
theorem count_reverse (sizes : List Nat)
    : RowMajor.count sizes.reverse = RowMajor.count sizes := by
  induction sizes with
  | nil => rfl
  | cons size rest ih =>
      rw [List.reverse_cons, RowMajor.count_append, ih, RowMajor.count_cons, RowMajor.count_cons,
        RowMajor.count_nil, Nat.mul_one, Nat.mul_comm]

/-- Stopping at the largest size in between changes nothing if the product stops there too. -/
theorem saturatingMul_min (a b : Nat)
    : saturatingMul (min a (sizeLimit - 1)) b = min (a * b) (sizeLimit - 1) := by
  rw [saturatingMul]
  rcases Nat.le_total a (sizeLimit - 1) with small | large
  · rw [Nat.min_eq_left small]
  · rw [Nat.min_eq_right large]
    rcases Nat.eq_zero_or_pos b with rfl | positive
    · rfl
    · have limited : sizeLimit - 1 ≤ (sizeLimit - 1) * b := Nat.le_mul_of_pos_right _ positive
      have grown : (sizeLimit - 1) * b ≤ a * b := Nat.mul_le_mul_right b large
      rw [Nat.min_eq_right limited, Nat.min_eq_right (Nat.le_trans limited grown)]

/-- The product of the given sizes is the number of positions, as a word, if no size comes from an
operand. By induction on the extents.
-/
theorem explicitProduct_eq {extents : List ReshapeExtent} {places : List (Nat × Bool)}
    (sized : List.Forall₂ ReshapesTo extents places)
    (known : extents.filterMap ReshapeExtent.operand? = [])
    : Typing.explicitProduct extents
      = min (RowMajor.count (places.map (·.1))) (sizeLimit - 1) := by
  have folded
      : ∀ step : Nat → ReshapeExtent → Nat,
          (∀ product size, step product (.explicit size) = saturatingMul product size)
          → (∀ product, step product .infer = product)
          → ∀ start : Nat,
              extents.foldl step (min start (sizeLimit - 1))
              = min (start * RowMajor.count (places.map (·.1))) (sizeLimit - 1) := by
    intro step explicit infer
    induction sized with
    | nil => simp
    | cons here _ ih =>
        rename_i extent place extents places _
        intro start
        cases extent with
        | explicit size =>
            obtain rfl : place = (size, false) := here
            rw [List.foldl_cons, explicit, saturatingMul_min, ih known, List.map_cons,
              RowMajor.count_cons, Nat.mul_assoc]
        | infer =>
            obtain rfl : place = (1, true) := here
            rw [List.foldl_cons, infer, ih known, List.map_cons, RowMajor.count_cons, Nat.one_mul]
        | operand position => simp [ReshapeExtent.operand?] at known
  rw [Typing.explicitProduct, ← Nat.one_mul (RowMajor.count _)]
  exact folded _ (fun _ _ => rfl) (fun _ => rfl) 1

/-- A product that fits a word is the number of positions. By induction on the sizes. -/
theorem checkedProduct_eq_some {sizes : List Nat} {count : Nat}
    (product : checkedProduct sizes = some count)
    : RowMajor.count sizes = count ∧ count < sizeLimit := by
  have folded
      : ∀ (sizes : List Nat) (start : Nat),
          start < sizeLimit
          → sizes.foldlM
                (fun total extent =>
                  if total * extent < sizeLimit then some (total * extent) else none)
                start
              = some count
          → start * RowMajor.count sizes = count ∧ count < sizeLimit := by
    intro sizes
    induction sizes with
    | nil =>
        intro start small done
        obtain rfl := Option.some.inj done
        exact ⟨Nat.mul_one start, small⟩
    | cons size sizes ih =>
        intro start small done
        rw [List.foldlM_cons] at done
        split_ifs at done with fits
        · obtain ⟨product, limited⟩ := ih (start * size) fits done
          rw [RowMajor.count_cons, ← Nat.mul_assoc]
          exact ⟨product, limited⟩
        · cases done
  have fits := folded sizes 1 (by decide) product
  rwa [Nat.one_mul] at fits

/-- Sizes that known extents allow are these extents. -/
theorem sizes_eq_of_fits {sizes others : List Nat} (fits : Fits (sizes.map .static) others)
    : others = sizes := by
  rw [Fits, List.forall₂_map_left_iff] at fits
  exact (List.forall₂_eq_eq_eq ▸ fits.imp fun _ _ same => same : sizes = others).symm

/-- Known extents are the sizes of all tensors of a type. -/
theorem shape_eq_of_sizes? {shape : Shape} {sizes : List Nat} (known : shape.sizes? = some sizes)
    : shape = .ofSizes sizes := by
  have injective : Function.Injective Dimension.size? := by
    rintro (first | _) (second | _) same
    · rw [Option.some.inj same]
    · cases same
    · cases same
    · rfl
  refine congrArg Shape.mk (List.map_injective_iff.mpr injective ?_)
  rw [Steps.mapM_eq_some_iff.mp known, List.map_map]
  rfl

/-- A type with a known number of elements has known extents. -/
theorem shape_eq_of_elementCount? {type : TensorType} {count : Nat}
    (known : type.elementCount? = some count)
    : ∃ sizes,
        type.shape = .ofSizes sizes ∧ RowMajor.count sizes = count ∧ count < sizeLimit := by
  obtain ⟨sizes, listed, product⟩ := Option.bind_eq_some_iff.mp known
  exact ⟨sizes, shape_eq_of_sizes? listed, checkedProduct_eq_some product⟩

/-- The number of elements of a type is that of its tensors, and fits a word. -/
theorem elementCount?_eq_some {tensor : Tensor} {type : TensorType} {count : Nat}
    (typed : tensor.HasType type) (known : type.elementCount? = some count)
    : tensor.elements.size = count ∧ count < sizeLimit := by
  obtain ⟨sizes, shape, exact, limited⟩ := shape_eq_of_elementCount? known
  have fits := typed.fits
  rw [shape] at fits
  exact ⟨typed.valid.trans (sizes_eq_of_fits fits ▸ exact), limited⟩

/-- A quotient by a divisor does not notice that the divisor stops at the largest size. -/
theorem div_min_sizeLimit {count product : Nat} (limited : count < sizeLimit)
    (divides : count % product = 0)
    : count / min product (sizeLimit - 1) = count / product := by
  rcases Nat.le_total product (sizeLimit - 1) with small | large
  · rw [Nat.min_eq_left small]
  · rcases Nat.eq_or_lt_of_le large with same | larger
    · rw [same, Nat.min_self]
    · have below : count < product := by omega
      have zero : count = 0 := by rwa [Nat.mod_eq_of_lt below] at divides
      rw [zero, Nat.zero_div, Nat.zero_div]

/-- The size that is left for an inferred extent is allowed by the inferred one. -/
theorem allows_inferredDim {extents : List ReshapeExtent} {places : List (Nat × Bool)}
    {input : Tensor} {type : TensorType} {dim : Dimension} (typed : input.HasType type)
    (sized : List.Forall₂ ReshapesTo extents places)
    (divides : input.elements.size % RowMajor.count (places.map (·.1)) = 0)
    (done
      : Typing.inferredDim type.elementCount? (extents.count .infer)
            (extents.filterMap ReshapeExtent.operand?).isEmpty (Typing.explicitProduct extents)
          = .ok dim)
    : dim.Allows (input.elements.size / RowMajor.count (places.map (·.1))) := by
  cases counted : type.elementCount? with
  | none =>
      rw [counted] at done
      obtain rfl := Except.ok.inj done
      trivial
  | some count =>
      simp only [counted, Typing.inferredDim] at done
      split_ifs at done with operands single refused same
      · obtain rfl := Except.ok.inj done
        trivial
      · obtain rfl := Except.ok.inj done
        obtain ⟨exact, limited⟩ := elementCount?_eq_some typed counted
        rw [explicitProduct_eq sized (by simpa using operands)]
        rw [exact] at divides ⊢
        exact div_min_sizeLimit limited divides
      · obtain rfl := Except.ok.inj done
        trivial

/-- A size is to be inferred if an extent is. -/
theorem any_inferred_iff {extents : List ReshapeExtent} {places : List (Nat × Bool)}
    (sized : List.Forall₂ ReshapesTo extents places)
    : places.any (·.2) = true ↔ .infer ∈ extents := by
  rw [List.any_eq_true]
  induction sized with
  | nil => simp
  | cons here _ ih =>
      simp only [List.mem_cons, exists_eq_or_imp, here.inferred_iff, ih]
      exact or_congr_left eq_comm

/-- Reshaping is safe, and its result has the inferred type. -/
theorem safe_reshape {extents : List ReshapeExtent} {inputs : Inputs} {input : Tensor}
    {type : TensorType} {dim : Dimension} (first : inputs.tensor 0 = .ok input)
    (typed : input.HasType type) (single : extents.count .infer ≤ 1)
    (done
      : Typing.inferredDim type.elementCount? (extents.count .infer)
            (extents.filterMap ReshapeExtent.operand?).isEmpty (Typing.explicitProduct extents)
          = .ok dim)
    : Outcome.Safe
        (fun result => result.HasType ⟨type.dtype, ⟨extents.map (Typing.reshapeDim dim)⟩⟩)
        (reshape extents inputs) := by
  rw [reshape, first]
  refine (Outcome.Safe.mapM fun extent _ => safe_reshapeSize inputs extent).bind ?_
  intro places sized
  dsimp only
  have inferred := any_inferred_iff sized
  split_ifs with some refused same
  · exact Outcome.safe_fail _ _
  · obtain ⟨positive, divides⟩ := not_or.mp refused
    have divides := Decidable.not_not.mp divides
    have allows := allows_inferredDim typed sized divides done
    have reversed : List.Forall₂ ReshapesTo extents.reverse places.reverse :=
      List.rel_reverse sized
    refine Outcome.safe_ok ⟨?_, typed.dtype, ?_⟩
    · rw [Tensor.Valid, count_reverse,
        count_fillInferred reversed (List.mem_reverse.mpr (inferred.mp some)), List.map_reverse,
        count_reverse]
      exact (Nat.div_mul_cancel (Nat.dvd_of_mod_eq_zero divides)).symm
    · have fits := fits_fillInferred reversed (by rwa [List.count_reverse]) allows
      rw [List.map_reverse] at fits
      simpa using List.rel_reverse fits
  · refine Outcome.safe_ok ⟨same.symm, typed.dtype, ?_⟩
    exact fits_places sized fun member => some (inferred.mpr member)
  · exact Outcome.safe_fail _ _

/-- The size of an axis has the type of single integers. -/
theorem safe_extent (axis : Nat) (input : Tensor)
    : Outcome.Safe (fun result => result.HasType (.scalar .si64)) (extent axis input) := by
  rw [extent]
  cases input.sizes[axis]? with
  | none => exact Outcome.safe_fail _ _
  | some size => exact Outcome.safe_ok ⟨rfl, rfl, .nil⟩

end Dataflow.Movement

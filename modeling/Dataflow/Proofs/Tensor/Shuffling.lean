import Dataflow.Proofs.Tensor.Reading
import Dataflow.Rewrite.Rules.Shuffle

/-!
Shuffled tensors. Shuffling twice is shuffling once into the composed order, and shuffling into the
order of the axes changes nothing. An order that keeps axes in their order only adds and drops axes
of one place, so the elements stay where they are.
-/

namespace Dataflow

-----------------------------------------------------------------------------------------
-- Orders after orders
-----------------------------------------------------------------------------------------

namespace Rules

/-- An axis of a composed order is the one that the inner order has at the place that the outer one
names.
-/
theorem getElem?_compose {inner outer order : ShuffleOrder} (composed : compose inner outer = some order)
    (place : Nat)
    : order[place]? = outer[place]?.bind (composeAxis inner) := by
  have each := congrArg (·[place]?) (Steps.mapM_eq_some_iff.mp composed)
  simp only [List.getElem?_map] at each
  cases here : outer[place]? with
  | none =>
      rw [here] at each
      exact Option.map_eq_none_iff.mp each.symm
  | some axis =>
      rw [here, Option.map_some] at each
      obtain ⟨composedAxis, found, same⟩ := Option.map_eq_some_iff.mp each.symm
      rw [found, Option.bind_some, same]

/-- A composed order keeps what the inner one keeps at an axis that the outer one keeps. -/
theorem getElem?_compose_eq_axis_iff {inner outer order : ShuffleOrder}
    (composed : compose inner outer = some order) {place axis : Nat}
    : order[place]? = some (.axis axis)
      ↔ ∃ middle : Nat, outer[place]? = some (.axis middle) ∧ inner[middle]? = some (.axis axis) := by
  rw [getElem?_compose composed]
  constructor
  · intro found
    obtain ⟨outerAxis, here, found⟩ := Option.bind_eq_some_iff.mp found
    cases outerAxis with
    | broadcast => cases Option.some.inj found
    | axis middle => exact ⟨middle, here, found⟩
  · rintro ⟨middle, here, found⟩
    rw [here]
    exact found

end Rules

namespace ShuffleOrder

/-- A kept axis stands somewhere in the order. -/
theorem mem_kept_iff_exists {order : ShuffleOrder} {axis : Nat}
    : axis ∈ order.kept ↔ ∃ place : Nat, order[place]? = some (.axis axis) := by
  rw [mem_kept, List.mem_iff_getElem?]

/-- An order keeps no axis twice iff no axis stands at two places. -/
theorem nodup_kept_iff {order : ShuffleOrder}
    : order.kept.Nodup
      ↔ ∀ {first second axis : Nat},
          order[first]? = some (.axis axis)
          → order[second]? = some (.axis axis)
          → first = second := by
  have source (axis : ShuffleAxis) (source : Nat)
      : axis.source? = some source ↔ axis = .axis source := by
    cases axis <;> simp [ShuffleAxis.source?]
  rw [kept, List.Nodup, List.pairwise_filterMap, List.pairwise_iff_getElem]
  constructor
  · intro apart first second axis here there
    obtain ⟨boundFirst, here⟩ := List.getElem?_eq_some_iff.mp here
    obtain ⟨boundSecond, there⟩ := List.getElem?_eq_some_iff.mp there
    by_contra differ
    obtain before | after := Nat.lt_or_gt_of_ne differ
    · exact apart _ _ boundFirst boundSecond before axis ((source _ _).mpr here) axis
        ((source _ _).mpr there) rfl
    · exact apart _ _ boundSecond boundFirst after axis ((source _ _).mpr there) axis
        ((source _ _).mpr here) rfl
  · rintro unique first second boundFirst boundSecond before axis here _ there rfl
    have same := unique
      (List.getElem?_eq_some_iff.mpr ⟨boundFirst, (source _ _).mp here⟩)
      (List.getElem?_eq_some_iff.mpr ⟨boundSecond, (source _ _).mp there⟩)
    exact Nat.ne_of_lt before same

end ShuffleOrder

-----------------------------------------------------------------------------------------
-- Shuffles
-----------------------------------------------------------------------------------------

namespace Movement

/-- A tensor shuffled into an order: dropped axes have one element, the others keep their sizes, and
the elements are read at the source coordinates.
-/
structure Shuffles (order : ShuffleOrder) (input result : Tensor) : Prop where
  dropped : ∀ axis ∈ order.dropped input.sizes.length, input.sizes[axis]? = some 1
  picks : ShuffleOrder.Picks input.sizes 1 order result.sizes
  reads : result.Reads input (order.sourceCoords input.sizes.length)

theorem mapM_pick_eq_ok_iff {items picked : List Nat} {unit : Nat} {order : ShuffleOrder}
    : order.mapM (pick items unit) = .ok picked ↔ ShuffleOrder.Picks items unit order picked := by
  refine ⟨picks_of_mapM, fun picks => ?_⟩
  rw [Steps.mapM_eq_ok_iff]
  induction picks with
  | nil => rfl
  | cons here _ ih =>
      rename_i axis item order picked _
      rw [List.map_cons, List.map_cons, ih]
      congr 1
      cases axis with
      | broadcast => exact congrArg Except.ok (Eq.symm here)
      | axis source => exact Outcome.require_eq_ok_iff.mpr here

theorem forM_checkDropped_eq_ok_iff {order : ShuffleOrder} {sizes : List Nat}
    : (order.dropped sizes.length).forM (checkDropped sizes) = .ok ()
      ↔ ∀ axis ∈ order.dropped sizes.length, sizes[axis]? = some 1 := by
  refine ⟨fun done => (safe_checkDropped order sizes).holds done, fun all => ?_⟩
  refine Steps.forM_eq_ok_iff.mpr fun axis member => ?_
  rw [checkDropped, all axis member]
  rfl

/-- Kept axes exist. -/
theorem lt_of_mem_kept {items picked : List Nat} {unit : Nat} {order : ShuffleOrder}
    (picks : ShuffleOrder.Picks items unit order picked) {source : Nat}
    (member : source ∈ order.kept)
    : source < items.length := by
  obtain ⟨place, bound, same⟩ := List.mem_iff_getElem.mp (ShuffleOrder.mem_kept.mp member)
  have here := picks.get bound (picks.length_eq ▸ bound)
  rw [List.get_eq_getElem, same] at here
  exact (List.getElem?_eq_some_iff.mp here).1

/-- The steps of a shuffle exist if its sizes do. -/
theorem exists_steps {sizes picked : List Nat} {order : ShuffleOrder}
    (picks : ShuffleOrder.Picks sizes 1 order picked)
    : ∃ steps, ShuffleOrder.Picks (RowMajor.steps sizes) 0 order steps := by
  induction picks with
  | nil => exact ⟨[], .nil⟩
  | cons here _ ih =>
      rename_i axis item order picked _
      obtain ⟨steps, moves⟩ := ih
      cases axis with
      | broadcast => exact ⟨0 :: steps, .cons rfl moves⟩
      | axis source =>
          have inside : source < (RowMajor.steps sizes).length := by
            rw [RowMajor.length_steps]
            exact (List.getElem?_eq_some_iff.mp here).1
          exact ⟨_ :: steps, .cons (List.getElem?_eq_getElem inside) moves⟩

/-- A tensor is shuffled iff it can be read in the new order. -/
theorem shuffle_eq_ok_iff {order : ShuffleOrder} {input result : Tensor}
    (distinct : order.kept.Nodup)
    : shuffle order input = .ok result ↔ Shuffles order input result := by
  rw [shuffle, Steps.bind_eq_ok_iff]
  constructor
  · rintro ⟨_, checked, done⟩
    obtain ⟨sizes, picked, done⟩ := Steps.bind_eq_ok_iff.mp done
    obtain ⟨steps, moved, done⟩ := Steps.bind_eq_ok_iff.mp done
    have dropped := forM_checkDropped_eq_ok_iff.mp checked
    have picks := picks_of_mapM picked
    rw [shuffle_positions picks (picks_of_mapM moved) distinct] at done
    obtain ⟨rfl, gathers⟩ := Tensor.gather_eq_ok_iff.mp done
    exact ⟨dropped, picks, fun coords => ShuffleOrder.inside_sourceCoords picks distinct dropped,
      gathers⟩
  · intro shuffles
    obtain ⟨steps, moves⟩ := exists_steps shuffles.picks
    refine ⟨(), forM_checkDropped_eq_ok_iff.mpr shuffles.dropped, ?_⟩
    rw [mapM_pick_eq_ok_iff.mpr shuffles.picks]
    change (order.mapM (pick (RowMajor.steps input.sizes) 0) >>= _) = _
    rw [mapM_pick_eq_ok_iff.mpr moves, Steps.ok_bind,
      shuffle_positions shuffles.picks moves distinct]
    exact Tensor.gather_eq_ok_iff.mpr ⟨rfl, shuffles.reads.gathers⟩


end Movement

-----------------------------------------------------------------------------------------
-- Shuffles after each other
-----------------------------------------------------------------------------------------

namespace ShuffleOrder

/-- The coordinate of an axis: that of the place that takes it, and zero if none does. -/
theorem getElem?_sourceCoords {rank axis : Nat} {order : ShuffleOrder} {coords : List Nat}
    (distinct : (kept order).Nodup) (length : coords.length = order.length) (inside : axis < rank)
    : (∃ place : Nat, order[place]? = some (.axis axis)
          ∧ (sourceCoords rank order coords)[axis]? = coords[place]?)
      ∨ axis ∉ kept order ∧ (sourceCoords rank order coords)[axis]? = some 0 := by
  by_cases taken : axis ∈ kept order
  · obtain ⟨place, here⟩ := mem_kept_iff_exists.mp taken
    have bound : place < coords.length := by
      rw [length]
      exact (List.getElem?_eq_some_iff.mp here).1
    have known := List.getElem?_eq_getElem bound
    exact .inl ⟨place, here, (sourceCoords_of_taken distinct here known inside).trans known.symm⟩
  · exact .inr ⟨taken, sourceCoords_of_not_kept coords taken inside⟩

/-- A composed order keeps no axis twice if the two orders do not. -/
theorem nodup_kept_compose {inner outer order : ShuffleOrder}
    (composed : Rules.compose inner outer = some order) (innerDistinct : (kept inner).Nodup)
    (outerDistinct : (kept outer).Nodup)
    : (kept order).Nodup := by
  refine nodup_kept_iff.mpr ?_
  intro first second axis here there
  obtain ⟨middle, atFirst, found⟩ := (Rules.getElem?_compose_eq_axis_iff composed).mp here
  obtain ⟨other, atSecond, foundOther⟩ := (Rules.getElem?_compose_eq_axis_iff composed).mp there
  obtain rfl := nodup_kept_iff.mp innerDistinct found foundOther
  exact nodup_kept_iff.mp outerDistinct atFirst atSecond

/-- The source coordinates of source coordinates are those of the composed order. -/
theorem sourceCoords_sourceCoords {rank : Nat} {inner outer order : ShuffleOrder}
    (composed : Rules.compose inner outer = some order) (innerDistinct : (kept inner).Nodup)
    (outerDistinct : (kept outer).Nodup) {coords : List Nat} (length : coords.length = outer.length)
    : sourceCoords rank inner (sourceCoords inner.length outer coords)
      = sourceCoords rank order coords := by
  have orderLength : order.length = outer.length := by
    have each := congrArg List.length (Steps.mapM_eq_some_iff.mp composed)
    simpa using each.symm
  have distinct := nodup_kept_compose composed innerDistinct outerDistinct
  apply List.ext_getElem?
  intro axis
  by_cases inside : axis < rank
  · obtain ⟨place, here, known⟩ | ⟨untaken, zero⟩ :=
      getElem?_sourceCoords distinct (length.trans orderLength.symm) inside
    · obtain ⟨middle, atPlace, found⟩ := (Rules.getElem?_compose_eq_axis_iff composed).mp here
      have bound : place < coords.length := by
        rw [length]
        exact (List.getElem?_eq_some_iff.mp atPlace).1
      have boundMiddle := (List.getElem?_eq_some_iff.mp found).1
      have between := sourceCoords_of_taken outerDistinct atPlace (List.getElem?_eq_getElem bound)
        boundMiddle
      rw [known, List.getElem?_eq_getElem bound]
      exact sourceCoords_of_taken innerDistinct found between inside
    · rw [zero]
      by_cases taken : axis ∈ kept inner
      · obtain ⟨middle, found⟩ := mem_kept_iff_exists.mp taken
        have boundMiddle := (List.getElem?_eq_some_iff.mp found).1
        have dropped : middle ∉ kept outer := by
          intro member
          obtain ⟨place, atPlace⟩ := mem_kept_iff_exists.mp member
          exact untaken (mem_kept_iff_exists.mpr
            ⟨place, (Rules.getElem?_compose_eq_axis_iff composed).mpr ⟨middle, atPlace, found⟩⟩)
        have between := sourceCoords_of_not_kept coords dropped boundMiddle
        exact sourceCoords_of_taken innerDistinct found between inside
      · exact sourceCoords_of_not_kept _ taken inside
  · rw [List.getElem?_eq_none (by simpa using inside), List.getElem?_eq_none (by simpa using inside)]

end ShuffleOrder

namespace Movement

/-- Shuffling twice is shuffling into the composed order. -/
theorem Shuffles.trans {inner outer order : ShuffleOrder} {input middle result : Tensor}
    (composed : Rules.compose inner outer = some order) (innerDistinct : inner.kept.Nodup)
    (outerDistinct : outer.kept.Nodup) (first : Shuffles inner input middle)
    (second : Shuffles outer middle result)
    : Shuffles order input result := by
  have innerLength : inner.length = middle.sizes.length := first.picks.length_eq
  have outerLength : outer.length = result.sizes.length := second.picks.length_eq
  refine ⟨?_, ?_, ?_⟩
  · intro axis member
    obtain ⟨inside, untaken⟩ := ShuffleOrder.mem_dropped.mp member
    by_cases taken : axis ∈ inner.kept
    · obtain ⟨place, found⟩ := ShuffleOrder.mem_kept_iff_exists.mp taken
      have bound := (List.getElem?_eq_some_iff.mp found).1
      have boundMiddle : place < middle.sizes.length := innerLength ▸ bound
      have dropped : place ∈ outer.dropped middle.sizes.length := by
        refine ShuffleOrder.mem_dropped.mpr ⟨boundMiddle, fun member => ?_⟩
        obtain ⟨other, atOther⟩ := ShuffleOrder.mem_kept_iff_exists.mp member
        exact untaken (ShuffleOrder.mem_kept_iff_exists.mpr
          ⟨other, (Rules.getElem?_compose_eq_axis_iff composed).mpr ⟨place, atOther, found⟩⟩)
      have one := second.dropped place dropped
      have picked := first.picks.get bound boundMiddle
      rw [List.get_eq_getElem, (List.getElem?_eq_some_iff.mp found).2] at picked
      rw [List.getElem?_eq_getElem boundMiddle] at one
      exact picked.trans one
    · exact first.dropped axis (ShuffleOrder.mem_dropped.mpr ⟨inside, taken⟩)
  · have orderLength : order.length = outer.length := by
      have each := congrArg List.length (Steps.mapM_eq_some_iff.mp composed)
      simpa using each.symm
    refine List.forall₂_iff_get.mpr ⟨orderLength.trans outerLength, ?_⟩
    intro place bound boundResult
    have boundOuter : place < outer.length := orderLength ▸ bound
    have picked := second.picks.get boundOuter boundResult
    have entry := Rules.getElem?_compose composed place
    rw [List.getElem?_eq_getElem bound, List.getElem?_eq_getElem boundOuter, Option.bind_some]
      at entry
    rw [List.get_eq_getElem, List.get_eq_getElem] at picked ⊢
    cases here : outer[place] with
    | broadcast =>
        rw [here] at entry picked
        obtain same : order[place] = .broadcast := Option.some.inj entry
        rw [same]
        exact picked
    | axis source =>
        rw [here] at entry picked
        have found : inner[source]? = some order[place] := entry.symm
        obtain ⟨boundInner, same⟩ := List.getElem?_eq_some_iff.mp found
        have boundMiddle : source < middle.sizes.length := innerLength ▸ boundInner
        have size : middle.sizes[source] = result.sizes[place] := by
          have picked : middle.sizes[source]? = some result.sizes[place] := picked
          rwa [List.getElem?_eq_getElem boundMiddle, Option.some.injEq] at picked
        have before := first.picks.get boundInner boundMiddle
        rw [List.get_eq_getElem, List.get_eq_getElem, same, size] at before
        exact before
  · refine (first.reads.trans second.reads).congr ?_
    intro coords point
    have length : coords.length = outer.length := point.length_eq.trans outerLength.symm
    simp only [Function.comp_apply]
    rw [← innerLength]
    exact ShuffleOrder.sourceCoords_sourceCoords composed innerDistinct outerDistinct length

/-- The identity order keeps all axes in their places. -/
theorem getElem?_identity {rank place : Nat} (inside : place < rank)
    : (ShuffleOrder.identity rank)[place]? = some (.axis place) := by
  rw [ShuffleOrder.identity, List.getElem?_map, List.getElem?_range inside, Option.map_some]

theorem nodup_kept_identity (rank : Nat) : (ShuffleOrder.identity rank).kept.Nodup := by
  have all : (ShuffleOrder.identity rank).kept = List.range rank := by
    rw [ShuffleOrder.identity, ShuffleOrder.kept, List.filterMap_map]
    exact List.filterMap_some
  rw [all]
  exact List.nodup_range

/-- Shuffling into the order of the axes changes nothing. -/
theorem Shuffles.eq_of_identity {input result : Tensor} (valid : input.Valid)
    (shuffles : Shuffles (ShuffleOrder.identity input.sizes.length) input result)
    : result = input := by
  have sizes : result.sizes = input.sizes := by
    apply List.ext_getElem
    · rw [← shuffles.picks.length_eq, ShuffleOrder.identity, List.length_map, List.length_range]
    · intro place boundResult bound
      have boundOrder := shuffles.picks.length_eq ▸ boundResult
      have picked := shuffles.picks.get boundOrder boundResult
      rw [List.get_eq_getElem,
        (List.getElem?_eq_some_iff.mp (getElem?_identity bound)).2] at picked
      have picked : input.sizes[place]? = some result.sizes[place] := picked
      rw [List.getElem?_eq_getElem bound] at picked
      exact (Option.some.inj picked).symm
  refine Tensor.Reads.eq_of_id (shuffles.reads.congr ?_) valid sizes
  intro coords point
  have length : coords.length = input.sizes.length := point.length_eq.trans (congrArg _ sizes)
  apply List.ext_getElem?
  intro place
  by_cases inside : place < input.sizes.length
  · have bound : place < coords.length := length ▸ inside
    rw [id, List.getElem?_eq_getElem bound]
    exact ShuffleOrder.sourceCoords_of_taken (nodup_kept_identity _) (getElem?_identity inside)
      (List.getElem?_eq_getElem bound) inside
  · rw [List.getElem?_eq_none (by simpa using inside), id,
      List.getElem?_eq_none (by simpa [length] using inside)]

end Movement

-----------------------------------------------------------------------------------------
-- Orders that keep the order
-----------------------------------------------------------------------------------------

namespace RowMajor

/-- The step of an axis is the number of positions behind it, by induction on the axes. -/
theorem getElem?_steps {sizes : List Nat} {axis : Nat} (inside : axis < sizes.length)
    : (steps sizes)[axis]? = some (count (sizes.drop (axis + 1))) := by
  induction sizes generalizing axis with
  | nil => exact absurd inside (Nat.not_lt_zero axis)
  | cons size sizes ih =>
      cases axis with
      | zero => rfl
      | succ axis => exact ih (Nat.lt_of_succ_lt_succ inside)

/-- Axes of one place in front do not change the number of positions. -/
theorem count_drop_of_ones {sizes : List Nat} {first last : Nat} (ordered : first ≤ last)
    (inside : last ≤ sizes.length)
    (ones : ∀ axis, first ≤ axis → axis < last → sizes[axis]? = some 1)
    : count (sizes.drop first) = count (sizes.drop last) := by
  induction ordered with
  | refl => rfl
  | step before ih =>
      rename_i last
      have one := ones last before (Nat.lt_succ_self last)
      have here := List.drop_eq_getElem_cons (l := sizes) (i := last) inside
      rw [List.getElem?_eq_getElem inside, Option.some.injEq] at one
      rw [ih (Nat.le_of_succ_le inside) fun axis above below =>
        ones axis above (Nat.lt_succ_of_lt below), here, one, count_cons, Nat.one_mul]

end RowMajor

namespace ShuffleOrder

theorem increasing_iff {numbers : List Nat}
    : increasing numbers = true ↔ numbers.Pairwise (· < ·) := by
  induction numbers with
  | nil => simp [increasing]
  | cons first rest ih =>
      cases rest with
      | nil => simp [increasing]
      | cons second rest =>
          rw [increasing, Bool.and_eq_true, decide_eq_true_eq, ih, List.pairwise_cons (a := first)]
          constructor
          · rintro ⟨before, ordered⟩
            refine ⟨?_, ordered⟩
            intro number member
            obtain rfl | member := List.mem_cons.mp member
            · exact before
            · exact Nat.lt_trans before ((List.pairwise_cons.mp ordered).1 number member)
          · rintro ⟨before, ordered⟩
            exact ⟨before second List.mem_cons_self, ordered⟩

/-- An order that keeps axes in their order keeps none twice. -/
theorem nodup_kept_of_preservesOrder {order : ShuffleOrder} (ordered : order.preservesOrder = true)
    : (kept order).Nodup :=
  (increasing_iff.mp ordered).imp Nat.ne_of_lt

/-- Sizes in an order that keeps axes in their order have the positions of the source, and so have
the points, if the axes that are left out have one place. By induction on the order; axes before
`start` are left aside.
-/
theorem position_of_preservesOrder {sizes picked steps : List Nat} {start : Nat}
    {order : ShuffleOrder} (picks : Picks sizes 1 order picked)
    (moves : Picks (RowMajor.steps sizes) 0 order steps)
    (ordered : (kept order).Pairwise (· < ·)) (behind : ∀ axis ∈ kept order, start ≤ axis)
    (ones : ∀ axis, start ≤ axis → axis < sizes.length → axis ∉ kept order → sizes[axis]? = some 1)
    : RowMajor.count picked = RowMajor.count (sizes.drop start)
      ∧ ∀ coords, RowMajor.Inside coords picked
          → RowMajor.position coords steps = RowMajor.position coords (RowMajor.steps picked) := by
  induction picks generalizing steps start with
  | nil =>
      constructor
      · obtain before | after := Nat.le_or_ge start sizes.length
        · rw [RowMajor.count_drop_of_ones before (Nat.le_refl _) fun axis above below =>
            ones axis above below List.not_mem_nil, List.drop_length]
        · rw [List.drop_eq_nil_of_le after]
      · rintro coords ⟨⟩
        simp
  | cons here later ih =>
      rename_i axis size order picked
      cases moves with
      | cons move moves =>
          rename_i step steps
          cases axis with
          | broadcast =>
              obtain rfl : size = 1 := here
              obtain ⟨counts, positions⟩ := ih moves ordered behind ones
              refine ⟨by rw [RowMajor.count_cons, Nat.one_mul, counts], ?_⟩
              rintro _ ⟨⟩
              rename_i coord coords first point
              obtain rfl : coord = 0 := Nat.lt_one_iff.mp first
              rw [RowMajor.steps, RowMajor.position_cons, RowMajor.position_cons, Nat.zero_mul,
                Nat.zero_mul, positions coords point]
          | axis source =>
              have here : sizes[source]? = some size := here
              have move : (RowMajor.steps sizes)[source]? = some step := move
              obtain ⟨inside, same⟩ := List.getElem?_eq_some_iff.mp here
              rw [kept_cons_axis, List.pairwise_cons] at ordered
              have above := behind source List.mem_cons_self
              obtain ⟨counts, positions⟩ := @ih _ (source + 1) moves ordered.2
                (fun axis member => ordered.1 axis member)
                (fun axis after bound untaken =>
                  ones axis (Nat.le_trans above (Nat.le_of_succ_le after)) bound (by
                    rw [kept_cons_axis, List.mem_cons, not_or]
                    exact ⟨Nat.ne_of_gt after, untaken⟩))
              rw [RowMajor.getElem?_steps inside, Option.some.injEq] at move
              constructor
              · rw [RowMajor.count_cons, counts, RowMajor.count_drop_of_ones above (Nat.le_of_lt inside),
                  List.drop_eq_getElem_cons inside, same, RowMajor.count_cons]
                intro axis after before
                refine ones axis after (Nat.lt_trans before inside) ?_
                rw [kept_cons_axis, List.mem_cons, not_or]
                exact ⟨Nat.ne_of_lt before, fun member => Nat.lt_asymm before (ordered.1 _ member)⟩
              · rintro _ ⟨⟩
                rename_i coord coords first point
                rw [RowMajor.steps, RowMajor.position_cons, RowMajor.position_cons,
                  positions coords point, ← move, counts]

end ShuffleOrder

namespace Movement

/-- A shuffle that keeps axes in their order keeps all elements in their order. -/
theorem Shuffles.elements {order : ShuffleOrder} {input result : Tensor}
    (ordered : order.preservesOrder = true) (valid : input.Valid)
    (shuffles : Shuffles order input result)
    : result.elements = input.elements := by
  obtain ⟨steps, moves⟩ := exists_steps shuffles.picks
  have distinct := ShuffleOrder.nodup_kept_of_preservesOrder ordered
  obtain ⟨counts, positions⟩ := @ShuffleOrder.position_of_preservesOrder _ _ _ 0 _
    shuffles.picks moves (ShuffleOrder.increasing_iff.mp ordered) (fun axis _ => Nat.zero_le axis)
    (fun axis _ inside untaken =>
      shuffles.dropped axis (ShuffleOrder.mem_dropped.mpr ⟨inside, untaken⟩))
  have read := shuffles.reads.gathers
  have all
      : ((RowMajor.points result.sizes).map fun coords =>
          RowMajor.position (order.sourceCoords input.sizes.length coords)
            (RowMajor.steps input.sizes))
        = List.range input.elements.size := by
    rw [show input.elements.size = RowMajor.count input.sizes from valid]
    rw [List.drop_zero] at counts
    rw [← counts, ← Tensor.map_position_points]
    apply List.map_congr_left
    intro coords member
    have point := RowMajor.mem_points.mp member
    have length := point.length_eq.trans shuffles.picks.length_eq.symm
    have moved := ShuffleOrder.position_sourceCoords moves distinct length
    rw [RowMajor.length_steps] at moved
    rw [← moved, positions coords point]
  rw [all, Elements.gather?_range] at read
  exact (Option.some.inj read).symm

end Movement

end Dataflow

import Dataflow.Proofs.Tensor.Indexing
import Dataflow.Proofs.Typing.Shuffles
import Mathlib.Algebra.Group.Nat.Defs

/-!
Types of indexed tensors and shuffles. An axis that is sliced and then dropped can be indexed at
once, as long as signed words can count its places.
-/

namespace Dataflow

-----------------------------------------------------------------------------------------
-- Axes that are left out
-----------------------------------------------------------------------------------------

/-- Items without those at some axes; the first item is at `axis`. -/
def withoutAxes {α : Type} (dropped : List Nat) (axis : Nat) (items : List α) : List α :=
  (items.zipIdx axis).filterMap fun entry =>
    if dropped.contains entry.2 then none else some entry.1

/-- An order without new axes that keeps axes in their order leaves the others out. -/
theorem ShuffleOrder.items?_eq_withoutAxes {α : Type} {order : ShuffleOrder} {unit : α}
    {items picked : List α} (plain : order.insertsAxes = false)
    (ordered : order.preservesOrder = true) (taken : order.items? unit items = some picked)
    : picked = withoutAxes (order.dropped items.length) 0 items := by
  have plain : .broadcast ∉ order := by simpa [insertsAxes] using plain
  have found := @filterMap_of_items? _ _ _ _ _ _ some (fun member => absurd member plain) taken
  rw [List.filterMap_some] at found
  rw [found, kept_eq_filter ordered fun source member => lt_of_mem_kept taken member,
    List.filterMap_filter, withoutAxes, ← filterMap_range _ (items.zipIdx 0), List.length_zipIdx]
  refine List.filterMap_congr fun axis member => ?_
  have inside := List.mem_range.mp member
  have untaken : axis ∈ order.dropped items.length ↔ axis ∉ order.kept :=
    mem_dropped.trans (and_iff_right inside)
  rw [List.getElem?_zipIdx, List.getElem?_eq_getElem inside]
  by_cases kept : axis ∈ order.kept <;> simp [kept, untaken]

theorem withoutAxes_cons_of_dropped {α : Type} {dropped : List Nat} {axis : Nat} (item : α)
    (items : List α) (found : dropped.contains axis = true)
    : withoutAxes dropped axis (item :: items) = withoutAxes dropped (axis + 1) items := by
  rw [withoutAxes, List.zipIdx_cons, List.filterMap_cons, if_pos found]
  rfl

theorem withoutAxes_cons_of_kept {α : Type} {dropped : List Nat} {axis : Nat} (item : α)
    (items : List α) (other : ¬dropped.contains axis = true)
    : withoutAxes dropped axis (item :: items) = item :: withoutAxes dropped (axis + 1) items := by
  rw [withoutAxes, List.zipIdx_cons, List.filterMap_cons, if_neg other]
  rfl

namespace Typing

variable {types rest : List ValueType} {type : ValueType} {entries folded : List IndexEntry}
  {order : ShuffleOrder} {value : TensorType}

-----------------------------------------------------------------------------------------
-- Indexing
-----------------------------------------------------------------------------------------

theorem subtensor_eq_ok_iff
    : subtensor entries (.tensor value :: rest) = .ok type
      ↔ indicesAt (.tensor value :: rest) (entries.flatMap IndexEntry.operands) = .ok ()
        ∧ rest.length = (entries.flatMap IndexEntry.operands).length
        ∧ entries.length ≤ value.rank
        ∧ ∃ dims,
            indexedDims 0 value.shape.dims entries = .ok dims
            ∧ type = .tensor ⟨value.dtype, ⟨dims⟩⟩ := by
  have first : tensorAt (.tensor value :: rest) 0 = .ok value := rfl
  have arities : rest.length + 1 = 1 + (entries.flatMap IndexEntry.operands).length
      ↔ rest.length = (entries.flatMap IndexEntry.operands).length := by omega
  rw [subtensor, first, Steps.ok_bind]
  simp only [Steps.bind_eq_ok_iff, arity_eq_ok_iff, List.length_cons, arities, indexedShape]
  constructor
  · rintro ⟨_, indices, _, arity, shape, done, same⟩
    split_ifs at done with short
    obtain ⟨dims, indexed, same'⟩ := Steps.bind_eq_ok_iff.mp done
    obtain rfl := Except.ok.inj same'
    exact ⟨indices, arity, Nat.le_of_not_lt short, dims, indexed, (Except.ok.inj same).symm⟩
  · rintro ⟨indices, arity, rank, dims, indexed, rfl⟩
    refine ⟨(), indices, (), arity, ⟨dims⟩, ?_, rfl⟩
    rw [if_neg (Nat.not_lt.mpr rank : ¬value.shape.rank < entries.length), indexed]
    rfl

-----------------------------------------------------------------------------------------
-- Folded axes
-----------------------------------------------------------------------------------------

theorem operands_of_singleIndex? {bounds : SliceBounds} {dim : Dimension} {index : Int}
    (single : Rules.singleIndex? bounds dim = some index)
    : bounds.operands = [] := by
  rw [Rules.singleIndex?] at single
  split at single
  · cases single
  · assumption

theorem exists_walk_of_walk? {bounds : SliceBounds} {length : Nat} {walk : Slice.Walk}
    (walked : bounds.walk? length = some walk)
    : ∃ start stop step, walk = Slice.walk length start stop step := by
  obtain ⟨start, -, walked⟩ := Option.bind_eq_some_iff.mp walked
  obtain ⟨stop, -, walked⟩ := Option.bind_eq_some_iff.mp walked
  obtain ⟨step, -, walked⟩ := Option.bind_eq_some_iff.mp walked
  exact ⟨start, stop, step, (Option.some.inj walked).symm⟩

/-- An index that stands for a slice of one place is in bounds. -/
theorem indexedDim_of_singleIndex? {bounds : SliceBounds} {dim : Dimension} {index : Int}
    {number : Nat} (single : Rules.singleIndex? bounds dim = some index)
    (unit : bounds.extent dim = .static 1) (small : ∀ size, dim = .static size → size < 2 ^ 63)
    : indexedDim number dim (.scalar (.static index)) = .ok none := by
  cases dim with
  | unknown => rfl
  | static length =>
      have signed : signedSize length = length := if_pos (small length rfl)
      have found : (Slice.position? index length).isSome = true := by
        rw [Rules.singleIndex?, operands_of_singleIndex? single] at single
        dsimp only at single
        split_ifs at single with simple
        · obtain rfl := Option.some.inj single
          have one : length = 1 := by
            rw [Bool.or_eq_true, SliceBounds.isFull, decide_eq_true_eq] at simple
            rcases simple with rfl | alone
            · have counted : (Slice.walk length none none none).count = 1 := Dimension.static.inj unit
              rw [Slice.count_full, signed] at counted
              omega
            · simpa [Dimension.isUnit] using alone
          rw [Slice.position?_zero (by rw [signed, one]; rfl)]
          rfl
        · obtain ⟨_, known, single⟩ := Option.bind_eq_some_iff.mp single
          obtain rfl := Option.some.inj known
          obtain ⟨walk, walked, single⟩ := Option.bind_eq_some_iff.mp single
          obtain rfl := Option.some.inj single
          have counted : walk.count = 1 := by
            rw [SliceBounds.extent, walked] at unit
            exact Dimension.static.inj unit
          obtain ⟨start, stop, step, rfl⟩ := exists_walk_of_walk? walked
          have below := @Slice.lt_of_mem_positions length start stop step _
            (by rw [Slice.positions_of_count_one counted]; exact List.mem_singleton_self _)
          have above := @Slice.start_nonneg length start stop step (by omega) (by omega)
          rw [Slice.position?, signed, if_neg (Int.not_lt.mpr above), if_pos ⟨above, by omega⟩]
          rfl
      rw [indexedDim, if_pos found]

/-- How dropped axes are folded into entries, axis by axis. -/
inductive Folds (dropped : List Nat)
    : Nat → List Dimension → List IndexEntry → List IndexEntry → Prop where
  | done {axis : Nat} {entries : List IndexEntry} : Folds dropped axis [] entries entries
  | scalar {axis : Nat} {dim : Dimension} {dims : List Dimension} {index : IndexScalar}
      {entries folded : List IndexEntry} (behind : Folds dropped axis dims entries folded)
    : Folds dropped axis (dim :: dims) (.scalar index :: entries) (.scalar index :: folded)
  | drop {axis : Nat} {dim : Dimension} {dims : List Dimension} {bounds : SliceBounds} {index : Int}
      {entries folded : List IndexEntry} (found : dropped.contains axis = true)
      (single : Rules.singleIndex? bounds dim = some index)
      (behind : Folds dropped (axis + 1) dims entries folded)
    : Folds dropped axis (dim :: dims) (.slice bounds :: entries)
        (.scalar (.static index) :: folded)
  | keep {axis : Nat} {dim : Dimension} {dims : List Dimension} {bounds : SliceBounds}
      {entries folded : List IndexEntry} (other : ¬dropped.contains axis = true)
      (behind : Folds dropped (axis + 1) dims entries folded)
    : Folds dropped axis (dim :: dims) (.slice bounds :: entries) (.slice bounds :: folded)
  | dropWhole {axis : Nat} {dim : Dimension} {dims : List Dimension} {index : Int}
      {folded : List IndexEntry} (found : dropped.contains axis = true)
      (single : Rules.singleIndex? .full dim = some index)
      (behind : Folds dropped (axis + 1) dims [] folded)
    : Folds dropped axis (dim :: dims) [] (.scalar (.static index) :: folded)
  | keepWhole {axis : Nat} {dim : Dimension} {dims : List Dimension} {folded : List IndexEntry}
      (other : ¬dropped.contains axis = true) (behind : Folds dropped (axis + 1) dims [] folded)
    : Folds dropped axis (dim :: dims) [] (.slice .full :: folded)
  | stop {axis : Nat} {dim : Dimension} {dims : List Dimension}
      (other : ¬dropped.contains axis = true) (behind : Folds dropped (axis + 1) dims [] [])
    : Folds dropped axis (dim :: dims) [] []

/-- By induction on the axes. -/
theorem folds_of_foldDropped {dropped : List Nat} {axis : Nat} {dims : List Dimension}
    (folds : Rules.foldDropped dropped axis dims entries = some folded)
    : Folds dropped axis dims entries folded := by
  induction dims generalizing axis entries folded with
  | nil =>
      obtain rfl := Option.some.inj folds
      exact .done
  | cons dim dims ih =>
      cases entries with
      | nil =>
          rw [Rules.foldDropped] at folds
          split_ifs at folds with found
          · obtain ⟨index, single, folds⟩ := Option.bind_eq_some_iff.mp folds
            obtain ⟨rest, behind, folds⟩ := Option.bind_eq_some_iff.mp folds
            obtain rfl := Option.some.inj folds
            exact .dropWhole found single (ih behind)
          · obtain ⟨rest, behind, folds⟩ := Option.bind_eq_some_iff.mp folds
            obtain rfl := Option.some.inj folds
            split_ifs with none
            · obtain rfl := List.isEmpty_iff.mp none
              exact .stop found (ih behind)
            · exact .keepWhole found (ih behind)
      | cons entry entries =>
          cases entry with
          | scalar scalar =>
              obtain ⟨rest, behind, rfl⟩ := Option.map_eq_some_iff.mp folds
              exact .scalar (ih behind)
          | slice bounds =>
              rw [Rules.foldDropped] at folds
              split_ifs at folds with found
              · obtain ⟨index, single, folds⟩ := Option.bind_eq_some_iff.mp folds
                obtain ⟨rest, behind, folds⟩ := Option.bind_eq_some_iff.mp folds
                obtain rfl := Option.some.inj folds
                exact .drop found single (ih behind)
              · obtain ⟨rest, behind, rfl⟩ := Option.map_eq_some_iff.mp folds
                exact .keep found (ih behind)

namespace Folds

variable {dropped : List Nat} {axis number number' : Nat} {dims result left : List Dimension}

/-- Entries with dropped axes folded into them read the same operands. -/
theorem operands (folds : Folds dropped axis dims entries folded)
    : folded.flatMap IndexEntry.operands = entries.flatMap IndexEntry.operands := by
  induction folds with
  | done => rfl
  | scalar _ ih | keep _ _ ih => rw [List.flatMap_cons, List.flatMap_cons, ih]
  | drop _ single _ ih =>
      rw [List.flatMap_cons, List.flatMap_cons, ih]
      exact congrArg (· ++ _) (operands_of_singleIndex? single).symm
  | dropWhole _ _ _ ih | keepWhole _ _ ih => exact ih
  | stop => rfl

theorem length_le (folds : Folds dropped axis dims entries folded)
    (rank : entries.length ≤ dims.length)
    : folded.length ≤ dims.length := by
  induction folds with
  | done => exact rank
  | scalar _ ih | keep _ _ ih | drop _ _ _ ih =>
      exact Nat.succ_le_succ (ih (Nat.le_of_succ_le_succ rank))
  | dropWhole _ _ _ ih | keepWhole _ _ ih => exact Nat.succ_le_succ (ih (Nat.zero_le _))
  | stop => exact Nat.zero_le _

theorem indexedDims_nil (number : Nat) (dims : List Dimension)
    : indexedDims number dims [] = .ok dims := by
  cases dims <;> rfl

theorem indexedDims_cons_eq_ok_iff {dim : Dimension} {entry : IndexEntry}
    : indexedDims number (dim :: dims) (entry :: entries) = .ok result
      ↔ ∃ first rest,
          indexedDim number dim entry = .ok first
          ∧ indexedDims (number + 1) dims entries = .ok rest
          ∧ result = first.toList ++ rest := by
  simp only [indexedDims, Steps.bind_eq_ok_iff]
  constructor
  · rintro ⟨first, here, rest, later, same⟩
    exact ⟨first, rest, here, later, (Except.ok.inj same).symm⟩
  · rintro ⟨first, rest, here, later, rfl⟩
    exact ⟨first, here, rest, later, rfl⟩

/-- Whether an axis can be indexed does not depend on its number. -/
theorem indexedDim_renumber {dim : Dimension} {entry : IndexEntry} {first : Option Dimension}
    (here : indexedDim number dim entry = .ok first) (number' : Nat)
    : indexedDim number' dim entry = .ok first := by
  cases entry with
  | slice bounds => exact here
  | scalar index =>
      cases index with
      | operand position => exact here
      | static index =>
          cases dim with
          | unknown => exact here
          | static size =>
              rw [indexedDim] at here ⊢
              split_ifs at here ⊢
              exact here

theorem none_of_scalar {dim : Dimension} {index : IndexScalar} {first : Option Dimension}
    (here : indexedDim number dim (.scalar index) = .ok first)
    : first = none := by
  cases index with
  | operand position => exact (Except.ok.inj here).symm
  | static index =>
      cases dim with
      | unknown => exact (Except.ok.inj here).symm
      | static size =>
          rw [indexedDim] at here
          split_ifs at here
          exact (Except.ok.inj here).symm

theorem extent_of_slice {dim : Dimension} {bounds : SliceBounds} {first : Option Dimension}
    (here : indexedDim number dim (.slice bounds) = .ok first)
    : first = some (bounds.extent dim) := by
  rw [indexedDim] at here
  split_ifs at here
  exact (Except.ok.inj here).symm

theorem extent_full {dim : Dimension} (small : ∀ size, dim = .static size → size < 2 ^ 63)
    : SliceBounds.full.extent dim = dim := by
  cases dim with
  | unknown => rfl
  | static length =>
      have signed : signedSize length = length := if_pos (small length rfl)
      have counted : (Slice.walk length none none none).count = length := by
        rw [Slice.count_full, signed, Int.toNat_natCast]
      exact congrArg Dimension.static counted

/-- A full slice of more places than words can count has none of them. -/
theorem extent_full_clash (dim : Dimension)
    : dim = SliceBounds.full.extent dim ∨ dim.meet (SliceBounds.full.extent dim) = none := by
  cases dim with
  | unknown => exact .inl rfl
  | static length =>
      have counted
          : SliceBounds.full.extent (.static length) = .static (signedSize length).toNat :=
        congrArg Dimension.static (Slice.count_full length)
      rw [counted]
      by_cases same : length = (signedSize length).toNat
      · exact .inl (congrArg Dimension.static same)
      · exact .inr (if_neg same)

/-- All dropped axes of some extents have extent one; the first extent is that of `axis`. -/
def Units (dropped : List Nat) (axis : Nat) (dims : List Dimension) : Prop :=
  ∀ place dim, dropped.contains (axis + place) = true → dims[place]? = some dim → dim = .static 1

theorem Units.head {dim : Dimension} (units : Units dropped axis (dim :: dims))
    (found : dropped.contains axis = true)
    : dim = .static 1 :=
  units 0 dim found rfl

theorem Units.tail {dim : Dimension} (units : Units dropped axis (dim :: dims))
    : Units dropped (axis + 1) dims := by
  intro place other found here
  exact units (place + 1) other (by rwa [Nat.add_right_comm] at found) here

/-- Axes that are dropped behind an indexed tensor can be indexed at once if words can count them. -/
theorem indexedDims_eq (folds : Folds dropped axis dims entries folded)
    (typed : indexedDims number dims entries = .ok result) (units : Units dropped axis result)
    (small : ∀ size, .static size ∈ dims → size < 2 ^ 63) (number' : Nat)
    : indexedDims number' dims folded = .ok (withoutAxes dropped axis result) := by
  induction folds generalizing number number' result with
  | @done _ entries =>
      cases entries with
      | nil | cons =>
          obtain rfl := Except.ok.inj typed
          rfl
  | scalar _ ih =>
      obtain ⟨first, rest, here, later, rfl⟩ := indexedDims_cons_eq_ok_iff.mp typed
      obtain rfl := none_of_scalar here
      refine indexedDims_cons_eq_ok_iff.mpr ⟨none, _, indexedDim_renumber here number',
        ih later units (fun size member => small size (List.mem_cons_of_mem _ member)) _, rfl⟩
  | keep other _ ih =>
      obtain ⟨first, rest, here, later, rfl⟩ := indexedDims_cons_eq_ok_iff.mp typed
      obtain rfl := extent_of_slice here
      refine indexedDims_cons_eq_ok_iff.mpr ⟨_, _, indexedDim_renumber here number',
        ih later units.tail (fun size member => small size (List.mem_cons_of_mem _ member)) _, ?_⟩
      exact withoutAxes_cons_of_kept _ _ other
  | drop found single _ ih =>
      obtain ⟨first, rest, here, later, rfl⟩ := indexedDims_cons_eq_ok_iff.mp typed
      obtain rfl := extent_of_slice here
      have first := @indexedDim_of_singleIndex? _ _ _ number' single (units.head found)
        fun size same => small size (same ▸ List.mem_cons_self)
      refine indexedDims_cons_eq_ok_iff.mpr ⟨none, _, first,
        ih later units.tail (fun size member => small size (List.mem_cons_of_mem _ member)) _, ?_⟩
      exact withoutAxes_cons_of_dropped _ _ found
  | dropWhole found single _ ih =>
      rw [indexedDims_nil] at typed
      obtain rfl := Except.ok.inj typed
      have fits : ∀ size, _ = Dimension.static size → size < 2 ^ 63 := fun size same =>
        small size (same ▸ List.mem_cons_self)
      have unit := units.head found
      rw [← extent_full fits] at unit
      have first := @indexedDim_of_singleIndex? _ _ _ number' single unit fits
      refine indexedDims_cons_eq_ok_iff.mpr ⟨none, _, first,
        ih (indexedDims_nil 0 _) units.tail
          (fun size member => small size (List.mem_cons_of_mem _ member)) _, ?_⟩
      exact withoutAxes_cons_of_dropped _ _ found
  | keepWhole other _ ih =>
      rw [indexedDims_nil] at typed
      obtain rfl := Except.ok.inj typed
      refine indexedDims_cons_eq_ok_iff.mpr ⟨some _, _, rfl,
        ih (indexedDims_nil 0 _) units.tail
          (fun size member => small size (List.mem_cons_of_mem _ member)) _, ?_⟩
      rw [extent_full fun size same => small size (same ▸ List.mem_cons_self)]
      exact withoutAxes_cons_of_kept _ _ other
  | stop other _ ih =>
      rw [indexedDims_nil] at typed ⊢
      obtain rfl := Except.ok.inj typed
      have behind := ih (indexedDims_nil 0 _) units.tail
        (fun size member => small size (List.mem_cons_of_mem _ member)) 0
      rw [indexedDims_nil] at behind
      rw [withoutAxes_cons_of_kept _ _ other, ← Except.ok.inj behind]

/-- In any case, each extent stays or contradicts the one that was there. -/
theorem clash (folds : Folds dropped axis dims entries folded)
    (typed : indexedDims number dims entries = .ok result)
    (done : indexedDims number' dims folded = .ok left)
    : List.Forall₂ (fun old new => old = new ∨ Dimension.meet old new = none)
        (withoutAxes dropped axis result) left := by
  induction folds generalizing number number' result left with
  | @done _ entries =>
      cases entries with
      | nil | cons =>
          obtain rfl := Except.ok.inj typed
          obtain rfl := Except.ok.inj done
          exact .nil
  | scalar _ ih =>
      obtain ⟨first, rest, here, later, rfl⟩ := indexedDims_cons_eq_ok_iff.mp typed
      obtain ⟨first', rest', here', later', rfl⟩ := indexedDims_cons_eq_ok_iff.mp done
      obtain rfl := none_of_scalar here
      obtain rfl := none_of_scalar here'
      exact ih later later'
  | keep other _ ih =>
      obtain ⟨first, rest, here, later, rfl⟩ := indexedDims_cons_eq_ok_iff.mp typed
      obtain ⟨first', rest', here', later', rfl⟩ := indexedDims_cons_eq_ok_iff.mp done
      obtain rfl := extent_of_slice here
      obtain rfl := extent_of_slice here'
      exact (withoutAxes_cons_of_kept _ rest other).symm ▸ .cons (.inl rfl) (ih later later')
  | drop found _ _ ih =>
      obtain ⟨first, rest, here, later, rfl⟩ := indexedDims_cons_eq_ok_iff.mp typed
      obtain ⟨first', rest', here', later', rfl⟩ := indexedDims_cons_eq_ok_iff.mp done
      obtain rfl := extent_of_slice here
      obtain rfl := none_of_scalar here'
      exact (withoutAxes_cons_of_dropped _ rest found).symm ▸ ih later later'
  | dropWhole found _ _ ih =>
      rw [indexedDims_nil] at typed
      obtain rfl := Except.ok.inj typed
      obtain ⟨first, rest, here, later, rfl⟩ := indexedDims_cons_eq_ok_iff.mp done
      obtain rfl := none_of_scalar here
      exact (withoutAxes_cons_of_dropped _ _ found).symm ▸ ih (indexedDims_nil 0 _) later
  | keepWhole other _ ih =>
      rw [indexedDims_nil] at typed
      obtain rfl := Except.ok.inj typed
      obtain ⟨first, rest, here, later, rfl⟩ := indexedDims_cons_eq_ok_iff.mp done
      obtain rfl := extent_of_slice here
      exact (withoutAxes_cons_of_kept _ _ other).symm ▸
        .cons (extent_full_clash _) (ih (indexedDims_nil 0 _) later)
  | stop other _ ih =>
      rw [indexedDims_nil] at typed done
      obtain rfl := Except.ok.inj typed
      obtain rfl := Except.ok.inj done
      exact (withoutAxes_cons_of_kept _ _ other).symm ▸
        .cons (.inl rfl) (ih (indexedDims_nil 0 _) (indexedDims_nil 0 _))

end Folds

-----------------------------------------------------------------------------------------
-- Shuffles of parts
-----------------------------------------------------------------------------------------

/-- Extents that are compatible and do not contradict each other are the same. -/
theorem eq_of_clash {olds news : List Dimension}
    (clash : List.Forall₂ (fun old new => old = new ∨ Dimension.meet old new = none) olds news)
    (compatible : (olds.zip news).all (fun (old, new) => (old.meet new).isSome) = true)
    : olds = news := by
  induction clash with
  | nil => rfl
  | cons here _ ih =>
      rw [List.zip_cons_cons, List.all_cons, Bool.and_eq_true] at compatible
      rcases here with rfl | none
      · rw [ih compatible.2]
      · exact absurd compatible.1 (by simp [none])

variable {sliced : TensorType}

/-- What a shuffle leaves of an indexed tensor. -/
theorem exists_of_sliced (plain : order.insertsAxes = false) (ordered : order.preservesOrder = true)
    (inner : subtensor entries (.tensor value :: rest) = .ok (.tensor sliced))
    (outer : shuffle order [.tensor sliced] = .ok type)
    : indexedDims 0 value.shape.dims entries = .ok sliced.shape.dims
      ∧ Folds.Units (order.dropped sliced.rank) 0 sliced.shape.dims
      ∧ type
        = .tensor
            ⟨value.dtype, ⟨withoutAxes (order.dropped sliced.rank) 0 sliced.shape.dims⟩⟩ := by
  obtain ⟨-, -, -, dims, indexed, same⟩ := subtensor_eq_ok_iff.mp inner
  obtain rfl := ValueType.tensor.inj same
  obtain ⟨_, result, same, shapes, rfl⟩ := shuffle_eq_ok_iff.mp outer
  obtain rfl := ValueType.tensor.inj (List.head_eq_of_cons_eq same)
  refine ⟨indexed, fun place dim found here => ?_, ?_⟩
  · rw [Nat.zero_add, List.contains_iff_mem, ShuffleOrder.mem_dropped] at found
    exact shapes.units place dim here found.2
  · rw [ShuffleOrder.items?_eq_withoutAxes plain ordered shapes.taken]
    rfl

/-- Axes that are dropped behind an indexed tensor can be indexed at once, if words can count them. -/
theorem subtensor_of_shuffle (plain : order.insertsAxes = false)
    (ordered : order.preservesOrder = true)
    (inner : subtensor entries (.tensor value :: rest) = .ok (.tensor sliced))
    (outer : shuffle order [.tensor sliced] = .ok type)
    (folds
      : Rules.foldDropped (order.dropped sliced.rank) 0 value.shape.dims entries = some folded)
    (small : ∀ size, .static size ∈ value.shape.dims → size < 2 ^ 63)
    : subtensor folded (.tensor value :: rest) = .ok type := by
  obtain ⟨indexed, units, rfl⟩ := exists_of_sliced plain ordered inner outer
  obtain ⟨indices, arity, rank, -⟩ := subtensor_eq_ok_iff.mp inner
  have folds := folds_of_foldDropped folds
  rw [← folds.operands] at indices arity
  exact subtensor_eq_ok_iff.mpr ⟨indices, arity, folds.length_le rank, _,
    folds.indexedDims_eq indexed units small 0, rfl⟩

/-- In any case, the type stays or is not compatible with what was there. -/
theorem subtensor_clash (plain : order.insertsAxes = false) (ordered : order.preservesOrder = true)
    (inner : subtensor entries (.tensor value :: rest) = .ok (.tensor sliced))
    (outer : shuffle order [.tensor sliced] = .ok type)
    (folds
      : Rules.foldDropped (order.dropped sliced.rank) 0 value.shape.dims entries = some folded)
    {other : ValueType} (done : subtensor folded (.tensor value :: rest) = .ok other)
    (compatible : type.compatibleWith other = true)
    : type = other := by
  obtain ⟨indexed, -, rfl⟩ := exists_of_sliced plain ordered inner outer
  obtain ⟨-, -, -, dims, indexed', rfl⟩ := subtensor_eq_ok_iff.mp done
  have clash := (folds_of_foldDropped folds).clash indexed indexed'
  rw [ValueType.compatibleWith, TensorType.compatibleWith, TensorType.agreeOn, Bool.and_eq_true]
    at compatible
  rw [eq_of_clash clash compatible.2]

end Typing

end Dataflow

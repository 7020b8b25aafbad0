import Dataflow.Proofs.Typing.Monotonicity
import Mathlib.Data.Set.List
import Mathlib.Order.Bounds.Basic

/-!
What the orders of types mean. A type accepts another one iff it describes every value that the
other one describes; two types are compatible iff some type is accepted by both; and the join of two
tensor types is the least type that accepts both. So the type of a list does not depend on the order
of its elements.
-/

namespace Dataflow

-----------------------------------------------------------------------------------------
-- Extents
-----------------------------------------------------------------------------------------

namespace Dimension

variable {a b c : Dimension}

theorem accepts_trans (first : a.accepts b = true) (second : b.accepts c = true)
    : a.accepts c = true := by
  rw [accepts_iff] at first second ⊢
  rcases first with rfl | rfl
  · exact .inl rfl
  · exact second

theorem accepts_antisymm (first : a.accepts b = true) (second : b.accepts a = true) : a = b := by
  rw [accepts_iff] at first second
  rcases first with rfl | rfl
  · rcases second with rfl | same
    · rfl
    · exact same.symm
  · rfl

/-- Two extents meet iff some extent is accepted by both. -/
theorem isSome_meet_iff
    : (a.meet b).isSome = true ↔ ∃ common, a.accepts common = true ∧ b.accepts common = true := by
  simp only [accepts_iff]
  cases a with
  | unknown => exact iff_of_true rfl ⟨b, .inl rfl, .inr rfl⟩
  | static size =>
      cases b with
      | unknown => exact iff_of_true rfl ⟨.static size, .inr rfl, .inl rfl⟩
      | static other =>
          constructor
          · intro meets
            have same : size = other := by simpa [meet] using meets
            exact ⟨.static size, .inr rfl, .inr (congrArg static same.symm)⟩
          · rintro ⟨common, first | first, second | second⟩
            any_goals cases first
            · cases second
            · simp [meet, static.inj second]

/-- What accepts the join of two extents accepts both. -/
theorem accepts_join_iff {upper : Dimension}
    : upper.accepts (a.join b) = true ↔ upper.accepts a = true ∧ upper.accepts b = true := by
  simp only [accepts_iff, join]
  split_ifs with same
  · rw [same, and_self]
  · -- An extent that is one of two different ones does not accept the other one.
    grind

end Dimension

namespace Accepts

variable {a b c : List Dimension}

theorem trans (first : Accepts a b) (second : Accepts b c) : Accepts a c := by
  induction first generalizing c with
  | nil => exact second
  | cons here _ ih =>
      cases second with
      | cons there rest => exact .cons (Dimension.accepts_trans here there) (ih rest)

theorem antisymm (first : Accepts a b) (second : Accepts b a) : a = b := by
  induction first with
  | nil => rfl
  | cons here _ ih =>
      cases second with
      | cons there rest => rw [Dimension.accepts_antisymm here there, ih rest]

/-- Extents meet axis by axis iff some extents are accepted by both, by induction on the axes. -/
theorem forall₂_meet_iff
    : List.Forall₂ (fun x y => (Dimension.meet x y).isSome = true) a b
      ↔ ∃ common, Accepts a common ∧ Accepts b common := by
  constructor
  · intro meets
    induction meets with
    | nil => exact ⟨[], .nil, .nil⟩
    | cons here _ ih =>
        obtain ⟨dim, first, second⟩ := Dimension.isSome_meet_iff.mp here
        obtain ⟨dims, rest, rest'⟩ := ih
        exact ⟨dim :: dims, .cons first rest, .cons second rest'⟩
  · rintro ⟨common, first, second⟩
    induction first generalizing b with
    | nil =>
        cases second
        exact .nil
    | cons here _ ih =>
        cases second with
        | cons there rest => exact .cons (Dimension.isSome_meet_iff.mpr ⟨_, here, there⟩) (ih rest)

/-- What accepts the joined extents accepts both lists, by induction on the axes. -/
theorem join_iff {upper : List Dimension} (aligned : a.length = b.length)
    : Accepts upper (List.zipWith Dimension.join a b) ↔ Accepts upper a ∧ Accepts upper b := by
  induction a generalizing b upper with
  | nil =>
      obtain rfl := List.length_eq_zero_iff.mp aligned.symm
      simp
  | cons x a ih =>
      obtain ⟨y, b, rfl⟩ := List.exists_cons_of_length_eq_add_one aligned.symm
      cases upper with
      | nil => simp
      | cons z upper =>
          have later := @ih b upper (Nat.succ.inj aligned)
          simp only [Accepts] at later
          simp only [Accepts, List.zipWith_cons_cons, List.forall₂_cons, Dimension.accepts_join_iff,
            later, and_and_and_comm]

end Accepts

-----------------------------------------------------------------------------------------
-- Tensor types
-----------------------------------------------------------------------------------------

namespace TensorType

variable {a b c : TensorType}

theorem accepts_trans (first : a.accepts b = true) (second : b.accepts c = true)
    : a.accepts c = true := by
  rw [accepts_iff] at first second ⊢
  exact ⟨first.1.trans second.1, first.2.trans second.2⟩

theorem accepts_antisymm (first : a.accepts b = true) (second : b.accepts a = true) : a = b := by
  obtain ⟨dtype, dims⟩ := accepts_iff.mp first
  have same := dims.antisymm (accepts_iff.mp second).2
  cases a
  cases b
  exact congrArg₂ mk dtype (congrArg Shape.mk same)

/-- Two tensor types are compatible iff some tensor type is accepted by both. -/
theorem compatibleWith_iff
    : a.compatibleWith b = true
      ↔ ∃ common : TensorType, a.accepts common = true ∧ b.accepts common = true := by
  have meets : a.compatibleWith b = true
      ↔ a.dtype = b.dtype
        ∧ List.Forall₂ (fun x y => (Dimension.meet x y).isSome = true)
            a.shape.dims b.shape.dims := by
    rw [compatibleWith, agreeOn, Bool.and_eq_true, Bool.and_eq_true, decide_eq_true_eq,
      decide_eq_true_eq, and_assoc]
    exact and_congr_right fun _ =>
      @forall₂_iff_zip_all _ _ (fun x y => (Dimension.meet x y).isSome) _ _
  rw [meets, Accepts.forall₂_meet_iff]
  simp only [accepts_iff]
  constructor
  · rintro ⟨dtype, common, first, second⟩
    exact ⟨⟨a.dtype, ⟨common⟩⟩, ⟨rfl, first⟩, dtype.symm, second⟩
  · rintro ⟨common, ⟨dtype, first⟩, dtype', second⟩
    exact ⟨dtype.trans dtype'.symm, _, first, second⟩

/-- What accepts a join accepts both types. -/
theorem accepts_join_iff {joined upper : TensorType} (done : a.join b = some joined)
    : upper.accepts joined = true ↔ upper.accepts a = true ∧ upper.accepts b = true := by
  rw [join] at done
  split_ifs at done with same
  obtain rfl := Option.some.inj done
  rw [accepts_iff, accepts_iff, accepts_iff, Accepts.join_iff same.2, ← same.1]
  exact and_and_left

/-- Tensor types are ordered by how much they leave open. -/
instance : PartialOrder TensorType where
  le narrow wide := wide.accepts narrow = true
  le_refl := accepts_self
  le_trans _ _ _ first second := accepts_trans second first
  le_antisymm _ _ first second := accepts_antisymm second first

theorem le_iff_accepts {narrow wide : TensorType} : narrow ≤ wide ↔ wide.accepts narrow = true :=
  Iff.rfl

/-- Two types have a join iff some type accepts both. -/
theorem isSome_join_iff
    : (a.join b).isSome = true
      ↔ ∃ upper : TensorType, upper.accepts a = true ∧ upper.accepts b = true := by
  constructor
  · intro joins
    obtain ⟨joined, done⟩ := Option.isSome_iff_exists.mp joins
    exact ⟨joined, (accepts_join_iff done).mp joined.accepts_self⟩
  · rintro ⟨upper, first, second⟩
    have dtype := (accepts_iff.mp first).1.symm.trans (accepts_iff.mp second).1
    have rank := (rank_of_accepts first).symm.trans (rank_of_accepts second)
    rw [join, if_pos ⟨dtype, rank⟩]
    rfl

/-- Above a join there is what is above both types. -/
theorem upperBounds_join {joined : TensorType} (done : a.join b = some joined)
    (types : Set TensorType)
    : upperBounds (insert joined types) = upperBounds (insert a (insert b types)) := by
  ext upper
  simp only [upperBounds_insert, Set.mem_inter_iff, Set.mem_Ici, le_iff_accepts,
    accepts_join_iff done, and_assoc]

/-- The join of two types is the least one above both. -/
theorem join_eq_some_iff {joined : TensorType}
    : a.join b = some joined ↔ IsLUB {a, b} joined := by
  have least {joined : TensorType} (done : a.join b = some joined) : IsLUB {a, b} joined := by
    have bounds := upperBounds_join done ∅
    rw [insert_empty_eq, insert_empty_eq] at bounds
    exact (isLUB_congr bounds).mp isLUB_singleton
  refine ⟨least, fun smallest => ?_⟩
  have upper : joined.accepts a = true ∧ joined.accepts b = true :=
    ⟨smallest.1 (.inl rfl), smallest.1 (.inr rfl)⟩
  obtain ⟨other, done⟩ := Option.isSome_iff_exists.mp (isSome_join_iff.mpr ⟨joined, upper⟩)
  rw [done, (least done).unique smallest]

end TensorType

-----------------------------------------------------------------------------------------
-- Lists
-----------------------------------------------------------------------------------------

namespace Typing

/-- The elements that are left join with what is known iff all of them are tensors, and there is a
least type above them. By induction on the elements that are left.
-/
theorem joinElements_eq_ok_iff {front rest : List ValueType} {element least : TensorType}
    : joinElements (front ++ rest) front.length rest element = .ok least
      ↔ ∃ types : List TensorType,
          rest = types.map .tensor ∧ IsLUB (insert element {type | type ∈ types}) least := by
  induction rest generalizing front element with
  | nil =>
      rw [joinElements, Except.ok.injEq]
      constructor
      · rintro rfl
        exact ⟨[], rfl, by simp⟩
      · rintro ⟨types, none, smallest⟩
        obtain rfl := List.map_eq_nil_iff.mp none.symm
        exact IsLUB.unique (by simp) smallest
  | cons first rest ih =>
      have later (joined : TensorType) := @ih (front ++ [first]) joined
      simp only [List.append_assoc, List.singleton_append, List.length_append,
        List.length_singleton] at later
      rw [joinElements, Steps.bind_eq_ok_iff]
      simp only [tensorAt_eq_ok_iff, List.getElem?_append_right (Nat.le_refl _), Nat.sub_self,
        List.getElem?_cons_zero, Option.some.injEq]
      -- What is above the join is what is above the next element and what was known.
      have bounds {next joined : TensorType} {types : List TensorType}
          (joins : element.join next = some joined)
          : upperBounds (insert joined {type | type ∈ types})
            = upperBounds (insert element {type | type ∈ next :: types}) := by
        rw [TensorType.upperBounds_join joins]
        congr 2
        ext type
        simp
      constructor
      · rintro ⟨next, rfl, done⟩
        cases joins : element.join next with
        | none => simp [joins] at done
        | some joined =>
            rw [joins] at done
            obtain ⟨types, rfl, smallest⟩ := (later joined).mp done
            exact ⟨next :: types, rfl, (isLUB_congr (bounds joins)).mp smallest⟩
      · rintro ⟨types, same, smallest⟩
        cases types with
        | nil => cases same
        | cons next types =>
            obtain ⟨rfl, rfl⟩ := List.cons.inj same
            have upper : least.accepts element = true ∧ least.accepts next = true :=
              ⟨smallest.1 (.inl rfl), smallest.1 (.inr List.mem_cons_self)⟩
            obtain ⟨joined, joins⟩ :=
              Option.isSome_iff_exists.mp (TensorType.isSome_join_iff.mpr ⟨least, upper⟩)
            refine ⟨next, rfl, ?_⟩
            rw [joins]
            exact (later joined).mpr ⟨types, rfl, (isLUB_congr (bounds joins)).mpr smallest⟩

/-- A list has a type iff it has elements, all of them are tensors, and there is a least type above
theirs.
-/
theorem makeList_eq_ok_iff {operands : List ValueType} {type : ValueType}
    : makeList operands = .ok type
      ↔ ∃ least : TensorType,
          operands ≠ []
          ∧ (∀ operand ∈ operands, ∃ element : TensorType, .tensor element = operand)
          ∧ IsLUB {element : TensorType | .tensor element ∈ operands} least
          ∧ type = .list least := by
  have elements (first : TensorType) (types : List TensorType)
      : {element : TensorType | .tensor element ∈ (first :: types).map ValueType.tensor}
        = insert first {type | type ∈ types} := by
    ext type
    simp
  cases operands with
  | nil => simp [makeList]
  | cons head rest =>
      simp only [makeList, Steps.bind_eq_ok_iff, tensorAt_zero_eq_ok_iff, Except.ok.injEq]
      constructor
      · rintro ⟨first, ⟨_, same⟩, least, done, rfl⟩
        obtain ⟨rfl, rfl⟩ := List.cons.inj same
        obtain ⟨types, rfl, smallest⟩ := (@joinElements_eq_ok_iff [_] _ _ _).mp done
        exact ⟨least, List.cons_ne_nil _ _, by simp, elements first types ▸ smallest, rfl⟩
      · rintro ⟨least, -, tensors, smallest, rfl⟩
        have listed : head :: rest ∈ Set.range (List.map ValueType.tensor) := by
          rw [Set.range_list_map]
          exact tensors
        obtain ⟨types, same⟩ := listed
        cases types with
        | nil => cases same
        | cons first types =>
            rw [← same, elements] at smallest
            obtain ⟨rfl, rfl⟩ := List.cons.inj same.symm
            exact ⟨first, ⟨_, rfl⟩, least,
              (@joinElements_eq_ok_iff [_] _ _ _).mpr ⟨types, rfl, smallest⟩, rfl⟩

/-- The type of a list does not depend on the order of its elements. -/
theorem makeList_perm {operands others : List ValueType} {type : ValueType}
    (reordered : operands.Perm others)
    : makeList operands = .ok type ↔ makeList others = .ok type := by
  simp only [makeList_eq_ok_iff, reordered.mem_iff, ne_eq, ← List.length_eq_zero_iff,
    reordered.length_eq]

end Typing

-----------------------------------------------------------------------------------------
-- Values
-----------------------------------------------------------------------------------------

namespace ValueType

mutual

/-- By induction on the type. -/
theorem accepts_self : ∀ type : ValueType, type.accepts type = true
  | .tensor type | .list type => type.accepts_self
  | .tuple parts => acceptsParts_self parts

theorem acceptsParts_self : ∀ types : List ValueType, acceptsParts types types = true
  | [] => rfl
  | type :: types => Bool.and_eq_true_iff.mpr ⟨accepts_self type, acceptsParts_self types⟩

end

mutual

/-- A value that the types describe that accept its own type, and no others: its literals have the
types that they are described by, and no bytes.
-/
def plainest : ValueType → HostValue
  | .tensor type => .tensor ⟨type, []⟩
  | .list element => .list [⟨element, []⟩]
  | .tuple parts => .tuple (plainestParts parts)

/-- The plainest values of the parts of a tuple. -/
def plainestParts : List ValueType → List HostValue
  | [] => []
  | part :: parts => part.plainest :: plainestParts parts

end

mutual

/-- By induction on the first type. -/
theorem conformsTo_plainest
    : ∀ (wide narrow : ValueType), narrow.plainest.conformsTo wide = wide.accepts narrow
  | .tensor _, .tensor _ => rfl
  | .list _, .list _ => by simp [plainest, HostValue.conformsTo, accepts]
  | .tuple wide, .tuple narrow => partsConformTo_plainest wide narrow
  | .tensor _, .list _ | .tensor _, .tuple _ | .list _, .tensor _ | .list _, .tuple _
  | .tuple _, .tensor _ | .tuple _, .list _ => rfl

theorem partsConformTo_plainest
    : ∀ wide narrow : List ValueType,
        HostValue.partsConformTo (plainestParts narrow) wide = acceptsParts wide narrow
  | [], [] | [], _ :: _ | _ :: _, [] => rfl
  | wide :: wides, narrow :: narrows => by
    rw [plainestParts, HostValue.partsConformTo, acceptsParts, conformsTo_plainest wide narrow,
      partsConformTo_plainest wides narrows]

end

mutual

/-- A type describes what a type that it accepts describes, by induction on the first type. -/
theorem conformsTo_of_accepts
    : ∀ {wide narrow : ValueType} {value : HostValue},
        wide.accepts narrow = true
        → value.conformsTo narrow = true
        → value.conformsTo wide = true
  | .tensor _, .tensor _, .tensor _, accepts, conforms =>
    TensorType.accepts_trans accepts conforms
  | .list _, .list _, .list _, accepts, conforms => by
    rw [HostValue.conformsTo, List.all_eq_true] at conforms ⊢
    exact fun item member => TensorType.accepts_trans accepts (conforms item member)
  | .tuple _, .tuple _, .tuple _, accepts, conforms => partsConformTo_of_accepts accepts conforms
  | .tensor _, .tensor _, .list _, _, conforms | .tensor _, .tensor _, .tuple _, _, conforms
  | .list _, .list _, .tensor _, _, conforms | .list _, .list _, .tuple _, _, conforms
  | .tuple _, .tuple _, .tensor _, _, conforms | .tuple _, .tuple _, .list _, _, conforms =>
    nomatch conforms
  | .tensor _, .list _, _, accepts, _ | .tensor _, .tuple _, _, accepts, _
  | .list _, .tensor _, _, accepts, _ | .list _, .tuple _, _, accepts, _
  | .tuple _, .tensor _, _, accepts, _ | .tuple _, .list _, _, accepts, _ => nomatch accepts

theorem partsConformTo_of_accepts
    : ∀ {wide narrow : List ValueType} {parts : List HostValue},
        acceptsParts wide narrow = true
        → HostValue.partsConformTo parts narrow = true
        → HostValue.partsConformTo parts wide = true
  | [], [], _, _, conform => conform
  | _ :: _, _ :: _, [], _, conform => nomatch conform
  | _ :: _, _ :: _, _ :: _, accepts, conform => by
    obtain ⟨here, later⟩ := Bool.and_eq_true_iff.mp accepts
    obtain ⟨first, rest⟩ := Bool.and_eq_true_iff.mp conform
    exact Bool.and_eq_true_iff.mpr
      ⟨conformsTo_of_accepts here first, partsConformTo_of_accepts later rest⟩
  | [], _ :: _, _, accepts, _ | _ :: _, [], _, accepts, _ => nomatch accepts

end

/-- A type accepts another one iff it describes all values that the other one describes. -/
theorem accepts_iff_describes {wide narrow : ValueType}
    : wide.accepts narrow = true
      ↔ ∀ value : HostValue, value.conformsTo narrow = true → value.conformsTo wide = true := by
  refine ⟨fun accepts _ => conformsTo_of_accepts accepts, fun describes => ?_⟩
  rw [← conformsTo_plainest]
  exact describes narrow.plainest ((conformsTo_plainest narrow narrow).trans (accepts_self narrow))

-----------------------------------------------------------------------------------------
-- Compatible types
-----------------------------------------------------------------------------------------

mutual

/-- Compatible types accept some type in common, by induction on the first type. -/
theorem exists_common
    : ∀ {a b : ValueType},
        a.compatibleWith b = true
        → ∃ common : ValueType, a.accepts common = true ∧ b.accepts common = true
  | .tensor _, .tensor _, compatible => by
    obtain ⟨common, both⟩ := TensorType.compatibleWith_iff.mp compatible
    exact ⟨.tensor common, both⟩
  | .list _, .list _, compatible => by
    obtain ⟨common, both⟩ := TensorType.compatibleWith_iff.mp compatible
    exact ⟨.list common, both⟩
  | .tuple _, .tuple _, compatible => by
    obtain ⟨common, both⟩ := exists_commonParts compatible
    exact ⟨.tuple common, both⟩
  | .tensor _, .list _, compatible | .tensor _, .tuple _, compatible
  | .list _, .tensor _, compatible | .list _, .tuple _, compatible
  | .tuple _, .tensor _, compatible | .tuple _, .list _, compatible => nomatch compatible

theorem exists_commonParts
    : ∀ {as bs : List ValueType},
        compatibleParts as bs = true
        → ∃ common : List ValueType, acceptsParts as common = true ∧ acceptsParts bs common = true
  | [], [], _ => ⟨[], rfl, rfl⟩
  | _ :: _, _ :: _, compatible => by
    obtain ⟨here, later⟩ := Bool.and_eq_true_iff.mp compatible
    obtain ⟨part, first, second⟩ := exists_common here
    obtain ⟨parts, rest, rest'⟩ := exists_commonParts later
    exact ⟨part :: parts, Bool.and_eq_true_iff.mpr ⟨first, rest⟩,
      Bool.and_eq_true_iff.mpr ⟨second, rest'⟩⟩
  | [], _ :: _, compatible | _ :: _, [], compatible => nomatch compatible

end

mutual

/-- Types that accept a type in common are compatible, by induction on that type. -/
theorem compatibleWith_of_common
    : ∀ {common a b : ValueType},
        a.accepts common = true → b.accepts common = true → a.compatibleWith b = true
  | .tensor common, .tensor _, .tensor _, first, second =>
    TensorType.compatibleWith_iff.mpr ⟨common, first, second⟩
  | .list common, .list _, .list _, first, second =>
    TensorType.compatibleWith_iff.mpr ⟨common, first, second⟩
  | .tuple _, .tuple _, .tuple _, first, second => compatibleParts_of_common first second
  | .tensor _, .list _, _, first, _ | .tensor _, .tuple _, _, first, _
  | .list _, .tensor _, _, first, _ | .list _, .tuple _, _, first, _
  | .tuple _, .tensor _, _, first, _ | .tuple _, .list _, _, first, _ => nomatch first
  | .tensor _, .tensor _, .list _, _, second | .tensor _, .tensor _, .tuple _, _, second
  | .list _, .list _, .tensor _, _, second | .list _, .list _, .tuple _, _, second
  | .tuple _, .tuple _, .tensor _, _, second | .tuple _, .tuple _, .list _, _, second =>
    nomatch second

theorem compatibleParts_of_common
    : ∀ {common as bs : List ValueType},
        acceptsParts as common = true
        → acceptsParts bs common = true
        → compatibleParts as bs = true
  | [], [], [], _, _ => rfl
  | _ :: _, _ :: _, _ :: _, first, second => by
    obtain ⟨here, later⟩ := Bool.and_eq_true_iff.mp first
    obtain ⟨here', later'⟩ := Bool.and_eq_true_iff.mp second
    exact Bool.and_eq_true_iff.mpr
      ⟨compatibleWith_of_common here here', compatibleParts_of_common later later'⟩
  | [], _ :: _, _, first, _ | _ :: _, [], _, first, _ => nomatch first
  | [], [], _ :: _, _, second | _ :: _, _ :: _, [], _, second => nomatch second

end

/-- Two types are compatible iff some type is accepted by both. -/
theorem compatibleWith_iff {a b : ValueType}
    : a.compatibleWith b = true
      ↔ ∃ common : ValueType, a.accepts common = true ∧ b.accepts common = true :=
  ⟨exists_common, fun ⟨_, first, second⟩ => compatibleWith_of_common first second⟩

end ValueType

-----------------------------------------------------------------------------------------
-- All orders
-----------------------------------------------------------------------------------------

/-- The orders of types mean what they say. A type accepts another one iff it describes all values
that the other one describes, and two types are compatible iff some type is accepted by both. Two
tensor types have a join iff some tensor type accepts both, and then it is the least one; so the type
of a list is the same for every order of its elements.
-/
theorem ValueType.orders_describe
    : (∀ wide narrow : ValueType,
        wide.accepts narrow = true
        ↔ ∀ value : HostValue, value.conformsTo narrow = true → value.conformsTo wide = true)
      ∧ (∀ a b : ValueType,
          a.compatibleWith b = true
          ↔ ∃ common : ValueType, a.accepts common = true ∧ b.accepts common = true)
      ∧ (∀ a b : TensorType,
          ((a.join b).isSome = true
            ↔ ∃ upper : TensorType, upper.accepts a = true ∧ upper.accepts b = true)
          ∧ ∀ joined : TensorType,
              a.join b = some joined
              ↔ joined.accepts a = true
                ∧ joined.accepts b = true
                ∧ ∀ upper : TensorType,
                    upper.accepts a = true
                    → upper.accepts b = true
                    → upper.accepts joined = true)
      ∧ ∀ {operands others : List ValueType} {type : ValueType},
          operands.Perm others
          → (Operation.makeList.resultType operands = .ok type
            ↔ Operation.makeList.resultType others = .ok type) := by
  refine ⟨fun _ _ => accepts_iff_describes, fun _ _ => compatibleWith_iff,
    fun a b => ⟨TensorType.isSome_join_iff, fun joined => ?_⟩, fun reordered => ?_⟩
  · rw [TensorType.join_eq_some_iff, IsLUB, IsLeast]
    simp [upperBounds, lowerBounds, TensorType.le_iff_accepts, and_assoc]
  · rw [Operation.resultType_eq_ok_iff, Operation.resultType_eq_ok_iff]
    exact Typing.makeList_perm reordered

/-- Three matrices in another order: the list still knows the rows that all of them have. -/
theorem ValueType.reorderedMatrices_join
    : Operation.makeList.resultType
          [.tensor ⟨.f64, .ofSizes [2, 4]⟩, .tensor ⟨.f64, ⟨[.static 2, .unknown]⟩⟩,
            .tensor ⟨.f64, .ofSizes [2, 3]⟩]
        = .ok (.list ⟨.f64, ⟨[.static 2, .unknown]⟩⟩) :=
  (orders_describe.2.2.2 (List.Perm.swap _ _ _)).mp
    (rfl
      : Operation.makeList.resultType
            [.tensor ⟨.f64, ⟨[.static 2, .unknown]⟩⟩, .tensor ⟨.f64, .ofSizes [2, 4]⟩,
              .tensor ⟨.f64, .ofSizes [2, 3]⟩]
          = .ok (.list ⟨.f64, ⟨[.static 2, .unknown]⟩⟩))

end Dataflow

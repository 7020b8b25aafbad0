import Dataflow.Proofs.Tensor.IntegerReductions
import Dataflow.Proofs.Tensor.Relocation

/-!
Arithmetic of integers, element by element. Kernels compute in 64-bit words and store the width of
the element type, which is the exact result modulo that width. Two tensors are aligned at their last
axes, and an axis of one element is read wherever the other tensor has more. Only a division refuses
integers.
-/

namespace Dataflow

-----------------------------------------------------------------------------------------
-- Sizes that fit together
-----------------------------------------------------------------------------------------

namespace Broadcast

/-- Sizes, listed from the last axis, that are the same wherever neither of them is one. -/
def Agree (lhs rhs : List Nat) : Prop :=
  ∀ axis x y : Nat, lhs[axis]? = some x → rhs[axis]? = some y → x = y ∨ x = 1 ∨ y = 1

/-- Sizes that can be broadcast together: they agree, counted from the last axis. -/
def Compatible (lhs rhs : List Nat) : Prop := Agree lhs.reverse rhs.reverse

/-- Sizes that agree are combined, by induction on both lists. -/
theorem exists_combineBack {lhs rhs : List Nat} (agree : Agree lhs rhs)
    : ∃ sizes : List Nat,
        combineBack (lhs.map .static) (rhs.map .static) = some (sizes.map .static) := by
  induction lhs generalizing rhs with
  | nil => exact ⟨rhs, by simp [combineBack]⟩
  | cons x lhs ih =>
      cases rhs with
      | nil => exact ⟨x :: lhs, by simp [combineBack]⟩
      | cons y rhs =>
          have here := agree 0 x y rfl rfl
          obtain ⟨sizes, later⟩ := @ih rhs fun axis => agree (axis + 1)
          refine ⟨(if x = 1 then y else x) :: sizes, ?_⟩
          have combined
              : combine (.static x) (.static y) = some (.static (if x = 1 then y else x)) := by
            rw [combine]
            split_ifs <;> simp_all
          simp [combineBack, combined, later]

/-- Sizes that can be broadcast together have an inferred result. -/
theorem exists_dims {lhs rhs : List Nat} (compatible : Compatible lhs rhs)
    : ∃ sizes : List Nat, dims (lhs.map .static) (rhs.map .static) = some (sizes.map .static) := by
  obtain ⟨sizes, combined⟩ := exists_combineBack compatible
  refine ⟨sizes.reverse, ?_⟩
  rw [dims, ← List.map_reverse, ← List.map_reverse, combined, List.map_reverse]
  rfl

end Broadcast

namespace Elementwise

/-- The inferred sizes are those of the result. -/
theorem broadcastSizes_of_dims {lhs rhs sizes : List Nat}
    (combined : Broadcast.dims (lhs.map .static) (rhs.map .static) = some (sizes.map .static))
    : broadcastSizes lhs rhs = .ok sizes := by
  rw [dims_map_static] at combined
  obtain ⟨result, done, same⟩ := Option.map_eq_some_iff.mp combined
  obtain rfl := List.map_injective_iff.mpr (fun _ _ => Dimension.static.inj) same
  cases ran : broadcastSizes lhs rhs with
  | ok value =>
      rw [ran] at done
      exact congrArg Except.ok (Option.some.inj done)
  | error error =>
      rw [ran] at done
      cases done

end Elementwise

-----------------------------------------------------------------------------------------
-- Words
-----------------------------------------------------------------------------------------

/-- The exact function of an integer, where there is one. -/
def UnaryKind.onIntegers? : UnaryKind → Option (Int → Int)
  | .neg => some fun x => -x
  | .abs => some fun x => |x|
  | .exp | .log => none

/-- The exact function of two integers. A quotient is rounded toward zero. -/
def BinaryKind.onIntegers : BinaryKind → Int → Int → Int
  | .add, x, y => x + y
  | .sub, x, y => x - y
  | .mul, x, y => x * y
  | .div, x, y => x.tdiv y
  | .maximum, x, y => max x y
  | .minimum, x, y => min x y

/-- Whether integers are refused: nothing is divided by zero, and the least word is not divided by
minus one.
-/
def BinaryKind.Refuses (kind : BinaryKind) (x y : Int) : Prop :=
  kind = .div ∧ (y = 0 ∨ x = -2 ^ 63 ∧ y = -1)

namespace Elementwise

/-- A function of a word is exact modulo the words. -/
theorem toInt_unaryInt {kind : UnaryKind} {function : Int → Int}
    (known : kind.onIntegers? = some function)
    : ∃ f, unaryInt kind = some f ∧ ∀ x, (f x).toInt = (function x.toInt).bmod (2 ^ 64) := by
  cases kind with
  | neg =>
      obtain rfl := Option.some.inj known
      exact ⟨_, rfl, Int64.toInt_neg⟩
  | abs =>
      obtain rfl := Option.some.inj known
      refine ⟨_, rfl, fun x => ?_⟩
      dsimp only
      split_ifs with negative
      · rw [Int64.lt_iff_toInt_lt] at negative
        rw [Int64.toInt_neg, abs_of_neg negative]
      · rw [Int64.lt_iff_toInt_lt] at negative
        rw [abs_of_nonneg (not_lt.mp negative)]
        exact x.toInt_bmod.symm
  | exp | log => cases known

/-- A function of two words refuses them, or is exact modulo the words. -/
theorem binaryInt_cases (kind : BinaryKind) (x y : Int64)
    : (kind.Refuses x.toInt y.toInt ∧ binaryInt kind x y = .fail .divisionByZero)
      ∨ (¬kind.Refuses x.toInt y.toInt
        ∧ ∃ z, binaryInt kind x y = .ok z
            ∧ z.toInt = (kind.onIntegers x.toInt y.toInt).bmod (2 ^ 64)) := by
  have accepts {kind : BinaryKind} (other : kind ≠ .div) : ¬kind.Refuses x.toInt y.toInt :=
    fun refuses => other refuses.1
  cases kind with
  | add => exact .inr ⟨accepts (by decide), _, rfl, Int64.toInt_add x y⟩
  | sub => exact .inr ⟨accepts (by decide), _, rfl, Int64.toInt_sub x y⟩
  | mul => exact .inr ⟨accepts (by decide), _, rfl, Int64.toInt_mul x y⟩
  | div =>
      have same : BinaryKind.div.Refuses x.toInt y.toInt
          ↔ y = 0 ∨ x = Int64.minValue ∧ y = -1 := by
        simp [BinaryKind.Refuses, ← Int64.toInt_inj]
      rw [same, binaryInt, divide]
      split_ifs with refused
      · exact .inl ⟨refused, rfl⟩
      · exact .inr ⟨refused, _, rfl, Int64.toInt_div x y⟩
  | maximum =>
      refine .inr ⟨accepts (by decide), _, rfl, ?_⟩
      have larger : (if x < y then y else x).toInt = max x.toInt y.toInt := by
        simp only [Int64.lt_iff_toInt_lt]
        split_ifs <;> omega
      rw [BinaryKind.onIntegers, ← larger]
      exact (Int64.toInt_bmod _).symm
  | minimum =>
      refine .inr ⟨accepts (by decide), _, rfl, ?_⟩
      have smaller : (if y < x then y else x).toInt = min x.toInt y.toInt := by
        simp only [Int64.lt_iff_toInt_lt]
        split_ifs <;> omega
      rw [BinaryKind.onIntegers, ← smaller]
      exact (Int64.toInt_bmod _).symm

section

variable {kind : BinaryKind} {x y : Int64}

/-- A function of two words has the word that is exact, unless it refuses them. -/
theorem binaryInt_eq_ok_iff {word : Int64}
    : binaryInt kind x y = .ok word
      ↔ ¬kind.Refuses x.toInt y.toInt
        ∧ word.toInt = (kind.onIntegers x.toInt y.toInt).bmod (2 ^ 64) := by
  obtain ⟨refuses, failed⟩ | ⟨accepts, other, fine, wraps⟩ := binaryInt_cases kind x y
  · rw [failed]
    exact iff_of_false (by simp [Outcome.fail]) fun accepted => accepted.1 refuses
  · rw [fine, ← wraps, Int64.toInt_inj, Except.ok.injEq, eq_comm, and_iff_right accepts]

/-- A function of two words fails only because it refuses them. -/
theorem binaryInt_eq_error_iff {error : BackendError}
    : binaryInt kind x y = .error error
      ↔ kind.Refuses x.toInt y.toInt ∧ error = .ofKernel .divisionByZero := by
  obtain ⟨refuses, failed⟩ | ⟨accepts, other, fine, -⟩ := binaryInt_cases kind x y
  · rw [failed, Outcome.fail, Except.error.injEq, eq_comm, and_iff_right refuses]
  · rw [fine]
    exact iff_of_false (by simp) fun refused => accepts refused.1

end

end Elementwise

/-- Integers are numbers. -/
theorem DType.isNumeric_of_isInteger {dtype : DType} (integer : dtype.isInteger = true)
    : dtype.isNumeric = true := by
  rw [isNumeric, integer, Bool.true_or]

/-- A word that is exact modulo the words is stored exactly modulo the width of its type. -/
theorem DType.toInt_wrap_of_bmod {dtype : DType} (integer : dtype.isInteger = true) {word : Int64}
    {value : Int} (wraps : word.toInt = value.bmod (2 ^ 64))
    : (dtype.wrap word).toInt = value.bmod (2 ^ (8 * dtype.byteSize)) := by
  have narrower : 2 ^ (8 * dtype.byteSize) ∣ 2 ^ 64 := by
    refine Nat.pow_dvd_pow 2 ?_
    cases dtype <;> decide
  rw [DType.toInt_wrap integer, wraps, Int.bmod_bmod_of_dvd narrower]

-----------------------------------------------------------------------------------------
-- Integers that are read
-----------------------------------------------------------------------------------------

namespace Elementwise

/-- There is one point of a value at which a point of a tensor filled with it is read. -/
theorem FillsAt.unique {sizes coords first second : List Nat} (left : FillsAt sizes coords first)
    (right : FillsAt sizes coords second) (insideLeft : RowMajor.Inside first sizes)
    (insideRight : RowMajor.Inside second sizes)
    : first = second := by
  apply List.ext_getElem?
  intro axis
  by_cases known : axis < sizes.length
  · have size := List.getElem?_eq_getElem known
    rw [left axis _ size, right axis _ size]
  · rw [List.getElem?_eq_none (by rw [insideLeft.length_eq]; omega),
      List.getElem?_eq_none (by rw [insideRight.length_eq]; omega)]

end Elementwise

namespace Tensor

/-- A valid tensor has a word at each of its points. -/
theorem Valid.exists_word {tensor : Tensor} {coords : List Nat} (valid : tensor.Valid)
    (inside : RowMajor.Inside coords tensor.sizes)
    : ∃ word,
        tensor.elements.toInts[RowMajor.position coords (RowMajor.steps tensor.sizes)]?
        = some word := by
  have below := RowMajor.position_lt_count inside
  rw [← show tensor.elements.size = RowMajor.count tensor.sizes from valid,
    ← Elements.length_toInts] at below
  exact ⟨_, List.getElem?_eq_getElem below⟩

/-- A tensor has an integer at the point that is read at a point of a broadcast result. -/
def ReadsInt (tensor : Tensor) (coords : List Nat) (integer : Int) : Prop :=
  ∃ place,
    RowMajor.Inside place tensor.sizes
    ∧ Elementwise.FillsAt tensor.sizes coords place
    ∧ tensor.int? place = some integer

/-- An integer that is read is no less than the least one of its type. -/
theorem ReadsInt.least_le {tensor : Tensor} {coords : List Nat} {x : Int}
    (integer : tensor.dtype.isInteger = true) (reads : tensor.ReadsInt coords x)
    : tensor.dtype.least.toInt ≤ x := by
  obtain ⟨place, -, -, found⟩ := reads
  obtain ⟨word, listed, rfl⟩ := Option.map_eq_some_iff.mp found
  exact DType.least_le (Elements.fits_of_mem_toInts integer (List.mem_of_getElem? listed))

/-- The word that is read at a point of a broadcast result. -/
def broadcastInt (tensor : Tensor) (coords : List Nat) : Int64 :=
  tensor.elements.toInts.getD
    (RowMajor.position
      (Elementwise.collapse tensor.sizes (coords.drop (coords.length - tensor.sizes.length)))
      (RowMajor.steps tensor.sizes))
    0

section

variable {tensor : Tensor} {sizes coords : List Nat} (valid : tensor.Valid)
  (stretch : Elementwise.StretchTo tensor.sizes sizes)

include valid stretch

/-- The word that is read stands at a point of the tensor. -/
theorem getElem?_broadcastInt (inside : RowMajor.Inside coords sizes)
    : tensor.elements.toInts[RowMajor.position
          (Elementwise.collapse tensor.sizes (coords.drop (sizes.length - tensor.sizes.length)))
          (RowMajor.steps tensor.sizes)]?
      = some (tensor.broadcastInt coords) := by
  obtain ⟨word, found⟩ := valid.exists_word
    (Elementwise.inside_collapse stretch.axes (List.forall₂_drop _ inside))
  rw [broadcastInt, inside.length_eq, List.getD_eq_getElem?_getD, found, Option.getD_some]

/-- One integer is read at a point. -/
theorem readsInt_iff (inside : RowMajor.Inside coords sizes) {integer : Int}
    : tensor.ReadsInt coords integer ↔ (tensor.broadcastInt coords).toInt = integer := by
  have there := Elementwise.inside_collapse stretch.axes (List.forall₂_drop _ inside)
  have fills := Elementwise.fillsAt_collapse stretch inside
  have read : tensor.int?
      (Elementwise.collapse tensor.sizes (coords.drop (sizes.length - tensor.sizes.length)))
      = some (tensor.broadcastInt coords).toInt := by
    rw [int?, getElem?_broadcastInt valid stretch inside, Option.map_some]
  constructor
  · rintro ⟨place, point, meant, found⟩
    obtain rfl := meant.unique fills point there
    exact Option.some.inj (read.symm.trans found)
  · rintro rfl
    exact ⟨_, there, fills, read⟩

/-- Fetching the words of a broadcast result. -/
theorem fetch_broadcastPositions
    : Elementwise.fetch (Elementwise.broadcastPositions tensor.sizes sizes) tensor.elements.toInts
      = .ok ((RowMajor.points sizes).map tensor.broadcastInt) := by
  rw [Elementwise.fetch, Outcome.require_eq_ok_iff, Elements.select?, Steps.mapM_eq_some_iff,
    Elementwise.broadcastPositions_eq stretch.rank, List.map_map, List.map_map]
  exact List.map_congr_left fun coords point =>
    getElem?_broadcastInt valid stretch (RowMajor.mem_points.mp point)

end

end Tensor

-----------------------------------------------------------------------------------------
-- The kernels
-----------------------------------------------------------------------------------------

namespace Elementwise

/-- A kernel returns a tensor of the type that is inferred, and a backend does so as well, as long as
memory holds a number for each element.
-/
structure Returns (operation : Operation) (inputs : List Tensor) (result : Tensor) : Prop where
  evaluates : Kernel.execute operation (inputs.map .tensor) = .ok (.tensor result)
  bounded
    : Memory.holds (RowMajor.count result.sizes) = true →
        Backend.reference.bounded.execute operation (inputs.map .tensor) = .ok (.tensor result)
  typed
    : operation.resultType (inputs.map fun input => .tensor input.type)
      = .ok (.tensor result.type)
  valid : result.Valid

/-- A tensor has, at each of its points, the exact function of the two integers that are read there,
modulo the width of the element type.
-/
def Combines (kind : BinaryKind) (lhs rhs result : Tensor) : Prop :=
  ∀ coords, RowMajor.Inside coords result.sizes →
    ∃ x y,
      lhs.ReadsInt coords x
      ∧ rhs.ReadsInt coords y
      ∧ result.int? coords = some ((kind.onIntegers x y).bmod (2 ^ (8 * lhs.dtype.byteSize)))

/-- At some point of the result, two integers are read that are refused. -/
def RefusesAt (kind : BinaryKind) (lhs rhs : Tensor) (sizes : List Nat) : Prop :=
  ∃ coords x y,
    RowMajor.Inside coords sizes
    ∧ lhs.ReadsInt coords x
    ∧ rhs.ReadsInt coords y
    ∧ kind.Refuses x y

section

variable {kind : BinaryKind} {lhs rhs : Tensor} {sizes : List Nat}
  (integer : lhs.dtype.isInteger = true) (validLhs : lhs.Valid) (validRhs : rhs.Valid)
  (broadcast : broadcastSizes lhs.sizes rhs.sizes = .ok sizes)

include validLhs validRhs broadcast

/-- Integers are refused at some point iff the words there are. -/
theorem refusesAt_iff
    : RefusesAt kind lhs rhs sizes
      ↔ ∃ coords ∈ RowMajor.points sizes,
          kind.Refuses (lhs.broadcastInt coords).toInt (rhs.broadcastInt coords).toInt := by
  obtain ⟨stretchLhs, stretchRhs⟩ := stretchTo_broadcastSizes broadcast
  refine exists_congr fun coords => ?_
  rw [RowMajor.mem_points]
  constructor
  · rintro ⟨x, y, inside, left, right, refuses⟩
    obtain rfl := (Tensor.readsInt_iff validLhs stretchLhs inside).mp left
    obtain rfl := (Tensor.readsInt_iff validRhs stretchRhs inside).mp right
    exact ⟨inside, refuses⟩
  · rintro ⟨inside, refuses⟩
    exact ⟨_, _, inside, (Tensor.readsInt_iff validLhs stretchLhs inside).mpr rfl,
      (Tensor.readsInt_iff validRhs stretchRhs inside).mpr rfl, refuses⟩

include integer

/-- A kernel goes over the points of the result. -/
theorem binary_eq
    : binary kind lhs rhs
      = ((RowMajor.points sizes).mapM fun coords =>
            binaryInt kind (lhs.broadcastInt coords) (rhs.broadcastInt coords)).map
          fun words => ⟨sizes, .ofInts lhs.dtype words⟩ := by
  obtain ⟨stretchLhs, stretchRhs⟩ := stretchTo_broadcastSizes broadcast
  rw [binary, broadcast, Steps.ok_bind, DType.isFloat_of_isInteger integer]
  dsimp only
  rw [if_neg Bool.false_ne_true, Tensor.fetch_broadcastPositions validLhs stretchLhs, Steps.ok_bind,
    Tensor.fetch_broadcastPositions validRhs stretchRhs, Steps.ok_bind, List.zip_map', List.mapM_map]
  change ((RowMajor.points sizes).mapM fun coords =>
    binaryInt kind (lhs.broadcastInt coords) (rhs.broadcastInt coords)) >>= _ = _
  cases (RowMajor.points sizes).mapM fun coords =>
    binaryInt kind (lhs.broadcastInt coords) (rhs.broadcastInt coords) <;> rfl

/-- The words of all points make a tensor that combines the integers that are read. -/
theorem combines_of_words {words : List Int64}
    (done
      : (RowMajor.points sizes).map (fun coords =>
            binaryInt kind (lhs.broadcastInt coords) (rhs.broadcastInt coords))
          = words.map .ok)
    : Combines kind lhs rhs ⟨sizes, .ofInts lhs.dtype words⟩ := by
  obtain ⟨stretchLhs, stretchRhs⟩ := stretchTo_broadcastSizes broadcast
  intro coords inside
  have here := congrArg (·[RowMajor.position coords (RowMajor.steps sizes)]?) done
  simp only [List.getElem?_map, RowMajor.getElem?_points inside, Option.map_some] at here
  obtain ⟨word, found, fine⟩ := Option.map_eq_some_iff.mp here.symm
  refine ⟨_, _, (Tensor.readsInt_iff validLhs stretchLhs inside).mpr rfl,
    (Tensor.readsInt_iff validRhs stretchRhs inside).mpr rfl, ?_⟩
  rw [Tensor.int?, Elements.toInts_ofInts integer, List.getElem?_map, found, Option.map_some,
    Option.map_some, DType.toInt_wrap_of_bmod integer (binaryInt_eq_ok_iff.mp fine.symm).2]

/-- A kernel refuses the integers at some point, or combines those at every point. -/
theorem binary_cases
    : (RefusesAt kind lhs rhs sizes ∧ binary kind lhs rhs = .fail .divisionByZero)
      ∨ (¬RefusesAt kind lhs rhs sizes
        ∧ ∃ result : Tensor,
            binary kind lhs rhs = .ok result
            ∧ result.type = ⟨lhs.dtype, .ofSizes sizes⟩
            ∧ result.Valid
            ∧ Combines kind lhs rhs result) := by
  rw [binary_eq integer validLhs validRhs broadcast, refusesAt_iff validLhs validRhs broadcast]
  cases done : (RowMajor.points sizes).mapM fun coords =>
      binaryInt kind (lhs.broadcastInt coords) (rhs.broadcastInt coords) with
  | error error =>
      obtain ⟨coords, point, failed⟩ := Steps.exists_of_mapM_eq_error done
      obtain ⟨refuses, rfl⟩ := binaryInt_eq_error_iff.mp failed
      exact .inl ⟨⟨coords, point, refuses⟩, rfl⟩
  | ok words =>
      have listed := Steps.mapM_eq_ok_iff.mp done
      refine .inr ⟨?_, ⟨sizes, .ofInts lhs.dtype words⟩, rfl, ?_, ?_,
        combines_of_words integer validLhs validRhs broadcast listed⟩
      · rintro ⟨coords, point, refuses⟩
        have accepted := List.mem_map_of_mem (f := fun coords =>
          binaryInt kind (lhs.broadcastInt coords) (rhs.broadcastInt coords)) point
        rw [listed, List.mem_map] at accepted
        obtain ⟨word, -, fine⟩ := accepted
        exact (binaryInt_eq_ok_iff.mp fine.symm).1 refuses
      · simp [Tensor.type, Tensor.dtype]
      · have length := congrArg List.length listed
        simpa [Tensor.Valid, eq_comm] using length

end

section

variable {lhs rhs : Tensor} (integer : lhs.dtype.isInteger = true) (same : rhs.dtype = lhs.dtype)
  (compatible : Broadcast.Compatible lhs.sizes rhs.sizes)

include integer same compatible

/-- Inference has a type for two tensors whose sizes can be broadcast together. -/
theorem exists_resultType (kind : BinaryKind)
    : ∃ sizes,
        (Operation.binary kind).resultType [.tensor lhs.type, .tensor rhs.type]
          = .ok (.tensor ⟨lhs.dtype, .ofSizes sizes⟩)
        ∧ broadcastSizes lhs.sizes rhs.sizes = .ok sizes := by
  obtain ⟨sizes, combined⟩ := Broadcast.exists_dims compatible
  refine ⟨sizes, ?_, broadcastSizes_of_dims combined⟩
  have known : rhs.type.dtype = lhs.type.dtype := same
  have numeric : lhs.type.dtype.isNumeric = true := DType.isNumeric_of_isInteger integer
  have dims : Broadcast.dims lhs.type.shape.dims rhs.type.shape.dims = some (sizes.map .static) :=
    combined
  have typed : Typing.binary [.tensor lhs.type, .tensor rhs.type]
      = .ok (.tensor ⟨lhs.type.dtype, .ofSizes sizes⟩) := by
    simp [Typing.binary, Typing.arity, Typing.tensorAt, ValueType.tensor?, known, numeric, dims,
      Steps.ok_bind, Shape.ofSizes]
  rw [Operation.resultType, Typing.infer, typed]
  rfl

variable (validLhs : lhs.Valid) (validRhs : rhs.Valid)

include validLhs validRhs

/-- Two tensors of integers whose sizes can be broadcast together are refused at some point of the
result, or combined at every point.
-/
theorem execute_cases (kind : BinaryKind)
    : ∃ sizes,
        (Operation.binary kind).resultType [.tensor lhs.type, .tensor rhs.type]
          = .ok (.tensor ⟨lhs.dtype, .ofSizes sizes⟩)
        ∧ ((RefusesAt kind lhs rhs sizes
            ∧ Kernel.execute (.binary kind) [.tensor lhs, .tensor rhs] = .fail .divisionByZero)
          ∨ (¬RefusesAt kind lhs rhs sizes
            ∧ ∃ result : Tensor,
                Returns (.binary kind) [lhs, rhs] result ∧ Combines kind lhs rhs result)) := by
  obtain ⟨sizes, inferred, broadcast⟩ := exists_resultType integer same compatible kind
  refine ⟨sizes, inferred, ?_⟩
  have executed : Kernel.execute (.binary kind) [.tensor lhs, .tensor rhs]
      = Kernel.tensor (binary kind lhs rhs) :=
    rfl
  obtain ⟨refuses, failed⟩ | ⟨accepts, result, done, typed, valid, combines⟩ :=
    @binary_cases kind lhs rhs sizes integer validLhs validRhs broadcast
  · exact .inl ⟨refuses, by rw [executed, failed]; rfl⟩
  · have returned : Kernel.execute (.binary kind) [.tensor lhs, .tensor rhs]
        = .ok (.tensor result) := by
      rw [executed, done]
      rfl
    exact .inr ⟨accepts, result, ⟨returned, fun _ => returned, typed ▸ inferred, valid⟩, combines⟩

end

/-- A tensor has, at each of its points, the exact function of the integer that another one has there,
modulo the width of the element type.
-/
def Maps (function : Int → Int) (input result : Tensor) : Prop :=
  result.sizes = input.sizes
  ∧ ∀ coords, RowMajor.Inside coords result.sizes →
      ∃ x,
        input.int? coords = some x
        ∧ result.int? coords = some ((function x).bmod (2 ^ (8 * input.dtype.byteSize)))

section

variable {kind : UnaryKind} {function : Int → Int} (known : kind.onIntegers? = some function)
  {input : Tensor} (integer : input.dtype.isInteger = true)

include known integer

/-- Inference has a type for a function of integers. -/
theorem resultType_unary
    : (Operation.unary kind).resultType [.tensor input.type] = .ok (.tensor input.type) := by
  have numeric : input.dtype.isNumeric = true := DType.isNumeric_of_isInteger integer
  have supported : Typing.unarySupports kind input.type.dtype = true := by
    cases kind with
    | neg | abs => exact numeric
    | exp | log => cases known
  have typed : Typing.unary kind [.tensor input.type] = .ok (.tensor input.type) := if_pos supported
  rw [Operation.resultType, Typing.infer, typed]
  rfl

/-- A kernel maps the words of a tensor. -/
theorem exists_mapped (valid : input.Valid)
    : ∃ result : Tensor, Returns (.unary kind) [input] result ∧ Maps function input result := by
  obtain ⟨f, computed, wraps⟩ := toInt_unaryInt known
  have done : unary kind input
      = .ok ⟨input.sizes, .ofInts input.dtype (input.elements.toInts.map f)⟩ := by
    rw [unary, DType.isFloat_of_isInteger integer, if_neg Bool.false_ne_true, computed]
  have returned : Kernel.execute (.unary kind) [.tensor input]
      = .ok (.tensor ⟨input.sizes, .ofInts input.dtype (input.elements.toInts.map f)⟩) := by
    change Kernel.tensor (unary kind input) = _
    rw [done]
    rfl
  have length : input.elements.size = RowMajor.count input.sizes := valid
  refine ⟨_, ⟨returned, fun _ => returned, ?_, by simpa [Tensor.Valid] using length⟩, rfl,
    fun coords inside => ?_⟩
  · simpa [Tensor.type, Tensor.dtype] using resultType_unary known integer
  · obtain ⟨word, found⟩ := valid.exists_word inside
    refine ⟨word.toInt, by rw [Tensor.int?, found, Option.map_some], ?_⟩
    rw [Tensor.int?, Elements.toInts_ofInts integer, List.getElem?_map, List.getElem?_map, found]
    exact congrArg some (DType.toInt_wrap_of_bmod integer (wraps word))

end

-----------------------------------------------------------------------------------------
-- Wrapped results
-----------------------------------------------------------------------------------------

/-- The largest integer of 32 bits, in a column with another one. -/
def integerColumn : Tensor := ⟨[2, 1], .si32 [2147483647, 3]⟩

/-- The least integer of 32 bits, in a row with another one. -/
def integerRow : Tensor := ⟨[2], .si32 [-2147483648, 5]⟩

/-- The least word is only read in tensors of such words. -/
theorem refusesAt_div_iff {lhs rhs : Tensor} {sizes : List Nat}
    (integer : lhs.dtype.isInteger = true)
    : RefusesAt .div lhs rhs sizes
      ↔ ∃ coords x y,
          RowMajor.Inside coords sizes
          ∧ lhs.ReadsInt coords x
          ∧ rhs.ReadsInt coords y
          ∧ (y = 0 ∨ lhs.dtype = .si64 ∧ x = -2 ^ 63 ∧ y = -1) := by
  refine exists_congr fun coords => exists_congr fun x => exists_congr fun y =>
    and_congr_right fun inside => and_congr_right fun left => and_congr_right fun right => ?_
  rw [BinaryKind.Refuses, eq_self, true_and]
  refine or_congr_right ⟨fun least => ⟨?_, least⟩, And.right⟩
  have bound := left.least_le integer
  cases dtype : lhs.dtype with
  | si64 => rfl
  | si32 =>
      have least32 : DType.si32.least.toInt = -2 ^ 31 := rfl
      rw [dtype, least32, least.1] at bound
      omega
  | _ =>
      rw [dtype] at integer
      cases integer

/-- Integers are divided where no divisor is zero, except that words of 64 bits are also refused when
the least of them is divided by minus one; either is told as a division by zero. The quotients are
rounded toward zero, and wrap like any other result.
-/
theorem quotients_truncated {lhs rhs : Tensor} (integer : lhs.dtype.isInteger = true)
    (same : rhs.dtype = lhs.dtype) (validLhs : lhs.Valid) (validRhs : rhs.Valid)
    (compatible : Broadcast.Compatible lhs.sizes rhs.sizes)
    : ∃ sizes,
        (Operation.binary .div).resultType [.tensor lhs.type, .tensor rhs.type]
          = .ok (.tensor ⟨lhs.dtype, .ofSizes sizes⟩)
        ∧ (Kernel.execute (.binary .div) [.tensor lhs, .tensor rhs] = .fail .divisionByZero
            ↔ ∃ coords x y,
                RowMajor.Inside coords sizes
                ∧ lhs.ReadsInt coords x
                ∧ rhs.ReadsInt coords y
                ∧ (y = 0 ∨ lhs.dtype = .si64 ∧ x = -2 ^ 63 ∧ y = -1))
        ∧ (Kernel.execute (.binary .div) [.tensor lhs, .tensor rhs] ≠ .fail .divisionByZero →
            ∃ result : Tensor,
              Returns (.binary .div) [lhs, rhs] result ∧ Combines .div lhs rhs result)
        ∧ KernelFault.divisionByZero.describe = "integer division by zero" := by
  obtain ⟨sizes, inferred, cases⟩ := execute_cases integer same compatible validLhs validRhs .div
  refine ⟨sizes, inferred, ?_⟩
  rw [← refusesAt_div_iff integer]
  obtain ⟨refuses, failed⟩ | ⟨accepts, result, returns, combines⟩ := cases
  · exact ⟨iff_of_true failed refuses, fun other => absurd failed other, rfl⟩
  · refine ⟨iff_of_false ?_ accepts, fun _ => ⟨result, returns, combines⟩, rfl⟩
    rw [show Kernel.execute (.binary .div) [.tensor lhs, .tensor rhs] = .ok (.tensor result) from
      returns.evaluates]
    exact nofun

/-- A tensor of one integer of 64 bits. -/
def word (integer : Int64) : Tensor := ⟨[], .si64 [integer]⟩

/-- A tensor of one integer of 32 bits. -/
def halfWord (integer : Int32) : Tensor := ⟨[], .si32 [integer]⟩

/-- The least word of 64 bits is not divided by minus one, though the divisor is not zero. That of 32
bits is divided by it, and the quotient wraps.
-/
theorem leastWord_not_divided
    : (word (-9223372036854775808)).dtype.isInteger = true
      ∧ (word (-1)).dtype = (word (-9223372036854775808)).dtype
      ∧ (word (-9223372036854775808)).Valid
      ∧ (word (-1)).Valid
      ∧ Broadcast.Compatible (word (-9223372036854775808)).sizes (word (-1)).sizes
      ∧ Kernel.execute (.binary .div)
            [.tensor (word (-9223372036854775808)), .tensor (word (-1))]
          = .fail .divisionByZero
      ∧ ∃ result : Tensor,
          Returns (.binary .div) [halfWord (-2147483648), halfWord (-1)] result
          ∧ Combines .div (halfWord (-2147483648)) (halfWord (-1)) result
          ∧ result = halfWord (-2147483648) := by
  have compatible : Broadcast.Compatible [] [] := nofun
  obtain ⟨sizes, inferred, refused, -, -⟩ :=
    @quotients_truncated (word (-9223372036854775808)) (word (-1)) rfl rfl rfl rfl compatible
  obtain ⟨-, -, -, divided, -⟩ :=
    @quotients_truncated (halfWord (-2147483648)) (halfWord (-1)) rfl rfl rfl rfl compatible
  obtain rfl : sizes = [] := by
    cases sizes with
    | nil => rfl
    | cons size sizes => cases inferred
  have failed := refused.mpr
    ⟨[], -2 ^ 63, -1, .nil, ⟨[], .nil, nofun, rfl⟩, ⟨[], .nil, nofun, rfl⟩,
      .inr ⟨rfl, rfl, rfl⟩⟩
  have computed
      : Kernel.execute (.binary .div) [.tensor (halfWord (-2147483648)), .tensor (halfWord (-1))]
        = .ok (.tensor (halfWord (-2147483648))) :=
    rfl
  obtain ⟨result, returns, combines⟩ := divided (computed ▸ nofun)
  exact ⟨rfl, rfl, rfl, rfl, compatible, failed, result, returns, combines,
    Value.tensor.inj (Except.ok.inj (returns.evaluates.symm.trans computed))⟩

end Elementwise

end Dataflow

import Dataflow.Execution.Run
import Dataflow.Proofs.Tensor.Validity

/-!
Finite values. A check of a value reads its numbers back from the bytes in which they are shown, and
passes iff they are finite, under every name. All elements of all tensors of a value are counted, one
tensor after the other; a check shows the first positions of elements that are not finite.
-/

namespace Dataflow

-----------------------------------------------------------------------------------------
-- Bytes and words
-----------------------------------------------------------------------------------------

theorem ofLittleEndian_littleEndian (count value : Nat)
    : ofLittleEndian (littleEndian count value) = value % 256 ^ count := by
  induction count generalizing value with
  | zero => simp [littleEndian, ofLittleEndian, Nat.mod_one]
  | succ count ih =>
      have low : (UInt8.ofNat value).toNat = value % 256 := UInt8.toNat_ofNat'
      rw [littleEndian, ofLittleEndian, ih, low, Nat.pow_succ', Nat.mod_mul]

theorem length_littleEndian (count value : Nat) : (littleEndian count value).length = count := by
  induction count generalizing value with
  | zero => rfl
  | succ count ih => rw [littleEndian, List.length_cons, ih]

/-- Words of one size are read back one by one, by induction on the words. -/
theorem wordsOf_flatMap {α : Type} {bytes : α → List UInt8} {size : Nat} (positive : 0 < size)
    (uniform : ∀ item, (bytes item).length = size) (items : List α)
    : wordsOf size (items.flatMap bytes) = items.map fun item => ofLittleEndian (bytes item) := by
  have length : (items.flatMap bytes).length / size = items.length := by
    rw [List.length_flatMap, List.map_congr_left fun item _ => uniform item]
    simp [positive]
  have groups : groupsOf size items.length (items.flatMap bytes) = items.map bytes := by
    clear length
    induction items with
    | nil => rfl
    | cons item items ih =>
        rw [List.flatMap_cons, List.length_cons, groupsOf, ← uniform item, List.take_left,
          List.drop_left, uniform item, ih, List.map_cons]
  rw [wordsOf, length, groups, List.map_map]
  rfl

/-- Elements are read back from their bytes. -/
theorem Elements.decode_encode (elements : Elements)
    : decode elements.dtype elements.encode = elements := by
  have words32 (words : List UInt32)
      : (wordsOf 4 (words.flatMap bytesOfWord32)).map UInt32.ofNat = words := by
    have uniform (word : UInt32) : (bytesOfWord32 word).length = 4 := length_littleEndian 4 _
    rw [wordsOf_flatMap (by decide) uniform, List.map_map]
    refine (List.map_congr_left fun word _ => ?_).trans (List.map_id _)
    have small : word.toNat < 256 ^ 4 := word.toNat_lt
    rw [Function.comp_apply, bytesOfWord32, ofLittleEndian_littleEndian,
      Nat.mod_eq_of_lt small, UInt32.ofNat_toNat, id]
  have words64 (words : List UInt64)
      : (wordsOf 8 (words.flatMap bytesOfWord64)).map UInt64.ofNat = words := by
    have uniform (word : UInt64) : (bytesOfWord64 word).length = 8 := length_littleEndian 8 _
    rw [wordsOf_flatMap (by decide) uniform, List.map_map]
    refine (List.map_congr_left fun word _ => ?_).trans (List.map_id _)
    have small : word.toNat < 256 ^ 8 := word.toNat_lt
    rw [Function.comp_apply, bytesOfWord64, ofLittleEndian_littleEndian,
      Nat.mod_eq_of_lt small, UInt64.ofNat_toNat, id]
  cases elements with
  | i1 bytes => rfl
  | f32 words => exact congrArg f32 (words32 words)
  | f64 words => exact congrArg f64 (words64 words)
  | si32 values =>
      have words := congrArg (List.map UInt32.toInt32) (words32 (values.map Int32.toUInt32))
      rw [List.flatMap_map, List.map_map, List.map_map] at words
      refine congrArg si32 (words.trans ?_)
      exact (List.map_congr_left fun value _ => rfl).trans (List.map_id _)
  | si64 values =>
      have words := congrArg (List.map UInt64.toInt64) (words64 (values.map Int64.toUInt64))
      rw [List.flatMap_map, List.map_map, List.map_map] at words
      refine congrArg si64 (words.trans ?_)
      exact (List.map_congr_left fun value _ => rfl).trans (List.map_id _)

-----------------------------------------------------------------------------------------
-- Finite values
-----------------------------------------------------------------------------------------

/-- The numbers of a tensor are finite, if it holds numbers. -/
def Tensor.IsFinite (tensor : Tensor) : Prop :=
  tensor.dtype.isFloat = true → ∀ x ∈ tensor.elements.toFloats, x.isFinite = true

namespace Value

mutual

/-- The tensors in a value. -/
def tensors : Value → List Tensor
  | .tensor content => [content]
  | .list items => items
  | .tuple parts => tensorsOfParts parts

/-- The tensors in the parts of a tuple. -/
def tensorsOfParts : List Value → List Tensor
  | [] => []
  | part :: parts => part.tensors ++ tensorsOfParts parts

end

mutual

theorem literals_toHost
    : ∀ value : Value, value.toHost.literals = value.tensors.map Tensor.toLiteral
  | .tensor _ => rfl
  | .list _ => rfl
  | .tuple parts => literals_toHostParts parts

theorem literals_toHostParts
    : ∀ parts : List Value,
        HostValue.literalsOfParts (toHostParts parts)
          = (tensorsOfParts parts).map Tensor.toLiteral
  | [] => rfl
  | part :: parts => by
    rw [toHostParts, HostValue.literalsOfParts, tensorsOfParts, List.map_append,
      literals_toHost part, literals_toHostParts parts]

end

/-- All numbers of a value are finite. -/
def IsFinite (value : Value) : Prop := ∀ tensor ∈ value.tensors, tensor.IsFinite

end Value

namespace Finiteness

theorem badFloats_eq_nil_iff {offset : Nat} {xs : List Float}
    : badFloats offset xs = [] ↔ ∀ x ∈ xs, x.isFinite = true := by
  induction xs generalizing offset with
  | nil => simp [badFloats]
  | cons x xs ih =>
      rw [badFloats, List.forall_mem_cons]
      split_ifs with finite
      · rw [ih, finite, and_iff_right rfl]
      · exact iff_of_false (fun none => nomatch none) fun all => finite all.1

theorem badPositions_toLiteral_eq_nil_iff {offset : Nat} {tensor : Tensor}
    : badPositions offset tensor.toLiteral = [] ↔ tensor.IsFinite := by
  have floats : tensor.toLiteral.floats = tensor.elements.toFloats :=
    congrArg Elements.toFloats tensor.elements.decode_encode
  rw [badPositions, floats, Tensor.IsFinite]
  change (if tensor.dtype.isFloat then _ else _) = [] ↔ _
  split_ifs with float
  · rw [badFloats_eq_nil_iff, forall_prop_of_true float]
  · exact iff_of_true rfl fun found => absurd found float

theorem allBadPositions_eq_nil_iff {offset : Nat} {tensors : List Tensor}
    : allBadPositions offset (tensors.map Tensor.toLiteral) = []
      ↔ ∀ tensor ∈ tensors, tensor.IsFinite := by
  induction tensors generalizing offset with
  | nil => simp [allBadPositions]
  | cons tensor tensors ih =>
      rw [List.map_cons, allBadPositions, List.append_eq_nil_iff, ih,
        badPositions_toLiteral_eq_nil_iff, List.forall_mem_cons]

/-- A value passes the check iff its numbers are finite. -/
theorem check_eq_ok_iff {operation : String} {id : ValueId} {value : Value}
    : check operation id value.toHost = .ok () ↔ value.IsFinite := by
  rw [check, Value.IsFinite, Value.literals_toHost, ← @allBadPositions_eq_nil_iff 0]
  generalize allBadPositions 0 (value.tensors.map Tensor.toLiteral) = positions
  cases positions with
  | nil => exact iff_of_true rfl rfl
  | cons position positions => exact iff_of_false (nomatch ·) (nomatch ·)

end Finiteness

-----------------------------------------------------------------------------------------
-- Places
-----------------------------------------------------------------------------------------

namespace Finiteness

/-- The places of false entries, in increasing order. -/
def falsePlaces (entries : List Bool) : List Nat :=
  (List.range entries.length).filter fun place => entries[place]? = some false

theorem mem_falsePlaces {entries : List Bool} {place : Nat}
    : place ∈ falsePlaces entries ↔ entries[place]? = some false := by
  rw [falsePlaces, List.mem_filter, List.mem_range, decide_eq_true_eq]
  exact and_iff_right_of_imp fun found => (List.getElem?_eq_some_iff.mp found).1

theorem falsePlaces_increasing (entries : List Bool)
    : (falsePlaces entries).Pairwise (· < ·) :=
  List.pairwise_lt_range.filter _

theorem falsePlaces_eq_nil_iff {entries : List Bool} : falsePlaces entries = [] ↔ false ∉ entries := by
  rw [List.eq_nil_iff_forall_not_mem, List.mem_iff_getElem?, not_exists]
  exact forall_congr' fun place => not_congr mem_falsePlaces

/-- Places in the back are counted from its start. -/
theorem falsePlaces_append (front back : List Bool)
    : falsePlaces (front ++ back)
      = falsePlaces front ++ (falsePlaces back).map (front.length + ·) := by
  rw [falsePlaces, List.length_append, List.range_add, List.filter_append, List.filter_map]
  congr 1
  · refine List.filter_congr fun place member => ?_
    rw [List.getElem?_append_left (List.mem_range.mp member)]
  · refine congrArg (List.map _) (List.filter_congr fun place _ => ?_)
    rw [Function.comp_apply, List.getElem?_append_right (Nat.le_add_right _ _),
      Nat.add_sub_cancel_left]

theorem falsePlaces_replicate_true (count : Nat) : falsePlaces (List.replicate count true) = [] :=
  falsePlaces_eq_nil_iff.mpr fun member => nomatch List.eq_of_mem_replicate member

/-- Positions of numbers are counted from the offset. -/
theorem badFloats_eq (offset : Nat) (xs : List Float)
    : badFloats offset xs = (falsePlaces (xs.map Float.isFinite)).map (offset + ·) := by
  induction xs generalizing offset with
  | nil => rfl
  | cons x xs ih =>
      have places
          : falsePlaces (x.isFinite :: xs.map Float.isFinite)
            = falsePlaces [x.isFinite] ++ (falsePlaces (xs.map Float.isFinite)).map (1 + ·) :=
        falsePlaces_append [x.isFinite] _
      have later
          : badFloats (offset + 1) xs
            = ((falsePlaces (xs.map Float.isFinite)).map (1 + ·)).map (offset + ·) := by
        rw [ih, List.map_map]
        exact List.map_congr_left fun place _ => Nat.add_assoc offset 1 place
      rw [badFloats, later, List.map_cons, places, List.map_append]
      cases x.isFinite <;> rfl

end Finiteness

-----------------------------------------------------------------------------------------
-- Elements of values
-----------------------------------------------------------------------------------------

/-- For each element of a tensor, whether it is finite, as all integers are. -/
def Tensor.finiteness (tensor : Tensor) : List Bool :=
  if tensor.dtype.isFloat then tensor.elements.toFloats.map Float.isFinite
  else List.replicate tensor.elements.size true

@[simp] theorem Tensor.length_finiteness (tensor : Tensor)
    : tensor.finiteness.length = tensor.elements.size := by
  rw [finiteness]
  split_ifs <;> simp

theorem Tensor.isFinite_iff {tensor : Tensor} : tensor.IsFinite ↔ false ∉ tensor.finiteness := by
  rw [IsFinite, finiteness]
  split_ifs with float
  · simp [float]
  · simp [float]

namespace Value

/-- For each element of a value, whether it is finite, one tensor after the other. -/
def finiteness (value : Value) : List Bool := value.tensors.flatMap Tensor.finiteness

/-- The flat positions of the elements that are not finite, in increasing order. -/
def nonFinitePositions (value : Value) : List Nat := Finiteness.falsePlaces value.finiteness

/-- The elements of a tensor can be counted in a word. -/
def IsAddressable (value : Value) : Prop :=
  ∀ tensor ∈ value.tensors, tensor.elements.size < sizeLimit

theorem nonFinitePositions_eq_nil_iff {value : Value}
    : value.nonFinitePositions = [] ↔ value.IsFinite := by
  rw [nonFinitePositions, Finiteness.falsePlaces_eq_nil_iff, finiteness, IsFinite]
  simp only [List.mem_flatMap, not_exists, not_and, Tensor.isFinite_iff]

mutual

theorem valid_of_mem_tensors
    : ∀ {value : Value}, value.Valid → ∀ content ∈ value.tensors, content.Valid
  | .tensor _, valid, _, member => List.mem_singleton.mp member ▸ valid
  | .list _, valid, content, member => valid content member
  | .tuple _, valid, content, member => valid_of_mem_tensorsOfParts valid content member

theorem valid_of_mem_tensorsOfParts
    : ∀ {parts : List Value}, AllValid parts → ∀ content ∈ tensorsOfParts parts, content.Valid
  | [], _, _, member => absurd member List.not_mem_nil
  | _ :: _, valid, content, member =>
    (List.mem_append.mp member).elim (valid_of_mem_tensors valid.1 content)
      (valid_of_mem_tensorsOfParts valid.2 content)

end

end Value

-----------------------------------------------------------------------------------------
-- Shown positions
-----------------------------------------------------------------------------------------

theorem Shape.sizes?_ofSizes (sizes : List Nat) : (ofSizes sizes).sizes? = some sizes := by
  rw [Shape.sizes?, ofSizes, Steps.mapM_eq_some_iff, List.map_map]
  rfl

/-- A product that leaves the word counts as zero. It is, if the whole product fits the word: the
extent that brings it back is zero. By induction on the extents.
-/
theorem getD_checkedProduct {sizes : List Nat} (fits : RowMajor.count sizes < sizeLimit)
    : (checkedProduct sizes).getD 0 = RowMajor.count sizes := by
  have folded
      : ∀ (sizes : List Nat) (start : Nat),
          start * RowMajor.count sizes < sizeLimit
          → (sizes.foldlM
                (fun total extent =>
                  if total * extent < sizeLimit then some (total * extent) else none)
                start).getD 0
              = start * RowMajor.count sizes := by
    intro sizes
    induction sizes with
    | nil => exact fun start _ => (Nat.mul_one start).symm
    | cons size sizes ih =>
        intro start fits
        rw [RowMajor.count_cons, ← Nat.mul_assoc] at fits ⊢
        rw [List.foldlM_cons]
        by_cases inside : start * size < sizeLimit
        · rw [if_pos inside]
          exact ih (start * size) fits
        · rw [if_neg inside]
          rcases Nat.eq_zero_or_pos (RowMajor.count sizes) with zero | positive
          · rw [zero, Nat.mul_zero]
            rfl
          · have grown := Nat.le_mul_of_pos_right (start * size) positive
            exact absurd (Nat.lt_of_le_of_lt grown fits) inside
  have product := folded sizes 1 (by rwa [Nat.one_mul])
  rwa [Nat.one_mul] at product

namespace Finiteness

theorem badPositions_eq (offset : Nat) (tensor : Tensor)
    : badPositions offset tensor.toLiteral
      = (falsePlaces tensor.finiteness).map (offset + ·) := by
  have floats : tensor.toLiteral.floats = tensor.elements.toFloats :=
    congrArg Elements.toFloats tensor.elements.decode_encode
  rw [badPositions, floats, Tensor.finiteness]
  change (if tensor.dtype.isFloat then _ else _) = _
  split_ifs
  · exact badFloats_eq offset _
  · rw [falsePlaces_replicate_true, List.map_nil]

/-- A literal takes a position for each element of its tensor. -/
theorem width_toLiteral {tensor : Tensor} (valid : tensor.Valid)
    (fits : tensor.elements.size < sizeLimit)
    : width tensor.toLiteral = tensor.finiteness.length := by
  have floats : tensor.toLiteral.floats = tensor.elements.toFloats :=
    congrArg Elements.toFloats tensor.elements.decode_encode
  rw [width, floats, Tensor.length_finiteness]
  change (if tensor.dtype.isFloat then _
    else ((Shape.ofSizes tensor.sizes).sizes?.bind checkedProduct).getD 0) = _
  split_ifs
  · exact Elements.length_toFloats _
  · have valid : tensor.elements.size = RowMajor.count tensor.sizes := valid
    rw [Shape.sizes?_ofSizes, Option.bind_some, valid]
    exact getD_checkedProduct (valid ▸ fits)

/-- The positions in some tensors, one after the other, by induction on the tensors. -/
theorem allBadPositions_eq {tensors : List Tensor} (valid : ∀ tensor ∈ tensors, tensor.Valid)
    (fits : ∀ tensor ∈ tensors, tensor.elements.size < sizeLimit) (offset : Nat)
    : allBadPositions offset (tensors.map Tensor.toLiteral)
      = (falsePlaces (tensors.flatMap Tensor.finiteness)).map (offset + ·) := by
  induction tensors generalizing offset with
  | nil => rfl
  | cons tensor tensors ih =>
      obtain ⟨validHere, valid⟩ := List.forall_mem_cons.mp valid
      obtain ⟨fitsHere, fits⟩ := List.forall_mem_cons.mp fits
      rw [List.map_cons, allBadPositions, badPositions_eq, width_toLiteral validHere fitsHere,
        ih valid fits, List.flatMap_cons, falsePlaces_append, List.map_append, List.map_map]
      refine congrArg _ (List.map_congr_left fun place _ => ?_)
      exact Nat.add_assoc offset tensor.finiteness.length place

/-- Positions are those that an error about a value shows: the first eight at which its elements are
not finite, in increasing order.
-/
structure Shows (value : Value) (positions : List Nat) : Prop where
  some : value.nonFinitePositions ≠ []
  first : value.IsAddressable → positions = value.nonFinitePositions.take 8
  increasing : value.IsAddressable → positions.Pairwise (· < ·)

/-- A check that complains about numbers names what it checked and shows its positions. -/
theorem check_eq_notFinite {operation name : String} {id key : ValueId} {value : Value}
    {positions : List Nat} (valid : value.Valid)
    (failed : check operation id value.toHost = .error (.notFinite name key positions))
    : operation = name ∧ id = key ∧ Shows value positions := by
  have some : value.nonFinitePositions ≠ [] := by
    intro none
    cases failed.symm.trans (check_eq_ok_iff.mpr (Value.nonFinitePositions_eq_nil_iff.mp none))
  rw [check, Value.literals_toHost] at failed
  split at failed
  · cases failed
  · obtain ⟨rfl, rfl, rfl⟩ := BackendError.notFinite.inj (Except.error.inj failed)
    have unmoved (places : List Nat) : places.map (0 + ·) = places := by simp
    have first (addressable : value.IsAddressable)
        : (allBadPositions 0 (value.tensors.map Tensor.toLiteral)).take shownPositions
          = value.nonFinitePositions.take 8 := by
      rw [allBadPositions_eq (Value.valid_of_mem_tensors valid) addressable, unmoved]
      rfl
    refine ⟨rfl, rfl, some, first, fun addressable => ?_⟩
    rw [first addressable]
    exact (falsePlaces_increasing _).take

end Finiteness

end Dataflow

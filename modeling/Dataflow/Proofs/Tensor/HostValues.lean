import Dataflow.Proofs.Execution.Finiteness
import Dataflow.Proofs.Tensor.Movement

/-!
The way of host values in and out. A backend accepts a host value iff the bytes of each of its
literals are those of whole elements, one for each place of its shape; then no byte gets lost, so the
value goes out as it came in.
-/

namespace Dataflow

-----------------------------------------------------------------------------------------
-- Words and bytes
-----------------------------------------------------------------------------------------

/-- A word that is read from some bytes fits them, by induction on the bytes. -/
theorem ofLittleEndian_lt (bytes : List UInt8) : ofLittleEndian bytes < 256 ^ bytes.length := by
  induction bytes with
  | nil => exact Nat.one_pos
  | cons byte bytes ih =>
      have low : byte.toNat < 256 := byte.toNat_lt
      rw [ofLittleEndian, List.length_cons, Nat.pow_succ]
      omega

/-- Bytes are written back as they were read, by induction on the bytes. -/
theorem littleEndian_ofLittleEndian (bytes : List UInt8)
    : littleEndian bytes.length (ofLittleEndian bytes) = bytes := by
  induction bytes with
  | nil => rfl
  | cons byte bytes ih =>
      have low : byte.toNat < 256 := byte.toNat_lt
      have rest : (byte.toNat + 256 * ofLittleEndian bytes) / 256 = ofLittleEndian bytes := by omega
      have first : UInt8.ofNat (byte.toNat + 256 * ofLittleEndian bytes) = byte := by
        apply UInt8.toNat_inj.mp
        rw [UInt8.toNat_ofNat']
        omega
      simp only [List.length_cons, ofLittleEndian, littleEndian, first, rest, ih]

/-- Groups that use up all items are of one size, and the items are their concatenation. By
induction on the number of groups.
-/
theorem groupsOf_exact {α : Type} {size count : Nat} {items : List α}
    (exact : items.length = count * size)
    : (groupsOf size count items).flatten = items
      ∧ ∀ group ∈ groupsOf size count items, group.length = size := by
  induction count generalizing items with
  | zero =>
      rw [Nat.zero_mul] at exact
      exact ⟨(List.eq_nil_of_length_eq_zero exact).symm, fun _ => nofun⟩
  | succ count ih =>
      rw [Nat.succ_mul] at exact
      have rest : (items.drop size).length = count * size := by
        rw [List.length_drop]
        omega
      obtain ⟨joined, uniform⟩ := ih rest
      constructor
      · rw [groupsOf, List.flatten_cons, joined, List.take_append_drop]
      · intro group member
        rcases List.mem_cons.mp member with rfl | later
        · rw [List.length_take]
          omega
        · exact uniform group later

/-- Bytes that make up whole words are written back word by word. -/
theorem flatMap_wordsOf {size count : Nat} {bytes : List UInt8} {write : Nat → List UInt8}
    (positive : 0 < size) (exact : bytes.length = count * size)
    (back : ∀ group : List UInt8, group.length = size → write (ofLittleEndian group) = group)
    : (wordsOf size bytes).flatMap write = bytes := by
  have number : bytes.length / size = count := by rw [exact, Nat.mul_div_cancel _ positive]
  obtain ⟨joined, uniform⟩ := groupsOf_exact exact
  have written : (groupsOf size count bytes).map (fun group => write (ofLittleEndian group))
      = groupsOf size count bytes := by
    apply (List.map_congr_left fun group member => ?_).trans (List.map_id _)
    exact back group (uniform group member)
  rw [wordsOf, number, List.flatMap_map, List.flatMap, written, joined]

theorem bytesOfWord32_ofLittleEndian {bytes : List UInt8} (length : bytes.length = 4)
    : bytesOfWord32 (UInt32.ofNat (ofLittleEndian bytes)) = bytes := by
  have small : ofLittleEndian bytes < 256 ^ bytes.length := ofLittleEndian_lt bytes
  rw [length] at small
  rw [bytesOfWord32, UInt32.toNat_ofNat_of_lt' small, ← length, littleEndian_ofLittleEndian]

theorem bytesOfWord64_ofLittleEndian {bytes : List UInt8} (length : bytes.length = 8)
    : bytesOfWord64 (UInt64.ofNat (ofLittleEndian bytes)) = bytes := by
  have small : ofLittleEndian bytes < 256 ^ bytes.length := ofLittleEndian_lt bytes
  rw [length] at small
  rw [bytesOfWord64, UInt64.toNat_ofNat_of_lt' small, ← length, littleEndian_ofLittleEndian]

/-- Whole elements are written as the bytes that they were read from. Truth values keep bytes other
than zero and one, and numbers keep every bit pattern.
-/
theorem Elements.encode_decode {dtype : DType} {bytes : List UInt8} {count : Nat}
    (exact : bytes.length = count * dtype.byteSize)
    : (decode dtype bytes).encode = bytes := by
  cases dtype with
  | i1 => rfl
  | si32 =>
      rw [decode, encode, List.flatMap_map]
      exact flatMap_wordsOf (by decide) exact fun _ => bytesOfWord32_ofLittleEndian
  | si64 =>
      rw [decode, encode, List.flatMap_map]
      exact flatMap_wordsOf (by decide) exact fun _ => bytesOfWord64_ofLittleEndian
  | f32 =>
      rw [decode, encode, List.flatMap_map]
      exact flatMap_wordsOf (by decide) exact fun _ => bytesOfWord32_ofLittleEndian
  | f64 =>
      rw [decode, encode, List.flatMap_map]
      exact flatMap_wordsOf (by decide) exact fun _ => bytesOfWord64_ofLittleEndian

-----------------------------------------------------------------------------------------
-- Literals
-----------------------------------------------------------------------------------------

/-- All extents are known, and there are as many bytes as the elements take. -/
def Literal.IsWhole (literal : Literal) : Prop :=
  ∃ sizes,
    literal.type.shape.sizes? = some sizes
    ∧ literal.bytes.length = RowMajor.count sizes * literal.type.dtype.byteSize

namespace Tensor

/-- What the tensor of a literal is: the literal is whole, and its elements are those of the tensor. -/
theorem ofLiteral_eq_ok_iff {literal : Literal} {tensor : Tensor}
    : ofLiteral literal = .ok tensor
      ↔ literal.type.shape.sizes? = some tensor.sizes
        ∧ literal.bytes.length = RowMajor.count tensor.sizes * literal.type.dtype.byteSize
        ∧ literal.elements = tensor.elements := by
  rw [ofLiteral]
  cases known : literal.type.shape.sizes? with
  | none =>
      constructor
      · intro made
        cases made
      · rintro ⟨sized, -⟩
        cases sized
  | some sizes =>
      dsimp only
      split_ifs with exact
      · rw [Except.ok.injEq]
        constructor
        · rintro rfl
          exact ⟨rfl, exact, rfl⟩
        · rintro ⟨same, -, elements⟩
          obtain rfl := Option.some.inj same
          rw [elements]
      · constructor
        · intro made
          cases made
        · rintro ⟨same, fits, -⟩
          obtain rfl := Option.some.inj same
          exact absurd fits exact

/-- Exactly the whole literals make a tensor. -/
theorem exists_ofLiteral_iff {literal : Literal}
    : (∃ tensor, ofLiteral literal = .ok tensor) ↔ literal.IsWhole := by
  constructor
  · rintro ⟨tensor, made⟩
    obtain ⟨known, exact, -⟩ := ofLiteral_eq_ok_iff.mp made
    exact ⟨tensor.sizes, known, exact⟩
  · rintro ⟨sizes, known, exact⟩
    exact ⟨⟨sizes, literal.elements⟩, ofLiteral_eq_ok_iff.mpr ⟨known, exact, rfl⟩⟩

/-- A tensor of a literal goes out as that literal. -/
theorem toLiteral_of_ofLiteral {literal : Literal} {tensor : Tensor}
    (made : ofLiteral literal = .ok tensor)
    : tensor.toLiteral = literal := by
  obtain ⟨known, exact, elements⟩ := ofLiteral_eq_ok_iff.mp made
  obtain ⟨⟨dtype, shape⟩, bytes⟩ := literal
  obtain rfl : shape = .ofSizes tensor.sizes := Movement.shape_eq_of_sizes? known
  rw [toLiteral, Literal.ofElements, ← elements, Literal.elements, Elements.dtype_decode,
    Elements.encode_decode exact]

/-- Tensors of literals go out as these literals. -/
theorem map_toLiteral_of_mapM_ofLiteral {literals : List Literal} {tensors : List Tensor}
    (made : literals.mapM ofLiteral = .ok tensors)
    : tensors.map toLiteral = literals := by
  induction literals generalizing tensors with
  | nil =>
      cases made
      rfl
  | cons literal literals ih =>
      rw [List.mapM_cons] at made
      obtain ⟨tensor, here, made⟩ := Steps.bind_eq_ok_iff.mp made
      obtain ⟨others, later, made⟩ := Steps.bind_eq_ok_iff.mp made
      cases made
      rw [List.map_cons, toLiteral_of_ofLiteral here, ih later]

end Tensor

-----------------------------------------------------------------------------------------
-- Host values
-----------------------------------------------------------------------------------------

namespace Value

mutual

/-- A host value is accepted iff all its literals are whole, by induction on the value. -/
theorem exists_ofHost_iff
    : ∀ host : HostValue,
        (∃ value, ofHost host = .ok value) ↔ ∀ literal ∈ host.literals, literal.IsWhole
  | .tensor literal => by
    simp only [ofHost, HostValue.literals, List.forall_mem_singleton, Steps.bind_eq_ok_iff,
      ← Tensor.exists_ofLiteral_iff]
    constructor
    · rintro ⟨_, tensor, made, -⟩
      exact ⟨tensor, made⟩
    · rintro ⟨tensor, made⟩
      exact ⟨.tensor tensor, tensor, made, rfl⟩
  | .list items => by
    simp only [ofHost, HostValue.literals, Steps.bind_eq_ok_iff, ← Tensor.exists_ofLiteral_iff]
    constructor
    · rintro ⟨_, tensors, made, -⟩ literal member
      have each : items.map Tensor.ofLiteral = tensors.map .ok := Steps.mapM_eq_ok_iff.mp made
      have listed : Tensor.ofLiteral literal ∈ tensors.map .ok := each ▸ List.mem_map_of_mem member
      obtain ⟨tensor, -, same⟩ := List.mem_map.mp listed
      exact ⟨tensor, same.symm⟩
    · intro each
      obtain ⟨tensors, made⟩ := Steps.exists_mapM_eq_ok each
      exact ⟨.list tensors, tensors, made, rfl⟩
  | .tuple parts => by
    simp only [ofHost, HostValue.literals, Steps.bind_eq_ok_iff, ← exists_ofHostParts_iff parts]
    constructor
    · rintro ⟨_, values, made, -⟩
      exact ⟨values, made⟩
    · rintro ⟨values, made⟩
      exact ⟨.tuple values, values, made, rfl⟩

theorem exists_ofHostParts_iff
    : ∀ parts : List HostValue,
        (∃ values, ofHostParts parts = .ok values)
        ↔ ∀ literal ∈ HostValue.literalsOfParts parts, literal.IsWhole
  | [] => ⟨fun _ _ => nofun, fun _ => ⟨[], rfl⟩⟩
  | part :: parts => by
    simp only [ofHostParts, HostValue.literalsOfParts, List.forall_mem_append,
      Steps.bind_eq_ok_iff, ← exists_ofHost_iff part, ← exists_ofHostParts_iff parts]
    constructor
    · rintro ⟨_, value, here, values, later, -⟩
      exact ⟨⟨value, here⟩, values, later⟩
    · rintro ⟨⟨value, here⟩, values, later⟩
      exact ⟨value :: values, value, here, values, later, rfl⟩

end

mutual

/-- An accepted host value goes out as it came in, by induction on the value. -/
theorem toHost_of_ofHost
    : ∀ {host : HostValue} {value : Value}, ofHost host = .ok value → value.toHost = host
  | .tensor literal, _, made => by
    obtain ⟨tensor, inner, rfl⟩ := Steps.map_eq_ok_iff.mp made
    rw [toHost, Tensor.toLiteral_of_ofLiteral inner]
  | .list items, _, made => by
    obtain ⟨tensors, inner, rfl⟩ := Steps.map_eq_ok_iff.mp made
    rw [toHost, Tensor.map_toLiteral_of_mapM_ofLiteral inner]
  | .tuple parts, _, made => by
    obtain ⟨values, inner, rfl⟩ := Steps.map_eq_ok_iff.mp made
    rw [toHost, toHostParts_of_ofHostParts inner]

theorem toHostParts_of_ofHostParts
    : ∀ {parts : List HostValue} {values : List Value},
        ofHostParts parts = .ok values → toHostParts values = parts
  | [], _, made => by
    cases made
    rfl
  | part :: parts, _, made => by
    obtain ⟨value, here, made⟩ := Steps.bind_eq_ok_iff.mp made
    obtain ⟨values, later, rfl⟩ := Steps.map_eq_ok_iff.mp made
    rw [toHostParts, toHost_of_ofHost here, toHostParts_of_ofHostParts later]

end

/-- A backend accepts exactly the host values whose literals have known extents and the bytes of
their elements, no fewer and no more. It gives back what it accepted, byte for byte, whatever the
element type is and whatever the bytes are.
-/
theorem host_roundTrip (host : HostValue)
    : ((∃ value, ofHost host = .ok value) ↔ ∀ literal ∈ host.literals, literal.IsWhole)
      ∧ ∀ value, ofHost host = .ok value → value.toHost = host :=
  ⟨exists_ofHost_iff host, fun _ => toHost_of_ofHost⟩

/-- A truth value other than zero and one, what is no number with a payload, and the negative zero. -/
example
    : let host := HostValue.tuple [.tensor ⟨⟨.i1, ⟨[]⟩⟩, [7]⟩, .list [
        ⟨⟨.f32, ⟨[.static 1]⟩⟩, [5, 0, 0x80, 0x7f]⟩, ⟨⟨.f64, ⟨[]⟩⟩, [0, 0, 0, 0, 0, 0, 0, 0x80]⟩]]
      (ofHost host).map toHost = .ok host := by
  rfl

end Value

end Dataflow

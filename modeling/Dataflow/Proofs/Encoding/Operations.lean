import Dataflow.Encoding.Operation
import Dataflow.Encoding.Type
import Dataflow.Proofs.Json.Decoding

/-!
Types, literals, names and operations are recovered from their forms. A form holds numbers of any size
and a decoder takes words, so the numbers of a value, and the sizes, positions and axes of an
operation, must fit the words that a program keeps them in.
-/

namespace Dataflow

open Decoder

-----------------------------------------------------------------------------------------
-- Shapes
-----------------------------------------------------------------------------------------

/-- Every element type is recovered from its name. -/
theorem DType.recovers (dtype : DType) : DType.decoder.Recovers dtype.toJson dtype := by
  apply recovers_tag
  cases dtype <;> rfl

/-- Whether the extent fits its word. -/
def Dimension.fits : Dimension → Bool
  | .static size => fitsSize size
  | .unknown => true

/-- A dimension is recovered, by cases on whether its extent is known. -/
theorem Dimension.recovers {dim : Dimension} (fits : dim.fits)
    : Dimension.decoder.Recovers dim.toJson dim := by
  cases dim with
  | static size =>
      apply recovers_tagged (recovers_size fits)
      intro mode whole inner payload split
      simp [decoder, split]
  | unknown =>
      apply recovers_ofString
      intro mode whole inner payload split
      simp [decoder, split]

/-- Whether every extent fits its word. -/
def Shape.fits (shape : Shape) : Bool := shape.dims.all Dimension.fits

/-- A shape is recovered, as its dimensions are. -/
theorem Shape.recovers {shape : Shape} (fits : shape.fits)
    : Shape.decoder.Recovers shape.toJson shape := by
  have dims := recovers_list fun dim member =>
    Dimension.recovers (List.all_eq_true.mp fits dim member)
  apply recovers_ofMembers (by simp) (by simpa using dims.plain)
  intro mode inner opened room read
  simp only [List.map_cons, List.map_nil] at read
  simp only [List.forall_mem_cons] at room
  simp [decoder, opened, read, dims.required room.1]

-----------------------------------------------------------------------------------------
-- Types of values
-----------------------------------------------------------------------------------------

/-- Whether every extent fits its word. -/
def TensorType.fits (type : TensorType) : Bool := type.shape.fits

/-- A tensor type is recovered, as its two fields are. -/
theorem TensorType.recovers {type : TensorType} (fits : type.fits)
    : TensorType.decoder.Recovers type.toJson type := by
  have dtype := DType.recovers type.dtype
  have shape := Shape.recovers fits
  apply recovers_ofMembers (by simp) (by simp [dtype.plain, shape.plain])
  intro mode inner opened room read
  simp only [List.map_cons, List.map_nil] at read
  simp only [List.forall_mem_cons] at room
  simp [decoder, opened, read, dtype.required room.1, shape.required room.2.1]

namespace ValueType

mutual

/-- Whether every extent fits its word. -/
def fits : ValueType → Bool
  | .tensor type => type.fits
  | .list element => element.fits
  | .tuple parts => partsFit parts

/-- Whether every extent in the parts of a tuple fits its word. -/
def partsFit : List ValueType → Bool
  | [] => true
  | part :: parts => part.fits && partsFit parts

end

/-- Each part of a tuple fits if all do, by induction on the parts. -/
theorem fits_of_partsFit {parts : List ValueType} (fit : partsFit parts) {part : ValueType}
    (member : part ∈ parts)
    : part.fits := by
  induction parts with
  | nil => simp at member
  | cons head parts ih =>
      simp only [partsFit, Bool.and_eq_true] at fit
      rcases List.mem_cons.mp member with rfl | member
      · exact fit.1
      · exact ih fit.2 member

theorem partsToJson_eq_map (parts : List ValueType) : partsToJson parts = parts.map toJson := by
  induction parts with
  | nil => rfl
  | cons part parts ih => rw [partsToJson, ih, List.map_cons]

/-- A type is recovered by a decoder for its depth, by induction on that: the parts of a tuple
are two brackets deeper.
-/
theorem recovers_within {limit : Nat} {type : ValueType} (fits : type.fits)
    (within : type.toJson.depth < limit)
    : (decoderWithin limit).Recovers type.toJson type := by
  induction limit generalizing type with
  | zero => simp at within
  | succ limit ih =>
      cases type with
      | tensor type =>
          apply recovers_tagged (TensorType.recovers fits)
          intro mode whole inner payload split
          simp [decoderWithin, split]
      | list element =>
          apply recovers_tagged (TensorType.recovers fits)
          intro mode whole inner payload split
          simp [decoderWithin, split]
      | tuple parts =>
          rw [toJson, partsToJson_eq_map, Json.depth_tagged, Json.depth] at within
          have each : ∀ part ∈ parts, (decoderWithin limit).Recovers part.toJson part := by
            intro part member
            apply ih (fits_of_partsFit fits member)
            have deep := Json.depthOfItems_le_iff.mp (Nat.le_refl _) _
              (List.mem_map_of_mem (f := toJson) member)
            omega
          rw [toJson, partsToJson_eq_map]
          apply recovers_tagged (recovers_list each)
          intro mode whole inner payload split
          simp [decoderWithin, split]

/-- A type is recovered: the brackets that may be opened bound its depth. -/
theorem recovers {type : ValueType} (fits : type.fits)
    : decoder.Recovers type.toJson type where
  plain := (recovers_within fits (Nat.lt_succ_self _)).plain
  reads mode room := (recovers_within fits room).reads mode room

end ValueType

-----------------------------------------------------------------------------------------
-- Literals and names
-----------------------------------------------------------------------------------------

/-- Whether every extent fits its word; bytes always do. -/
def Literal.fits (literal : Literal) : Bool := literal.type.fits

/-- A literal is recovered, whatever its bytes are. -/
theorem Literal.recovers {literal : Literal} (fits : literal.fits)
    : Literal.decoder.Recovers literal.toJson literal := by
  have type := TensorType.recovers fits
  have bytes := recovers_list fun byte (_ : byte ∈ literal.bytes) => recovers_byte byte
  apply recovers_ofMembers (by simp) (by simp [type.plain, bytes.plain])
  intro mode inner opened room read
  simp only [List.map_cons, List.map_nil] at read
  simp only [List.forall_mem_cons] at room
  simp [decoder, opened, read, type.required room.1, bytes.required room.2.1]

/-- Whether the number of a name fits its word. -/
def ValueId.fits (id : ValueId) : Bool := id.number < 1 <<< 32

theorem ValueId.recovers {id : ValueId} (fits : id.fits)
    : ValueId.decoder.Recovers id.toJson id :=
  (recovers_natural (by simpa [ValueId.fits] using fits)).map ValueId.mk

-----------------------------------------------------------------------------------------
-- Kinds
-----------------------------------------------------------------------------------------

theorem UnaryKind.recovers (kind : UnaryKind)
    : UnaryKind.decoder.Recovers (.ofString kind.tag) kind := by
  apply recovers_tag
  cases kind <;> rfl

theorem BinaryKind.recovers (kind : BinaryKind)
    : BinaryKind.decoder.Recovers (.ofString kind.tag) kind := by
  apply recovers_tag
  cases kind <;> rfl

theorem ReduceKind.recovers (kind : ReduceKind)
    : ReduceKind.decoder.Recovers (.ofString kind.tag) kind := by
  apply recovers_tag
  cases kind <;> rfl

theorem MatrixView.recovers (view : MatrixView)
    : MatrixView.decoder.Recovers (.ofString view.tag) view := by
  apply recovers_tag
  cases view <;> rfl

-----------------------------------------------------------------------------------------
-- Indices and sizes
-----------------------------------------------------------------------------------------

/-- Whether the index or the position fits its word. -/
def IndexScalar.fits : IndexScalar → Bool
  | .static value => fitsSigned value
  | .operand position => fitsSize position

/-- An index is recovered, by cases on where it comes from. -/
theorem IndexScalar.recovers {index : IndexScalar} (fits : index.fits)
    : IndexScalar.decoder.Recovers index.toJson index := by
  cases index with
  | static value =>
      apply recovers_tagged (recovers_signed64 fits)
      intro mode whole inner payload split
      simp [decoder, split]
  | operand position =>
      apply recovers_tagged (recovers_size fits)
      intro mode whole inner payload split
      simp [decoder, split]

/-- A bound of a slice is recovered: a missing one is null, and no index is. -/
theorem IndexScalar.recovers_bound {bound : Option IndexScalar}
    (fits : bound.all IndexScalar.fits)
    : Recovers (fun mode form => optional decoder mode (some form)) (.ofOption toJson bound)
        bound := by
  apply recovers_ofOption
  · exact fun index here => IndexScalar.recovers ((Option.all_eq_true _ _).mp fits index here)
  · intro index
    cases index <;> simp [toJson, Json.tagged, Json.ofMembers]

/-- Whether every bound that is there fits. -/
def SliceBounds.fits (bounds : SliceBounds) : Bool :=
  bounds.start.all IndexScalar.fits && bounds.stop.all IndexScalar.fits
    && bounds.step.all IndexScalar.fits

/-- The bounds of a slice are recovered, each on its own. -/
theorem SliceBounds.recovers {bounds : SliceBounds} (fits : bounds.fits)
    : SliceBounds.decoder.Recovers bounds.toJson bounds := by
  simp only [SliceBounds.fits, Bool.and_eq_true] at fits
  have start := IndexScalar.recovers_bound fits.1.1
  have stop := IndexScalar.recovers_bound fits.1.2
  have step := IndexScalar.recovers_bound fits.2
  apply recovers_ofMembers (by simp) (by simp [start.plain, stop.plain, step.plain])
  intro mode inner opened room read
  simp only [List.map_cons, List.map_nil] at read
  simp only [List.forall_mem_cons] at room
  simp [decoder, opened, read, start.reads inner room.1, stop.reads inner room.2.1,
    step.reads inner room.2.2.1]

/-- Whether the numbers of an index fit. -/
def IndexEntry.fits : IndexEntry → Bool
  | .scalar index => index.fits
  | .slice bounds => bounds.fits

theorem IndexEntry.recovers {entry : IndexEntry} (fits : entry.fits)
    : IndexEntry.decoder.Recovers entry.toJson entry := by
  cases entry with
  | scalar index =>
      apply recovers_tagged (IndexScalar.recovers fits)
      intro mode whole inner payload split
      simp [decoder, split]
  | slice bounds =>
      apply recovers_tagged (SliceBounds.recovers fits)
      intro mode whole inner payload split
      simp [decoder, split]

/-- Whether the axis fits its word. -/
def ShuffleAxis.fits : ShuffleAxis → Bool
  | .axis source => fitsSize source
  | .broadcast => true

theorem ShuffleAxis.recovers {axis : ShuffleAxis} (fits : axis.fits)
    : ShuffleAxis.decoder.Recovers axis.toJson axis := by
  cases axis with
  | axis source =>
      apply recovers_tagged (recovers_size fits)
      intro mode whole inner payload split
      simp [decoder, split]
  | broadcast =>
      apply recovers_ofString
      intro mode whole inner payload split
      simp [decoder, split]

/-- Whether the size or the position fits its word. -/
def ExtentSource.fits : ExtentSource → Bool
  | .static size => fitsSize size
  | .operand position => fitsSize position

theorem ExtentSource.recovers {extent : ExtentSource} (fits : extent.fits)
    : ExtentSource.decoder.Recovers extent.toJson extent := by
  cases extent with
  | static size | operand position =>
      apply recovers_tagged (recovers_size fits)
      intro mode whole inner payload split
      simp [decoder, split]

/-- Whether the size or the position fits its word. -/
def ReshapeExtent.fits : ReshapeExtent → Bool
  | .explicit size => fitsSize size
  | .infer => true
  | .operand position => fitsSize position

theorem ReshapeExtent.recovers {extent : ReshapeExtent} (fits : extent.fits)
    : ReshapeExtent.decoder.Recovers extent.toJson extent := by
  cases extent with
  | explicit size | operand position =>
      apply recovers_tagged (recovers_size fits)
      intro mode whole inner payload split
      simp [decoder, split]
  | infer =>
      apply recovers_ofString
      intro mode whole inner payload split
      simp [decoder, split]

-----------------------------------------------------------------------------------------
-- Records
-----------------------------------------------------------------------------------------

/-- Whether every axis fits a signed word. -/
def Reduction.fits (reduction : Reduction) : Bool := reduction.axes.all fitsSigned

theorem Reduction.recovers {reduction : Reduction} (fits : reduction.fits)
    : Reduction.decoder.Recovers reduction.toJson reduction := by
  have kind := ReduceKind.recovers reduction.kind
  have axes := recovers_list fun axis member =>
    recovers_signed64 (List.all_eq_true.mp fits axis member)
  have keepAxes := recovers_bool reduction.keepAxes
  apply recovers_ofMembers (by simp) (by simp [kind.plain, axes.plain, keepAxes.plain])
  intro mode inner opened room read
  simp only [List.map_cons, List.map_nil] at read
  simp only [List.forall_mem_cons] at room
  simp [decoder, opened, read, kind.required room.1, axes.required room.2.1,
    keepAxes.required room.2.2.1]

theorem TriangularSystem.recovers (system : TriangularSystem)
    : TriangularSystem.decoder.Recovers system.toJson system := by
  have lower := recovers_bool system.lower
  have view := MatrixView.recovers system.view
  have unitDiagonal := recovers_bool system.unitDiagonal
  have checkFinite := recovers_bool system.checkFinite
  apply recovers_ofMembers (by simp)
    (by simp [lower.plain, view.plain, unitDiagonal.plain, checkFinite.plain])
  intro mode inner opened room read
  simp only [List.map_cons, List.map_nil] at read
  simp only [List.forall_mem_cons] at room
  simp [decoder, opened, read, lower.required room.1, view.required room.2.1,
    unitDiagonal.required room.2.2.1, checkFinite.required room.2.2.2.1]

-----------------------------------------------------------------------------------------
-- Operations
-----------------------------------------------------------------------------------------

namespace Operation

/-- Whether the numbers that an operation holds fit their words. -/
def fits : Operation → Bool
  | .constant literal => literal.fits
  | .reduce reduction => reduction.fits
  | .argMax axis _ | .maxAndArgMax axis => fitsSigned axis
  | .tupleElement index => fitsSize index
  | .shuffle order => order.all ShuffleAxis.fits
  | .alloc extents => extents.all ExtentSource.fits
  | .subtensor entries => entries.all IndexEntry.fits
  | .reshape extents => extents.all ReshapeExtent.fits
  | .extent axis => fitsSize axis
  | .listGet entry => entry.fits
  | _ => true

/-- An operation with a payload is recovered if the decoder of its tag recovers it. -/
theorem recovers_payload {tag : String} {decode : Decoder Operation} {form : Json}
    {operation : Operation} (recovers : decode.Recovers form operation)
    (found : payloadDecoders.lookup tag = some decode)
    : decoder.Recovers (.tagged tag form) operation := by
  show decoder.Recovers (.tagged tag form) (id operation)
  apply recovers_tagged recovers
  intro mode whole inner payload split
  simp [decoder, split, found]

/-- An operation without payload is recovered from its tag. -/
theorem recovers_plain {tag : String} {operation : Operation}
    (absent : payloadDecoders.lookup tag = none)
    (found : plainOperations.lookup tag = some operation)
    : decoder.Recovers (.ofString tag) operation := by
  apply recovers_ofString
  intro mode whole inner payload split
  cases accepted : Decoder.unit payload <;> simp [decoder, split, absent, found, accepted]

theorem recovers_argMax {axis : Int} (fits : fitsSigned axis) (keepAxes : Bool)
    : argMaxDecoder.Recovers
        (.ofMembers [("axis", .integer axis), ("keepdims", .bool keepAxes)])
        (.argMax axis keepAxes) := by
  have axisRecovers := recovers_signed64 fits
  have keepRecovers := recovers_bool keepAxes
  apply recovers_ofMembers (by simp) (by simp [axisRecovers.plain, keepRecovers.plain])
  intro mode inner opened room read
  simp only [List.map_cons, List.map_nil] at read
  simp only [List.forall_mem_cons] at room
  simp [argMaxDecoder, opened, read, axisRecovers.required room.1,
    keepRecovers.required room.2.1]

/-- An operation is recovered, one tag a case. -/
theorem recovers {operation : Operation} (fits : operation.fits)
    : decoder.Recovers operation.toJson operation := by
  cases operation with
  | constant literal => exact recovers_payload ((Literal.recovers fits).map _) rfl
  | unary kind => exact recovers_payload ((UnaryKind.recovers kind).map _) rfl
  | binary kind => exact recovers_payload ((BinaryKind.recovers kind).map _) rfl
  | reduce reduction => exact recovers_payload ((Reduction.recovers fits).map _) rfl
  | argMax axis keepAxes => exact recovers_payload (recovers_argMax fits keepAxes) rfl
  | maxAndArgMax axis =>
      exact recovers_payload ((recovers_record (recovers_signed64 fits) "axis").map _) rfl
  | tupleElement index =>
      exact recovers_payload ((recovers_taggedField (recovers_size fits) "index").map _) rfl
  | shuffle order =>
      have axes := recovers_list fun axis member =>
        ShuffleAxis.recovers (List.all_eq_true.mp fits axis member)
      exact recovers_payload ((recovers_record axes "new_order").map _) rfl
  | alloc extents =>
      have shape := recovers_list fun extent member =>
        ExtentSource.recovers (List.all_eq_true.mp fits extent member)
      exact recovers_payload ((recovers_record shape "shape").map _) rfl
  | subtensor entries =>
      have indices := recovers_list fun entry member =>
        IndexEntry.recovers (List.all_eq_true.mp fits entry member)
      exact recovers_payload ((recovers_record indices "indices").map _) rfl
  | reshape extents =>
      have shape := recovers_list fun extent member =>
        ReshapeExtent.recovers (List.all_eq_true.mp fits extent member)
      exact recovers_payload ((recovers_record shape "new_shape").map _) rfl
  | extent axis =>
      exact recovers_payload ((recovers_taggedField (recovers_size fits) "axis").map _) rfl
  | dot | blockDiagonal | makeList | listLength | listIndex | listCount =>
      exact recovers_plain rfl rfl
  | solveTriangular system =>
      exact recovers_payload ((TriangularSystem.recovers system).map _) rfl
  | listGet entry => exact recovers_payload ((IndexEntry.recovers fits).map _) rfl
  | listMutation mutation inplace =>
      have flag := recovers_taggedField (recovers_bool inplace) "inplace"
      cases mutation <;> exact recovers_payload (flag.map _) rfl

end Operation

end Dataflow

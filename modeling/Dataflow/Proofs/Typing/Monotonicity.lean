import Dataflow.Proofs.Tensor.Validity
import Dataflow.Proofs.Typing.Inference

/-!
Monotone inference. A type says less than the types that it accepts. The checks of inference go
through two lists of operands in step: whatever they find out about operands that say less accepts
what they find out about those that say more. So the types that are inferred from both accept each
other in the same way.
-/

namespace Dataflow

-----------------------------------------------------------------------------------------
-- Extents
-----------------------------------------------------------------------------------------

namespace Dimension

variable {wide narrow wide' narrow' : Dimension}

/-- An extent accepts itself, and an unknown one accepts all. -/
theorem accepts_iff : wide.accepts narrow = true ↔ wide = .unknown ∨ wide = narrow := by
  cases wide <;> cases narrow <;> simp [accepts]

theorem accepts_self (dim : Dimension) : dim.accepts dim = true := accepts_iff.mpr (.inr rfl)

theorem accepts_meet (here : wide.accepts narrow = true) (there : wide'.accepts narrow' = true)
    {dim dim' : Dimension} (met : wide.meet wide' = some dim)
    (met' : narrow.meet narrow' = some dim')
    : dim.accepts dim' = true := by
  rw [accepts_iff] at here there ⊢
  rcases here with rfl | rfl <;> rcases there with rfl | rfl
  · exact .inl (Option.some.inj met).symm
  · -- What is known of the second extent is known of what meets it.
    obtain rfl := Option.some.inj met
    cases wide' with
    | unknown => exact .inl rfl
    | static size => cases narrow <;> simp_all [meet]
  · cases wide with
    | unknown => exact .inl (Option.some.inj met).symm
    | static size => cases narrow' <;> simp_all [meet]
  · exact .inr (Option.some.inj (met.symm.trans met'))

theorem accepts_join (here : wide.accepts narrow = true) (there : wide'.accepts narrow' = true)
    : (wide.join wide').accepts (narrow.join narrow') = true := by
  rw [accepts_iff] at here there ⊢
  rw [join]
  split_ifs with same
  · subst same
    rcases here with rfl | rfl
    · exact .inl rfl
    · rcases there with rfl | rfl
      · exact .inl rfl
      · exact .inr (by rw [join, if_pos rfl])
  · exact .inl rfl

/-- A known extent other than one wins over an unknown one, and so it does over what that stands
for, if the two can be broadcast at all.
-/
theorem accepts_combine (here : wide.accepts narrow = true) (there : wide'.accepts narrow' = true)
    {dim dim' : Dimension} (combined : Broadcast.combine wide wide' = some dim)
    (combined' : Broadcast.combine narrow narrow' = some dim')
    : dim.accepts dim' = true := by
  rw [accepts_iff] at here there ⊢
  rcases here with rfl | rfl <;> rcases there with rfl | rfl
  · exact .inl (Option.some.inj combined).symm
  · cases wide' with
    | unknown => exact .inl (Option.some.inj combined).symm
    | static size => cases narrow <;> grind [Broadcast.combine]
  · cases wide with
    | unknown => exact .inl (Option.some.inj combined).symm
    | static size => cases narrow' <;> grind [Broadcast.combine]
  · exact .inr (Option.some.inj (combined.symm.trans combined'))

end Dimension

/-- Extents accept others, axis by axis. -/
abbrev Accepts (wide narrow : List Dimension) : Prop :=
  List.Forall₂ (fun a b => Dimension.accepts a b = true) wide narrow

namespace Accepts

variable {wide narrow wide' narrow' : List Dimension}

theorem refl (dims : List Dimension) : Accepts dims dims :=
  List.forall₂_same.mpr fun dim _ => dim.accepts_self

/-- If extents are known, then they only accept themselves. By induction on the axes. -/
theorem eq_of_sizes (accepts : Accepts wide narrow) {sizes : List Nat}
    (known : wide.mapM Dimension.size? = some sizes)
    : wide = narrow := by
  rw [Steps.mapM_eq_some_iff] at known
  induction accepts generalizing sizes with
  | nil => rfl
  | cons here _ ih =>
      cases sizes with
      | nil => cases known
      | cons size sizes =>
          obtain ⟨first, later⟩ := List.cons.inj known
          rw [ih later]
          rcases Dimension.accepts_iff.mp here with rfl | rfl
          · cases first
          · rfl

/-- By induction on the axes, from the last one on. -/
theorem combineBack (here : Accepts wide narrow) (there : Accepts wide' narrow')
    {dims dims' : List Dimension} (combined : Broadcast.combineBack wide wide' = some dims)
    (combined' : Broadcast.combineBack narrow narrow' = some dims')
    : Accepts dims dims' := by
  induction here generalizing wide' narrow' dims dims' with
  | nil =>
      rw [Broadcast.combineBack] at combined combined'
      obtain rfl := Option.some.inj combined
      obtain rfl := Option.some.inj combined'
      exact there
  | cons first rest ih =>
      cases there with
      | nil =>
          obtain rfl := Option.some.inj combined
          obtain rfl := Option.some.inj combined'
          exact .cons first rest
      | cons second rest' =>
          obtain ⟨dim, one, combined⟩ := Option.bind_eq_some_iff.mp combined
          obtain ⟨dims, more, combined⟩ := Option.bind_eq_some_iff.mp combined
          obtain ⟨dim', one', combined'⟩ := Option.bind_eq_some_iff.mp combined'
          obtain ⟨dims', more', combined'⟩ := Option.bind_eq_some_iff.mp combined'
          obtain rfl := Option.some.inj combined
          obtain rfl := Option.some.inj combined'
          exact .cons (Dimension.accepts_combine first second one one') (ih rest' more more')

theorem broadcast (here : Accepts wide narrow) (there : Accepts wide' narrow')
    {dims dims' : List Dimension} (combined : Broadcast.dims wide wide' = some dims)
    (combined' : Broadcast.dims narrow narrow' = some dims')
    : Accepts dims dims' := by
  obtain ⟨_, back, rfl⟩ := Option.map_eq_some_iff.mp combined
  obtain ⟨_, back', rfl⟩ := Option.map_eq_some_iff.mp combined'
  exact List.rel_reverse (combineBack (List.rel_reverse here) (List.rel_reverse there) back back')

/-- By induction on the axes. -/
theorem reducedDims (accepts : Accepts wide narrow) (axes : List Nat) (keepAxes : Bool) (axis : Nat)
    : Accepts (Typing.reducedDims axes keepAxes axis wide)
        (Typing.reducedDims axes keepAxes axis narrow) := by
  induction accepts generalizing axis with
  | nil => exact .nil
  | cons here _ ih =>
      rw [Typing.reducedDims, Typing.reducedDims]
      split_ifs
      · exact .cons here (ih _)
      · exact .cons rfl (ih _)
      · exact ih _

end Accepts

-----------------------------------------------------------------------------------------
-- Types
-----------------------------------------------------------------------------------------

namespace TensorType

variable {wide narrow wide' narrow' : TensorType}

theorem accepts_iff
    : wide.accepts narrow = true
      ↔ wide.dtype = narrow.dtype ∧ Accepts wide.shape.dims narrow.shape.dims := by
  rw [accepts, agreeOn, Bool.and_eq_true, Bool.and_eq_true, decide_eq_true_eq, decide_eq_true_eq,
    and_assoc]
  exact and_congr_right fun _ => forall₂_iff_zip_all

theorem accepts_self (type : TensorType) : type.accepts type = true :=
  accepts_iff.mpr ⟨rfl, .refl _⟩

theorem rank_of_accepts (accepts : wide.accepts narrow = true) : wide.rank = narrow.rank :=
  (accepts_iff.mp accepts).2.length_eq

/-- The number of elements of a type that accepts another one is unknown, or it is that of the other
one.
-/
theorem elementCount?_of_accepts (accepts : wide.accepts narrow = true)
    : wide.elementCount? = none ∨ wide.elementCount? = narrow.elementCount? := by
  obtain ⟨-, dims⟩ := accepts_iff.mp accepts
  rw [elementCount?, elementCount?, Shape.elementCount?, Shape.elementCount?, Shape.sizes?,
    Shape.sizes?]
  cases known : wide.shape.dims.mapM Dimension.size? with
  | none => exact .inl rfl
  | some sizes => exact .inr (by rw [← dims.eq_of_sizes known, known])

theorem accepts_join (here : wide.accepts narrow = true) (there : wide'.accepts narrow' = true)
    {type type' : TensorType} (joined : wide.join wide' = some type)
    (joined' : narrow.join narrow' = some type')
    : type.accepts type' = true := by
  rw [join] at joined joined'
  split_ifs at joined joined'
  obtain rfl := Option.some.inj joined
  obtain rfl := Option.some.inj joined'
  obtain ⟨dtype, dims⟩ := accepts_iff.mp here
  obtain ⟨-, dims'⟩ := accepts_iff.mp there
  refine accepts_iff.mpr ⟨dtype, ?_⟩
  dsimp only
  generalize wide.shape.dims = as, narrow.shape.dims = bs at dims
  generalize wide'.shape.dims = as', narrow'.shape.dims = bs' at dims'
  induction dims generalizing as' bs' with
  | nil => exact .nil
  | cons first _ ih =>
      cases dims' with
      | nil => exact .nil
      | cons second rest => exact .cons (Dimension.accepts_join first second) (ih _ _ rest)

end TensorType

/-- Types of values accept others, one by one. -/
abbrev AcceptsAll (wide narrow : List ValueType) : Prop :=
  List.Forall₂ (fun a b => ValueType.accepts a b = true) wide narrow

theorem ValueType.acceptsParts_iff {wide narrow : List ValueType}
    : acceptsParts wide narrow = true ↔ AcceptsAll wide narrow := by
  induction wide generalizing narrow with
  | nil => cases narrow <;> simp [acceptsParts]
  | cons first rest ih =>
      cases narrow with
      | nil => simp [acceptsParts]
      | cons other others => simp [acceptsParts, ih]

/-- Entries at one position of related lists are related. -/
theorem related_of_getElem? {α β : Type} {relation : α → β → Prop} {as : List α} {bs : List β}
    (related : List.Forall₂ relation as bs) {position : Nat} {a : α} {b : β}
    (here : as[position]? = some a) (there : bs[position]? = some b)
    : relation a b := by
  obtain ⟨inside, rfl⟩ := List.getElem?_eq_some_iff.mp here
  obtain ⟨inside', rfl⟩ := List.getElem?_eq_some_iff.mp there
  exact related.get inside inside'

-----------------------------------------------------------------------------------------
-- Checks in step
-----------------------------------------------------------------------------------------

namespace Typing

/-- If both checks succeed, then what they find out is related. -/
def Relates {α β : Type} (relation : α → β → Prop) (first : Check α) (second : Check β) : Prop :=
  ∀ a, first = .ok a → ∀ b, second = .ok b → relation a b

namespace Relates

variable {α β γ δ : Type} {relation : α → β → Prop} {behind : γ → δ → Prop} {first : Check α}
  {second : Check β} {next : α → Check γ} {next' : β → Check δ} {fault fault' : TypeFault}

theorem ok {a : α} {b : β} (related : relation a b) : Relates relation (.ok a) (.ok b) := by
  intro _ same _ same'
  obtain rfl := Except.ok.inj same
  obtain rfl := Except.ok.inj same'
  exact related

theorem error_left : Relates relation (.error fault) second := nofun

theorem error_right : Relates relation first (.error fault) := nofun

/-- A check is related to itself if each result is. -/
theorem same {relation : α → α → Prop} (each : ∀ a, relation a a) (check : Check α)
    : Relates relation check check := by
  intro a done b done'
  obtain rfl := Except.ok.inj (done.symm.trans done')
  exact each a

theorem bind (related : Relates relation first second)
    (follow : ∀ a b, relation a b → Relates behind (next a) (next' b))
    : Relates behind (first >>= next) (second >>= next') := by
  intro c done d done'
  obtain ⟨a, here, done⟩ := Steps.bind_eq_ok_iff.mp done
  obtain ⟨b, there, done'⟩ := Steps.bind_eq_ok_iff.mp done'
  exact follow a b (related a here b there) c done d done'

/-- What some checks find out does not matter. -/
theorem skip (follow : ∀ a b, Relates behind (next a) (next' b))
    : Relates behind (first >>= next) (second >>= next') := by
  have any : Relates (fun _ _ => True) first second := fun _ _ _ _ => trivial
  exact any.bind fun a b _ => follow a b

theorem guard {p q : Prop} [Decidable p] [Decidable q] (related : Relates relation first second)
    : Relates relation (if p then first else .error fault)
        (if q then second else .error fault') := by
  split_ifs
  · exact related
  · exact error_right
  · exact error_left
  · exact error_left

theorem refuse {p q : Prop} [Decidable p] [Decidable q] (related : Relates relation first second)
    : Relates relation (if p then .error fault else first)
        (if q then .error fault' else second) := by
  split_ifs
  · exact error_left
  · exact error_left
  · exact error_right
  · exact related

/-- Only the second check asks more. -/
theorem guard_right {q : Prop} [Decidable q] (related : Relates relation first second)
    : Relates relation first (if q then second else .error fault') := by
  split_ifs
  · exact related
  · exact error_right

end Relates

variable {wide narrow : List ValueType}

theorem tensorAt_eq_ok_iff {operands : List ValueType} {index : Nat} {type : TensorType}
    : tensorAt operands index = .ok type ↔ operands[index]? = some (.tensor type) := by
  rw [tensorAt]
  rcases operands[index]? with _ | type | element | parts <;> simp [ValueType.tensor?]

theorem listAt_eq_ok_iff {operands : List ValueType} {index : Nat} {element : TensorType}
    : listAt operands index = .ok element ↔ operands[index]? = some (.list element) := by
  rw [listAt]
  rcases operands[index]? with _ | type | element | parts <;> simp [ValueType.element?]

theorem relates_tensorAt (accepts : AcceptsAll wide narrow) (index : Nat)
    : Relates (fun a b => TensorType.accepts a b = true) (tensorAt wide index)
        (tensorAt narrow index) := by
  intro a here b there
  have related := related_of_getElem? accepts (tensorAt_eq_ok_iff.mp here)
    (tensorAt_eq_ok_iff.mp there)
  rwa [ValueType.accepts] at related

theorem relates_listAt (accepts : AcceptsAll wide narrow) (index : Nat)
    : Relates (fun a b => TensorType.accepts a b = true) (listAt wide index)
        (listAt narrow index) := by
  intro a here b there
  have related := related_of_getElem? accepts (listAt_eq_ok_iff.mp here) (listAt_eq_ok_iff.mp there)
  rwa [ValueType.accepts] at related

-----------------------------------------------------------------------------------------
-- Single extents
-----------------------------------------------------------------------------------------

/-- Where nothing is known of an axis, an index leaves nothing of it and a slice an unknown extent.
-/
theorem relates_indexedDim {dim dim' : Dimension} (accepts : dim.accepts dim' = true)
    (entry : IndexEntry) (axis : Nat)
    : Relates (fun a b => Accepts a.toList b.toList) (indexedDim axis dim entry)
        (indexedDim axis dim' entry) := by
  rcases Dimension.accepts_iff.mp accepts with rfl | rfl
  · cases entry with
    | slice bounds => exact .refuse (.ok (.cons rfl .nil))
    | scalar index =>
        rcases index with index | position
        · cases dim' with
          | unknown => exact .ok .nil
          | static size => exact .guard_right (.ok .nil)
        · exact .ok .nil
  · exact .same (fun left => .refl left.toList) _

theorem relates_allocDim {source source' : Option Dimension}
    (sources : Option.Rel (fun a b => Dimension.accepts a b = true) source source')
    (extent : ExtentSource) (axis : Nat)
    : Relates (fun a b => Dimension.accepts a b = true) (allocDim axis extent source)
        (allocDim axis extent source') := by
  cases sources with
  | none => exact .same Dimension.accepts_self _
  | some accepts =>
      rcases Dimension.accepts_iff.mp accepts with rfl | rfl
      · cases extent with
        | operand position =>
            exact fun dim done _ _ => Dimension.accepts_iff.mpr (.inl (Except.ok.inj done).symm)
        | static target =>
            cases ‹Dimension› with
            | unknown => exact .ok (Dimension.accepts_self _)
            | static size => exact .guard_right (.ok (Dimension.accepts_self _))
      · exact .same Dimension.accepts_self _

/-- By induction on the axes. -/
theorem relates_allocDims {sources sources' : List (Option Dimension)}
    (all : List.Forall₂ (Option.Rel fun a b => Dimension.accepts a b = true) sources sources')
    (extents : List ExtentSource) (axis : Nat)
    : Relates Accepts (allocDims axis extents sources) (allocDims axis extents sources') := by
  induction all generalizing extents axis with
  | nil => cases extents <;> exact .ok .nil
  | cons first _ ih =>
      cases extents with
      | nil => exact .ok .nil
      | cons extent extents =>
          refine .bind (relates_allocDim first extent axis) fun dim dim' here => ?_
          exact .bind (ih extents (axis + 1)) fun rest rest' later => .ok (.cons here later)

/-- Where the number of elements is not known, nothing is inferred. -/
theorem relates_inferredDim {input input' : TensorType} (accepts : input.accepts input' = true)
    (inferred : Nat) (allKnown : Bool) (known : Nat)
    : Relates (fun a b => Dimension.accepts a b = true)
        (inferredDim input.elementCount? inferred allKnown known)
        (inferredDim input'.elementCount? inferred allKnown known) := by
  rcases TensorType.elementCount?_of_accepts accepts with none | same
  · rw [none]
    exact fun dim done _ _ => Dimension.accepts_iff.mpr (.inl (Except.ok.inj done).symm)
  · rw [same]
    exact .same Dimension.accepts_self _

theorem accepts_reshapeDim {dim dim' : Dimension} (accepts : dim.accepts dim' = true)
    (extents : List ReshapeExtent)
    : Accepts (extents.map (reshapeDim dim)) (extents.map (reshapeDim dim')) := by
  refine List.forall₂_map_left_iff.mpr (List.forall₂_map_right_iff.mpr ?_)
  refine List.forall₂_same.mpr fun extent _ => ?_
  cases extent with
  | infer => exact accepts
  | explicit size => exact Dimension.accepts_self _
  | operand position => exact Dimension.accepts_self _

theorem accepts_addDims {rows rows' dim dim' : Dimension} (here : rows.accepts rows' = true)
    (there : dim.accepts dim' = true)
    : (addDims rows dim).accepts (addDims rows' dim') = true := by
  rw [Dimension.accepts_iff] at here there ⊢
  rcases here with rfl | rfl
  · exact .inl rfl
  · rcases there with rfl | rfl
    · cases rows <;> exact .inl rfl
    · exact .inr rfl

/-- A product keeps the first extents of the one side and the last ones of the other. -/
theorem productDims_eq_ok {lhs rhs : List Dimension}
    {found : Dimension × Dimension × List Dimension}
    (done : productDims lhs rhs = .ok found)
    : found.2.2 = lhs.dropLast ++ rhs.drop 1 := by
  rw [productDims.eq_def] at done
  split at done <;> cases done <;> rfl

-----------------------------------------------------------------------------------------
-- Shapes
-----------------------------------------------------------------------------------------

section

variable {dims dims' : List Dimension} (accepts : Accepts dims dims')
include accepts

/-- By induction on the order. -/
theorem relates_selectDims (seen : List Nat) (order : ShuffleOrder)
    : Relates Accepts (selectDims dims seen order) (selectDims dims' seen order) := by
  induction order generalizing seen with
  | nil => exact .ok .nil
  | cons axis order ih =>
      cases axis with
      | broadcast => exact .bind (ih seen) fun rest rest' later => .ok (.cons rfl later)
      | axis source =>
          rw [selectDims, selectDims]
          cases here : dims[source]? with
          | none => exact .error_left
          | some dim =>
              cases there : dims'[source]? with
              | none => exact .error_right
              | some dim' =>
                  refine .refuse (.bind (ih (source :: seen)) fun rest rest' later => .ok ?_)
                  exact .cons (related_of_getElem? accepts here there) later

theorem relates_shuffledShape (order : ShuffleOrder)
    : Relates (fun a b => Accepts a.dims b.dims) (shuffledShape order ⟨dims⟩)
        (shuffledShape order ⟨dims'⟩) :=
  .bind (relates_selectDims accepts [] order) fun _ _ both => .skip fun _ _ => .ok both

/-- By induction on the axes. -/
theorem relates_indexedDims (entries : List IndexEntry) (axis : Nat)
    : Relates Accepts (indexedDims axis dims entries) (indexedDims axis dims' entries) := by
  induction accepts generalizing entries axis with
  | nil => cases entries <;> exact .ok .nil
  | cons first rest ih =>
      cases entries with
      | nil => exact .ok (.cons first rest)
      | cons entry entries =>
          refine .bind (relates_indexedDim first entry axis) fun left left' here => ?_
          exact .bind (ih entries (axis + 1)) fun later later' both =>
            .ok (List.rel_append here both)

theorem relates_indexedShape (entries : List IndexEntry)
    : Relates (fun a b => Accepts a.dims b.dims) (indexedShape entries ⟨dims⟩)
        (indexedShape entries ⟨dims'⟩) :=
  .refuse (.bind (relates_indexedDims accepts entries 0) fun _ _ both => .ok both)

/-- The extents of a value stay aligned. -/
theorem accepts_alignedDims (rank : Nat)
    : List.Forall₂ (Option.Rel fun a b => Dimension.accepts a b = true) (alignedDims rank dims)
        (alignedDims rank dims') := by
  rw [alignedDims, alignedDims, accepts.length_eq]
  refine List.rel_append (List.forall₂_same.mpr fun source member => ?_) ?_
  · rw [List.eq_of_mem_replicate member]
    exact .none
  · rw [List.forall₂_map_left_iff, List.forall₂_map_right_iff]
    exact accepts.imp fun _ _ here => .some here

theorem relates_productDims {others others' : List Dimension} (accepts' : Accepts others others')
    : Relates (fun a b => Accepts a.2.2 b.2.2) (productDims dims others)
        (productDims dims' others') := by
  intro left done right done'
  rw [productDims_eq_ok done, productDims_eq_ok done', List.dropLast_eq_take,
    List.dropLast_eq_take, accepts.length_eq]
  exact List.rel_append (List.forall₂_take _ accepts) (List.forall₂_drop 1 accepts')

theorem relates_systemSize {dtype dtype' : DType}
    : Relates (fun a b => Dimension.accepts a b = true) (systemSize ⟨dtype, ⟨dims⟩⟩)
        (systemSize ⟨dtype', ⟨dims'⟩⟩) := by
  match accepts with
  | .nil | .cons _ .nil | .cons _ (.cons _ (.cons _ _)) => exact .error_left
  | .cons (a := rows) (b := rows') first (.cons (a := columns) (b := columns') second .nil) =>
      rw [systemSize, systemSize]
      dsimp only
      cases met : rows.meet columns with
      | none => exact .error_left
      | some dim =>
          cases met' : rows'.meet columns' with
          | none => exact .error_right
          | some dim' => exact .ok (Dimension.accepts_meet first second met met')

theorem relates_solutionDims {size size' : Dimension} (sizes : size.accepts size' = true)
    : Relates Accepts (solutionDims size dims) (solutionDims size' dims') := by
  cases accepts with
  | nil => exact .error_left
  | @cons dim dim' rest rest' first later =>
      rw [solutionDims, solutionDims]
      refine .guard ?_
      cases met : dim.meet size with
      | none => exact .error_left
      | some found =>
          cases met' : dim'.meet size' with
          | none => exact .error_right
          | some found' => exact .ok (.cons (Dimension.accepts_meet first sizes met met') later)

end

-----------------------------------------------------------------------------------------
-- Inferred types
-----------------------------------------------------------------------------------------

/-- The types that are inferred from operands accept each other. -/
abbrev RelatesTypes (first second : Check ValueType) : Prop :=
  Relates (fun a b => ValueType.accepts a b = true) first second

theorem accepts_tensor {dtype dtype' : DType} {dims dims' : List Dimension} (same : dtype = dtype')
    (accepts : Accepts dims dims')
    : (ValueType.tensor ⟨dtype, ⟨dims⟩⟩).accepts (.tensor ⟨dtype', ⟨dims'⟩⟩) = true := by
  rw [ValueType.accepts]
  exact TensorType.accepts_iff.mpr ⟨same, accepts⟩

theorem accepts_element {element element' : TensorType} (accepts : element.accepts element' = true)
    : (ValueType.tensor element).accepts (.tensor element') = true := by
  rwa [ValueType.accepts]

theorem accepts_list {element element' : TensorType} (accepts : element.accepts element' = true)
    : (ValueType.list element).accepts (.list element') = true := by
  rwa [ValueType.accepts]

theorem accepts_scalar (dtype : DType)
    : (ValueType.tensor (.scalar dtype)).accepts (.tensor (.scalar dtype)) = true :=
  accepts_tensor rfl .nil

-----------------------------------------------------------------------------------------
-- Types that operands do not decide
-----------------------------------------------------------------------------------------

theorem relates_constant (literal : Literal)
    : RelatesTypes (constant literal wide) (constant literal narrow) :=
  .skip fun _ _ => .ok (accepts_element literal.type.accepts_self)

theorem relates_extent (axis : Nat) : RelatesTypes (extent axis wide) (extent axis narrow) :=
  .skip fun _ _ => .skip fun _ _ => .guard (.ok (accepts_scalar .si64))

theorem relates_listLength : RelatesTypes (listLength wide) (listLength narrow) :=
  .skip fun _ _ => .skip fun _ _ => .ok (accepts_scalar .si64)

theorem relates_listSearch : RelatesTypes (listSearch wide) (listSearch narrow) :=
  .skip fun _ _ => .skip fun _ _ => .skip fun _ _ => .ok (accepts_scalar .si64)

-----------------------------------------------------------------------------------------
-- Elements and reductions
-----------------------------------------------------------------------------------------

section

variable (accepts : AcceptsAll wide narrow)
include accepts

theorem relates_unary (kind : UnaryKind) : RelatesTypes (unary kind wide) (unary kind narrow) := by
  refine .skip fun _ _ => .bind (relates_tensorAt accepts 0) fun type type' here => .guard (.ok ?_)
  rwa [ValueType.accepts]

theorem relates_binary : RelatesTypes (binary wide) (binary narrow) := by
  refine .skip fun _ _ => .bind (relates_tensorAt accepts 0) fun lhs lhs' left => ?_
  refine .bind (relates_tensorAt accepts 1) fun rhs rhs' right => .refuse (.refuse ?_)
  obtain ⟨dtype, dims⟩ := TensorType.accepts_iff.mp left
  obtain ⟨-, dims'⟩ := TensorType.accepts_iff.mp right
  cases combined : Broadcast.dims lhs.shape.dims rhs.shape.dims with
  | none => exact .error_left
  | some found =>
      cases combined' : Broadcast.dims lhs'.shape.dims rhs'.shape.dims with
      | none => exact .error_right
      | some found' => exact .ok (accepts_tensor dtype (dims.broadcast dims' combined combined'))

theorem relates_reduced
    : Relates (fun a b => TensorType.accepts a b = true) (reduced wide) (reduced narrow) :=
  .skip fun _ _ => .bind (relates_tensorAt accepts 0) fun _ _ here => .skip fun _ _ => .ok here

theorem relates_reduce (reduction : Reduction)
    : RelatesTypes (reduce reduction wide) (reduce reduction narrow) := by
  refine .bind (relates_reduced accepts) fun input input' here => ?_
  obtain ⟨dtype, dims⟩ := TensorType.accepts_iff.mp here
  rw [TensorType.rank_of_accepts here]
  refine .bind (.same (fun _ => rfl) _) fun axes axes' same => .ok ?_
  subst same
  exact accepts_tensor dtype (dims.reducedDims axes reduction.keepAxes 0)

theorem relates_argMax (axis : Int) (keepAxes : Bool)
    : RelatesTypes (argMax axis keepAxes wide) (argMax axis keepAxes narrow) := by
  refine .bind (relates_reduced accepts) fun input input' here => ?_
  obtain ⟨-, dims⟩ := TensorType.accepts_iff.mp here
  rw [TensorType.rank_of_accepts here]
  refine .bind (.same (fun _ => rfl) _) fun place place' same => .ok ?_
  subst same
  exact accepts_tensor rfl (dims.reducedDims [place] keepAxes 0)

theorem relates_maxAndArgMax (axis : Int)
    : RelatesTypes (maxAndArgMax axis wide) (maxAndArgMax axis narrow) := by
  refine .bind (relates_reduced accepts) fun input input' here => ?_
  obtain ⟨dtype, dims⟩ := TensorType.accepts_iff.mp here
  rw [TensorType.rank_of_accepts here]
  refine .bind (.same (fun _ => rfl) _) fun place place' same => .ok ?_
  subst same
  have left := dims.reducedDims [place] false 0
  rw [ValueType.accepts, ValueType.acceptsParts_iff]
  exact .cons (accepts_tensor dtype left) (.cons (accepts_tensor rfl left) .nil)

-----------------------------------------------------------------------------------------
-- Tuples and axes
-----------------------------------------------------------------------------------------

theorem relates_tupleElement (index : Nat)
    : RelatesTypes (tupleElement index wide) (tupleElement index narrow) := by
  intro part found part' found'
  obtain ⟨parts, rfl, here⟩ := tupleElement_eq_ok_iff.mp found
  obtain ⟨parts', rfl, there⟩ := tupleElement_eq_ok_iff.mp found'
  have tuples := (List.forall₂_cons.mp accepts).1
  rw [ValueType.accepts, ValueType.acceptsParts_iff] at tuples
  exact related_of_getElem? tuples here there

theorem relates_shuffle (order : ShuffleOrder)
    : RelatesTypes (shuffle order wide) (shuffle order narrow) := by
  refine .skip fun _ _ => .bind (relates_tensorAt accepts 0) fun input input' here => ?_
  obtain ⟨dtype, dims⟩ := TensorType.accepts_iff.mp here
  exact .bind (relates_shuffledShape dims order) fun _ _ both => .ok (accepts_tensor dtype both)

theorem relates_subtensor (entries : List IndexEntry)
    : RelatesTypes (subtensor entries wide) (subtensor entries narrow) := by
  refine .bind (relates_tensorAt accepts 0) fun input input' here => ?_
  refine .skip fun _ _ => .skip fun _ _ => ?_
  obtain ⟨dtype, dims⟩ := TensorType.accepts_iff.mp here
  exact .bind (relates_indexedShape dims entries) fun _ _ both => .ok (accepts_tensor dtype both)

-----------------------------------------------------------------------------------------
-- New shapes
-----------------------------------------------------------------------------------------

theorem relates_alloc (extents : List ExtentSource)
    : RelatesTypes (alloc extents wide) (alloc extents narrow) := by
  refine .bind (relates_tensorAt accepts 0) fun value value' here => ?_
  refine .skip fun _ _ => .skip fun _ _ => ?_
  obtain ⟨dtype, dims⟩ := TensorType.accepts_iff.mp here
  exact .refuse (.bind (relates_allocDims (accepts_alignedDims dims _) extents 0) fun _ _ both =>
    .ok (accepts_tensor dtype both))

theorem relates_reshape (extents : List ReshapeExtent)
    : RelatesTypes (reshape extents wide) (reshape extents narrow) := by
  refine .bind (relates_tensorAt accepts 0) fun input input' here => ?_
  refine .skip fun _ _ => .skip fun _ _ => ?_
  obtain ⟨dtype, -⟩ := TensorType.accepts_iff.mp here
  exact .refuse (.bind (relates_inferredDim here _ _ _) fun _ _ same =>
    .ok (accepts_tensor dtype (accepts_reshapeDim same extents)))

-----------------------------------------------------------------------------------------
-- Matrices
-----------------------------------------------------------------------------------------

theorem relates_product : RelatesTypes (product wide) (product narrow) := by
  refine .skip fun _ _ => .bind (relates_tensorAt accepts 0) fun lhs lhs' left => ?_
  refine .bind (relates_tensorAt accepts 1) fun rhs rhs' right => .skip fun _ _ => ?_
  obtain ⟨dtype, dims⟩ := TensorType.accepts_iff.mp left
  obtain ⟨-, dims'⟩ := TensorType.accepts_iff.mp right
  exact .bind (relates_productDims dims dims') fun _ _ both =>
    .refuse (.ok (accepts_tensor dtype both))

/-- By induction on the blocks. -/
theorem relates_blockDims {dtype dtype' : DType} {blocks blocks' : List ValueType}
    (all : AcceptsAll blocks blocks') {rows rows' columns columns' : Dimension}
    (accepts_rows : rows.accepts rows' = true) (accepts_columns : columns.accepts columns' = true)
    (index : Nat)
    : Relates Accepts (blockDims dtype wide index blocks rows columns)
        (blockDims dtype' narrow index blocks' rows' columns') := by
  induction all generalizing rows rows' columns columns' index with
  | nil => exact .ok (.cons accepts_rows (.cons accepts_columns .nil))
  | cons _ _ ih =>
      refine .bind (relates_tensorAt accepts index) fun block block' here => .refuse ?_
      obtain ⟨-, dims⟩ := TensorType.accepts_iff.mp here
      generalize block.shape.dims = as, block'.shape.dims = bs at dims
      match dims with
      | .nil | .cons _ .nil | .cons _ (.cons _ (.cons _ _)) => exact .error_left
      | .cons first (.cons second .nil) =>
          exact ih (accepts_addDims accepts_rows first) (accepts_addDims accepts_columns second) _

theorem relates_blockDiagonal : RelatesTypes (blockDiagonal wide) (blockDiagonal narrow) := by
  refine .refuse (.bind (relates_tensorAt accepts 0) fun first first' here => ?_)
  obtain ⟨dtype, -⟩ := TensorType.accepts_iff.mp here
  exact .bind (relates_blockDims accepts accepts rfl rfl 0) fun _ _ both =>
    .ok (accepts_tensor dtype both)

theorem relates_solution : RelatesTypes (solution wide) (solution narrow) := by
  refine .skip fun _ _ => .bind (relates_tensorAt accepts 0) fun left left' coefficients => ?_
  refine .bind (relates_tensorAt accepts 1) fun right right' rightSide => .skip fun _ _ => ?_
  obtain ⟨dtype, dims⟩ := TensorType.accepts_iff.mp rightSide
  exact .bind (relates_systemSize (TensorType.accepts_iff.mp coefficients).2) fun _ _ size =>
    .bind (relates_solutionDims dims size) fun _ _ both => .ok (accepts_tensor dtype both)

-----------------------------------------------------------------------------------------
-- Lists
-----------------------------------------------------------------------------------------

/-- By induction on the elements. -/
theorem relates_joinElements {rest rest' : List ValueType} (all : AcceptsAll rest rest')
    {element element' : TensorType} (here : element.accepts element' = true) (index : Nat)
    : Relates (fun a b => TensorType.accepts a b = true) (joinElements wide index rest element)
        (joinElements narrow index rest' element') := by
  induction all generalizing element element' index with
  | nil => exact .ok here
  | cons _ _ ih =>
      refine .bind (relates_tensorAt accepts index) fun next next' there => ?_
      cases joined : element.join next with
      | none => exact .error_left
      | some found =>
          cases joined' : element'.join next' with
          | none => exact .error_right
          | some found' => exact ih (TensorType.accepts_join here there joined joined') (index + 1)

theorem relates_makeList : RelatesTypes (makeList wide) (makeList narrow) := by
  cases accepts with
  | nil => exact .error_left
  | cons first rest =>
      refine .bind (relates_tensorAt (.cons first rest) 0) fun _ _ here => ?_
      exact .bind (relates_joinElements (.cons first rest) rest here 1) fun _ _ both =>
        .ok (accepts_list both)

theorem relates_listGet (entry : IndexEntry)
    : RelatesTypes (listGet entry wide) (listGet entry narrow) := by
  refine .bind (relates_listAt accepts 0) fun element element' here => ?_
  refine .skip fun _ _ => .skip fun _ _ => ?_
  cases entry with
  | scalar index => exact .ok (accepts_element here)
  | slice bounds => exact .ok (accepts_list here)

theorem relates_listMutation (mutation : ListMutation)
    : RelatesTypes (listMutation mutation wide) (listMutation mutation narrow) := by
  have first := relates_listAt accepts 0
  cases mutation with
  | append | remove =>
      exact .skip fun _ _ => .bind first fun _ _ here => .skip fun _ _ => .ok (accepts_list here)
  | extend =>
      exact .skip fun _ _ => .bind first fun _ _ here => .skip fun _ _ =>
        .guard (.ok (accepts_list here))
  | insert =>
      exact .skip fun _ _ => .bind first fun _ _ here => .skip fun _ _ => .skip fun _ _ =>
        .ok (accepts_list here)
  | reverse => exact .skip fun _ _ => .bind first fun _ _ here => .ok (accepts_list here)

-----------------------------------------------------------------------------------------
-- All operations
-----------------------------------------------------------------------------------------

theorem relates_infer (operation : Operation)
    : RelatesTypes (infer operation wide) (infer operation narrow) := by
  cases operation with
  | constant literal => exact relates_constant literal
  | unary kind => exact relates_unary accepts kind
  | binary kind => exact relates_binary accepts
  | reduce reduction => exact relates_reduce accepts reduction
  | argMax axis keepAxes => exact relates_argMax accepts axis keepAxes
  | maxAndArgMax axis => exact relates_maxAndArgMax accepts axis
  | tupleElement index => exact relates_tupleElement accepts index
  | shuffle order => exact relates_shuffle accepts order
  | alloc extents => exact relates_alloc accepts extents
  | subtensor entries => exact relates_subtensor accepts entries
  | reshape extents => exact relates_reshape accepts extents
  | extent axis => exact relates_extent axis
  | dot => exact relates_product accepts
  | blockDiagonal => exact relates_blockDiagonal accepts
  | solveTriangular system => exact relates_solution accepts
  | makeList => exact relates_makeList accepts
  | listGet entry => exact relates_listGet accepts entry
  | listLength => exact relates_listLength
  | listMutation mutation inplace => exact relates_listMutation accepts mutation
  | listIndex | listCount => exact relates_listSearch

end

end Typing

/-- Inference is monotone: if types of operands accept others, and an operation has a type on both,
then the one accepts the other.
-/
theorem Operation.resultType_monotone {operation : Operation} {wide narrow : List ValueType}
    {type type' : ValueType}
    (accepts : List.Forall₂ (fun a b => ValueType.accepts a b = true) wide narrow)
    (inferred : operation.resultType wide = .ok type)
    (inferred' : operation.resultType narrow = .ok type')
    : type.accepts type' = true :=
  Typing.relates_infer accepts operation type (resultType_eq_ok_iff.mp inferred) type'
    (resultType_eq_ok_iff.mp inferred')

/-- What is known of the second operand is known of the sum, while nothing is known of the first. -/
theorem Operation.stretchedSum_monotone
    : (ValueType.tensor ⟨.f64, ⟨[.static 4, .unknown]⟩⟩).accepts
        (.tensor ⟨.f64, ⟨[.static 4, .static 5]⟩⟩) = true := by
  have inferred
      : (Operation.binary .add).resultType
          [.tensor ⟨.f64, ⟨[.unknown, .static 1]⟩⟩, .tensor ⟨.f64, ⟨[.static 4, .unknown]⟩⟩]
        = .ok (.tensor ⟨.f64, ⟨[.static 4, .unknown]⟩⟩) := rfl
  have inferred'
      : (Operation.binary .add).resultType
          [.tensor ⟨.f64, ⟨[.static 1, .static 1]⟩⟩, .tensor ⟨.f64, ⟨[.static 4, .static 5]⟩⟩]
        = .ok (.tensor ⟨.f64, ⟨[.static 4, .static 5]⟩⟩) := rfl
  exact Operation.resultType_monotone (.cons rfl (.cons rfl .nil)) inferred inferred'

end Dataflow

import Dataflow.Proofs.Typing.Operands
import Dataflow.Tensor.Elementwise
import Dataflow.Typing.Infer
import Mathlib.Data.List.Basic
import Mathlib.Data.List.Forall2
import Mathlib.Data.Option.Basic
import Mathlib.Data.Option.NAry

/-!
Broadcasting of two shapes, which are aligned at their last axes. Inferred extents may be unknown,
the sizes of tensors never are. Where both are known, inference and kernels agree.
-/

namespace Dataflow

-----------------------------------------------------------------------------------------
-- One axis
-----------------------------------------------------------------------------------------

namespace Broadcast

/-- A known extent of one leaves the other extent. -/
theorem combine_one_left (dim : Dimension) : combine (.static 1) dim = some dim := by
  cases dim with
  | unknown => rfl
  | static size =>
      by_cases unit : size = 1
      · simp [combine, unit]
      · simp [combine, Ne.symm unit]

theorem combine_comm (a b : Dimension) : combine a b = combine b a := by
  cases a with
  | unknown => cases b <;> rfl
  | static x =>
      cases b with
      | unknown => rfl
      | static y =>
          simp only [combine]
          split_ifs <;> simp_all

/-- A known extent of one leaves the other extent. -/
theorem combine_one_right (dim : Dimension) : combine dim (.static 1) = some dim :=
  (combine_comm dim (.static 1)).trans (combine_one_left dim)

theorem combine_self (dim : Dimension) : combine dim dim = some dim := by
  cases dim with
  | unknown => rfl
  | static size => simp [combine]

/-- Of three extents, any two may be combined first; a mismatch is found in either order. -/
theorem combine_assoc (a b c : Dimension)
    : (combine a b).bind (combine · c) = (combine b c).bind (combine a ·) := by
  cases a <;> cases b <;> cases c <;> simp only [combine, Option.bind_some] <;> split_ifs
    <;> simp_all

-----------------------------------------------------------------------------------------
-- Axes from the last one
-----------------------------------------------------------------------------------------

theorem combineBack_nil_left (dims : List Dimension) : combineBack [] dims = some dims := by
  rw [combineBack]

theorem combineBack_nil_right (dims : List Dimension) : combineBack dims [] = some dims := by
  cases dims <;> rfl

theorem combineBack_cons (a b : Dimension) (as bs : List Dimension)
    : combineBack (a :: as) (b :: bs)
      = Option.map₂ List.cons (combine a b) (combineBack as bs) := by
  rw [combineBack]
  cases combine a b <;> cases combineBack as bs <;> rfl

theorem combineBack_comm (as bs : List Dimension) : combineBack as bs = combineBack bs as := by
  induction as generalizing bs with
  | nil => rw [combineBack_nil_left, combineBack_nil_right]
  | cons a as ih =>
      cases bs with
      | nil => rfl
      | cons b bs => rw [combineBack_cons, combineBack_cons, combine_comm, ih]

theorem combineBack_self (dims : List Dimension) : combineBack dims dims = some dims := by
  induction dims with
  | nil => rfl
  | cons dim dims ih => rw [combineBack_cons, combine_self, ih, Option.map₂_some_some]

/-- The first axes are combined apart from the ones behind them. -/
theorem bind_combineBack_cons (dim : Option Dimension) (dims : Option (List Dimension))
    (c : Dimension) (cs : List Dimension)
    : (Option.map₂ List.cons dim dims).bind (combineBack · (c :: cs))
      = Option.map₂ List.cons (dim.bind (combine · c)) (dims.bind (combineBack · cs)) := by
  cases dim with
  | none => simp
  | some dim =>
      cases dims with
      | none => simp
      | some dims => simp [combineBack_cons]

/-- Of three lists, any two may be combined first, by induction on all of them. -/
theorem combineBack_assoc (as bs cs : List Dimension)
    : (combineBack as bs).bind (combineBack · cs)
      = (combineBack bs cs).bind (combineBack as ·) := by
  induction as generalizing bs cs with
  | nil => simp [combineBack_nil_left]
  | cons a as ih =>
      cases bs with
      | nil => simp [combineBack_nil_left, combineBack_nil_right]
      | cons b bs =>
          cases cs with
          | nil => simp [combineBack_nil_right]
          | cons c cs =>
              simp only [combineBack_comm (a :: as), combineBack_cons, bind_combineBack_cons,
                combine_comm _ a, combineBack_comm _ as, combine_assoc, ih]

/-- Extents with known extents of one behind them, up to some rank. -/
def padBack (rank : Nat) (dims : List Dimension) : List Dimension :=
  dims ++ List.replicate (rank - dims.length) (.static 1)

/-- Extents stay as they are when each is combined with a known extent of one. -/
theorem zipWith_replicate_one (dims : List Dimension)
    : List.zipWith combine (List.replicate dims.length (.static 1)) dims = dims.map some := by
  induction dims with
  | nil => rfl
  | cons dim dims ih => simp [List.replicate_succ, combine_one_left, ih]

/-- Combining extents from the last axis is combining padded extents, by induction on both lists.
-/
theorem combineBack_eq_some_iff {lhs rhs dims : List Dimension}
    : combineBack lhs rhs = some dims
      ↔ List.zipWith combine (padBack (max lhs.length rhs.length) lhs)
            (padBack (max lhs.length rhs.length) rhs)
          = dims.map some := by
  have all (dims : List Dimension)
      : List.zipWith combine dims (List.replicate dims.length (.static 1)) = dims.map some := by
    rw [List.zipWith_comm_of_comm combine_comm, zipWith_replicate_one]
  have same {xs ys : List Dimension} : xs.map some = ys.map some ↔ xs = ys :=
    (List.map_injective_iff.mpr (Option.some_injective Dimension)).eq_iff
  induction lhs generalizing rhs dims with
  | nil => simp [combineBack_nil_left, padBack, zipWith_replicate_one, same]
  | cons lhsDim lhs ih =>
      cases rhs with
      | nil =>
          have ones := all (lhsDim :: lhs)
          rw [List.length_cons] at ones
          rw [combineBack_nil_right, Option.some.injEq, ← same]
          simp [padBack, ones]
      | cons rhsDim rhs =>
          rw [combineBack_cons, Option.map₂_eq_some_iff]
          simp only [padBack, Option.mem_def, List.length_cons, Nat.succ_max_succ,
            Nat.succ_sub_succ, List.cons_append, List.zipWith_cons_cons] at ih ⊢
          cases dims with
          | nil => simp
          | cons dim dims =>
              rw [List.map_cons, List.cons.injEq]
              refine Iff.trans ?_ (and_congr_right' ih)
              simp

/-- Extents with known extents of one in front of them, up to some rank. -/
def padFront (rank : Nat) (dims : List Dimension) : List Dimension :=
  List.replicate (rank - dims.length) (.static 1) ++ dims

/-- Broadcasting extents is combining padded extents. -/
theorem dims_eq_some_iff {lhs rhs result : List Dimension}
    : dims lhs rhs = some result
      ↔ List.zipWith combine (padFront (max lhs.length rhs.length) lhs)
            (padFront (max lhs.length rhs.length) rhs)
          = result.map some := by
  have reversed (rank : Nat) (dims : List Dimension)
      : padFront rank dims = (padBack rank dims.reverse).reverse := by
    simp [padFront, padBack]
  have lengths
      : (padBack (max lhs.length rhs.length) lhs.reverse).length
        = (padBack (max lhs.length rhs.length) rhs.reverse).length := by
    simp only [padBack, List.length_append, List.length_reverse, List.length_replicate]
    omega
  have padded := @combineBack_eq_some_iff lhs.reverse rhs.reverse result.reverse
  rw [List.length_reverse, List.length_reverse, List.map_reverse] at padded
  rw [reversed, reversed, ← List.reverse_zipWith lengths, List.reverse_eq_iff, ← padded, dims,
    Option.map_eq_some_iff]
  simp [List.reverse_eq_iff]

-----------------------------------------------------------------------------------------
-- Laws
-----------------------------------------------------------------------------------------

theorem dims_comm (lhs rhs : List Dimension) : dims lhs rhs = dims rhs lhs := by
  rw [dims, combineBack_comm, dims]

theorem dims_assoc (first second third : List Dimension)
    : (dims first second).bind (dims · third) = (dims second third).bind (dims first ·) := by
  have laws := combineBack_assoc first.reverse second.reverse third.reverse
  have mapped := congrArg (Option.map List.reverse) laws
  simpa [dims, Option.map_bind, Option.bind_map, Function.comp_def] using mapped

theorem dims_self (extents : List Dimension) : dims extents extents = some extents := by
  simp [dims, combineBack_self]

theorem dims_nil_left (extents : List Dimension) : dims [] extents = some extents := by
  simp [dims, combineBack_nil_left]

theorem dims_nil_right (extents : List Dimension) : dims extents [] = some extents := by
  rw [dims_comm, dims_nil_left]

end Broadcast

namespace Elementwise

-----------------------------------------------------------------------------------------
-- Broadcast sizes
-----------------------------------------------------------------------------------------

/-- A size stretches to another one if it is one or the same. -/
def Stretches (size target : Nat) : Prop := size = 1 ∨ size = target

/-- Both sizes of a broadcast axis stretch to the result, which is one of them. -/
theorem broadcastSize_cases {x y size : Nat} (done : broadcastSize x y = .ok size)
    : x = size ∧ Stretches y size ∨ x = 1 ∧ y = size := by
  rw [broadcastSize] at done
  split_ifs at done with same one other
  · obtain rfl := Except.ok.inj done
    exact .inl ⟨rfl, .inr same.symm⟩
  · obtain rfl := Except.ok.inj done
    exact .inr ⟨one, rfl⟩
  · obtain rfl := Except.ok.inj done
    exact .inl ⟨rfl, .inl other⟩
  · simp [Outcome.fail] at done

/-- The size of a broadcast axis is allowed by the combined extent. -/
theorem allows_broadcastSize {a b result : Dimension} {x y size : Nat} (allowsX : a.Allows x)
    (allowsY : b.Allows y) (combined : Broadcast.combine a b = some result)
    (done : broadcastSize x y = .ok size)
    : result.Allows size := by
  have sizes := broadcastSize_cases done
  rw [Stretches] at sizes
  cases a with
  | unknown =>
      cases b with
      | unknown =>
          obtain rfl := Option.some.inj combined
          trivial
      | static b =>
          obtain rfl : b = y := allowsY
          obtain rfl := Option.some.inj combined
          split_ifs with one
          · trivial
          · change b = size
            omega
  | static a =>
      obtain rfl : a = x := allowsX
      cases b with
      | unknown =>
          obtain rfl := Option.some.inj combined
          split_ifs with one
          · trivial
          · change a = size
            omega
      | static b =>
          obtain rfl : b = y := allowsY
          rw [Broadcast.combine] at combined
          split_ifs at combined with same one other
          · obtain rfl := Option.some.inj combined
            change a = size
            omega
          · obtain rfl := Option.some.inj combined
            change b = size
            omega
          · obtain rfl := Option.some.inj combined
            change a = size
            omega

/-- The sizes of a broadcast pair, axis by axis. -/
theorem broadcastSizes_eq_ok_iff {lhs rhs sizes : List Nat}
    : broadcastSizes lhs rhs = .ok sizes
      ↔ List.zipWith broadcastSize (padded (max lhs.length rhs.length) lhs)
            (padded (max lhs.length rhs.length) rhs)
          = sizes.map .ok := by
  rw [broadcastSizes, Steps.mapM_eq_ok_iff, List.zip, List.map_zipWith]

/-- The combined extent of two known ones is the size of the broadcast axis. -/
theorem combine_static (x y : Nat)
    : Broadcast.combine (.static x) (.static y) = (broadcastSize x y).toOption.map .static := by
  rw [Broadcast.combine, broadcastSize]
  split_ifs <;> rfl

/-- Known extents are combined where the sizes are broadcast, with the same result. -/
theorem dims_map_static (lhs rhs : List Nat)
    : Broadcast.dims (lhs.map .static) (rhs.map .static)
      = (broadcastSizes lhs rhs).toOption.map (List.map .static) := by
  have front (rank : Nat) (sizes : List Nat)
      : Broadcast.padFront rank (sizes.map .static) = (padded rank sizes).map .static := by
    simp [Broadcast.padFront, padded]
  have typed (result : List Dimension)
      : Broadcast.dims (lhs.map .static) (rhs.map .static) = some result
        ↔ (List.zipWith broadcastSize (padded (max lhs.length rhs.length) lhs)
              (padded (max lhs.length rhs.length) rhs)).map (·.toOption.map .static)
            = result.map some := by
    rw [Broadcast.dims_eq_some_iff, List.length_map, List.length_map, front, front,
      List.zipWith_map, List.map_zipWith]
    simp only [combine_static]
  cases done : broadcastSizes lhs rhs with
  | ok sizes =>
      refine (typed _).mpr ?_
      rw [broadcastSizes_eq_ok_iff.mp done, List.map_map, List.map_map]
      rfl
  | error error =>
      obtain ⟨⟨x, y⟩, member, failed⟩ := Steps.exists_of_mapM_eq_error done
      refine Option.eq_none_iff_forall_ne_some.mpr fun result combined => ?_
      have each := (typed result).mp combined
      rw [← List.map_uncurry_zip_eq_zipWith, List.map_map] at each
      obtain ⟨dim, -, here⟩ := List.mem_map.mp (each ▸ List.mem_map_of_mem member)
      change some dim = (broadcastSize x y).toOption.map .static at here
      simp [failed, Except.toOption] at here

/-- Padding reaches the rank. -/
theorem length_padded {rank : Nat} {sizes : List Nat} (fits : sizes.length ≤ rank)
    : (padded rank sizes).length = rank := by
  rw [padded, List.length_append, List.length_replicate]
  omega

/-- Padded sizes are allowed by padded extents. -/
theorem fits_padded {dims : List Dimension} {sizes : List Nat} (fits : Fits dims sizes) (rank : Nat)
    : Fits (Broadcast.padFront rank dims) (padded rank sizes) := by
  rw [Broadcast.padFront, padded, fits.length_eq]
  refine List.rel_append ?_ fits
  generalize rank - sizes.length = count
  induction count with
  | zero => exact .nil
  | succ count ih => exact .cons rfl ih

/-- The sizes of a broadcast pair are allowed by the inferred extents. -/
theorem fits_broadcastSizes {lhsDims rhsDims dims : List Dimension} {lhs rhs sizes : List Nat}
    (fitsLhs : Fits lhsDims lhs) (fitsRhs : Fits rhsDims rhs)
    (combined : Broadcast.dims lhsDims rhsDims = some dims)
    (done : broadcastSizes lhs rhs = .ok sizes)
    : Fits dims sizes := by
  have typed := Broadcast.dims_eq_some_iff.mp combined
  have ran := broadcastSizes_eq_ok_iff.mp done
  rw [fitsLhs.length_eq, fitsRhs.length_eq] at typed
  have left := fits_padded fitsLhs (max lhs.length rhs.length)
  have right := fits_padded fitsRhs (max lhs.length rhs.length)
  generalize Broadcast.padFront _ lhsDims = lhsDims at typed left
  generalize Broadcast.padFront _ rhsDims = rhsDims at typed right
  generalize padded _ lhs = lhs at ran left
  generalize padded _ rhs = rhs at ran right
  clear fitsLhs fitsRhs combined done
  induction left generalizing rhsDims rhs dims sizes with
  | nil =>
      obtain rfl : dims = [] := by simpa using typed.symm
      obtain rfl : sizes = [] := by simpa using ran.symm
      exact .nil
  | cons allowsX _ ih =>
      cases right with
      | nil =>
          obtain rfl : dims = [] := by simpa using typed.symm
          obtain rfl : sizes = [] := by simpa using ran.symm
          exact .nil
      | cons allowsY later =>
          cases dims with
          | nil => simp at typed
          | cons dim dims =>
              cases sizes with
              | nil => simp at ran
              | cons size sizes =>
                  rw [List.zipWith_cons_cons, List.map_cons, List.cons.injEq] at typed ran
                  exact .cons (allows_broadcastSize allowsX allowsY typed.1 ran.1)
                    (ih _ typed.2 _ ran.2 later)

/-- Sizes stretch to a target that may have more axes in front. -/
structure StretchTo (source target : List Nat) : Prop where
  rank : source.length ≤ target.length
  axes : List.Forall₂ Stretches source (target.drop (target.length - source.length))

/-- Both lists of sizes stretch to the sizes of the broadcast pair. -/
theorem stretchTo_broadcastSizes {lhs rhs sizes : List Nat}
    (done : broadcastSizes lhs rhs = .ok sizes)
    : StretchTo lhs sizes ∧ StretchTo rhs sizes := by
  have ran := broadcastSizes_eq_ok_iff.mp done
  have all
      : ∀ {xs ys sizes : List Nat},
          xs.length = ys.length
          → List.zipWith broadcastSize xs ys = sizes.map .ok
          → List.Forall₂ Stretches xs sizes ∧ List.Forall₂ Stretches ys sizes := by
    intro xs
    induction xs with
    | nil =>
        intro ys sizes aligned ran
        obtain rfl : ys = [] := List.length_eq_zero_iff.mp aligned.symm
        obtain rfl : sizes = [] := by simpa using ran.symm
        exact ⟨.nil, .nil⟩
    | cons x xs ih =>
        intro ys sizes aligned ran
        cases ys with
        | nil => simp at aligned
        | cons y ys =>
            cases sizes with
            | nil => simp at ran
            | cons size sizes =>
                rw [List.zipWith_cons_cons, List.map_cons, List.cons.injEq] at ran
                obtain ⟨lefts, rights⟩ := ih (Nat.succ.inj aligned) ran.2
                rcases broadcastSize_cases ran.1 with ⟨left, right⟩ | ⟨left, right⟩
                · exact ⟨.cons (.inr left) lefts, .cons right rights⟩
                · exact ⟨.cons (.inl left) lefts, .cons (.inr right) rights⟩
  have lengthLhs := length_padded (Nat.le_max_left lhs.length rhs.length)
  have lengthRhs := length_padded (Nat.le_max_right lhs.length rhs.length)
  obtain ⟨lefts, rights⟩ := all (lengthLhs.trans lengthRhs.symm) ran
  have unpad
      : ∀ {source : List Nat} {rank : Nat},
          source.length ≤ rank
          → List.Forall₂ Stretches (padded rank source) sizes
          → StretchTo source sizes := by
    intro source rank fits stretches
    have length : sizes.length = rank := stretches.length_eq.symm.trans (length_padded fits)
    refine ⟨length ▸ fits, ?_⟩
    have dropped := List.forall₂_drop (rank - source.length) stretches
    rw [padded, List.drop_left' (List.length_replicate)] at dropped
    rw [length]
    exact dropped
  exact ⟨unpad (Nat.le_max_left _ _) lefts, unpad (Nat.le_max_right _ _) rights⟩

end Elementwise

-----------------------------------------------------------------------------------------
-- Inferred and computed shapes
-----------------------------------------------------------------------------------------

namespace Broadcast

/-- Broadcasting of extents, known or not, is a partial operation that is commutative, associative
and idempotent, with the empty list as its identity. On known extents it is the broadcasting of
kernels, and it is defined where they have a result.
-/
theorem laws_and_agreement
    : (∀ lhs rhs : List Dimension, dims lhs rhs = dims rhs lhs)
      ∧ (∀ first second third : List Dimension,
          (dims first second).bind (dims · third) = (dims second third).bind (dims first ·))
      ∧ (∀ extents : List Dimension, dims extents extents = some extents)
      ∧ (∀ extents : List Dimension,
          dims [] extents = some extents ∧ dims extents [] = some extents)
      ∧ ∀ lhs rhs : List Nat,
          dims (lhs.map .static) (rhs.map .static)
          = (Elementwise.broadcastSizes lhs rhs).toOption.map (List.map .static) :=
  ⟨dims_comm, dims_assoc, dims_self,
    fun extents => ⟨dims_nil_left extents, dims_nil_right extents⟩, Elementwise.dims_map_static⟩

end Broadcast

end Dataflow

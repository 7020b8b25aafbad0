import Dataflow.Shape.RowMajor
import Mathlib.Algebra.Group.Nat.Defs
import Mathlib.Data.List.Basic
import Mathlib.Data.List.Forall2
import Mathlib.Data.List.Induction
import Mathlib.Data.List.Lex

/-!
Points: the coordinate lists below some sizes, in row-major order. The position of a point is where
it is listed, so everything that is read by steps can be said point by point. Splitting a position
along the axes, from the last one to the first, finds the point that is listed there. So coordinates
and positions are two names of one element, in the same order.
-/

namespace Dataflow.RowMajor

-----------------------------------------------------------------------------------------
-- Counts
-----------------------------------------------------------------------------------------

/-- Without axes there is one position. -/
@[simp] theorem count_nil : count [] = 1 := rfl

/-- An axis in front multiplies the number of positions. -/
@[simp] theorem count_cons (size : Nat) (sizes : List Nat)
    : count (size :: sizes) = size * count sizes := by
  have scaled : ∀ (sizes : List Nat) (factor : Nat),
      sizes.foldl (· * ·) factor = factor * sizes.foldl (· * ·) 1 := by
    intro sizes
    induction sizes with
    | nil => simp
    | cons first rest ih =>
        intro factor
        rw [List.foldl_cons, List.foldl_cons, ih, ih (1 * first), Nat.one_mul, Nat.mul_assoc]
  rw [count, List.foldl_cons, scaled, Nat.one_mul]
  rfl

/-- The positions of axes behind each other. -/
theorem count_append (first second : List Nat)
    : count (first ++ second) = count first * count second := by
  induction first with
  | nil => simp
  | cons size rest ih => simp [ih, Nat.mul_assoc]

/-- There is no position iff some axis has no place. -/
theorem count_eq_zero_iff {sizes : List Nat} : count sizes = 0 ↔ 0 ∈ sizes := by
  induction sizes with
  | nil => simp
  | cons size rest ih => rw [count_cons, Nat.mul_eq_zero, ih, List.mem_cons, eq_comm]

/-- One step for each axis. -/
@[simp] theorem length_steps (sizes : List Nat) : (steps sizes).length = sizes.length := by
  induction sizes with
  | nil => rfl
  | cons size rest ih => simp [steps, ih]

-----------------------------------------------------------------------------------------
-- Positions
-----------------------------------------------------------------------------------------

/-- The position without coordinates. -/
@[simp] theorem position_nil (steps : List Nat) : position [] steps = 0 := by
  simp [position]

/-- The position without steps. -/
@[simp] theorem position_nil_right (coords : List Nat) : position coords [] = 0 := by
  simp [position]

/-- A coordinate in front moves the position by its step. -/
@[simp] theorem position_cons (coord step : Nat) (coords steps : List Nat)
    : position (coord :: coords) (step :: steps) = coord * step + position coords steps := by
  have shifted : ∀ (terms : List Nat) (start : Nat),
      terms.foldl (· + ·) start = start + terms.foldl (· + ·) 0 := by
    intro terms
    induction terms with
    | nil => simp
    | cons first rest ih =>
        intro start
        rw [List.foldl_cons, List.foldl_cons, ih, ih (0 + first), Nat.zero_add, Nat.add_assoc]
  rw [position, List.zipWith_cons_cons, List.foldl_cons, shifted, Nat.zero_add]
  rfl

/-- A point lies below some sizes if each coordinate does. -/
abbrev Inside (coords sizes : List Nat) : Prop := List.Forall₂ (· < ·) coords sizes

/-- The position of a point is among the positions, by induction on the axes. -/
theorem position_lt_count {coords sizes : List Nat} (inside : Inside coords sizes)
    : position coords (steps sizes) < count sizes := by
  induction inside with
  | nil => simp
  | cons below rest ih =>
      rename_i coord size coords sizes
      rw [steps, position_cons, count_cons]
      calc coord * count sizes + position coords (steps sizes)
          < coord * count sizes + count sizes := by omega
        _ = (coord + 1) * count sizes := by rw [Nat.succ_mul]
        _ ≤ size * count sizes := Nat.mul_le_mul_right _ below

-----------------------------------------------------------------------------------------
-- Choices
-----------------------------------------------------------------------------------------

/-- The choices of one place of each list, the last list fastest. -/
def choices : List (List Nat) → List (List Nat)
  | [] => [[]]
  | places :: rest => places.flatMap fun place => (choices rest).map (place :: ·)

/-- A choice takes one place of each list. -/
theorem mem_choices {choice : List Nat} {lists : List (List Nat)}
    : choice ∈ choices lists ↔ List.Forall₂ (· ∈ ·) choice lists := by
  induction lists generalizing choice with
  | nil => simp [choices]
  | cons places rest ih =>
      simp only [choices, List.mem_flatMap, List.mem_map, ih]
      constructor
      · rintro ⟨place, here, others, later, rfl⟩
        exact .cons here later
      · intro chosen
        cases chosen with
        | cons here later => exact ⟨_, here, _, later, rfl⟩

/-- The number of choices. -/
theorem length_choices (lists : List (List Nat))
    : (choices lists).length = count (lists.map (·.length)) := by
  induction lists with
  | nil => rfl
  | cons places rest ih =>
      rw [choices, List.length_flatMap, List.map_cons, count_cons, ← ih]
      simp

/-- Choices of scaled places add up to the positions of choices, by induction on the lists. -/
theorem select_scaled {lists : List (List Nat)} {steps : List Nat}
    (aligned : lists.length = steps.length)
    : select (List.zipWith (fun places step => places.map (· * step)) lists steps)
      = (choices lists).map (position · steps) := by
  induction lists generalizing steps with
  | nil => simp [select, choices]
  | cons places rest ih =>
      cases steps with
      | nil => simp at aligned
      | cons step steps =>
          rw [List.zipWith_cons_cons, select, choices, List.map_flatMap,
            ih (Nat.succ.inj aligned), List.flatMap_map]
          simp [List.map_map, Function.comp_def]

/-- What stands at a place of a list that is put together from parts of one length. -/
theorem getElem?_flatMap_uniform {α β : Type} {list : List α} {part : α → List β} {width : Nat}
    (uniform : ∀ item ∈ list, (part item).length = width) (outer : Nat) {inner : Nat}
    (inside : inner < width)
    : (list.flatMap part)[outer * width + inner]?
      = list[outer]?.bind fun item => (part item)[inner]? := by
  induction list generalizing outer with
  | nil => simp
  | cons first rest ih =>
      have here : (part first).length = width := uniform first List.mem_cons_self
      have later := ih fun item member => uniform item (List.mem_cons_of_mem _ member)
      rw [List.flatMap_cons]
      cases outer with
      | zero =>
          rw [Nat.zero_mul, Nat.zero_add, List.getElem?_append_left (here ▸ inside)]
          simp
      | succ outer =>
          have shift : (outer + 1) * width + inner - width = outer * width + inner := by
            rw [Nat.succ_mul]
            omega
          have beyond : width ≤ (outer + 1) * width + inner := by
            rw [Nat.succ_mul]
            omega
          rw [List.getElem?_append_right (here ▸ beyond), here, shift, later]
          simp

/-- The choice of the places at some coordinates stands at the position of the coordinates, by
induction on the lists.
-/
theorem getElem?_choices {lists : List (List Nat)} {chosen : List (Nat × Nat)}
    (found : List.Forall₂ (fun pair places => places[pair.1]? = some pair.2) chosen lists)
    : (choices lists)[position (chosen.map (·.1)) (steps (lists.map (·.length)))]?
      = some (chosen.map (·.2)) := by
  induction found with
  | nil => rfl
  | cons here later ih =>
      rename_i pair places chosen lists
      have inside
          : position (chosen.map (·.1)) (steps (lists.map (·.length)))
            < (choices lists).length := by
        obtain ⟨bound, -⟩ := List.getElem?_eq_some_iff.mp ih
        exact bound
      have uniform
          : ∀ place ∈ places, ((choices lists).map (place :: ·)).length
              = (choices lists).length := by
        intro place _
        exact List.length_map _
      rw [List.map_cons, List.map_cons, steps, position_cons, choices, ← length_choices,
        getElem?_flatMap_uniform uniform _ inside, here, Option.bind_some, List.getElem?_map, ih]
      rfl

-----------------------------------------------------------------------------------------
-- Points
-----------------------------------------------------------------------------------------

/-- All points below some sizes, in row-major order. -/
def points (sizes : List Nat) : List (List Nat) := choices (sizes.map List.range)

/-- The points are those below the sizes. -/
theorem mem_points {coords sizes : List Nat} : coords ∈ points sizes ↔ Inside coords sizes := by
  rw [points, mem_choices, List.forall₂_map_right_iff]
  simp only [List.mem_range]

/-- The number of points. -/
@[simp] theorem length_points (sizes : List Nat) : (points sizes).length = count sizes := by
  rw [points, length_choices, List.map_map]
  congr 1
  exact (List.map_congr_left fun size _ => List.length_range).trans (List.map_id sizes)

/-- A point is listed at its position. -/
theorem getElem?_points {coords sizes : List Nat} (inside : Inside coords sizes)
    : (points sizes)[position coords (steps sizes)]? = some coords := by
  have chosen
      : List.Forall₂ (fun (pair : Nat × Nat) places => places[pair.1]? = some pair.2)
          (coords.map fun coord => (coord, coord)) (sizes.map List.range) := by
    rw [List.forall₂_map_left_iff, List.forall₂_map_right_iff]
    exact inside.imp fun _ _ below => List.getElem?_range below
  have listed := getElem?_choices chosen
  have lengths : (sizes.map List.range).map (·.length) = sizes := by
    rw [List.map_map]
    exact (List.map_congr_left fun size _ => List.length_range).trans (List.map_id sizes)
  rw [lengths, List.map_map, List.map_map] at listed
  simpa [Function.comp_def, points] using listed

/-- Every position is that of a point. -/
theorem exists_point {sizes : List Nat} {place : Nat} (inside : place < count sizes)
    : ∃ coords, Inside coords sizes ∧ position coords (steps sizes) = place := by
  induction sizes generalizing place with
  | nil =>
      obtain rfl : place = 0 := by simpa using inside
      exact ⟨[], .nil, rfl⟩
  | cons size rest ih =>
      rw [count_cons] at inside
      have positive : 0 < count rest := by
        rcases Nat.eq_zero_or_pos (count rest) with zero | positive
        · rw [zero, Nat.mul_zero] at inside
          exact absurd inside (Nat.not_lt_zero _)
        · exact positive
      obtain ⟨coords, below, same⟩ := ih (Nat.mod_lt place positive)
      refine ⟨place / count rest :: coords, .cons (Nat.div_lt_of_lt_mul ?_) below, ?_⟩
      · rwa [Nat.mul_comm]
      · rw [steps, position_cons, same]
        exact Nat.div_add_mod' place (count rest)

/-- Reading by steps is reading at the position of each point. -/
theorem strided_eq {sizes steps : List Nat} (aligned : sizes.length = steps.length)
    : strided sizes steps = (points sizes).map (position · steps) := by
  rw [strided]
  by_cases empty : 0 ∈ sizes
  · have none : points sizes = [] := by
      refine List.length_eq_zero_iff.mp ?_
      rw [length_points]
      exact count_eq_zero_iff.mpr empty
    simp [empty, none]
  · have lists
        : List.zipWith (fun size step => (List.range size).map (· * step)) sizes steps
          = List.zipWith (fun places step => places.map (· * step)) (sizes.map List.range)
              steps := by
      rw [List.zipWith_map_left]
    rw [if_neg (by simpa using empty), lists, points]
    exact select_scaled (by simpa using aligned)

-----------------------------------------------------------------------------------------
-- Steps as words
-----------------------------------------------------------------------------------------

/-- A product that stops at the largest size is the product, if that is a size and no factor is
zero. By induction on the factors.
-/
theorem foldr_saturatingMul {sizes : List Nat} (fits : count sizes < sizeLimit)
    (positive : 0 ∉ sizes)
    : sizes.foldr saturatingMul 1 = count sizes := by
  induction sizes with
  | nil => rfl
  | cons size sizes ih =>
      rw [List.mem_cons, not_or] at positive
      rw [count_cons] at fits
      have shorter : count sizes ≤ size * count sizes :=
        Nat.le_mul_of_pos_left _ (Nat.pos_of_ne_zero (Ne.symm positive.1))
      rw [List.foldr_cons, ih (shorter.trans_lt fits) positive.2, saturatingMul, count_cons]
      exact Nat.min_eq_left (Nat.le_sub_one_of_lt fits)

/-- The steps of a tensor that has elements are words, if the number of its elements is one. By
induction on the axes.
-/
theorem strides_eq_steps {sizes : List Nat} (fits : count sizes < sizeLimit)
    (positive : 0 ∉ sizes)
    : strides sizes = steps sizes := by
  induction sizes with
  | nil => rfl
  | cons size sizes ih =>
      rw [List.mem_cons, not_or] at positive
      rw [count_cons] at fits
      have shorter : count sizes ≤ size * count sizes :=
        Nat.le_mul_of_pos_left _ (Nat.pos_of_ne_zero (Ne.symm positive.1))
      have restFits := shorter.trans_lt fits
      rw [strides, steps, foldr_saturatingMul restFits positive.2, ih restFits positive.2]

-----------------------------------------------------------------------------------------
-- The last axis
-----------------------------------------------------------------------------------------

/-- A coordinate on one more axis is added to the position scaled by its size. -/
theorem position_concat {coords sizes : List Nat} (inside : Inside coords sizes)
    (coord size : Nat)
    : position (coords ++ [coord]) (steps (sizes ++ [size]))
      = position coords (steps sizes) * size + coord := by
  induction inside with
  | nil => simp [steps]
  | @cons first firstSize coords sizes _ _ ih =>
      rw [List.cons_append, List.cons_append, steps, steps, position_cons, position_cons, ih,
        count_append, count_cons, count_nil, Nat.mul_one, Nat.add_mul, Nat.mul_assoc,
        Nat.add_assoc]

/-- The remainder by the last size is the last coordinate, and the quotient has the others. -/
theorem coordinates_concat (place : Nat) (sizes : List Nat) {size : Nat} (positive : 0 < size)
    : coordinates place (sizes ++ [size])
      = coordinates (place / size) sizes ++ [place % size] := by
  cases size with
  | zero => exact absurd positive (Nat.lt_irrefl 0)
  | succ size => simp [coordinates, unravelBack]

/-- A point below sizes with one more axis is a point below the others with a place on that axis. -/
theorem Inside.exists_concat {coords sizes : List Nat} {size : Nat}
    (inside : Inside coords (sizes ++ [size]))
    : ∃ front coord, coords = front ++ [coord] ∧ Inside front sizes ∧ coord < size := by
  have backwards := List.forall₂_reverse_iff.mpr inside
  rw [List.reverse_append, List.reverse_singleton, List.singleton_append] at backwards
  cases reversed : coords.reverse with
  | nil =>
      rw [reversed] at backwards
      cases backwards
  | cons coord front =>
      rw [reversed] at backwards
      cases backwards with
      | cons below others =>
          refine ⟨front.reverse, coord, ?_, ?_, below⟩
          · rw [← List.reverse_reverse coords, reversed, List.reverse_cons]
          · simpa using List.forall₂_reverse_iff.mpr others

-----------------------------------------------------------------------------------------
-- There and back
-----------------------------------------------------------------------------------------

/-- The coordinates of the position of a point are the point, by induction on the axes from the
last one.
-/
theorem coordinates_position {coords sizes : List Nat} (inside : Inside coords sizes)
    : coordinates (position coords (steps sizes)) sizes = coords := by
  induction sizes using List.reverseRecOn generalizing coords with
  | nil =>
      cases inside
      rfl
  | append_singleton sizes size ih =>
      obtain ⟨front, coord, rfl, others, below⟩ := inside.exists_concat
      have positive : 0 < size := Nat.zero_lt_of_lt below
      rw [position_concat others, coordinates_concat _ _ positive,
        Nat.mul_add_mod_of_lt below, Nat.mul_comm, Nat.mul_add_div positive,
        Nat.div_eq_of_lt below, Nat.add_zero, ih others]

/-- The coordinates of a position are a point, and this is its position. -/
theorem inside_coordinates {sizes : List Nat} {place : Nat} (below : place < count sizes)
    : Inside (coordinates place sizes) sizes
      ∧ position (coordinates place sizes) (steps sizes) = place := by
  obtain ⟨coords, inside, rfl⟩ := exists_point below
  rw [coordinates_position inside]
  exact ⟨inside, rfl⟩

/-- Points are ordered as their positions are, the first axis first. By induction on the axes. -/
theorem position_lt_iff_lex {first second sizes : List Nat} (inside : Inside first sizes)
    (other : Inside second sizes)
    : position first (steps sizes) < position second (steps sizes)
      ↔ List.Lex (· < ·) first second := by
  induction inside generalizing second with
  | nil =>
      cases other
      simp
  | @cons coord size coords sizes _ rest ih =>
      cases other with
      | @cons otherCoord _ otherCoords _ _ otherRest =>
          have bound := position_lt_count rest
          have otherBound := position_lt_count otherRest
          rw [List.cons_lex_cons_iff, ← ih otherRest, steps, position_cons, position_cons]
          generalize position coords (steps sizes) = low at bound ⊢
          generalize position otherCoords (steps sizes) = otherLow at otherBound ⊢
          rcases Nat.lt_trichotomy coord otherCoord with less | rfl | greater
          · have apart := Nat.mul_le_mul_right (count sizes) less
            rw [Nat.succ_mul] at apart
            exact iff_of_true (by omega) (.inl less)
          · simp
          · have apart := Nat.mul_le_mul_right (count sizes) greater
            rw [Nat.succ_mul] at apart
            exact iff_of_false (by omega) (by omega)

/-- All points are the coordinates of the positions, one after the other. -/
theorem points_eq_map_coordinates (sizes : List Nat)
    : points sizes = (List.range (count sizes)).map (coordinates · sizes) := by
  refine List.ext_getElem? fun place => ?_
  rw [List.getElem?_map]
  rcases Nat.lt_or_ge place (count sizes) with below | beyond
  · obtain ⟨inside, same⟩ := inside_coordinates below
    have listed := getElem?_points inside
    rw [same] at listed
    rw [listed, List.getElem?_range below, Option.map_some]
  · rw [List.getElem?_eq_none (by simpa using beyond), List.getElem?_eq_none (by simpa using beyond),
      Option.map_none]

/-- Reading by steps reads, for every position of a result, at the sum of its coordinates, each one
times a step.
-/
theorem strided_eq_coordinates {sizes steps : List Nat} (aligned : sizes.length = steps.length)
    : strided sizes steps
      = (List.range (count sizes)).map fun place => position (coordinates place sizes) steps := by
  rw [strided_eq aligned, points_eq_map_coordinates, List.map_map]
  rfl

/-- Row-major order is a bijection between positions and points. If the number of elements is a word,
the coordinates of a position lie below the sizes and lead back to it by the strides, and a point
leads to a position among the elements whose coordinates it is. Positions are ordered as their
coordinates are, the first axis first. An axis of size zero leaves no position and no point.
-/
theorem coordinates_bijective {sizes : List Nat} (fits : count sizes < sizeLimit)
    : (∀ place < count sizes,
          Inside (coordinates place sizes) sizes
          ∧ position (coordinates place sizes) (strides sizes) = place)
      ∧ (∀ coords,
          Inside coords sizes
          → position coords (strides sizes) < count sizes
            ∧ coordinates (position coords (strides sizes)) sizes = coords)
      ∧ ∀ first < count sizes, ∀ second < count sizes,
          (List.Lex (· < ·) (coordinates first sizes) (coordinates second sizes)
            ↔ first < second) := by
  have stepped {place : Nat} (below : place < count sizes) : strides sizes = steps sizes := by
    refine strides_eq_steps fits fun empty => ?_
    rw [count_eq_zero_iff.mpr empty] at below
    exact Nat.not_lt_zero place below
  refine ⟨fun place below => ?_, fun coords inside => ?_, fun first below second otherBelow => ?_⟩
  · rw [stepped below]
    exact inside_coordinates below
  · have below := position_lt_count inside
    rw [stepped below]
    exact ⟨below, coordinates_position inside⟩
  · obtain ⟨inside, same⟩ := inside_coordinates below
    obtain ⟨otherInside, otherSame⟩ := inside_coordinates otherBelow
    rw [← position_lt_iff_lex inside otherInside, same, otherSame]

/-- The last but one of 24 elements lies at the last place of the first two axes, and a point leads
back to its position.
-/
theorem twentyFour_coordinates
    : count [2, 3, 4] < sizeLimit
      ∧ 22 < count [2, 3, 4]
      ∧ coordinates 22 [2, 3, 4] = [1, 2, 2]
      ∧ position (coordinates 22 [2, 3, 4]) (strides [2, 3, 4]) = 22
      ∧ Inside [1, 0, 3] [2, 3, 4]
      ∧ coordinates (position [1, 0, 3] (strides [2, 3, 4])) [2, 3, 4] = [1, 0, 3] := by
  have fits : count [2, 3, 4] < sizeLimit := by decide
  have below : 22 < count [2, 3, 4] := by decide
  have inside : Inside [1, 0, 3] [2, 3, 4] := by decide
  obtain ⟨back, there, -⟩ := coordinates_bijective fits
  exact ⟨fits, below, rfl, (back 22 below).2, inside, (there _ inside).2⟩

end Dataflow.RowMajor

import Dataflow.Number.Word

/-!
Shapes. An extent is a known size or unknown; a shape is a list of extents. Extents are
ordered by how much they say: `accepts` puts an unknown extent above every other one, `meet`
combines what two extents say and `join` keeps what they agree on. Broadcasting aligns two lists of
extents at their last axis, and an extent of one stretches to the other extent.
-/

namespace Dataflow

-----------------------------------------------------------------------------------------
-- One extent
-----------------------------------------------------------------------------------------

/-- The extent of one axis. -/
inductive Dimension where
  | static (size : Nat)
  | unknown
  deriving DecidableEq

namespace Dimension

/-- The size, where it is known. -/
def size? : Dimension → Option Nat
  | .static size => some size
  | .unknown => none

/-- A known extent of one stretches to any other and may be dropped. -/
def isUnit (dim : Dimension) : Bool := dim = .static 1

/-- Whether a value of extent `other` may stand where `self` is expected. -/
def accepts : Dimension → Dimension → Bool
  | .unknown, _ => true
  | .static a, .static b => a = b
  | .static _, .unknown => false

/-- What two extents say together; `none` when they contradict each other. -/
def meet : Dimension → Dimension → Option Dimension
  | .unknown, dim => some dim
  | dim, .unknown => some dim
  | .static a, .static b => if a = b then some (.static a) else none

/-- What two extents agree on. -/
def join (a b : Dimension) : Dimension := if a = b then a else .unknown

/-- How an extent is written in messages. -/
def describe : Dimension → String
  | .static size => "Static(" ++ toString size ++ ")"
  | .unknown => "Unknown"

end Dimension

-----------------------------------------------------------------------------------------
-- Texts of lists
-----------------------------------------------------------------------------------------

/-- Items in square brackets, as messages show lists. -/
def bracketed (items : List String) : String := "[" ++ ", ".intercalate items ++ "]"

/-- How a list of extents is written in messages. -/
def describeDims (dims : List Dimension) : String := bracketed (dims.map Dimension.describe)

/-- How a list of sizes is written in messages. -/
def describeSizes (sizes : List Nat) : String := bracketed (sizes.map toString)

-----------------------------------------------------------------------------------------
-- Shapes
-----------------------------------------------------------------------------------------

/-- The extents of a tensor, outermost first. -/
structure Shape where
  dims : List Dimension
  deriving DecidableEq

namespace Shape

/-- A shape whose extents are all known. -/
def ofSizes (sizes : List Nat) : Shape := ⟨sizes.map .static⟩

/-- A shape with an unknown extent for each missing size. -/
def ofPartial (sizes : List (Option Nat)) : Shape :=
  ⟨sizes.map fun size => size.elim .unknown .static⟩

/-- The shape without axes. -/
def scalar : Shape := ⟨[]⟩

/-- The number of axes. -/
def rank (shape : Shape) : Nat := shape.dims.length

/-- The sizes, where all of them are known. -/
def sizes? (shape : Shape) : Option (List Nat) := shape.dims.mapM Dimension.size?

/-- The number of elements, where it is known and fits a word. -/
def elementCount? (shape : Shape) : Option Nat := shape.sizes?.bind checkedProduct

/-- How a shape is written in messages. -/
def describe (shape : Shape) : String :=
  "Shape \x7b dims: " ++ describeDims shape.dims ++ " \x7d"

end Shape

-----------------------------------------------------------------------------------------
-- Broadcasting
-----------------------------------------------------------------------------------------

namespace Broadcast

/-- The extent of a broadcast axis; `none` for two different sizes. A known size wins over
an unknown extent.
-/
def combine : Dimension → Dimension → Option Dimension
  | .static a, .static b =>
    if a = b then some (.static a)
    else if a = 1 then some (.static b)
    else if b = 1 then some (.static a)
    else none
  | .static a, .unknown => some (if a = 1 then .unknown else .static a)
  | .unknown, .static b => some (if b = 1 then .unknown else .static b)
  | .unknown, .unknown => some .unknown

/-- Combines extents that are listed from the last axis; the longer list keeps its rest. -/
def combineBack : List Dimension → List Dimension → Option (List Dimension)
  | [], dims => some dims
  | dims, [] => some dims
  | a :: as, b :: bs => do
    let dim ← combine a b
    let dims ← combineBack as bs
    some (dim :: dims)

/-- The extents of a broadcast pair. -/
def dims (lhs rhs : List Dimension) : Option (List Dimension) :=
  (combineBack lhs.reverse rhs.reverse).map List.reverse

end Broadcast

end Dataflow

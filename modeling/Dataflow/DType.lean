/-! Element types. -/

namespace Dataflow

/-- The type of a tensor's elements. -/
inductive DType where
  | i1
  | si32
  | si64
  | f32
  | f64
  deriving DecidableEq

namespace DType

/-- The name that texts and JSON use. -/
def name : DType → String
  | .i1 => "I1"
  | .si32 => "Si32"
  | .si64 => "Si64"
  | .f32 => "F32"
  | .f64 => "F64"

/-- Signed integers. -/
def isInteger : DType → Bool
  | .si32 | .si64 => true
  | _ => false

/-- Binary floating-point numbers. -/
def isFloat : DType → Bool
  | .f32 | .f64 => true
  | _ => false

/-- Everything but truth values. -/
def isNumeric (dtype : DType) : Bool := dtype.isInteger || dtype.isFloat

/-- The number of bytes of one element. -/
def byteSize : DType → Nat
  | .i1 => 1
  | .si32 | .f32 => 4
  | .si64 | .f64 => 8

end DType

end Dataflow

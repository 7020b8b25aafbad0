/-! Log lines. What happens is recorded as data; a log line is how it is told. -/

namespace Dataflow

/-- How much a line matters. -/
inductive LogLevel where
  | trace
  | debug
  | warn
  deriving DecidableEq

namespace LogLevel

/-- Levels in the order of how much they matter. -/
def rank : LogLevel → Nat
  | .trace => 0
  | .debug => 1
  | .warn => 2

/-- The name in log files. -/
def name : LogLevel → String
  | .trace => "TRACE"
  | .debug => "DEBUG"
  | .warn => "WARN"

/-- The level of some name, in small letters. -/
def named? : String → Option LogLevel
  | "trace" => some .trace
  | "debug" => some .debug
  | "warn" => some .warn
  | _ => none

end LogLevel

/-- A line of a log. -/
structure LogLine where
  level : LogLevel
  /-- The part of the library that speaks. -/
  target : String
  text : String
  deriving DecidableEq

/-- The lines that matter at least as much as `level`. -/
def LogLine.atLeast (level : LogLevel) (lines : List LogLine) : List LogLine :=
  lines.filter fun line => level.rank ≤ line.level.rank

end Dataflow

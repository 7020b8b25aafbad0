import Dataflow.Conformance.Check

/-! Scenarios of lists. -/

namespace Dataflow.Scenarios

open Sample (float)

/-- A result must be a list of some literals. -/
def requireList (results : List HostValue) (index : Nat) (items : List Literal)
    : Check Unit := do
  let found ← Check.expect (results[index]?.bind HostValue.list?)
  Check.require (found = items)

/-- A result must be a single integer. -/
def requireInteger (results : List HostValue) (index : Nat) (value : Int64) : Check Unit := do
  let found ← Check.tensor results index
  let values ← Check.succeed found.integers
  Check.require (values = [value])

/-- Changes of lists that nobody else sees are made in place, with the same results. -/
def listOperations : Scenario where
  name := "typed_list_operations"
  sampled := false
  check observer := do
    let program ← Check.program "lists" do
      let a ← Building.input (Sample.fixedType [2])
      let b ← Building.input (Sample.fixedType [2])
      let c ← Building.input (Sample.fixedType [2])
      let d ← Building.input (Sample.fixedType [2])
      let made ← Building.apply .makeList [a, b]
      let appended ← Building.apply (.listMutation .append false) [made, c]
      let inserted ← Building.node (.listMutation .insert false)
        [.value appended, .literal (.ofInt 0), .value d]
      let reversed ← Building.apply (.listMutation .reverse false) [inserted]
      let length ← Building.apply .listLength [reversed]
      let place ← Building.apply .listIndex [reversed, a]
      let count ← Building.apply .listCount [reversed, b]
      let last ← Building.apply (.listGet (.scalar (.static (-1)))) [reversed]
      let middle ← Building.apply (.listGet (.slice (.range 1 3))) [reversed]
      return [reversed, length, place, count, last, middle]
    let entry ← Check.expect program.entryGraph?
    Check.require (entry.outputTypes.head? = some (.list ⟨.f64, .ofSizes [2]⟩))
    let literal (k : Int) : Literal :=
      .ofFloats [2] [float k, float (2 * k + 1) / float 2]
    let (a, b, c, d) := (literal 0, literal 1, literal 2, literal 3)
    let (results, graph) ← observer.runBoth program ([a, b, c, d].map HostValue.tensor)
    Check.require ((graph.body.countP fun node => node.operation.isInplace) = 3)
    requireList results 0 [c, b, a, d]
    requireInteger results 1 4
    requireInteger results 2 2
    requireInteger results 3 1
    let last ← Check.tensor results 4
    Check.require (last = d)
    requireList results 5 [b, a]

/-- Missing items and indices outside a list are errors. -/
def listErrors : Scenario where
  name := "list_errors_are_reported"
  sampled := false
  check observer := do
    let listType : ValueType := .list ⟨.f64, .ofSizes [1]⟩
    let single (x : Float) : Literal := .ofFloats [1] [x]
    let search ← Check.program "index" do
      let items ← Building.input listType
      let needle ← Building.input (Sample.fixedType [1])
      let place ← Building.apply .listIndex [items, needle]
      return [place]
    let compiled ← observer.optimize search
    let items := HostValue.list [single (float 1)]
    let missing ← Check.fail
      (← observer.call compiled false [items, .tensor (single (float 2))])
    Check.mention missing.message "not in list"
    let odd := single Binary.notANumber
    let _ ← Check.fail (← observer.call compiled false [.list [odd], .tensor odd])
    let access ← Check.program "getitem" do
      let items ← Building.input listType
      let item ← Building.apply (.listGet (.scalar (.static 3))) [items]
      return [item]
    let compiled ← observer.optimize access
    let outside ← Check.fail (← observer.call compiled false [items])
    Check.mention outside.message "out of range"

/-- A list that was destroyed is not read: the program is refused, and so is the run. -/
def consumedList : Scenario where
  name := "consumed_list_is_not_readable"
  sampled := false
  check observer := do
    let program ← Check.program "stale" do
      let a ← Building.input (Sample.fixedType [1])
      let list ← Building.apply .makeList [a]
      let grown ← Building.apply (.listMutation .append true) [list, a]
      let stale ← Building.apply .listLength [list]
      return [grown, stale]
    let refused ← Check.fail (← observer.tryCompile .identity program)
    Check.mention refused.message "destroyed"
    let graph ← Check.expect program.entryGraph?
    let input ← Check.succeed (Value.ofHost (Sample.integers [1] [1]))
    let failed ← Check.fail (← observer.runGraph graph false [input])
    Check.mention failed.message "consumed"

end Dataflow.Scenarios

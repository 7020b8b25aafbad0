import Dataflow.Graph.Text
import Dataflow.Json.Decode
import Dataflow.Pass.Optimizer

/-! JSON forms of what passes are told and of what they did. -/

namespace Dataflow

-----------------------------------------------------------------------------------------
-- Options
-----------------------------------------------------------------------------------------

/-- Reads the name of a strategy. -/
def Strategy.decoder : Decoder Strategy := fun mode value => do
  [("OutToIn", .outToIn), ("FixedPoint", .fixedPoint)].lookup (← Decoder.text mode value)

namespace OptimizeConfig

/-- Reads the rounds of both stages and the limit. -/
def decoder : Decoder OptimizeConfig := fun mode value => do
  match ← Decoder.list Decoder.size mode value with
  | [preRounds, postRounds, rewriteLimit] => some { preRounds, postRounds, rewriteLimit }
  | _ => none

/-- The JSON form. -/
def toJson (config : OptimizeConfig) : Json :=
  .ofMembers
    [("pre", .ofNat config.preRounds), ("post", .ofNat config.postRounds),
      ("inner", .ofNat config.rewriteLimit)]

end OptimizeConfig

/-- The JSON form. -/
def SweepOptions.toJson (options : SweepOptions) : Json :=
  .array [.ofNat options.limit, .bool options.dropDead]

/-- The rules of a pass that are tried for an operation, with their places and benefits. -/
def PassEntry.trialsToJson (entry : PassEntry) (operation : Operation) : Json :=
  let trials := (entry.ruleSet.tracking operation).map fun (slot, rule) =>
    Json.array [.ofNat slot, .ofString rule.name, .ofNat rule.benefit]
  .ofMembers [("empty", .bool entry.ruleSet.isEmpty), ("order", .array trials)]

-----------------------------------------------------------------------------------------
-- Reports
-----------------------------------------------------------------------------------------

/-- The JSON form. -/
def LogLine.toJson (line : LogLine) : Json :=
  .array [.ofString line.level.name, .ofString line.target, .ofString line.text]

/-- The counts of a sweep by name. -/
def Sweep.countsToJson (sweep : Sweep) : Json :=
  .ofMembers
    [("iterations", .ofNat sweep.rewrites.length), ("applied", .ofNat sweep.rewrites.length),
      ("dce_removed", .ofNat sweep.dropped), ("capped", .bool sweep.capped)]

namespace PassStats

/-- The counts by name. -/
def members (stats : PassStats) : List (String × Json) :=
  [("changed", .bool stats.changed), ("iterations", .ofNat stats.iterations),
    ("rewrites_applied", .ofNat stats.rewrites), ("erased_insts", .ofNat stats.erased)]

/-- The JSON form. -/
def toJson (stats : PassStats) : Json := .ofMembers stats.members

end PassStats

/-- The events of a pass that went well: its counts, and the graph that it left. -/
def PassRecord.eventsToJson (record : PassRecord) (run : Nat) : List Json :=
  let graph := record.run.graph
  let shared : List (String × Json) :=
    [("run", .ofNat run), ("function", .ofString graph.name), ("pass", .ofString record.pass)]
  match record.run.outcome with
  | .error _ => []
  | .ok stats =>
    [.ofMembers
        ([("kind", .ofString "stats"), ("body_len", .ofNat graph.body.length)]
          ++ stats.members ++ shared),
      .ofMembers
        ([("kind", .ofString "ir"), ("text", .ofString (Program.ofGraph graph).text)]
          ++ shared)]

end Dataflow

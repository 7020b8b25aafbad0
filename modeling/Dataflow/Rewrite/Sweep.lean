import Dataflow.Log
import Dataflow.Pass.Error
import Dataflow.Rewrite.Rule

/-!
Applying a set of rules to a graph. One strategy goes once from the outputs to the inputs, the
other one starts again at the inputs after every change until no rule applies. Both stop after a
number of rewrites, and both report what they did.
-/

namespace Dataflow

-----------------------------------------------------------------------------------------
-- Reports
-----------------------------------------------------------------------------------------

/-- How a graph is gone through. -/
inductive Strategy where
  /-- Once, from the outputs to the inputs. -/
  | outToIn
  /-- Again and again, until no rule applies. -/
  | fixedPoint
  deriving DecidableEq

/-- How far a sweep goes. -/
structure SweepOptions where
  /-- The largest number of rewrites. -/
  limit : Nat
  /-- Whether nodes that nothing reads are dropped at the end. -/
  dropDead : Bool
  deriving DecidableEq

/-- The options that stand if nothing else is said. -/
def SweepOptions.standard : SweepOptions := ⟨10000, true⟩

/-- A rewrite that was made: the rule, and the value of the node where it applied. -/
structure Rewrite where
  rule : String
  node : ValueId
  deriving DecidableEq

/-- What a sweep did. -/
structure Sweep where
  /-- The graph afterwards, also after an error. -/
  graph : Graph
  rewrites : List Rewrite
  /-- Whether the limit was reached with nodes left to look at. -/
  capped : Bool
  /-- The number of nodes that were dropped. -/
  dropped : Nat
  error : Option PassError

-----------------------------------------------------------------------------------------
-- One node
-----------------------------------------------------------------------------------------

/-- What became of offering a node to some rules. -/
inductive Offer where
  | declined
  | rewrote (rewrite : Rewrite) (session : Session)
  | failed (error : PassError) (session : Session)

/-- Rules that declined a node, by their place in the order, with the version of the node. -/
abbrev Refusals := Table (Nat × NodeId) Nat

/-- Carries out the plan of a rule. -/
def Offer.ofPlan (rule : Rule) (node : ValueId) (plan : Rewriting Unit) (session : Session)
    : Offer :=
  match plan session with
  | .ok _ session => .rewrote ⟨rule.name, node⟩ session
  | .error cause session => .failed (.ruleFailed rule.name node cause) session

/-- Offers a node to rules, one after the other, until one of them applies. Rules that declined
this version of the node are not asked again.
-/
def offerNode (session : Session) (id : NodeId) (node : ValueId) (version : Nat)
    : Refusals → List (Nat × Rule) → Refusals × Offer
  | refusals, [] => (refusals, .declined)
  | refusals, (slot, rule) :: rest =>
    if refusals.get? (slot, id) = some version then
      offerNode session id node version refusals rest
    else
      match rule.plan session id with
      | none => offerNode session id node version (refusals.set (slot, id) version) rest
      | some plan => (refusals, .ofPlan rule node plan session)

/-- Offers a node to all rules that track its operation. -/
def offer (rules : RuleSet) (session : Session) (refusals : Refusals) (id : NodeId)
    : Refusals × Offer :=
  match session.node? id, session.index.version? id with
  | some node, some version =>
    offerNode session id node.value version refusals (rules.tracking node.operation)
  | _, _ => (refusals, .declined)

/-- Offers nodes, one after the other, until a rule applies to one of them. Where a rule applied
or failed, all refusals of the node are forgotten.
-/
def offerFirst (rules : RuleSet) (session : Session)
    : Refusals → List NodeId → Refusals × Offer
  | refusals, [] => (refusals, .declined)
  | refusals, id :: rest =>
    match offer rules session refusals id with
    | (refusals, .declined) => offerFirst rules session refusals rest
    | (refusals, other) => (refusals.filter fun ((_, node), _) => node ≠ id, other)

-----------------------------------------------------------------------------------------
-- All nodes
-----------------------------------------------------------------------------------------

/-- A sweep before dead nodes are dropped. -/
structure Progress where
  session : Session
  rewrites : List Rewrite
  capped : Bool
  error : Option PassError

/-- Rewrites the first node to which a rule applies, until there is none or the budget is used
up. An empty body leaves nothing to look at.
-/
def toFixedPoint (rules : RuleSet)
    : Nat → Session → Refusals → List Rewrite → Progress
  | 0, session, _, done => ⟨session, done, !session.index.ordered.isEmpty, none⟩
  | budget + 1, session, refusals, done =>
    match offerFirst rules session refusals session.index.ordered with
    | (_, .declined) => ⟨session, done, false, none⟩
    | (_, .failed error session) => ⟨session, done, false, some error⟩
    | (refusals, .rewrote rewrite session) =>
      toFixedPoint rules budget session refusals (done ++ [rewrite])

/-- Offers each node once. -/
def offerEach (rules : RuleSet) : Nat → Session → List NodeId → List Rewrite → Progress
  | _, session, [], done => ⟨session, done, false, none⟩
  | 0, session, _ :: _, done => ⟨session, done, true, none⟩
  | budget + 1, session, id :: rest, done =>
    match (offer rules session [] id).2 with
    | .declined => offerEach rules (budget + 1) session rest done
    | .failed error session => ⟨session, done, false, some error⟩
    | .rewrote rewrite session => offerEach rules budget session rest (done ++ [rewrite])

/-- Applies rules, if there are some. -/
def applyRules (rules : RuleSet) (strategy : Strategy) (limit : Nat) (session : Session)
    : Progress :=
  if rules.isEmpty then ⟨session, [], false, none⟩
  else match strategy with
    | .fixedPoint => toFixedPoint rules limit session [] []
    | .outToIn => offerEach rules limit session session.index.ordered.reverse []

-----------------------------------------------------------------------------------------
-- Dead nodes
-----------------------------------------------------------------------------------------

/-- Drops a node if nothing reads or shows its value; counts it. -/
def dropIfDead (count : Nat) (id : NodeId) : Edit Nat := do
  let session ← get
  match session.node? id with
  | none => return count
  | some node =>
    if session.isOutput node.value || !(session.index.readers node.value).isEmpty then
      return count
    else
      Session.erase id
      return count + 1

/-- Goes backwards through the body until nothing is dropped. Every round but the last drops a
node, so the number of nodes bounds the rounds.
-/
def dropDead : Nat → Nat → Edit Nat
  | 0, total => return total
  | rounds + 1, total => do
    let nodes := (← get).index.ordered.reverse
    let count ← nodes.foldlM dropIfDead 0
    if count = 0 then return total else dropDead rounds (total + count)

/-- Drops dead nodes at the end of a sweep. -/
def Progress.finish (progress : Progress) (options : SweepOptions) : Sweep :=
  let done : Sweep :=
    { graph := progress.session.graph
      rewrites := progress.rewrites
      capped := progress.capped
      dropped := 0
      error := progress.error }
  if progress.error.isSome || !options.dropDead then done
  else
    match dropDead (progress.session.graph.body.length + 1) 0 progress.session with
    | .ok dropped session => { done with graph := session.graph, dropped }
    | .error error session =>
      { done with graph := session.graph, error := some (.graph error) }

/-- Applies rules to a graph. -/
def sweep (rules : RuleSet) (strategy : Strategy) (options : SweepOptions) (graph : Graph)
    : Sweep :=
  match Session.start graph with
  | .error error => ⟨graph, [], false, 0, some (.graph error)⟩
  | .ok session => (applyRules rules strategy options.limit session).finish options

-----------------------------------------------------------------------------------------
-- Log
-----------------------------------------------------------------------------------------

namespace Sweep

/-- Where the log lines of sweeps come from. -/
def target : String := "tgraph::rewrite"

/-- The line about a rewrite. -/
def rewriteLine (rewrite : Rewrite) : LogLine :=
  ⟨.trace, target, rewrite.rule ++ " rewrote " ++ rewrite.node.describe⟩

/-- The lines about how a sweep ended. -/
def endLines (sweep : Sweep) : List LogLine :=
  match sweep.error with
  | some (.ruleFailed _ _ (.graph (.breach _))) => []
  | some (.ruleFailed rule node cause) =>
    [⟨.debug, target, rule ++ " failed at " ++ node.describe ++ ": " ++ cause.describe⟩]
  | _ =>
    if sweep.capped then
      [⟨.warn, target,
        "pattern pass stopped after " ++ toString sweep.rewrites.length
          ++ " rewrites without converging"⟩]
    else []

/-- The log of a sweep. -/
def log (sweep : Sweep) : List LogLine := sweep.rewrites.map rewriteLine ++ sweep.endLines

end Sweep

end Dataflow

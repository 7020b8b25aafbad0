import Dataflow.Pass.Basic
import Dataflow.Pass.Cleanup
import Dataflow.Rewrite.Rules.ListMutation
import Dataflow.Rewrite.Rules.MaxAndArgMax
import Dataflow.Rewrite.Rules.Negation
import Dataflow.Rewrite.Rules.Shuffle

/-!
Catalogs of passes. A catalog names passes and holds their rules; there is no global one.
`Catalog.stock` holds the passes of the library.
-/

namespace Dataflow

-----------------------------------------------------------------------------------------
-- Entries
-----------------------------------------------------------------------------------------

/-- A pass in a catalog: rules, and whole-graph passes that run after them. -/
structure PassEntry where
  name : String
  strategy : Strategy
  options : SweepOptions
  rules : List Rule
  trailing : List Pass

namespace PassEntry

/-- The rules in the order in which they are tried. -/
def ruleSet (entry : PassEntry) : RuleSet := .ofList entry.rules

/-- Runs the rules of a pass, if it has some. -/
def runRules (entry : PassEntry) (limit : Nat) (graph : Graph) : PassRun :=
  if entry.ruleSet.isEmpty then .start graph
  else
    let options := { entry.options with limit := min entry.options.limit limit }
    .ofSweep (sweep entry.ruleSet entry.strategy options graph)

/-- The pass: its rules, and then the passes after them. -/
def pass (entry : PassEntry) : Pass where
  name := entry.name
  run limit graph :=
    entry.trailing.foldl (fun run pass => run.andThen limit pass) (entry.runRules limit graph)

end PassEntry

-----------------------------------------------------------------------------------------
-- Catalogs
-----------------------------------------------------------------------------------------

/-- Why a catalog refused. -/
inductive CatalogError where
  | unknownPass (name : String)
  | duplicatePass (name : String)
  deriving DecidableEq

/-- The message. -/
def CatalogError.message : CatalogError → String
  | .unknownPass name => "unknown pass \x60" ++ name ++ "\x60"
  | .duplicatePass name => "pass \x60" ++ name ++ "\x60 is already defined"

/-- Passes by name. -/
abbrev Catalog := List PassEntry

namespace Catalog

/-- The entry of some name. -/
def lookup (catalog : Catalog) (name : String) : Except CatalogError PassEntry :=
  match catalog.find? fun entry => entry.name = name with
  | some entry => .ok entry
  | none => .error (.unknownPass name)

/-- Adds a pass without rules. -/
def define (catalog : Catalog) (name : String) (strategy : Strategy) (options : SweepOptions)
    : Except CatalogError Catalog :=
  if (catalog.lookup name).toBool then .error (.duplicatePass name)
  else .ok (catalog ++ [⟨name, strategy, options, [], []⟩])

/-- Changes the entries of some names, once for each time a name is listed. -/
def modify (catalog : Catalog) (names : List String) (change : PassEntry → PassEntry)
    : Except CatalogError Catalog := do
  names.forM fun name => (catalog.lookup name).map fun _ => ()
  .ok (names.foldl
    (fun catalog name =>
      catalog.map fun entry => if entry.name = name then change entry else entry)
    catalog)

/-- Adds a rule to all passes of some names. -/
def register (catalog : Catalog) (rule : Rule) (names : List String)
    : Except CatalogError Catalog :=
  catalog.modify names fun entry => { entry with rules := entry.rules ++ [rule] }

/-- Adds a whole-graph pass to all passes of some names. -/
def registerPass (catalog : Catalog) (pass : Pass) (names : List String)
    : Except CatalogError Catalog :=
  catalog.modify names fun entry => { entry with trailing := entry.trailing ++ [pass] }

/-- The pass of some name. -/
def pass (catalog : Catalog) (name : String) : Except CatalogError Pass :=
  (catalog.lookup name).map PassEntry.pass

/-- The passes of some names. -/
def query (catalog : Catalog) (names : List String) : Except CatalogError (List Pass) :=
  names.mapM catalog.pass

-----------------------------------------------------------------------------------------
-- The stock catalog
-----------------------------------------------------------------------------------------

/-- The rules that bring graphs into a canonical form. -/
def canonicalRules : List Rule :=
  [Rules.eliminateIdentityShuffle, Rules.collapseShuffleChain, Rules.eliminateDoubleNegation]

/-- The rules that look for cheaper operations. -/
def loweringRules : List Rule :=
  [Rules.maxAndArgMaxToReduce, Rules.maxAndArgMaxToArgMax, Rules.localMaxToMin,
    Rules.reduceOfNegation, Rules.shuffleOfAlloc, Rules.allocOfShuffle, Rules.reshapeOfShuffle,
    Rules.shuffleOfReshape, Rules.shuffleOfSubtensor]

/-- The passes of the library. -/
def stock : Catalog :=
  [⟨"canonicalize", .fixedPoint, ⟨10000, true⟩, canonicalRules, []⟩,
    ⟨"uncanonicalize", .outToIn, ⟨10000, true⟩, loweringRules, []⟩,
    ⟨"fast_run", .fixedPoint, ⟨10000, false⟩, [], [Sharing.pass, Liveness.pass]⟩,
    ⟨"inplace", .outToIn, ⟨10000, false⟩, [Rules.promoteListMutation], []⟩]

/-- The rule of the library that has some name. -/
def rule? (name : String) : Option Rule :=
  (canonicalRules ++ loweringRules ++ [Rules.promoteListMutation]).find? fun rule =>
    rule.name = name

/-- The whole-graph pass of the library that has some name. -/
def graphPass? (name : String) : Option Pass :=
  [Sharing.pass, Liveness.pass].find? fun pass => pass.name = name

end Catalog

end Dataflow

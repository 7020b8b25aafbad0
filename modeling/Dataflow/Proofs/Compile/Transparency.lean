import Dataflow.Proofs.Compile.History
import Dataflow.Proofs.Steps

/-!
What the signature of an optimizer tells. It tells the passes of the optimizers of the library, but
not how often they are repeated. So a program from a cache was made by the same passes, and it is the
one that would be compiled without a cache if they were repeated as often.
-/

namespace Dataflow

-----------------------------------------------------------------------------------------
-- Optimizers of the library
-----------------------------------------------------------------------------------------

/-- How an optimizer of the library is made. -/
inductive OptimizerRecipe where
  | identity
  | pipeline (config : OptimizeConfig)
  | including (names : List String) (config : OptimizeConfig)

/-- The passes of an optimizer. -/
inductive PassLayout where
  | identity
  | pipeline
  | including (names : List String)

namespace OptimizerRecipe

/-- The optimizer that is made, unless the library does not have some pass. -/
def optimizer : OptimizerRecipe → Except CatalogError Optimizer
  | .identity => .ok .identity
  | .pipeline config => .ok (.stock config)
  | .including names config => Optimizer.including .stock names config

def layout : OptimizerRecipe → PassLayout
  | .identity => .identity
  | .pipeline _ => .pipeline
  | .including names _ => .including names

/-- How often the repeated passes run at most. There is always one round. -/
def rounds : OptimizerRecipe → List Nat
  | .identity => []
  | .pipeline config => [max config.preRounds 1, max config.postRounds 1]
  | .including _ config => [max config.postRounds 1]

end OptimizerRecipe

-----------------------------------------------------------------------------------------
-- Signatures
-----------------------------------------------------------------------------------------

/-- Names without commas can be read off their list. -/
theorem intercalate_comma_injective {names others : List String}
    (plain : ∀ name ∈ names ++ others, name ≠ "" ∧ ',' ∉ name.toList)
    (same : ",".intercalate names = ",".intercalate others)
    : names = others := by
  have lists := congrArg String.toList same
  rw [String.toList_intercalate, String.toList_intercalate] at lists
  have free {part : List String} (subset : part ⊆ names ++ others)
      : ∀ word ∈ part.map String.toList, ',' ∉ word := by
    intro word member
    obtain ⟨name, listed, rfl⟩ := List.mem_map.mp member
    exact (plain name (subset listed)).2
  have empty {part : List String} (subset : part ⊆ names ++ others)
      (none : [','].intercalate (part.map String.toList) = [])
      : part = [] := by
    have split := List.splitOn_intercalate ',' (free subset)
    rw [none] at split
    cases part with
    | nil => rfl
    | cons name rest =>
        obtain ⟨nameless, -⟩ := List.cons.inj (split (by simp))
        exact absurd (String.toList_eq_nil_iff.mp nameless.symm) (plain name (subset (by simp))).1
  have left : names ⊆ names ++ others := List.subset_append_left ..
  have right : others ⊆ names ++ others := List.subset_append_right ..
  by_cases none : names = []
  · subst none
    exact (empty right lists.symm).symm
  · have others_ne : others ≠ [] := by
      rintro rfl
      exact none (empty left lists)
    have words : names.map String.toList = others.map String.toList := by
      rw [← List.splitOn_intercalate ',' (free left) (by simpa using none),
        ← List.splitOn_intercalate ',' (free right) (by simpa using others_ne)]
      exact congrArg _ lists
    exact (List.map_inj_right fun _ _ => String.toList_injective).mp words

/-- A pass of the library has one of four names. -/
theorem Catalog.mem_stageNames_of_query {names : List String} {passes : List Pass}
    (known : stock.query names = .ok passes) {name : String} (member : name ∈ names)
    : name ∈ Optimizer.stageNames := by
  have each := List.mem_map_of_mem (f := stock.pass) member
  rw [Steps.mapM_eq_ok_iff.mp known] at each
  obtain ⟨pass, -, found⟩ := List.mem_map.mp each
  rw [Catalog.pass, lookup] at found
  cases entered : stock.find? fun entry => entry.name = name with
  | none =>
      rw [entered] at found
      cases found
  | some entry =>
      obtain rfl : entry.name = name := by simpa using List.find?_some entered
      have names : stock.map (·.name) = Optimizer.stageNames := rfl
      exact names ▸ List.mem_map_of_mem (List.mem_of_find?_eq_some entered)

theorem Optimizer.including_eq_ok {names : List String} {config : OptimizeConfig}
    {optimizer : Optimizer} (made : including .stock names config = .ok optimizer)
    : ∃ passes,
        Catalog.stock.query names = .ok passes
        ∧ optimizer
          = ofStages ("including[" ++ ",".intercalate names ++ "]") [⟨passes, config.postRounds⟩] := by
  obtain ⟨passes, known, made⟩ := Steps.bind_eq_ok_iff.mp made
  exact ⟨passes, known, (Except.ok.inj made).symm⟩

/-- A stage only looks at whether there is more than one round. -/
theorem Stage.foldl_optionalStage (limit : Nat) (run : OptimizerRun) (passes : List Pass)
    {rounds other : Nat} (same : max rounds 1 = max other 1)
    : (Optimizer.optionalStage passes rounds).foldl (Stage.run limit) run
      = (Optimizer.optionalStage passes other).foldl (Stage.run limit) run := by
  rw [Optimizer.optionalStage, Optimizer.optionalStage]
  split_ifs
  · rfl
  · simp [Stage.run, same]

namespace OptimizerRecipe

variable {first second : OptimizerRecipe} {left right : Optimizer}

/-- Optimizers of the library with the same signature have the same passes. -/
theorem layout_eq_of_signature (made : first.optimizer = .ok left)
    (made' : second.optimizer = .ok right) (same : left.signature = right.signature)
    : first.layout = second.layout := by
  have noop : "default[" ++ ",".intercalate Optimizer.stageNames ++ "]" ≠ "noop" := by decide
  have apart (config : OptimizeConfig) {names : List String} {other : OptimizeConfig}
      {optimizer : Optimizer} (made : Optimizer.including .stock names other = .ok optimizer)
      : optimizer.signature ≠ Optimizer.identity.signature
        ∧ optimizer.signature ≠ (Optimizer.stock config).signature := by
    obtain ⟨passes, -, rfl⟩ := Optimizer.including_eq_ok made
    constructor
    all_goals
      intro same
      have letters := congrArg String.toList same
      simp [Optimizer.ofStages, Optimizer.identity, Optimizer.stock, Optimizer.pipeline] at letters
  cases first with
  | identity =>
      obtain rfl := Except.ok.inj made
      cases second with
      | identity => rfl
      | pipeline config =>
          obtain rfl := Except.ok.inj made'
          exact absurd same.symm noop
      | including names config => exact absurd same.symm (apart config made').1
  | pipeline config =>
      obtain rfl := Except.ok.inj made
      cases second with
      | identity =>
          obtain rfl := Except.ok.inj made'
          exact absurd same noop
      | pipeline => rfl
      | including names other => exact absurd same.symm (apart config made').2
  | including names config =>
      cases second with
      | identity =>
          obtain rfl := Except.ok.inj made'
          exact absurd same (apart config made).1
      | pipeline other =>
          obtain rfl := Except.ok.inj made'
          exact absurd same (apart other made).2
      | including others other =>
          obtain ⟨passes, known, rfl⟩ := Optimizer.including_eq_ok made
          obtain ⟨passes', known', rfl⟩ := Optimizer.including_eq_ok made'
          refine congrArg PassLayout.including
            (intercalate_comma_injective (fun name member => ?_) ?_)
          · have stage : name ∈ Optimizer.stageNames :=
              (List.mem_append.mp member).elim (Catalog.mem_stageNames_of_query known)
                (Catalog.mem_stageNames_of_query known')
            have plain : ∀ name ∈ Optimizer.stageNames, name ≠ "" ∧ ',' ∉ name.toList := by decide
            exact plain name stage
          · simpa [Optimizer.ofStages] using same

/-- Optimizers of the library with the same passes and rounds do the same. -/
theorem optimize_eq_of_rounds (made : first.optimizer = .ok left)
    (made' : second.optimizer = .ok right) (layout : first.layout = second.layout)
    (rounds : first.rounds = second.rounds)
    : left.optimize = right.optimize := by
  cases first with
  | identity =>
      cases second with
      | identity => exact congrArg Optimizer.optimize (Except.ok.inj (made.symm.trans made'))
      | _ => cases layout
  | pipeline config =>
      cases second with
      | pipeline other =>
          obtain rfl := Except.ok.inj made
          obtain rfl := Except.ok.inj made'
          obtain ⟨pre, post⟩ : max config.preRounds 1 = max other.preRounds 1
              ∧ max config.postRounds 1 = max other.postRounds 1 := by
            simpa [OptimizerRecipe.rounds] using rounds
          funext limit graph
          simp only [Optimizer.stock, Optimizer.pipeline, Optimizer.ofStages, List.foldl_append]
          rw [Stage.foldl_optionalStage limit _ _ pre, Stage.foldl_optionalStage limit _ _ post]
      | _ => cases layout
  | including names config =>
      cases second with
      | including others other =>
          obtain rfl := PassLayout.including.inj layout
          obtain ⟨passes, known, rfl⟩ := Optimizer.including_eq_ok made
          obtain ⟨passes', known', rfl⟩ := Optimizer.including_eq_ok made'
          obtain rfl := Except.ok.inj (known.symm.trans known')
          have post : max config.postRounds 1 = max other.postRounds 1 := List.head_eq_of_cons_eq rounds
          funext limit graph
          simp [Optimizer.ofStages, Stage.run, post]
      | _ => cases layout

end OptimizerRecipe

-----------------------------------------------------------------------------------------
-- Programs from a cache
-----------------------------------------------------------------------------------------

/-- What is compiled is optimized by the library, and where that runs the passes of another
optimizer, it repeats them as often.
-/
def CacheStep.AgreesWith (recipe : OptimizerRecipe) : CacheStep → Prop
  | .compile _ _ optimizer _ =>
    ∃ other,
      OptimizerRecipe.optimizer other = .ok optimizer
      ∧ (other.layout = recipe.layout → other.rounds = recipe.rounds)
  | .clear => True

/-- Whatever was compiled before and however often the cache was emptied: a program from the cache is
the one that would be compiled without it, if all optimizers of the same passes repeat them as often.
-/
theorem compile_hit_compilesTo {steps : List CacheStep} {recipe : OptimizerRecipe}
    {optimizer : Optimizer} (made : recipe.optimizer = .ok optimizer)
    (agree : ∀ step ∈ steps, step.AgreesWith recipe) {backend : String} {program compiled : Program}
    (hit
      : (compile (CompileCache.after steps) true backend optimizer program).outcome
        = .ok ⟨compiled, true⟩)
    : CompilesTo backend optimizer program compiled := by
  obtain ⟨_, _, earlier, _, listed, key, compiles⟩ :=
    CompileCache.stemsFrom_after steps _ (mem_of_compile_hit hit)
  obtain ⟨rfl, rfl, signature⟩ := CompileKey.mk.inj key
  obtain ⟨other, made', rounds⟩ := agree _ listed
  have layout := OptimizerRecipe.layout_eq_of_signature made' made signature.symm
  have same := OptimizerRecipe.optimize_eq_of_rounds made' made layout (rounds layout)
  obtain ⟨graph, checked, done⟩ := compilesTo_iff.mp compiles
  exact compilesTo_iff.mpr ⟨graph, checked, same ▸ done⟩

/-- A graph that takes two maxima of negated numbers. -/
def twoMaxima : Graph where
  name := "maxima"
  inputTypes := [.tensor ⟨.f64, ⟨[.static 3, .static 4]⟩⟩]
  inputs := [⟨0⟩]
  outputTypes := [.tensor ⟨.f64, ⟨[.static 1, .static 4]⟩⟩]
  body :=
    [⟨⟨1⟩, .unary .neg, [.value ⟨0⟩], .tensor ⟨.f64, ⟨[.static 3, .static 4]⟩⟩⟩,
      ⟨⟨2⟩, .reduce ⟨.max, [0], true⟩, [.value ⟨1⟩], .tensor ⟨.f64, ⟨[.static 1, .static 4]⟩⟩⟩,
      ⟨⟨3⟩, .reduce ⟨.max, [0], true⟩, [.value ⟨2⟩], .tensor ⟨.f64, ⟨[.static 1, .static 4]⟩⟩⟩]
  outputs := [⟨3⟩]

/-- The negation behind both maxima, which are minima then. -/
def twoMinima : Graph :=
  { twoMaxima with
    body :=
      [⟨⟨4⟩, .reduce ⟨.min, [0], true⟩, [.value ⟨0⟩], .tensor ⟨.f64, ⟨[.static 1, .static 4]⟩⟩⟩,
        ⟨⟨6⟩, .reduce ⟨.min, [0], true⟩, [.value ⟨4⟩], .tensor ⟨.f64, ⟨[.static 1, .static 4]⟩⟩⟩,
        ⟨⟨7⟩, .unary .neg, [.value ⟨6⟩], .tensor ⟨.f64, ⟨[.static 1, .static 4]⟩⟩⟩]
    outputs := [⟨7⟩] }

/-- A pipeline of no rounds repeats its passes once, so this pipeline may take over what the other one
made after the cache was emptied.
-/
theorem twoMaxima_hit_compilesTo
    : ∃ compiled,
        (compile (CompileCache.after
            [.compile true "cpu" .identity (.ofGraph twoMaxima), .clear,
              .compile true "cpu" (.stock ⟨0, 4, 0⟩) (.ofGraph twoMaxima)])
          true "cpu" (.stock ⟨1, 4, 10000⟩) (.ofGraph twoMaxima)).outcome = .ok ⟨compiled, true⟩
        ∧ CompilesTo "cpu" (.stock ⟨1, 4, 10000⟩) (.ofGraph twoMaxima) compiled := by
  have hit
      : (compile (CompileCache.after
            [.compile true "cpu" .identity (.ofGraph twoMaxima), .clear,
              .compile true "cpu" (.stock ⟨0, 4, 0⟩) (.ofGraph twoMaxima)])
          true "cpu" (.stock ⟨1, 4, 10000⟩) (.ofGraph twoMaxima)).outcome
        = .ok ⟨.ofGraph twoMinima, true⟩ := by
    decide +kernel
  refine ⟨_, hit, @compile_hit_compilesTo _ (.pipeline ⟨1, 4, 10000⟩) _ rfl ?_ _ _ _ hit⟩
  simp only [List.forall_mem_cons]
  exact ⟨⟨.identity, rfl, nofun⟩, trivial, ⟨.pipeline ⟨0, 4, 0⟩, rfl, fun _ => rfl⟩, nofun⟩

/-- The signature does not tell how often passes are repeated: a pipeline of more rounds is handed the
program that a pipeline of less rounds left half finished.
-/
theorem twoMaxima_stale
    : ∃ stale,
        (compile (CompileCache.after
            [.compile true "cpu" (.stock ⟨1, 1, 10000⟩) (.ofGraph twoMaxima)])
          true "cpu" (.stock ⟨2, 4, 10000⟩) (.ofGraph twoMaxima)).outcome = .ok ⟨stale, true⟩
        ∧ CompilesTo "cpu" (.stock ⟨2, 4, 10000⟩) (.ofGraph twoMaxima) (.ofGraph twoMinima)
        ∧ stale ≠ .ofGraph twoMinima := by
  refine ⟨.ofGraph
    { twoMaxima with
      body :=
        [⟨⟨4⟩, .reduce ⟨.min, [0], true⟩, [.value ⟨0⟩],
            .tensor ⟨.f64, ⟨[.static 1, .static 4]⟩⟩⟩,
          ⟨⟨5⟩, .unary .neg, [.value ⟨4⟩], .tensor ⟨.f64, ⟨[.static 1, .static 4]⟩⟩⟩,
          ⟨⟨3⟩, .reduce ⟨.max, [0], true⟩, [.value ⟨5⟩],
            .tensor ⟨.f64, ⟨[.static 1, .static 4]⟩⟩⟩] }, ?_, ?_, by decide +kernel⟩
  · decide +kernel
  · change _ = _
    decide +kernel

end Dataflow

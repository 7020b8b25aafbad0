import Dataflow.Compile.Basic
import Mathlib.Data.List.Induction
import Mathlib.Tactic.SplitIfs

/-!
Caches and their history. Whatever was compiled and however often a cache was emptied, each program
that it holds is what some compilation of the history returned, and would return without a cache.
-/

namespace Dataflow

-----------------------------------------------------------------------------------------
-- Entries
-----------------------------------------------------------------------------------------

namespace CompileCache

variable {cache : CompileCache} {key : CompileKey} {program : Program} {entry : CompileKey × Program}

theorem mem_of_find? (found : cache.find? key = some program) : (key, program) ∈ cache := by
  obtain ⟨⟨other, _⟩, first, rfl⟩ := Option.map_eq_some_iff.mp found
  obtain rfl : other = key := by simpa using List.find?_some first
  exact List.mem_of_find?_eq_some first

/-- An entry of a cache is the one that was put in last, or it was there before. -/
theorem mem_of_mem_put (member : entry ∈ cache.put key program)
    : entry = (key, program) ∨ entry ∈ cache := by
  rw [put] at member
  exact (List.mem_cons.mp (List.mem_of_mem_take member)).imp_right fun old =>
    (List.mem_filter.mp old).1

end CompileCache

-----------------------------------------------------------------------------------------
-- Compilations
-----------------------------------------------------------------------------------------

deriving instance DecidableEq for Compiled

section Compilation

variable {cache : CompileCache} {useCache : Bool} {backend : String} {optimizer : Optimizer}
  {program compiled : Program}

/-- A program is what compiling another one returns if no cache is used. -/
def CompilesTo (backend : String) (optimizer : Optimizer) (program compiled : Program) : Prop :=
  (compile [] false backend optimizer program).outcome = .ok ⟨compiled, false⟩

/-- Compiling without a cache is optimizing and scheduling the entry graph. -/
theorem compilesTo_iff
    : CompilesTo backend optimizer program compiled
      ↔ ∃ graph,
          program.checkedEntry = .ok graph
          ∧ finishOptimized program (optimizer.optimize compileLimit graph) = .ok compiled := by
  rw [CompilesTo, compile]
  cases program.checkedEntry with
  | error error => simp
  | ok graph =>
      dsimp only
      rw [if_neg Bool.false_ne_true]
      dsimp only
      cases made : finishOptimized program (optimizer.optimize compileLimit graph) <;> simp [made]

/-- A program that is handed out from the cache was in it. -/
theorem mem_of_compile_hit
    (hit : (compile cache useCache backend optimizer program).outcome = .ok ⟨compiled, true⟩)
    : (⟨program, backend, optimizer.signature⟩, compiled) ∈ cache := by
  rw [compile] at hit
  cases checked : program.checkedEntry with
  | error error => simp [checked] at hit
  | ok graph =>
      simp only [checked] at hit
      cases looked
          : (if useCache then cache.find? ⟨program, backend, optimizer.signature⟩ else none) with
      | none =>
          simp only [looked] at hit
          split at hit <;> simp at hit
      | some cached =>
          simp only [looked, Except.ok.injEq, Compiled.mk.injEq, and_true] at hit
          split_ifs at looked
          exact hit ▸ CompileCache.mem_of_find? looked

/-- What is not handed out from the cache is what would be handed out without one. -/
theorem compilesTo_of_miss
    (missed : (compile cache useCache backend optimizer program).outcome = .ok ⟨compiled, false⟩)
    : CompilesTo backend optimizer program compiled := by
  rw [compile] at missed
  rw [compilesTo_iff]
  cases checked : program.checkedEntry with
  | error error => simp [checked] at missed
  | ok graph =>
      simp only [checked] at missed
      split at missed
      · simp at missed
      · split at missed
        · simp at missed
        · rename_i made
          simp only [Except.ok.injEq, Compiled.mk.injEq, and_true] at missed
          exact ⟨graph, rfl, missed ▸ made⟩

/-- An entry of a cache behind a compilation was there before, or the compilation made it. -/
theorem mem_cache_of_compile {entry : CompileKey × Program}
    (member : entry ∈ (compile cache useCache backend optimizer program).cache)
    : entry ∈ cache
      ∨ entry.1 = ⟨program, backend, optimizer.signature⟩
        ∧ CompilesTo backend optimizer program entry.2 := by
  rw [compile] at member
  cases checked : program.checkedEntry with
  | error error =>
      rw [checked] at member
      exact .inl member
  | ok graph =>
      simp only [checked] at member
      split at member
      · rename_i cached looked
        split_ifs at looked
        rcases CompileCache.mem_of_mem_put member with rfl | old
        · exact .inl (CompileCache.mem_of_find? looked)
        · exact .inl old
      · split at member
        · exact .inl member
        · rename_i made
          dsimp only at member
          split_ifs at member
          · rcases CompileCache.mem_of_mem_put member with rfl | old
            · exact .inr ⟨rfl, compilesTo_iff.mpr ⟨graph, checked, made⟩⟩
            · exact .inl old
          · exact .inl member

end Compilation

-----------------------------------------------------------------------------------------
-- Histories
-----------------------------------------------------------------------------------------

/-- A use of a cache: a program is compiled, or the cache is emptied. -/
inductive CacheStep where
  | compile (useCache : Bool) (backend : String) (optimizer : Optimizer) (program : Program)
  | clear

/-- The cache behind a step. -/
def CacheStep.run (cache : CompileCache) : CacheStep → CompileCache
  | .compile useCache backend optimizer program =>
    (Dataflow.compile cache useCache backend optimizer program).cache
  | .clear => []

namespace CompileCache

/-- The cache behind some steps, which starts empty. -/
def after (steps : List CacheStep) : CompileCache := steps.foldl CacheStep.run []

/-- Every entry of a cache is what one of some steps returned. -/
def StemsFrom (cache : CompileCache) (steps : List CacheStep) : Prop :=
  ∀ entry ∈ cache, ∃ useCache backend optimizer program,
    .compile useCache backend optimizer program ∈ steps
    ∧ entry.1 = ⟨program, backend, optimizer.signature⟩
    ∧ CompilesTo backend optimizer program entry.2

/-- A step adds at most what it returned. -/
theorem StemsFrom.run {cache : CompileCache} {steps : List CacheStep} (stems : cache.StemsFrom steps)
    (step : CacheStep)
    : StemsFrom (step.run cache) (steps ++ [step]) := by
  intro entry member
  cases step with
  | clear => exact absurd member List.not_mem_nil
  | compile useCache backend optimizer program =>
      rcases mem_cache_of_compile member with before | ⟨key, made⟩
      · obtain ⟨useCache, backend, optimizer, program, listed, made⟩ := stems entry before
        exact ⟨useCache, backend, optimizer, program, List.mem_append_left _ listed, made⟩
      · exact ⟨useCache, backend, optimizer, program, List.mem_append_right _ List.mem_cons_self,
          key, made⟩

/-- By induction on the steps, the last one first. -/
theorem stemsFrom_after (steps : List CacheStep) : (after steps).StemsFrom steps := by
  induction steps using List.reverseRecOn with
  | nil => exact fun entry member => absurd member List.not_mem_nil
  | append_singleton earlier step ih =>
      rw [after, List.foldl_append]
      exact ih.run step

end CompileCache

/-- Whatever a compilation hands out, cached or not, some step of the history or the compilation
itself makes it of the same program for the same backend, with an optimizer of the same signature.
-/
theorem exists_compilesTo {steps : List CacheStep} {useCache fromCache : Bool} {backend : String}
    {optimizer : Optimizer} {program compiled : Program}
    (done
      : (compile (CompileCache.after steps) useCache backend optimizer program).outcome
        = .ok ⟨compiled, fromCache⟩)
    : ∃ use earlier,
        .compile use backend earlier program ∈ steps ++ [.compile useCache backend optimizer program]
        ∧ earlier.signature = optimizer.signature
        ∧ CompilesTo backend earlier program compiled := by
  cases fromCache with
  | false =>
      exact ⟨useCache, optimizer, List.mem_append_right _ List.mem_cons_self, rfl,
        compilesTo_of_miss done⟩
  | true =>
      obtain ⟨use, _, earlier, _, listed, key, made⟩ :=
        CompileCache.stemsFrom_after steps _ (mem_of_compile_hit done)
      obtain ⟨rfl, rfl, signature⟩ := CompileKey.mk.inj key
      exact ⟨use, earlier, List.mem_append_left _ listed, signature.symm, made⟩

end Dataflow

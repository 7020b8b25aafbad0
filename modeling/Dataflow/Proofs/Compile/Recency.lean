import Dataflow.Proofs.Compile.History
import Mathlib.Data.List.Dedup
import Mathlib.Tactic.Tauto

/-!
What a cache still holds. All keys that were used since the cache was emptied have an order, the one
of the latest use first, and the cache holds the programs of its front. So a program comes from the
cache iff few enough other keys were used behind it.
-/

namespace Dataflow

-----------------------------------------------------------------------------------------
-- Uses
-----------------------------------------------------------------------------------------

/-- The key that a step uses: it compiles a program with the cache and succeeds, so that the key is
found or put in.
-/
def CacheStep.used? (cache : CompileCache) : CacheStep → Option CompileKey
  | .compile useCache backend optimizer program =>
    match useCache, (Dataflow.compile cache useCache backend optimizer program).outcome with
    | true, .ok _ => some ⟨program, backend, optimizer.signature⟩
    | _, _ => none
  | .clear => none

namespace CompileCache

variable {cache : CompileCache} {key : CompileKey} {compiled : Program} {recent : List CompileKey}
  {steps : List CacheStep}

/-- The keys that steps use, one after the other. -/
def used (cache : CompileCache) : List CacheStep → List CompileKey
  | [] => []
  | step :: steps => (step.used? cache).toList ++ used (step.run cache) steps

/-- The last step that uses a key, since the cache was emptied last, is in front of others that use
other keys.
-/
def LatestUse (key : CompileKey) (steps : List CacheStep) (others : List CompileKey) : Prop :=
  ∃ before step later,
    steps = before ++ step :: later
    ∧ .clear ∉ later
    ∧ step.used? (after before) = some key
    ∧ others = used (after (before ++ [step])) later
    ∧ key ∉ others

/-- Steps behind others start with the cache that these leave. -/
theorem after_append (steps more : List CacheStep)
    : after (steps ++ more) = more.foldl CacheStep.run (after steps) := by
  rw [after, List.foldl_append, after]

/-- The cache behind one more step. -/
theorem after_concat (steps : List CacheStep) (step : CacheStep)
    : after (steps ++ [step]) = step.run (after steps) :=
  after_append steps [step]

/-- Steps behind others use keys of the cache that these leave, by induction on the others. -/
theorem used_append (steps more : List CacheStep)
    : cache.used (steps ++ more) = cache.used steps ++ used (steps.foldl CacheStep.run cache) more := by
  induction steps generalizing cache with
  | nil => rfl
  | cons step steps ih =>
      rw [List.cons_append, used, used, ih, List.append_assoc, List.foldl_cons]

/-- A step that uses a key is its latest use. -/
theorem latestUse_concat {step : CacheStep} (uses : step.used? (after steps) = some key)
    : LatestUse key (steps ++ [step]) [] :=
  ⟨steps, step, [], rfl, List.not_mem_nil, uses, rfl, List.not_mem_nil⟩

/-- The latest use stays so until the key is used again or the cache is emptied. -/
theorem LatestUse.concat {others : List CompileKey} {step : CacheStep}
    (latest : LatestUse key steps others) (uncleared : step ≠ .clear)
    (other : step.used? (after steps) ≠ some key)
    : LatestUse key (steps ++ [step]) (others ++ (step.used? (after steps)).toList) := by
  obtain ⟨before, use, later, rfl, kept, uses, rfl, unused⟩ := latest
  have reached : later.foldl CacheStep.run (after (before ++ [use]))
      = after (before ++ use :: later) := by
    rw [← after_append, List.append_assoc, List.singleton_append]
  refine ⟨before, use, later ++ [step], ?_, ?_, uses, ?_, ?_⟩
  · rw [List.append_assoc, List.cons_append]
  · simpa [List.mem_append] using ⟨kept, uncleared.symm⟩
  · rw [used_append, reached, used, used, List.append_nil]
  · simpa [List.mem_append] using ⟨unused, other⟩

-----------------------------------------------------------------------------------------
-- Steps
-----------------------------------------------------------------------------------------

/-- The keys of a cache, the one that was used last in front. -/
def keys (cache : CompileCache) : List CompileKey := cache.map (·.1)

/-- Keys in the order of their latest use, behind one more use. -/
def touch (key : CompileKey) (recent : List CompileKey) : List CompileKey :=
  key :: recent.filter (· ≠ key)

theorem keys_put (cache : CompileCache) (key : CompileKey) (compiled : Program)
    : (cache.put key compiled).keys = (touch key cache.keys).take capacity := by
  rw [keys, put, List.map_take, List.map_cons, touch, keys, List.filter_map, without]
  rfl

/-- A key of a cache has a program. -/
theorem exists_find? (member : key ∈ cache.keys) : ∃ compiled, cache.find? key = some compiled := by
  obtain ⟨⟨key, compiled⟩, listed, rfl⟩ := List.mem_map.mp member
  have found : (List.find? (fun entry => decide (entry.1 = key)) cache).isSome := by
    simpa using ⟨compiled, listed⟩
  obtain ⟨first, here⟩ := Option.isSome_iff_exists.mp found
  exact ⟨first.2, Option.map_eq_some_iff.mpr ⟨first, here, rfl⟩⟩

end CompileCache

section Compile

variable {cache : CompileCache} {useCache : Bool} {backend : String} {optimizer : Optimizer}
  {program : Program}

/-- A program whose entry graph is in order is handed out from the cache iff its key is in it. -/
theorem exists_hit_iff {graph : Graph} (checked : program.checkedEntry = .ok graph)
    : (∃ compiled,
        (compile cache true backend optimizer program).outcome = .ok ⟨compiled, true⟩)
      ↔ ⟨program, backend, optimizer.signature⟩ ∈ cache.keys := by
  constructor
  · rintro ⟨compiled, hit⟩
    exact List.mem_map.mpr ⟨_, mem_of_compile_hit hit, rfl⟩
  · intro member
    obtain ⟨compiled, found⟩ := CompileCache.exists_find? member
    exact ⟨compiled, by simp [compile, checked, found]⟩

/-- A compilation that fails, or that does not use the cache, leaves the cache as it is. -/
theorem cache_of_idle
    (idle
      : useCache = false
        ∨ ∃ error, (compile cache useCache backend optimizer program).outcome = .error error)
    : (compile cache useCache backend optimizer program).cache = cache := by
  revert idle
  simp only [compile]
  cases program.checkedEntry with
  | error error => exact fun _ => rfl
  | ok graph =>
      dsimp only
      split
      · rename_i cached looked
        split_ifs at looked with uses
        simp [uses]
      · split
        · exact fun _ => rfl
        · rintro (rfl | ⟨error, failed⟩)
          · rfl
          · cases failed

/-- A compilation that succeeds with the cache puts its key in front, whether it was found or not. -/
theorem cache_of_success {result : Compiled}
    (done : (compile cache true backend optimizer program).outcome = .ok result)
    : ∃ compiled,
        (compile cache true backend optimizer program).cache
        = cache.put ⟨program, backend, optimizer.signature⟩ compiled := by
  simp only [compile] at done ⊢
  cases checked : program.checkedEntry with
  | error error =>
      rw [checked] at done
      cases done
  | ok graph =>
      simp only [checked] at done ⊢
      split
      · exact ⟨_, rfl⟩
      · split
        · simp_all
        · exact ⟨_, rfl⟩

/-- What a step does: it empties the cache, leaves it as it is, or puts the key that it uses in
front.
-/
theorem CacheStep.run_cases (step : CacheStep) (cache : CompileCache)
    : step = .clear
      ∨ step ≠ .clear ∧ step.used? cache = none ∧ step.run cache = cache
      ∨ step ≠ .clear
        ∧ ∃ key compiled, step.used? cache = some key ∧ step.run cache = cache.put key compiled := by
  cases step with
  | clear => exact .inl rfl
  | compile useCache backend optimizer program =>
      cases useCache with
      | false => exact .inr (.inl ⟨nofun, rfl, cache_of_idle (.inl rfl)⟩)
      | true =>
          cases outcome : (Dataflow.compile cache true backend optimizer program).outcome with
          | error error =>
              have unused : (CacheStep.compile true backend optimizer program).used? cache = none := by
                simp [used?, outcome]
              exact .inr (.inl ⟨nofun, unused, cache_of_idle (.inr ⟨error, outcome⟩)⟩)
          | ok result =>
              obtain ⟨compiled, put⟩ := cache_of_success outcome
              refine .inr (.inr ⟨nofun, _, compiled, ?_, put⟩)
              simp [used?, outcome]

end Compile

-----------------------------------------------------------------------------------------
-- Order of use
-----------------------------------------------------------------------------------------

namespace CompileCache

variable {cache : CompileCache} {key : CompileKey} {compiled : Program} {recent : List CompileKey}
  {steps : List CacheStep}

/-- The keys of a cache are the front of keys that are in the order of their latest use. -/
structure Ranks (cache : CompileCache) (recent : List CompileKey) : Prop where
  distinct : recent.Nodup
  front : cache.keys = recent.take capacity

/-- A key that moves to the front of a list does so in a prefix, by induction on the list. -/
theorem take_filter_ne (distinct : recent.Nodup) (count : Nat)
    : ((recent.take (count + 1)).filter (· ≠ key)).take count
      = (recent.filter (· ≠ key)).take count := by
  induction recent generalizing count with
  | nil => rfl
  | cons first rest ih =>
      obtain ⟨fresh, distinct⟩ := List.nodup_cons.mp distinct
      by_cases same : first = key
      · subst same
        have others (list : List CompileKey) (sub : list ⊆ rest)
            : list.filter (· ≠ first) = list := by
          apply List.filter_eq_self.mpr
          intro other member
          simpa using fun same : other = first => fresh (same ▸ sub member)
        rw [List.take_succ_cons, List.filter_cons_of_neg (by simp),
          List.filter_cons_of_neg (by simp), others _ (List.take_subset count rest),
          others _ (List.Subset.refl rest), List.take_take, Nat.min_self]
      · rw [List.take_succ_cons, List.filter_cons_of_pos (by simpa using same),
          List.filter_cons_of_pos (by simpa using same)]
        cases count with
        | zero => rfl
        | succ count => rw [List.take_succ_cons, List.take_succ_cons, ih distinct]

theorem Ranks.put (ranks : cache.Ranks recent)
    : (cache.put key compiled).Ranks (touch key recent) where
  distinct := List.nodup_cons.mpr ⟨by simp, ranks.distinct.filter _⟩
  front := by
    have front : ((recent.take (63 + 1)).filter (· ≠ key)).take 63
        = (recent.filter (· ≠ key)).take 63 :=
      take_filter_ne ranks.distinct 63
    rw [keys_put, ranks.front, touch, touch]
    simp only [capacity] at front ⊢
    rw [List.take_succ_cons, List.take_succ_cons, front]

/-- Behind all steps, the keys that were used have an order with the cache at its front. By induction
on the steps, the last one first.
-/
theorem exists_ranks (steps : List CacheStep)
    : ∃ recent,
        (after steps).Ranks recent
        ∧ ∀ key ∈ recent, ∃ others, LatestUse key steps others := by
  induction steps using List.reverseRecOn with
  | nil => exact ⟨[], ⟨List.nodup_nil, rfl⟩, fun _ => nofun⟩
  | append_singleton steps step ih =>
      obtain ⟨recent, ranks, uses⟩ := ih
      rw [after_concat]
      rcases step.run_cases (after steps) with rfl | ⟨kept, unused, same⟩
          | ⟨kept, key, compiled, used, put⟩
      · exact ⟨[], ⟨List.nodup_nil, rfl⟩, fun _ => nofun⟩
      · rw [same]
        refine ⟨recent, ranks, fun other member => ?_⟩
        obtain ⟨others, latest⟩ := uses other member
        exact ⟨_, latest.concat kept (by simp [unused])⟩
      · rw [put]
        refine ⟨touch key recent, ranks.put, fun other member => ?_⟩
        rcases List.mem_cons.mp member with rfl | member
        · exact ⟨[], latestUse_concat used⟩
        · obtain ⟨old, different⟩ := List.mem_filter.mp member
          obtain ⟨others, latest⟩ := uses other old
          refine ⟨_, latest.concat kept fun same => ?_⟩
          exact of_decide_eq_true different (Option.some.inj (same.symm.trans used))

/-- In front of a key that is not used again stand the keys that are used behind it, and those that
stood there before. By induction on the steps.
-/
theorem Ranks.foldl_run {front back : List CompileKey} (ranks : cache.Ranks (front ++ key :: back))
    (uncleared : .clear ∉ steps) (unused : key ∉ cache.used steps)
    : ∃ front' back',
        (steps.foldl CacheStep.run cache).Ranks (front' ++ key :: back')
        ∧ ∀ other, other ∈ front' ↔ other ∈ front ∨ other ∈ cache.used steps := by
  induction steps generalizing cache front back with
  | nil => exact ⟨front, back, ranks, fun other => by simp [used]⟩
  | cons step steps ih =>
      rw [List.mem_cons, not_or] at uncleared
      rw [used, List.mem_append, not_or] at unused
      rw [List.foldl_cons]
      rcases step.run_cases cache with rfl | ⟨-, idle, same⟩ | ⟨-, other, compiled, use, put⟩
      · exact absurd rfl uncleared.1
      · rw [used, idle, same]
        rw [same] at unused
        exact ih ranks uncleared.2 unused.2
      · have different : key ≠ other := by
          rintro rfl
          exact unused.1 (by simp [use])
        have moved : touch other (front ++ key :: back)
            = touch other front ++ key :: back.filter (· ≠ other) := by
          simp [touch, List.filter_append, different]
        obtain ⟨front', back', ranked, members⟩ :=
          ih (moved ▸ put ▸ ranks.put) uncleared.2 unused.2
        refine ⟨front', back', ranked, fun third => ?_⟩
        rw [members, used, use]
        simp only [touch, List.mem_cons, List.mem_filter, decide_eq_true_eq, List.mem_append,
          Option.toList_some, List.not_mem_nil, or_false]
        tauto

/-- The place of a key is the number of the other keys that were used behind it. -/
theorem LatestUse.exists_ranks {others : List CompileKey} (latest : LatestUse key steps others)
    : ∃ front back,
        (after steps).Ranks (front ++ key :: back) ∧ front.length = others.dedup.length := by
  obtain ⟨before, step, later, rfl, uncleared, uses, rfl, unused⟩ := latest
  have reached : after (before ++ step :: later)
      = later.foldl CacheStep.run (after (before ++ [step])) := by
    rw [← after_append, List.append_assoc, List.singleton_append]
  obtain ⟨recent, ranks, -⟩ := CompileCache.exists_ranks before
  have first : (after (before ++ [step])).Ranks ([] ++ key :: recent.filter (· ≠ key)) := by
    rw [after_concat]
    rcases step.run_cases (after before) with rfl | ⟨-, idle, -⟩ | ⟨-, other, compiled, use, put⟩
    · cases uses
    · cases idle.symm.trans uses
    · obtain rfl := Option.some.inj (use.symm.trans uses)
      exact put ▸ ranks.put
  obtain ⟨front, back, ranked, members⟩ := first.foldl_run uncleared unused
  refine ⟨front, back, reached ▸ ranked, List.Perm.length_eq ?_⟩
  have distinct : front.Nodup := ranked.distinct.of_append_left
  apply (List.perm_ext_iff_of_nodup distinct (List.nodup_dedup _)).mpr
  intro other
  rw [members, List.mem_dedup]
  exact or_iff_right List.not_mem_nil

/-- A key is in a prefix of distinct keys iff fewer keys are in front of it. -/
theorem mem_take_iff {front back : List CompileKey} (distinct : (front ++ key :: back).Nodup)
    (count : Nat)
    : key ∈ (front ++ key :: back).take count ↔ front.length < count := by
  have absent : key ∉ front := fun member =>
    (List.nodup_append.mp distinct).2.2 key member key List.mem_cons_self rfl
  have here (rest : Nat) : key ∈ (key :: back).take rest ↔ 0 < rest := by
    cases rest <;> simp
  rw [List.take_append, List.mem_append, here, Nat.sub_pos_iff_lt]
  exact or_iff_right fun member => absent (List.mem_of_mem_take member)

/-- A key is in the cache iff it was used since the cache was emptied last, and fewer other keys than
the cache holds were used behind its latest use.
-/
theorem mem_keys_after_iff
    : key ∈ (after steps).keys
      ↔ ∃ others, LatestUse key steps others ∧ others.dedup.length < capacity := by
  have placed {others : List CompileKey} (latest : LatestUse key steps others)
      : key ∈ (after steps).keys ↔ others.dedup.length < capacity := by
    obtain ⟨front, back, ranks, length⟩ := latest.exists_ranks
    rw [ranks.front, mem_take_iff ranks.distinct, length]
  constructor
  · intro member
    obtain ⟨recent, ranks, uses⟩ := exists_ranks steps
    obtain ⟨others, latest⟩ := uses key (List.mem_of_mem_take (ranks.front ▸ member))
    exact ⟨others, latest, (placed latest).mp member⟩
  · rintro ⟨others, latest, few⟩
    exact (placed latest).mpr few

end CompileCache

-----------------------------------------------------------------------------------------
-- Histories
-----------------------------------------------------------------------------------------

/-- Whatever was compiled before and however often the cache was emptied: a program whose entry graph
is in order comes from the cache iff, since the cache was emptied last, some call with the cache
succeeded for the same program and backend with an optimizer of the same signature, and fewer than 64
other keys were found or put in behind the latest such call. Equal programs have operations of equal
revisions. Calls that fail and calls without the cache make no difference to any later call.
-/
theorem compile_hit_iff {steps : List CacheStep} {backend : String} {optimizer : Optimizer}
    {program : Program} {graph : Graph} (checked : program.checkedEntry = .ok graph)
    : ((∃ compiled,
          (compile (CompileCache.after steps) true backend optimizer program).outcome
            = .ok ⟨compiled, true⟩)
        ↔ ∃ others,
            CompileCache.LatestUse ⟨program, backend, optimizer.signature⟩ steps others
            ∧ others.dedup.length < 64)
      ∧ ∀ before useCache name other idle later,
          steps = before ++ .compile useCache name other idle :: later
          → useCache = false
            ∨ (∃ error,
                (compile (CompileCache.after before) useCache name other idle).outcome
                  = .error error)
          → compile (CompileCache.after steps) = compile (CompileCache.after (before ++ later)) := by
  refine ⟨(exists_hit_iff checked).trans CompileCache.mem_keys_after_iff, ?_⟩
  rintro before useCache name other idle later rfl without
  have same : CacheStep.run (CompileCache.after before) (.compile useCache name other idle)
      = CompileCache.after before :=
    cache_of_idle without
  rw [CompileCache.after_append, List.foldl_cons, same, ← CompileCache.after_append]

/-- A graph that returns its input. -/
def returning (name : String) : Graph where
  name := name
  inputTypes := [.tensor ⟨.f64, ⟨[]⟩⟩]
  inputs := [⟨0⟩]
  outputTypes := [.tensor ⟨.f64, ⟨[]⟩⟩]
  body := []
  outputs := [⟨0⟩]

/-- Compiles one program, and then a number of others. -/
def crowding (count : Nat) : List CacheStep :=
  .compile true "cpu" .identity (.ofGraph (returning "first"))
    :: (List.range count).map fun number =>
      .compile true "cpu" .identity (.ofGraph (returning (toString number)))

/-- With 63 other programs behind it a program is still in the cache, with 64 it is not. -/
theorem crowding_hit
    : (Program.ofGraph (returning "first")).checkedEntry = .ok (returning "first")
      ∧ (∃ compiled,
          (compile (CompileCache.after (crowding 63)) true "cpu" .identity
            (.ofGraph (returning "first"))).outcome = .ok ⟨compiled, true⟩)
      ∧ ¬∃ compiled,
          (compile (CompileCache.after (crowding 64)) true "cpu" .identity
            (.ofGraph (returning "first"))).outcome = .ok ⟨compiled, true⟩ := by
  have checked
      : (Program.ofGraph (returning "first")).checkedEntry = .ok (returning "first") := by
    decide
  refine ⟨checked, (compile_hit_iff checked).1.mpr ?_, ?_⟩
  · exact ⟨_, ⟨[], _, _, rfl, by simp, by rfl, rfl, by decide +kernel⟩, by decide +kernel⟩
  · rintro ⟨compiled, hit⟩
    have missed
        : ((compile (CompileCache.after (crowding 64)) true "cpu" .identity
            (.ofGraph (returning "first"))).outcome.map Compiled.fromCache).toOption = some false := by
      decide +kernel
    rw [hit] at missed
    cases missed

end Dataflow

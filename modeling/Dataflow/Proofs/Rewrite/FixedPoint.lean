import Dataflow.Proofs.Rewrite.Declining
import Dataflow.Proofs.Rewrite.TypedEdits

/-!
Sweeps that reach a fixed point. Nodes are offered from the front, so whatever stands in front of a
rewrite was declined. If rewrites let the rules decline there as before, then no refusal gets out of
date, and a sweep that ends on its own leaves no node to which a rule applies.
-/

namespace Dataflow

variable {narrow : Prop} {rules : RuleSet} {session next : Session} {ids front : List NodeId}
  {refusals : Refusals} {id : NodeId}

-----------------------------------------------------------------------------------------
-- Refusals
-----------------------------------------------------------------------------------------

/-- Every refusal is about a node of some list, whatever its version, and the rule declines it. -/
def Refusals.Sure (refusals : Refusals) (rules : RuleSet) (session : Session)
    (front : List NodeId) : Prop :=
  ∀ (slot : Nat) (id : NodeId) (version : Nat),
    refusals.get? (slot, id) = some version
    → id ∈ front ∧ ∀ rule, rules[slot]? = some rule → rule.plan session id = none

namespace Refusals.Sure

theorem honest (sure : refusals.Sure rules session front) : refusals.Honest rules session :=
  fun slot id version rule noted _ listed => (sure slot id version noted).2 rule listed

theorem mono {more : List NodeId} (sure : refusals.Sure rules session front)
    (subset : front ⊆ more)
    : refusals.Sure rules session more :=
  fun slot id version noted => (sure slot id version noted).imp_left (subset ·)

theorem set (sure : refusals.Sure rules session front) {slot version : Nat} {rule : Rule}
    (listed : rules[slot]? = some rule) (member : id ∈ front)
    (declined : rule.plan session id = none)
    : Refusals.Sure (Table.set (slot, id) version refusals) rules session front := by
  intro other name noted here
  rw [Table.get?_set] at here
  split_ifs at here with same
  · obtain ⟨rfl, rfl⟩ := Prod.mk.inj same
    refine ⟨member, fun which there => ?_⟩
    obtain rfl := Option.some.inj (listed.symm.trans there)
    exact declined
  · exact sure other name noted here

/-- By induction on the rules. -/
theorem offerNode (sure : refusals.Sure rules session front) (member : id ∈ front)
    {value : ValueId} {version : Nat} {offered : List (Nat × Rule)}
    (listed : ∀ slot rule, (slot, rule) ∈ offered → rules[slot]? = some rule)
    : (offerNode session id value version refusals offered).1.Sure rules session front := by
  induction offered generalizing refusals with
  | nil => exact sure
  | cons first rest ih =>
      obtain ⟨slot, rule⟩ := first
      have later := fun slot rule member => listed slot rule (List.mem_cons_of_mem _ member)
      rw [Dataflow.offerNode]
      split_ifs
      · exact ih sure later
      · cases planned : rule.plan session id with
        | none => exact ih (sure.set (listed _ _ List.mem_cons_self) member planned) later
        | some plan => exact sure

theorem offer (sure : refusals.Sure rules session front) (member : id ∈ front)
    : (offer rules session refusals id).1.Sure rules session front := by
  rw [Dataflow.offer]
  split
  · exact sure.offerNode member fun _ _ member => (RuleSet.mem_tracking.mp member).1
  · exact sure

end Refusals.Sure

theorem Table.get?_filter_keys {κ α : Type} [DecidableEq κ] (keep : κ → Bool) (table : Table κ α)
    (key : κ)
    : Table.get? key (table.filter fun entry => keep entry.1)
      = if keep key then Table.get? key table else none := by
  induction table with
  | nil => simp [Table.get?]
  | cons first rest ih =>
      obtain ⟨other, entry⟩ := first
      rw [List.filter_cons]
      by_cases same : other = key
      · subst same
        by_cases kept : keep other = true <;> simp [Table.get?, kept, ih]
      · by_cases kept : keep other = true <;> simp [Table.get?, kept, ih, same]

/-- Up to the node that is rewritten, all nodes were declined, and the refusals are about them. By
induction on the nodes that are offered.
-/
theorem offerFirst_eq_rewrote (versioned : session.Versioned)
    (sure : refusals.Sure rules session front) {offered : List NodeId} {after : Refusals}
    {rewrite : Rewrite}
    (rewrote : offerFirst rules session refusals offered = (after, .rewrote rewrite next))
    : ∃ earlier id later rule plan,
        offered = earlier ++ id :: later
        ∧ (∀ name ∈ earlier, rules.Declines session name)
        ∧ ¬rules.Declines session id
        ∧ after.Sure rules session (front ++ earlier)
        ∧ rule ∈ rules
        ∧ rule.plan session id = some plan
        ∧ plan session = .ok () next := by
  induction offered generalizing refusals front with
  | nil => cases rewrote
  | cons first rest ih =>
      have grown := (sure.mono (List.subset_append_left front [first])).offer
        (List.mem_append_right front (List.mem_singleton_self first))
      have declines := (offer_eq_declined_iff rules versioned sure.honest first).1
      rw [offerFirst] at rewrote
      cases happened : offer rules session refusals first with
      | mk noted what =>
          rw [happened] at rewrote grown declines
          cases what with
          | failed error next => cases (Prod.mk.inj rewrote).2
          | declined =>
              obtain ⟨earlier, id, later, rule, plan, rfl, all, taken, sure, planned⟩ :=
                ih grown rewrote
              refine ⟨first :: earlier, id, later, rule, plan, rfl,
                List.forall_mem_cons.mpr ⟨declines.mp rfl, all⟩, taken, ?_, planned⟩
              rwa [List.append_assoc] at sure
          | rewrote rewrite next =>
              obtain ⟨rfl, same⟩ := Prod.mk.inj rewrote
              obtain ⟨rfl, rfl⟩ := Offer.rewrote.inj same
              obtain ⟨rule, plan, member, planned⟩ :=
                exists_plan_of_offer (congrArg Prod.snd happened)
              have taken : ¬rules.Declines session first := by
                intro all
                cases declines.mpr all
              refine ⟨[], first, rest, rule, plan, rfl, List.forall_mem_nil _, taken, ?_, member,
                planned⟩
              intro slot name version here
              have here := (Table.get?_filter_keys (fun key => decide (key.2 ≠ first)) noted
                (slot, name)).symm.trans here
              split_ifs at here with other
              obtain ⟨listed, declined⟩ := grown slot name version here
              refine ⟨?_, declined⟩
              rw [List.mem_append, List.mem_singleton] at listed
              exact List.mem_append_left _ (listed.resolve_right (of_decide_eq_true other))

-----------------------------------------------------------------------------------------
-- Rewrites
-----------------------------------------------------------------------------------------

/-- Behind a rewrite, the rules decline the nodes in front of it as they did before. -/
def RuleSet.Steady (narrow : Prop) (rules : RuleSet) : Prop :=
  ∀ rule ∈ rules, ∀ {session after : Session} {ids : List NodeId} {id : NodeId}
    {plan : Rewriting Unit},
    session.Holds narrow ids
    → rule.plan session id = some plan
    → plan session = .ok () after
    → ∃ (position : Nat) (names : List NodeId),
        ids[position]? = some id
        ∧ session.Advances narrow position ids after names
        ∧ ∀ other ∈ rules, ∀ name ∈ ids.take position,
            other.plan session name = none → other.plan after name = none

namespace Session.Advances

variable {after : Session} {names : List NodeId} {position : Nat}

theorem body_eq (advances : session.Advances narrow position ids after names) {place : Nat}
    (before : place < position)
    : after.graph.body[place]? = session.graph.body[place]? := by
  rw [← List.getElem?_take_of_lt before, advances.body, List.getElem?_take_of_lt before]

/-- The node of a name in front of a place is the same behind edits at the place. -/
theorem node?_eq (advances : session.Advances narrow position ids after names)
    (start : session.Holds narrow ids) (member : id ∈ ids.take position)
    : after.node? id = session.node? id := by
  obtain ⟨place, listed⟩ := List.mem_iff_getElem?.mp member
  have before : place < position := by
    have inside := (List.getElem?_eq_some_iff.mp listed).1
    rw [List.length_take] at inside
    omega
  have listed' := listed
  rw [← advances.names, List.getElem?_take_of_lt before] at listed'
  rw [List.getElem?_take_of_lt before] at listed
  rw [Session.node?, Session.node?, start.described.position?_eq_some_iff.mpr listed,
    advances.holds.described.position?_eq_some_iff.mpr listed', Option.bind_some, Option.bind_some,
    advances.body_eq before]

end Session.Advances

/-- Once a steady set of rules finds nothing to rewrite any more, it is settled. By induction on the
budget; the nodes up to some place have been declined.
-/
theorem toFixedPoint_settles (steady : rules.Steady narrow) {budget place : Nat}
    {done : List Rewrite} (holds : session.Holds narrow ids)
    (sure : refusals.Sure rules session (ids.take place))
    (declined : ∀ id ∈ ids.take place, rules.Declines session id)
    (fine : (toFixedPoint rules budget session refusals done).error = none)
    (whole : (toFixedPoint rules budget session refusals done).capped = false)
    : ∃ after names,
        (toFixedPoint rules budget session refusals done).session = after
        ∧ after.Holds narrow names
        ∧ rules.Settled after := by
  induction budget generalizing session ids refusals place done with
  | zero =>
      refine ⟨session, ids, rfl, holds, fun id member => ?_⟩
      have empty : session.index.ordered.isEmpty = true := by simpa [toFixedPoint] using whole
      rw [List.isEmpty_iff.mp empty] at member
      exact absurd member List.not_mem_nil
  | succ budget ih =>
      have versioned : session.Versioned := Session.versioned holds.described
      have ordered := holds.described.ordered_eq
      rw [toFixedPoint] at fine whole ⊢
      cases offered : offerFirst rules session refusals session.index.ordered with
      | mk noted what =>
          rw [offered] at fine whole
          cases what with
          | declined =>
              exact ⟨session, ids, rfl, holds, (offerFirst_eq_declined_iff rules versioned
                sure.honest _).mp (congrArg Prod.snd offered)⟩
          | failed error next => cases fine
          | rewrote rewrite next =>
              obtain ⟨earlier, id, later, rule, plan, split, all, taken, sure, member, planned, made⟩ :=
                offerFirst_eq_rewrote versioned sure offered
              rw [ordered] at split
              subst split
              obtain ⟨position, names, listed, advances, stays⟩ :=
                steady rule member holds planned made
              have here : (earlier ++ id :: later)[earlier.length]? = some id := by simp
              obtain rfl : position = earlier.length :=
                (List.getElem?_inj (List.getElem?_eq_some_iff.mp listed).1
                  holds.described.idsDistinct).mp (listed.trans here.symm)
              have front : (earlier ++ id :: later).take earlier.length = earlier := List.take_left
              rw [front] at stays
              -- The node was not declined, so it stands behind those that were declined before.
              have behind : place ≤ earlier.length := by
                by_contra before
                refine taken (declined id (List.mem_iff_getElem?.mpr ⟨earlier.length, ?_⟩))
                rw [List.getElem?_take_of_lt (Nat.lt_of_not_le before), here]
              have within : (earlier ++ id :: later).take place ⊆ earlier := by
                have shorter : (earlier ++ id :: later).take place
                    ⊆ (earlier ++ id :: later).take earlier.length :=
                  (List.take_prefix_take_left behind).subset
                rwa [front] at shorter
              have names' : names.take earlier.length = earlier := advances.names.trans front
              refine @ih next names noted earlier.length _ advances.holds ?_ ?_ fine whole
              · rw [names']
                intro slot name version noted
                obtain ⟨listed, refused⟩ := sure slot name version noted
                have listed := (List.mem_append.mp listed).elim (within ·) fun here => here
                exact ⟨listed, fun other there => stays other (List.mem_of_getElem? there) name listed
                  (refused other there)⟩
              · rw [names']
                intro name listed node known other there tracked
                rw [advances.node?_eq holds (front.symm ▸ listed)] at known
                exact stays other there name listed (all name listed node known other there tracked)

end Dataflow

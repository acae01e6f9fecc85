import EventCalculus.Proofs.RulebookGrowth
import Mathlib.Data.List.Basic

/-!
# Registered rules

What a rule set shows after any calls.  Both of its indices show the rules that were registered and
not dropped since: no two are the same, and those of a verb are in the order in which they were
added.
-/

namespace EventCalculus

/-- A call that changes a rule set. -/
inductive RuleCall where
  | add (r : Rule)
  | discardLearned

namespace RuleCall

/-- The rule that a call adds, if it adds one. -/
def rule? : RuleCall -> Option Rule
  | .add r => some r
  | .discardLearned => none

/-- The list of the registered rules after a call.  A rule comes last, unless the same one is there
from whatever source. -/
def register (rules : List Rule) : RuleCall -> List Rule
  | .add r => if rules.any fun other => other.same r then rules else rules ++ [r]
  | .discardLearned => rules.filter fun r => r.source = .builtin

/-- The rules that calls leave registered, in the order in which they were added. -/
def registered (calls : List RuleCall) : List Rule :=
  calls.foldl register []

/-- Registered rules were added, in this order. -/
theorem registered_sublist (calls : List RuleCall) :
    (registered calls).Sublist (calls.filterMap rule?) := by
  induction calls using List.reverseRecOn with
  | nil => exact List.Sublist.refl _
  | append_singleton calls call ih =>
      rw [registered, List.foldl_append, List.filterMap_append]
      cases call with
      | add r =>
          show List.Sublist (if _ then _ else _) _
          split
          · exact ih.trans (List.sublist_append_left _ _)
          · exact ih.append (List.Sublist.refl [r])
      | discardLearned => exact (List.filter_sublist.trans ih).trans (List.sublist_append_left _ _)

end RuleCall

namespace RuleSet

/-- The set after a call. -/
def perform (s : RuleSet) : RuleCall -> RuleSet
  | .add r => (s.add r).2
  | .discardLearned => s.discardLearned.2

/-- The set that calls make of the empty one. -/
def performAll (calls : List RuleCall) : RuleSet :=
  calls.foldl perform empty

/-- The set shows the rules of a list, of which no two are the same, by both of its indices. -/
structure Shows (s : RuleSet) (rules : List Rule) : Prop where
  all_perm : s.all.Perm rules
  distinct : s.all.Pairwise fun a b => a.same b = false
  forVerb_eq : forall verb, s.forVerb verb = rules.filter fun r => r.verb = verb
  filter_all : forall verb, (s.all.filter fun r => r.verb = verb) = s.forVerb verb
  affecting_perm : forall effect domain arity, (s.affecting effect domain arity).Perm
    (s.all.filter fun r => (r.domain, r.fluent.arity, r.effect) = (domain, arity, effect))
  initiatingAll_perm : s.initiatingAll.Perm (s.all.filter fun r => r.effect = .initiates)

variable {s : RuleSet} {rules : List Rule}

theorem shows_empty : empty.Shows [] where
  all_perm := List.Perm.refl _
  distinct := List.Pairwise.nil
  forVerb_eq _ := rfl
  filter_all _ := rfl
  affecting_perm _ _ _ := List.Perm.refl _
  initiatingAll_perm := List.Perm.refl _

/-- The order of rules with different verbs is not shown. -/
theorem Shows.of_perm (hs : s.Shows rules) {others : List Rule} (hperm : rules.Perm others)
    (hverb : forall verb, (rules.filter fun r => r.verb = verb) =
      others.filter fun r => r.verb = verb) : s.Shows others where
  all_perm := hs.all_perm.trans hperm
  distinct := hs.distinct
  forVerb_eq verb := (hs.forVerb_eq verb).trans (hverb verb)
  filter_all := hs.filter_all
  affecting_perm := hs.affecting_perm
  initiatingAll_perm := hs.initiatingAll_perm

theorem Shows.indexed (hs : s.Shows rules) : s.Indexed := by
  constructor
  · intro r effect domain arity
    rw [(hs.affecting_perm effect domain arity).mem_iff, List.mem_filter, decide_eq_true_eq,
      Prod.mk.injEq, Prod.mk.injEq]
    tauto
  · intro r verb
    rw [← hs.filter_all verb, List.mem_filter, decide_eq_true_eq]

theorem Shows.contains_iff (hs : s.Shows rules) (r : Rule) :
    s.contains r = true ↔ exists other, other ∈ rules ∧ other.same r = true := by
  rw [RuleSet.contains_iff hs.indexed]
  simp only [hs.all_perm.mem_iff]

/-!
# Registration
-/

theorem all_push_perm (s : RuleSet) (r : Rule) : (s.push r).all.Perm (s.all ++ [r]) :=
  s.byVerb.flatMap_entries_push_perm r.verb r (f := Prod.snd) rfl fun _ => rfl

theorem initiatingAll_push_perm (s : RuleSet) (r : Rule) :
    (s.push r).initiatingAll.Perm
      (s.initiatingAll ++ [r].filter fun r => r.effect = .initiates) := by
  rw [List.filter_cons, List.filter_nil]
  by_cases heffect : r.effect = .initiates
  · rw [if_pos (decide_eq_true heffect)]
    apply s.byDomain.flatMap_entries_push_perm
    · exact if_pos heffect
    · intro list
      show (if r.effect = .initiates then _ else _) = (if r.effect = .initiates then _ else _) ++ _
      rw [if_pos heffect, if_pos heffect]
  · rw [if_neg (mt of_decide_eq_true heffect), List.append_nil]
    apply List.Perm.of_eq
    apply s.byDomain.flatMap_entries_push
    · exact if_neg heffect
    · intro list
      exact (if_neg heffect).trans (if_neg heffect).symm

theorem Shows.push (hs : s.Shows rules) {r : Rule}
    (hnew : forall other, other ∈ rules -> other.same r = false) :
    (s.push r).Shows (rules ++ [r]) := by
  have hall := s.all_push_perm r
  have hindexed := hs.indexed.push r
  constructor
  case all_perm =>
    exact hall.trans (hs.all_perm.append_right [r])
  case distinct =>
    have hsymm : forall a b : Rule, a.same b = false -> b.same a = false := by
      intro a b h
      cases hba : b.same a with
      | false => rfl
      | true =>
          rw [Rule.same_symm hba] at h
          cases h
    apply (hall.pairwise_iff fun h => hsymm _ _ h).mpr
    rw [List.pairwise_append]
    refine ⟨hs.distinct, List.pairwise_singleton _ _, ?_⟩
    intro other hother x hx
    rw [List.mem_singleton.mp hx]
    exact hnew other (hs.all_perm.mem_iff.mp hother)
  case forVerb_eq =>
    intro verb
    rw [forVerb_push, hs.forVerb_eq, List.filter_append]
  case filter_all =>
    intro verb
    apply OrderedMap.filter_flatten_values
    intro verb other hother
    exact ((hindexed.mem_forVerb_iff other verb).mp hother).right
  case affecting_perm =>
    intro effect domain arity
    refine List.Perm.trans ?_ (hall.filter _).symm
    rw [affecting_push, List.filter_append]
    exact (hs.affecting_perm effect domain arity).append_right _
  case initiatingAll_perm =>
    refine List.Perm.trans (s.initiatingAll_push_perm r) ?_
    refine List.Perm.trans ?_ (hall.filter _).symm
    rw [List.filter_append]
    exact hs.initiatingAll_perm.append_right _

theorem Shows.add (hs : s.Shows rules) (r : Rule) :
    (s.add r).2.Shows (RuleCall.register rules (.add r)) := by
  show (s.add r).2.Shows (if _ then rules else rules ++ [r])
  split
  · rename_i hany
    have hcontains := (hs.contains_iff r).mpr (List.any_eq_true.mp hany)
    rw [add_of_contains hcontains]
    exact hs
  · rename_i hnone
    have habsent : ¬ s.contains r = true := by
      intro hcontains
      exact hnone (List.any_eq_true.mpr ((hs.contains_iff r).mp hcontains))
    rw [add_of_not_contains habsent]
    apply hs.push
    intro other hother
    cases hsame : other.same r with
    | false => rfl
    | true => exact absurd ((hs.contains_iff r).mpr ⟨other, hother, hsame⟩) habsent

/-!
# Discarding
-/

/-- The set of rules of which no two are the same shows all of them. -/
theorem shows_ofList {rules : List Rule} (h : rules.Pairwise fun a b => a.same b = false) :
    (ofList rules).Shows rules := by
  induction rules using List.reverseRecOn with
  | nil => exact shows_empty
  | append_singleton rest last ih =>
      rcases List.pairwise_append.mp h with ⟨hrest, _, hlast⟩
      have hnone : ¬ rest.any (fun other => other.same last) = true := by
        intro hany
        rcases List.any_eq_true.mp hany with ⟨other, hother, hsame⟩
        rw [hlast other hother last List.mem_cons_self] at hsame
        cases hsame
      have hshows := (ih hrest).add last
      rw [RuleCall.register, if_neg hnone] at hshows
      rw [ofList, List.foldl_append]
      exact hshows

/-- Rules are registered anew in an order in which verbs may have changed places. -/
theorem Shows.discardLearned (hs : s.Shows rules) :
    s.discardLearned.2.Shows (RuleCall.register rules .discardLearned) := by
  apply (shows_ofList (hs.distinct.sublist List.filter_sublist)).of_perm
  · exact hs.all_perm.filter _
  · intro verb
    have hcomm : forall list : List Rule,
        ((list.filter fun r => r.source = .builtin).filter fun r => r.verb = verb) =
          (list.filter fun r => r.verb = verb).filter fun r => r.source = .builtin :=
      fun list => List.filter_comm _ _ list
    rw [RuleCall.register, hcomm, hcomm, hs.filter_all, hs.forVerb_eq]

theorem Shows.perform (hs : s.Shows rules) (call : RuleCall) :
    (s.perform call).Shows (RuleCall.register rules call) := by
  cases call with
  | add r => exact hs.add r
  | discardLearned => exact hs.discardLearned

theorem shows_performAll (calls : List RuleCall) :
    (performAll calls).Shows (RuleCall.registered calls) := by
  induction calls using List.reverseRecOn with
  | nil => exact shows_empty
  | append_singleton calls call ih =>
      rw [performAll, RuleCall.registered, List.foldl_append, List.foldl_append]
      exact ih.perform call

/-!
# What calls return
-/

/-- A rule is refused if and only if the set has the same one, and only then nothing changes. -/
def RefusesSame (s : RuleSet) : Prop :=
  forall r, ((s.add r).1 = false ↔ exists other, other ∈ s.all ∧ other.same r = true) ∧
    ((s.add r).2 = s ↔ exists other, other ∈ s.all ∧ other.same r = true)

/-- Built-in rules are kept in their order, and the others are dropped and counted. -/
structure DropsLearned (s : RuleSet) : Prop where
  all_perm : s.discardLearned.2.all.Perm (s.all.filter fun r => r.source = .builtin)
  forVerb_eq : forall verb, s.discardLearned.2.forVerb verb =
    (s.forVerb verb).filter fun r => r.source = .builtin
  count_eq : s.discardLearned.1 = (s.all.filter fun r => r.source = .learned).length

theorem Shows.refusesSame (hs : s.Shows rules) : s.RefusesSame := by
  intro r
  rw [← RuleSet.contains_iff hs.indexed]
  by_cases h : s.contains r = true
  · rw [add_of_contains h]
    simp [h]
  · rw [add_of_not_contains h]
    have hpush : s.push r ≠ s := by
      intro heq
      have hlength := (s.all_push_perm r).length_eq
      rw [heq, List.length_append, List.length_singleton] at hlength
      exact Nat.succ_ne_self _ hlength.symm
    simp [h, hpush]

theorem Shows.dropsLearned (hs : s.Shows rules) : s.DropsLearned := by
  constructor
  case all_perm =>
    exact hs.discardLearned.all_perm.trans (hs.all_perm.filter _).symm
  case forVerb_eq =>
    intro verb
    rw [hs.discardLearned.forVerb_eq, hs.forVerb_eq]
    exact List.filter_comm _ _ rules
  case count_eq =>
    have hsources : (s.all.filter fun r => r.source = .learned) =
        s.all.filter fun r => !decide (r.source = .builtin) :=
      List.filter_congr fun r _ => by cases r.source <;> rfl
    have hlength := List.length_eq_length_filter_add (l := s.all) fun r => r.source = .builtin
    rw [hsources]
    show s.all.length - _ = _
    omega

/-- After any calls the indices show the rules that are registered, each once and those of a verb
in the order in which they were added; the same rule is refused, and learned rules are dropped. -/
theorem shows_registered (calls : List RuleCall) :
    (performAll calls).Shows (RuleCall.registered calls) ∧
      (RuleCall.registered calls).Sublist (calls.filterMap RuleCall.rule?) ∧
      (performAll calls).RefusesSame ∧ (performAll calls).DropsLearned :=
  ⟨shows_performAll calls, RuleCall.registered_sublist calls, (shows_performAll calls).refusesSame,
    (shows_performAll calls).dropsLearned⟩

end RuleSet
end EventCalculus

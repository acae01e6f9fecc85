import EventCalculus.Proofs.EngineSteps
import EventCalculus.Proofs.Semantics
import Mathlib.Data.List.Nodup

/-!
# What one event starts

The events of a store are ground and have different identifiers, so a rule meets each of them once:
from one event it derives one initiation or none.
-/

namespace EventCalculus

namespace EventStore
variable {s : EventStore}

theorem Reachable.ids (hs : s.Reachable) : s.events.map Event.id = List.range' 1 s.size := by
  induction hs with
  | empty maxDepth => rfl
  | append _ happend ih =>
      rcases exists_push_of_append happend with ⟨description, _, hpush⟩
      cases hpush
      simp only [size, List.map_append, List.length_append, List.length_singleton,
        List.range'_1_concat] at ih ⊢
      rw [ih, Nat.add_comm 1]
      rfl
  | clear _ _ => rfl

theorem Reachable.nodup_events (hs : s.Reachable) : s.events.Nodup := by
  apply List.Nodup.of_map Event.id
  rw [hs.ids]
  exact List.nodup_range'

theorem Reachable.isGround (hs : s.Reachable) {e : Event} (he : e ∈ s.events) :
    e.description.isGround = true := by
  induction hs with
  | empty maxDepth => cases he
  | append _ happend ih =>
      rcases exists_push_of_append happend with ⟨description, hvalid, hpush⟩
      cases hpush
      cases List.mem_append.mp he with
      | inl hold => exact ih hold
      | inr hnew =>
          rw [List.mem_singleton.mp hnew]
          exact (validate_toTerm hvalid).right
  | clear _ _ => cases he

end EventStore

theorem filter_filterMap_of_nodup {α β : Type} [DecidableEq α] {f : α -> Option β} {origin : β -> α}
    (horigin : forall a b, f a = some b -> origin b = a) {as : List α} (hnodup : as.Nodup) {a : α}
    (ha : a ∈ as) : (as.filterMap f).filter (fun b => origin b = a) = (f a).toList := by
  have hothers : forall others : List α, a ∉ others ->
      (others.filterMap f).filter (fun b => origin b = a) = [] := by
    intro others hnone
    rw [List.filter_eq_nil_iff]
    intro b hb
    rcases List.mem_filterMap.mp hb with ⟨x, hx, hfound⟩
    rw [decide_eq_true_eq, horigin x b hfound]
    exact fun heq => hnone (heq ▸ hx)
  have hself : (f a).toList.filter (fun b => origin b = a) = (f a).toList := by
    rw [List.filter_eq_self]
    intro b hb
    exact decide_eq_true (horigin a b (Option.mem_toList.mp hb))
  rcases List.append_of_mem ha with ⟨before, after, rfl⟩
  rw [List.nodup_append, List.nodup_cons] at hnodup
  rcases hnodup with ⟨_, ⟨hafter, _⟩, hbefore⟩
  rw [List.filterMap_append, List.filterMap_cons, List.filter_append,
    hothers before fun hmem => hbefore a hmem a List.mem_cons_self rfl, List.nil_append]
  cases hfound : f a with
  | none => exact hothers after hafter
  | some b =>
      rw [hfound] at hself
      have hkept : origin b = a := horigin a b hfound
      simp only [List.filter_cons, hkept, decide_true, ↓reduceIte, hothers after hafter,
        Option.toList_some]

namespace Scenario
variable {s : Scenario} {e : Event} {limit : Option String}

/-- The initiations that a rule derives from an event. -/
def initiationsAt (s : Scenario) (r : Rule) (limit : Option String) (e : Event) :
    List Initiation :=
  (s.initiationsBy r limit).filter fun i => i.event = e

theorem initiationsAt_eq (hs : s.store.Reachable) (he : e ∈ s.store.events)
    (hlimit : isWithin limit e = true) (r : Rule) :
    s.initiationsAt r limit e = ((r.initiated? e).map fun fluent => ⟨fluent, e⟩).toList := by
  have horigin : forall x i, (if isWithin limit x then
      (r.initiated? x).map fun fluent => Initiation.mk fluent x else none) = some i ->
        i.event = x := by
    intro x i hfound
    split at hfound
    · rcases Option.map_eq_some_iff.mp hfound with ⟨fluent, _, rfl⟩
      rfl
    · cases hfound
  by_cases hverb : e.verb = r.verb
  · have hmem := (EventStore.mem_withVerb_iff hs.verbIndexed e r.verb).mpr ⟨he, hverb⟩
    have hnodup : (s.store.withVerb r.verb).Nodup := by
      rw [hs.verbIndexed r.verb]
      exact hs.nodup_events.filter _
    rw [initiationsAt, initiationsBy, filter_filterMap_of_nodup horigin hnodup hmem, if_pos hlimit]
  · -- The evaluator does not look at events of other verbs, and the rule would not match them.
    have hnone : r.initiated? e = none := by
      rw [Option.eq_none_iff_forall_ne_some]
      intro fluent hfluent
      rcases (r.initiated?_eq_some_iff e fluent).mp hfluent with ⟨⟨b, hmatch, _⟩, _⟩
      exact hverb (Rule.verb_eq_of_matchCompound? hmatch)
    rw [hnone, Option.map_none, Option.toList_none, initiationsAt, List.filter_eq_nil_iff]
    intro i hi heq
    rcases List.mem_filterMap.mp hi with ⟨x, hx, hfound⟩
    rw [decide_eq_true_eq, horigin x i hfound] at heq
    exact hverb (heq ▸ ((EventStore.mem_withVerb_iff hs.verbIndexed x r.verb).mp hx).right)

end Scenario
end EventCalculus

import EventCalculus.Fluent.Derivation
import EventCalculus.Proofs.Outcomes
import EventCalculus.Proofs.Sameness
import EventCalculus.Rule.Compilation
import Mathlib.Data.List.TakeWhile

/-!
# Reachable scenarios

The stores and rule sets that their operations lead to.  Both keep indices beside
what they hold; the invariants say that an index shows exactly what is held, and
every operation preserves them.
-/

namespace EventCalculus

/-!
# Stores
-/

namespace EventStore

/-- A store that a sequence of operations leads to. -/
inductive Reachable : EventStore -> Prop where
  | empty (maxDepth : Int) : Reachable (empty maxDepth)
  | append {s next : EventStore} {t : Term} {timestamp : String} {e : Event} :
      Reachable s -> s.append t timestamp = .ok (e, next) -> Reachable next
  | clear {s : EventStore} : Reachable s -> Reachable s.clear

/-- The index by verb shows the events of each verb. -/
def VerbIndexed (s : EventStore) : Prop :=
  forall verb, s.withVerb verb = s.events.filter fun e => e.verb = verb

theorem verbIndexed_empty (maxDepth : Int) : (empty maxDepth).VerbIndexed := by
  intro verb
  rfl

theorem VerbIndexed.push {s : EventStore} (hs : s.VerbIndexed) (description : Compound)
    (timestamp : String) : (s.push description timestamp).2.VerbIndexed := by
  intro verb
  have hindex := hs verb
  unfold withVerb at hindex ⊢
  simp only [EventStore.push, OrderedMap.getD_push, List.filter_append, hindex]
  split
  · rename_i hverb
    simp [hverb]
  · rename_i hverb
    simp [hverb]

theorem exists_push_of_append {s next : EventStore} {t : Term} {timestamp : String} {e : Event}
    (h : s.append t timestamp = .ok (e, next)) :
    exists description, s.validate t = .ok description ∧
      s.push description timestamp = (e, next) := by
  rcases exists_of_map_eq_ok h with ⟨description, hvalid, hpush⟩
  exact ⟨description, hvalid, hpush⟩

theorem Reachable.verbIndexed {s : EventStore} (hs : s.Reachable) : s.VerbIndexed := by
  induction hs with
  | empty maxDepth =>
      exact verbIndexed_empty maxDepth
  | append _ happend ih =>
      rename_i timestamp _ _
      rcases exists_push_of_append happend with ⟨description, _, hpush⟩
      have hnext := VerbIndexed.push ih description timestamp
      rw [hpush] at hnext
      exact hnext
  | clear _ _ =>
      exact verbIndexed_empty _

theorem mem_withVerb_iff {s : EventStore} (hs : s.VerbIndexed) (e : Event) (verb : String) :
    e ∈ s.withVerb verb ↔ e ∈ s.events ∧ e.verb = verb := by
  rw [hs verb, List.mem_filter, decide_eq_true_eq]

/-- The index by time shows the identifiers that were given. -/
def TimeIndexed (s : EventStore) : Prop :=
  forall id, id ∈ s.byTime.map Prod.snd ↔ 1 ≤ id ∧ id ≤ s.size

theorem insertByTime_perm (timestamp : String) (id : Nat) (entries : List (String × Nat)) :
    (insertByTime timestamp id entries).Perm ((timestamp, id) :: entries) := by
  induction entries with
  | nil => exact List.Perm.refl _
  | cons entry rest ih =>
      unfold insertByTime
      split
      · exact List.Perm.refl _
      · exact (ih.cons entry).trans (List.Perm.swap _ _ rest)

theorem timeIndexed_empty (maxDepth : Int) : (empty maxDepth).TimeIndexed := by
  intro id
  constructor
  · intro h
    cases h
  · intro h
    exact absurd (Nat.le_trans h.left h.right) (Nat.not_succ_le_zero 0)

theorem TimeIndexed.push {s : EventStore} (hs : s.TimeIndexed) (description : Compound)
    (timestamp : String) : (s.push description timestamp).2.TimeIndexed := by
  intro id
  have hperm := (insertByTime_perm timestamp (s.size + 1) s.byTime).map Prod.snd
  have hsize : (s.push description timestamp).2.size = s.size + 1 :=
    List.length_append
  show id ∈ (insertByTime timestamp (s.size + 1) s.byTime).map Prod.snd ↔ _
  rw [hperm.mem_iff, List.map_cons, List.mem_cons, hs id, hsize]
  omega

theorem between_none (s : EventStore) :
    s.between none none = s.byTime.filterMap fun entry => s.get? entry.2 := by
  have hfrom : (s.byTime.dropWhile fun entry => !isFrom none entry) = s.byTime :=
    List.dropWhile_eq_self_iff.mpr fun _ h => by cases h
  have huntil : s.byTime.takeWhile (isUntil none) = s.byTime :=
    List.takeWhile_eq_self_iff.mpr fun _ _ => rfl
  rw [between, hfrom, huntil]

theorem get?_natCast (s : EventStore) {id : Nat} (hid : 1 ≤ id) :
    s.get? (id : Int) = s.events[id - 1]? := by
  rw [get?, if_pos (by omega)]
  congr 1
  omega

theorem TimeIndexed.mem_between_iff {s : EventStore} (hs : s.TimeIndexed) (e : Event) :
    e ∈ s.between none none ↔ e ∈ s.events := by
  rw [between_none, List.mem_filterMap, List.mem_iff_getElem?]
  constructor
  · intro h
    rcases h with ⟨entry, hentry, hfound⟩
    have hid := (hs entry.2).mp (List.mem_map_of_mem hentry)
    rw [s.get?_natCast hid.left] at hfound
    exact ⟨_, hfound⟩
  · intro h
    rcases h with ⟨i, hfound⟩
    rcases List.getElem?_eq_some_iff.mp hfound with ⟨hlt, _⟩
    rcases List.mem_map.mp ((hs (i + 1)).mpr ⟨Nat.le_add_left 1 i, hlt⟩) with ⟨entry, hentry, hid⟩
    refine ⟨entry, hentry, ?_⟩
    rw [hid, s.get?_natCast (Nat.le_add_left 1 i)]
    exact hfound

end EventStore

/-!
# Rule sets
-/

namespace RuleSet

/-- A rule set that a sequence of operations leads to. -/
inductive Reachable : RuleSet -> Prop where
  | empty : Reachable empty
  | add {s : RuleSet} (r : Rule) : Reachable s -> Reachable (s.add r).2
  | discardLearned {s : RuleSet} : Reachable s -> Reachable s.discardLearned.2

/-- The index by domain shows the rules of each domain, arity and effect, and the index by verb
those of each verb. -/
structure Indexed (s : RuleSet) : Prop where
  mem_affecting_iff : forall r effect domain arity,
    r ∈ s.affecting effect domain arity ↔
      r ∈ s.all ∧ r.effect = effect ∧ r.domain = domain ∧ r.fluent.arity = arity
  mem_forVerb_iff : forall r verb, r ∈ s.forVerb verb ↔ r ∈ s.all ∧ r.verb = verb

theorem mem_all_iff (s : RuleSet) (r : Rule) : r ∈ s.all ↔ exists verb, r ∈ s.forVerb verb :=
  OrderedMap.mem_flatten_values_iff s.byVerb r

theorem indexed_empty : empty.Indexed := by
  constructor
  · intro r effect domain arity
    simp [empty, affecting, all, OrderedMap.values, OrderedMap.empty, OrderedMap.get?, findValue?]
  · intro r verb
    simp [empty, forVerb, all, OrderedMap.values, OrderedMap.empty, OrderedMap.get?, findValue?]

/-- Registration of a rule when the set does not have the same one. -/
def push (s : RuleSet) (r : Rule) : RuleSet :=
  ⟨s.byVerb.push r.verb r, s.byDomain.push (r.domain, r.fluent.arity, r.effect) r⟩

theorem add_of_contains {s : RuleSet} {r : Rule} (h : s.contains r = true) :
    s.add r = (false, s) := by
  simp [add, h]

theorem add_of_not_contains {s : RuleSet} {r : Rule} (h : ¬ s.contains r = true) :
    s.add r = (true, s.push r) := by
  simp [add, h, push]

theorem forVerb_push (s : RuleSet) (r : Rule) (verb : String) :
    (s.push r).forVerb verb = s.forVerb verb ++ [r].filter fun r => r.verb = verb := by
  rw [List.filter_cons, List.filter_nil]
  simp only [forVerb, push, OrderedMap.getD_push]
  by_cases hkey : r.verb = verb
  · rw [if_pos hkey, if_pos (decide_eq_true hkey)]
  · rw [if_neg hkey, if_neg (mt of_decide_eq_true hkey), List.append_nil]

theorem mem_forVerb_push_iff (s : RuleSet) (r other : Rule) (verb : String) :
    other ∈ (s.push r).forVerb verb ↔
      other ∈ s.forVerb verb ∨ (r.verb = verb ∧ other = r) := by
  rw [forVerb_push, List.mem_append]
  by_cases hverb : r.verb = verb
  · simp [hverb]
  · simp [hverb]

theorem affecting_push (s : RuleSet) (r : Rule) (effect : Effect) (domain : String)
    (arity : Nat) :
    (s.push r).affecting effect domain arity = s.affecting effect domain arity ++
      [r].filter fun r => (r.domain, r.fluent.arity, r.effect) = (domain, arity, effect) := by
  rw [List.filter_cons, List.filter_nil]
  simp only [affecting, push, OrderedMap.getD_push]
  by_cases hkey : (r.domain, r.fluent.arity, r.effect) = (domain, arity, effect)
  · rw [if_pos hkey, if_pos (decide_eq_true hkey)]
  · rw [if_neg hkey, if_neg (mt of_decide_eq_true hkey), List.append_nil]

theorem mem_affecting_push_iff (s : RuleSet) (r other : Rule) (effect : Effect)
    (domain : String) (arity : Nat) :
    other ∈ (s.push r).affecting effect domain arity ↔
      other ∈ s.affecting effect domain arity ∨
        ((r.domain, r.fluent.arity, r.effect) = (domain, arity, effect) ∧ other = r) := by
  rw [affecting_push, List.mem_append, List.mem_filter, List.mem_singleton, decide_eq_true_eq]
  apply or_congr_right
  constructor
  · intro h
    rcases h with ⟨rfl, hkey⟩
    exact ⟨hkey, rfl⟩
  · intro h
    rcases h with ⟨hkey, rfl⟩
    exact ⟨rfl, hkey⟩

theorem mem_all_push_iff (s : RuleSet) (r other : Rule) :
    other ∈ (s.push r).all ↔ other ∈ s.all ∨ other = r := by
  simp only [mem_all_iff, mem_forVerb_push_iff]
  constructor
  · intro h
    rcases h with ⟨verb, hmem | ⟨_, heq⟩⟩
    · exact Or.inl ⟨verb, hmem⟩
    · exact Or.inr heq
  · intro h
    rcases h with ⟨verb, hmem⟩ | heq
    · exact ⟨verb, Or.inl hmem⟩
    · exact ⟨r.verb, Or.inr ⟨rfl, heq⟩⟩

theorem Indexed.push {s : RuleSet} (hs : s.Indexed) (r : Rule) : (s.push r).Indexed := by
  constructor
  · intro other effect domain arity
    rw [mem_affecting_push_iff, mem_all_push_iff, hs.mem_affecting_iff]
    constructor
    · intro h
      rcases h with ⟨hmem, hkey⟩ | ⟨hkey, rfl⟩
      · exact ⟨Or.inl hmem, hkey⟩
      · simp only [Prod.mk.injEq] at hkey
        exact ⟨Or.inr rfl, hkey.right.right, hkey.left, hkey.right.left⟩
    · intro h
      rcases h with ⟨hmem | rfl, heffect, hdomain, harity⟩
      · exact Or.inl ⟨hmem, heffect, hdomain, harity⟩
      · exact Or.inr ⟨by rw [heffect, hdomain, harity], rfl⟩
  · intro other verb
    rw [mem_forVerb_push_iff, mem_all_push_iff, hs.mem_forVerb_iff]
    constructor
    · intro h
      rcases h with ⟨hmem, hverb⟩ | ⟨hverb, rfl⟩
      · exact ⟨Or.inl hmem, hverb⟩
      · exact ⟨Or.inr rfl, hverb⟩
    · intro h
      rcases h with ⟨hmem | rfl, hverb⟩
      · exact Or.inl ⟨hmem, hverb⟩
      · exact Or.inr ⟨hverb, rfl⟩

theorem Indexed.add {s : RuleSet} (hs : s.Indexed) (r : Rule) : (s.add r).2.Indexed := by
  by_cases h : s.contains r = true
  · rw [add_of_contains h]
    exact hs
  · rw [add_of_not_contains h]
    exact hs.push r

theorem indexed_foldl_add (rules : List Rule) {s : RuleSet} (hs : s.Indexed) :
    (rules.foldl (fun s r => (s.add r).2) s).Indexed := by
  induction rules generalizing s with
  | nil =>
      exact hs
  | cons r rest ih =>
      exact ih (hs.add r)

theorem Reachable.indexed {s : RuleSet} (hs : s.Reachable) : s.Indexed := by
  induction hs with
  | empty =>
      exact indexed_empty
  | add r _ ih =>
      exact ih.add r
  | discardLearned _ _ =>
      exact indexed_foldl_add _ indexed_empty

end RuleSet

/-!
# Scenarios
-/

namespace Scenario

/-- A scenario whose store and rules are reachable.  Its exclusive domains may be any, since each
of them can be registered. -/
structure Reachable (s : Scenario) : Prop where
  store : s.store.Reachable
  rules : s.rules.Reachable

/-- The indices of the store and of the rules agree with what they index. -/
structure Indexed (s : Scenario) : Prop where
  store : s.store.VerbIndexed
  rules : s.rules.Indexed

theorem Reachable.indexed {s : Scenario} (hs : s.Reachable) : s.Indexed :=
  ⟨hs.store.verbIndexed, hs.rules.indexed⟩

end Scenario

/-!
# A small scenario

Somebody moves twice, and whoever moves to a place lives there and nowhere else.
-/

namespace Residence

def movedTo : Functor :=
  ⟨"moved_to", by decide +kernel⟩

def livesIn : Functor :=
  ⟨"lives_in", by decide +kernel⟩

def alice : Term :=
  .text "alice"

def paris : Term :=
  .text "paris"

def rome : Term :=
  .text "rome"

def move (place : Term) : Compound :=
  ⟨movedTo, [alice, place]⟩

def lives (place : Term) : Compound :=
  ⟨livesIn, [alice, place]⟩

/-- The places where she lives. -/
def home : Compound :=
  lives (.var recordObject)

def movingStarts : Rule :=
  ⟨⟨movedTo, recordSlots⟩, .initiates, ⟨livesIn, recordSlots⟩, true, .learned⟩

def firstMove : EventStore :=
  ((EventStore.empty EventStore.defaultMaxDepth).push (move paris) "2024-01-01").2

def secondMove : EventStore :=
  (firstMove.push (move rome) "2024-06-01").2

def scenario : Scenario :=
  ⟨secondMove, (RuleSet.empty.add movingStarts).2, ExclusiveDomains.empty.insert livesIn.text⟩

theorem reachable_scenario : scenario.Reachable := by
  have hfirst : firstMove.Reachable :=
    EventStore.Reachable.append (t := (move paris).toTerm) (.empty EventStore.defaultMaxDepth) rfl
  have hsecond : secondMove.Reachable :=
    EventStore.Reachable.append (t := (move rome).toTerm) hfirst rfl
  exact ⟨hsecond, .add movingStarts .empty⟩

end Residence
end EventCalculus

import Mathlib.Data.List.Forall2
import EventCalculus.Proofs.StoreContents

/-!
# Stores with views and cursors

A store is appended to and cleared while views of it are taken and cursors move over them, in any
order.  A view of a verb follows the stored events until the next clearing and keeps what it showed
then.
-/

namespace EventCalculus

theorem OrderedMap.contains_iff_mem_keys {κ α : Type} [DecidableEq κ] (m : OrderedMap κ α)
    (key : κ) : m.contains key = true ↔ key ∈ m.keys := by
  simp only [contains, Option.isSome_iff_exists, get?_eq_some_iff_mem, keys, List.mem_map,
    Prod.exists, exists_and_right, exists_eq_right]

namespace ObservedStore

/-!
# What views show

A view remembers how often the store had been cleared.  Its index is the present one until the next
clearing and is retired then.
-/

/-- The view was taken of the store, before or after its last clearing. -/
def HasTaken (s : ObservedStore) : EventView -> Prop
  | .nothing => True
  | .events taken _ => taken ≤ s.generation

theorem hasTaken_view (s : ObservedStore) (verb : String) : s.HasTaken (s.view verb) := by
  unfold view
  split
  · exact Nat.le_refl _
  · trivial

theorem index_generation (s : ObservedStore) : s.index s.generation = s.store.byVerb := by
  rw [index, generation, List.getElem?_eq_none (Nat.le_refl _)]
  rfl

theorem index_of_lt {s : ObservedStore} {taken : Nat} (h : taken < s.generation) :
    s.retired[taken]? = some (s.index taken) := by
  rw [index, List.getElem?_eq_getElem h]
  rfl

theorem contents_present (s : ObservedStore) (verb : String) :
    s.contents (.events s.generation verb) = s.store.withVerb verb := by
  rw [contents, index_generation]
  rfl

theorem generation_clear (s : ObservedStore) : s.clear.generation = s.generation + 1 :=
  List.length_append

theorem HasTaken.clear {s : ObservedStore} {v : EventView} (h : s.HasTaken v) :
    s.clear.HasTaken v := by
  cases v with
  | nothing => trivial
  | events taken verb =>
      show taken ≤ s.clear.generation
      rw [generation_clear]
      exact Nat.le_succ_of_le h

/-- A clearing takes nothing from a view. -/
theorem contents_clear {s : ObservedStore} {v : EventView} (h : s.HasTaken v) :
    s.clear.contents v = s.contents v := by
  cases v with
  | nothing => rfl
  | events taken verb =>
      have hretired : s.clear.retired[taken]? = some (s.index taken) := by
        rcases Nat.lt_or_eq_of_le h with hlt | rfl
        · exact (List.getElem?_append_left hlt).trans (index_of_lt hlt)
        · rw [index_generation]
          exact List.getElem?_concat_length
      have hindex : s.clear.index taken = s.index taken := by
        rw [ObservedStore.index, hretired]
        rfl
      rw [contents, hindex]
      rfl

/-- The store with one more event. -/
def pushed (s : ObservedStore) (c : Compound) (timestamp : String) : ObservedStore :=
  { s with store := (s.store.push c timestamp).2 }

/-- An event is appended, or it is rejected and nothing changes. -/
theorem perform_append_cases (s : ObservedStore) (t : Term) (timestamp : String) :
    (exists fault, s.append t timestamp = .error fault ∧
      s.perform (.append t timestamp) = s) ∨
    exists c, s.append t timestamp =
        .ok ((s.store.push c timestamp).1, s.pushed c timestamp) ∧
      s.perform (.append t timestamp) = s.pushed c timestamp := by
  rw [perform, append, EventStore.append]
  cases s.store.validate t with
  | error fault => exact Or.inl ⟨fault, rfl, rfl⟩
  | ok c => exact Or.inr ⟨c, rfl, rfl⟩

theorem withVerb_push (s : EventStore) (c : Compound) (timestamp verb : String) :
    (s.push c timestamp).2.withVerb verb =
      s.withVerb verb ++ if c.functor.text = verb then [(s.push c timestamp).1] else [] := by
  show ((s.byVerb.push c.functor.text (s.push c timestamp).1).get? verb).getD [] = _
  rw [OrderedMap.getD_push]
  split
  · rfl
  · exact (List.append_nil _).symm

/-- The present view of the verb follows, and no other one does. -/
theorem contents_pushed {s : ObservedStore} {v : EventView} (h : s.HasTaken v) (c : Compound)
    (timestamp : String) :
    (s.pushed c timestamp).contents v = s.contents v ++
      if v = .events s.generation c.functor.text then [(s.store.push c timestamp).1] else [] := by
  cases v with
  | nothing => rfl
  | events taken verb =>
      rcases Nat.lt_or_eq_of_le h with hlt | rfl
      · have hother : EventView.events taken verb ≠ .events s.generation c.functor.text :=
          fun heq => Nat.ne_of_lt hlt (EventView.events.inj heq).left
        have hretired : (s.pushed c timestamp).retired[taken]? = some (s.index taken) :=
          index_of_lt hlt
        have hindex : (s.pushed c timestamp).index taken = s.index taken := by
          rw [index, hretired]
          rfl
        rw [if_neg hother, List.append_nil, contents, hindex]
        rfl
      · have hpresent := (s.pushed c timestamp).contents_present verb
        have hverb : EventView.events s.generation verb = .events s.generation c.functor.text ↔
            c.functor.text = verb := by
          rw [EventView.events.injEq, eq_comm (a := verb)]
          exact and_iff_right rfl
        simp only [hverb, contents_present]
        exact hpresent.trans (withVerb_push s.store c timestamp verb)

theorem HasTaken.perform {s : ObservedStore} {v : EventView} (h : s.HasTaken v)
    (call : StoreCall) : (s.perform call).HasTaken v := by
  cases call with
  | append t timestamp =>
      rcases s.perform_append_cases t timestamp with ⟨_, _, hperform⟩ | ⟨c, _, hperform⟩
      · rw [hperform]
        exact h
      · rw [hperform]
        exact h
  | clear => exact h.clear

/-- One call: what a view shows is kept, and events can only come behind it. -/
theorem contents_prefix_perform {s : ObservedStore} {v : EventView} (h : s.HasTaken v)
    (call : StoreCall) : s.contents v <+: (s.perform call).contents v := by
  cases call with
  | append t timestamp =>
      rcases s.perform_append_cases t timestamp with ⟨_, _, hperform⟩ | ⟨c, _, hperform⟩
      · rw [hperform]
      · rw [hperform, contents_pushed h]
        exact List.prefix_append _ _
  | clear =>
      show s.contents v <+: s.clear.contents v
      rw [contents_clear h]

end ObservedStore

/-!
# Sessions
-/

/-- A store with the views that were taken of it and the cursors that were started, the oldest
first. -/
structure StoreSession where
  observed : ObservedStore
  views : List EventView
  cursors : List EventCursor

/-- A call of the store, a view of a verb, the start of a cursor over one of the views, or a move of
one of the cursors. -/
inductive SessionAction where
  | call (call : StoreCall)
  | view (verb : String)
  | iterate (view : Nat)
  | advance (cursor : Nat)

/-- The action moves the cursor. -/
def SessionAction.moves (cursor : Nat) : SessionAction -> Bool
  | .advance other => other == cursor
  | .call _ | .view _ | .iterate _ => false

/-- The action clears the store. -/
def SessionAction.isClearing : SessionAction -> Bool
  | .call .clear => true
  | .call (.append _ _) | .view _ | .iterate _ | .advance _ => false

namespace StoreSession

/-- A session with a store without events. -/
def start (maxDepth : Int) : StoreSession :=
  ⟨ObservedStore.empty maxDepth, [], []⟩

/-- The session after an action. -/
def step (s : StoreSession) : SessionAction -> StoreSession
  | .call call => { s with observed := s.observed.perform call }
  | .view verb => { s with views := s.views ++ [s.observed.view verb] }
  | .iterate view => { s with cursors := s.cursors ++ (s.views[view]?.map EventView.cursor).toList }
  | .advance cursor =>
      { s with cursors := s.cursors.modify cursor fun c => (s.observed.advance c).2 }

def run (s : StoreSession) (actions : List SessionAction) : StoreSession :=
  actions.foldl step s

/-- What every session keeps: cursors go over views, views were taken, and the indices show the
stored events. -/
structure WellFormed (s : StoreSession) : Prop where
  taken : forall v, v ∈ s.views -> s.observed.HasTaken v
  viewed : forall c, c ∈ s.cursors -> c.view ∈ s.views
  represents : exists facts, s.observed.store.Represents facts

theorem wellFormed_start (maxDepth : Int) : (start maxDepth).WellFormed := by
  constructor
  case taken => intro v hv; cases hv
  case viewed => intro c hc; cases hc
  case represents => exact ⟨[], EventStore.Represents.empty maxDepth⟩

variable {s : StoreSession}

theorem view_advance (s : ObservedStore) (c : EventCursor) : (s.advance c).2.view = c.view := by
  unfold ObservedStore.advance
  simp only
  split
  · rfl
  · rfl

theorem WellFormed.step (h : s.WellFormed) (action : SessionAction) :
    (s.step action).WellFormed := by
  cases action with
  | call call =>
      constructor
      case taken => exact fun v hv => (h.taken v hv).perform call
      case viewed => exact h.viewed
      case represents =>
        rcases h.represents with ⟨facts, hfacts⟩
        refine ⟨call.accept s.observed.store.maxDepth facts, ?_⟩
        rw [StoreSession.step, ObservedStore.store_perform]
        exact hfacts.perform call
  | view verb =>
      constructor
      case taken =>
        intro v hv
        rcases List.mem_append.mp hv with hold | hnew
        · exact h.taken v hold
        · rw [List.mem_singleton.mp hnew]
          exact s.observed.hasTaken_view verb
      case viewed => exact fun c hc => List.mem_append_left _ (h.viewed c hc)
      case represents => exact h.represents
  | iterate view =>
      constructor
      case taken => exact h.taken
      case viewed =>
        intro c hc
        rcases List.mem_append.mp hc with hold | hnew
        · exact h.viewed c hold
        · rcases Option.map_eq_some_iff.mp (Option.mem_toList.mp hnew) with ⟨v, hv, rfl⟩
          exact List.mem_of_getElem? hv
      case represents => exact h.represents
  | advance cursor =>
      constructor
      case taken => exact h.taken
      case viewed =>
        intro c hc
        rcases List.mem_iff_getElem?.mp hc with ⟨i, hi⟩
        rw [StoreSession.step, List.getElem?_modify] at hi
        rcases Option.map_eq_some_iff.mp hi with ⟨old, hold, hmoved⟩
        have hmem := h.viewed old (List.mem_of_getElem? hold)
        split at hmoved
        · rw [← hmoved, view_advance]
          exact hmem
        · rw [← hmoved]
          exact hmem
      case represents => exact h.represents

theorem WellFormed.run (h : s.WellFormed) (actions : List SessionAction) :
    (s.run actions).WellFormed := by
  induction actions generalizing s with
  | nil => exact h
  | cons action rest ih => exact ih (h.step action)

theorem run_append (s : StoreSession) (first second : List SessionAction) :
    s.run (first ++ second) = (s.run first).run second :=
  List.foldl_append

/-- Of all actions only the calls of the store reach it. -/
theorem observed_step (s : StoreSession) (action : SessionAction) :
    (s.step action).observed = s.observed ∨
      exists call, action = .call call ∧ (s.step action).observed = s.observed.perform call := by
  cases action with
  | call call => exact Or.inr ⟨call, rfl, rfl⟩
  | view verb => exact Or.inl rfl
  | iterate view => exact Or.inl rfl
  | advance cursor => exact Or.inl rfl

theorem contents_prefix_step {v : EventView} (h : s.observed.HasTaken v) (action : SessionAction) :
    s.observed.contents v <+: (s.step action).observed.contents v := by
  rcases s.observed_step action with hsame | ⟨call, _, hcall⟩
  · rw [hsame]
  · rw [hcall]
    exact ObservedStore.contents_prefix_perform h call

/-!
# Views over time
-/

theorem contents_step_of_retired {taken : Nat} {verb : String}
    (h : taken < s.observed.generation) (action : SessionAction) :
    taken < (s.step action).observed.generation ∧
      (s.step action).observed.contents (.events taken verb) =
        s.observed.contents (.events taken verb) := by
  have htaken : s.observed.HasTaken (.events taken verb) := Nat.le_of_lt h
  rcases s.observed_step action with hsame | ⟨call, _, hcall⟩
  · rw [hsame]
    exact ⟨h, rfl⟩
  · rw [hcall]
    cases call with
    | append t timestamp =>
        rcases s.observed.perform_append_cases t timestamp with
          ⟨_, _, hperform⟩ | ⟨c, _, hperform⟩
        · rw [hperform]
          exact ⟨h, rfl⟩
        · have hother : EventView.events taken verb ≠
              .events s.observed.generation c.functor.text :=
            fun heq => Nat.ne_of_lt h (EventView.events.inj heq).left
          rw [hperform, ObservedStore.contents_pushed htaken, if_neg hother, List.append_nil]
          exact ⟨h, rfl⟩
    | clear =>
        refine ⟨?_, ObservedStore.contents_clear htaken⟩
        show taken < s.observed.clear.generation
        rw [ObservedStore.generation_clear]
        exact Nat.lt_succ_of_lt h

theorem contents_run_of_retired {taken : Nat} {verb : String} (h : taken < s.observed.generation)
    (actions : List SessionAction) :
    (s.run actions).observed.contents (.events taken verb) =
      s.observed.contents (.events taken verb) := by
  induction actions generalizing s with
  | nil => rfl
  | cons action rest ih =>
      rcases contents_step_of_retired h action with ⟨hlater, hcontents⟩
      exact (ih hlater).trans hcontents

theorem generation_run {actions : List SessionAction}
    (h : forall a, a ∈ actions -> a.isClearing = false) :
    (s.run actions).observed.generation = s.observed.generation := by
  induction actions generalizing s with
  | nil => rfl
  | cons action rest ih =>
      have hkeeps : action.isClearing = false := h action List.mem_cons_self
      have hstep : (s.step action).observed.generation = s.observed.generation := by
        rcases s.observed_step action with hsame | ⟨call, rfl, hcall⟩
        · rw [hsame]
        · cases call with
          | clear => cases hkeeps
          | append t timestamp =>
              rcases s.observed.perform_append_cases t timestamp with
                ⟨_, _, hperform⟩ | ⟨c, _, hperform⟩
              · rw [hcall, hperform]
              · rw [hcall, hperform]
                rfl
      exact (ih fun a ha => h a (List.mem_cons_of_mem action ha)).trans hstep

/-- The events of a verb that are stored, in the order of insertion. -/
def eventsOf (s : StoreSession) (verb : String) : List Event :=
  s.observed.store.events.filter fun e => e.verb = verb

theorem WellFormed.withVerb (h : s.WellFormed) (verb : String) :
    s.observed.store.withVerb verb = s.eventsOf verb := by
  rcases h.represents with ⟨facts, hfacts⟩
  exact hfacts.verbIndexed verb

theorem WellFormed.contains_iff (h : s.WellFormed) (verb : String) :
    s.observed.store.byVerb.contains verb = true ↔ s.eventsOf verb ≠ [] := by
  rcases h.represents with ⟨facts, hfacts⟩
  rw [OrderedMap.contains_iff_mem_keys]
  show verb ∈ s.observed.store.verbs ↔ _
  rw [hfacts.verbs, List.mem_eraseDups, List.mem_map, eventsOf, hfacts.events, ne_eq,
    List.filter_eq_nil_iff]
  simp

/-- Until the next clearing the view of a verb that has events shows the stored ones. -/
theorem WellFormed.contents_view (h : s.WellFormed) {verb : String} (hverb : s.eventsOf verb ≠ [])
    {actions : List SessionAction} (hactions : forall a, a ∈ actions -> a.isClearing = false) :
    (s.run actions).observed.contents (s.observed.view verb) = (s.run actions).eventsOf verb := by
  rw [ObservedStore.view, if_pos ((h.contains_iff verb).mpr hverb), ← generation_run hactions,
    ObservedStore.contents_present, (h.run actions).withVerb]

/-- From the next clearing on it shows what was stored then. -/
theorem WellFormed.contents_view_cleared (h : s.WellFormed) {verb : String}
    (hverb : s.eventsOf verb ≠ []) {actions : List SessionAction}
    (hactions : forall a, a ∈ actions -> a.isClearing = false) (later : List SessionAction) :
    (s.run (actions ++ .call .clear :: later)).observed.contents (s.observed.view verb) =
      (s.run actions).eventsOf verb := by
  have hview : s.observed.view verb = .events (s.run actions).observed.generation verb := by
    rw [ObservedStore.view, if_pos ((h.contains_iff verb).mpr hverb), generation_run hactions]
  have hretired : (s.run actions).observed.generation <
      ((s.run actions).step (.call .clear)).observed.generation := by
    show _ < (s.run actions).observed.clear.generation
    rw [ObservedStore.generation_clear]
    exact Nat.lt_succ_self _
  rw [run_append, ← h.contents_view hverb hactions, hview]
  refine (contents_run_of_retired hretired later).trans ?_
  exact ObservedStore.contents_clear (Nat.le_refl _)

theorem WellFormed.contents_view_of_unseen (h : s.WellFormed) {verb : String}
    (hverb : s.eventsOf verb = []) (after : ObservedStore) :
    after.contents (s.observed.view verb) = [] := by
  rw [ObservedStore.view, if_neg fun hcontains => (h.contains_iff verb).mp hcontains hverb]
  rfl

end StoreSession

/-!
# Lists by reference

A verb refers to a list that an event makes longer.  A view refers to the list of its verb, or to a
list of its own if the verb has none, and a clearing drops the references of the verbs but no list.
What the views show is what stands in their lists.
-/

/-- All lists made so far, with the references of the verbs and of the views. -/
structure SharedLists where
  lists : List (List Event)
  byVerb : OrderedMap String Nat
  views : List Nat

namespace SharedLists

/-- No list yet. -/
def start : SharedLists :=
  ⟨[], OrderedMap.empty, []⟩

/-- The list that a reference stands for. -/
def read (w : SharedLists) (reference : Nat) : List Event :=
  (w.lists[reference]?).getD []

/-- Adds an event to the list of its verb, or makes a list for it. -/
def push (w : SharedLists) (e : Event) : SharedLists :=
  match w.byVerb.get? e.verb with
  | some reference => { w with lists := w.lists.modify reference fun events => events ++ [e] }
  | none =>
      { w with
        lists := w.lists ++ [[e]]
        byVerb := w.byVerb.insert e.verb w.lists.length }

/-- Drops the references of the verbs. -/
def clear (w : SharedLists) : SharedLists :=
  { w with byVerb := OrderedMap.empty }

/-- Refers a view to the list of a verb, or to a list of its own. -/
def view (w : SharedLists) (verb : String) : SharedLists :=
  match w.byVerb.get? verb with
  | some reference => { w with views := w.views ++ [reference] }
  | none => { w with lists := w.lists ++ [[]], views := w.views ++ [w.lists.length] }

/-- The lists after an action of a session. -/
def step (w : SharedLists) (s : StoreSession) : SessionAction -> SharedLists
  | .call (.append t timestamp) =>
      match s.observed.append t timestamp with
      | .ok (e, _) => w.push e
      | .error _ => w
  | .call .clear => w.clear
  | .view verb => w.view verb
  | .iterate _ | .advance _ => w

def run : SharedLists -> StoreSession -> List SessionAction -> SharedLists
  | w, _, [] => w
  | w, s, action :: rest => run (w.step s action) (s.step action) rest

/-- The view shows what stands in the list of the reference, which is the list of a verb exactly
if the view is the present one of the verb. -/
structure Shows (w : SharedLists) (s : ObservedStore) (v : EventView) (reference : Nat) :
    Prop where
  taken : s.HasTaken v
  list : w.lists[reference]? = some (s.contents v)
  present_iff : forall verb,
    w.byVerb.get? verb = some reference ↔ v = .events s.generation verb

/-- The verbs and the views refer to the lists that they should. -/
structure Backs (w : SharedLists) (s : StoreSession) : Prop where
  known : forall verb,
    w.byVerb.contains verb = true ↔ s.observed.store.byVerb.contains verb = true
  verbs : forall verb reference, w.byVerb.get? verb = some reference ->
    w.lists[reference]? = some (s.observed.store.withVerb verb)
  apart : forall verb other reference, w.byVerb.get? verb = some reference ->
    w.byVerb.get? other = some reference -> verb = other
  views : List.Forall₂ (w.Shows s.observed) s.views w.views

variable {w : SharedLists} {s : StoreSession}

theorem backs_start (maxDepth : Int) : start.Backs (.start maxDepth) := by
  constructor
  case known => exact fun verb => Iff.rfl
  case verbs => intro verb reference h; cases h
  case apart => intro verb other reference h; cases h
  case views => exact List.Forall₂.nil

theorem Backs.lt_length (h : w.Backs s) {verb : String} {reference : Nat}
    (hverb : w.byVerb.get? verb = some reference) : reference < w.lists.length :=
  (List.getElem?_eq_some_iff.mp (h.verbs verb reference hverb)).choose

/-- The list of a verb is made longer; no other verb and no view of another one refers to it. -/
theorem Backs.push_known (h : w.Backs s) (c : Compound) (timestamp : String) {reference : Nat}
    (hknown : w.byVerb.get? c.functor.text = some reference) :
    Backs { w with lists := w.lists.modify reference fun events =>
      events ++ [(s.observed.store.push c timestamp).1] }
      { s with observed := s.observed.pushed c timestamp } := by
  constructor
  case known =>
    intro verb
    have hcontains : s.observed.store.byVerb.contains c.functor.text = true := by
      rw [← h.known, OrderedMap.contains, hknown]
      rfl
    rw [h.known]
    refine Iff.trans ?_ (OrderedMap.contains_insert _ _ _ _).symm
    constructor
    · exact Or.inl
    · rintro (hold | hnew)
      · exact hold
      · rw [← hnew]
        exact hcontains
  case verbs =>
    intro verb other hother
    have hlist := h.verbs verb other hother
    refine Eq.trans ?_ (congrArg some (ObservedStore.withVerb_push _ c timestamp verb).symm)
    rw [List.getElem?_modify, hlist]
    by_cases hverb : c.functor.text = verb
    · rw [hverb, hother] at hknown
      simp [hverb, Option.some.inj hknown]
    · have hapart : reference ≠ other := by
        rintro rfl
        exact hverb (h.apart _ _ _ hknown hother)
      simp [hverb, hapart]
  case apart => exact h.apart
  case views =>
    refine h.views.imp fun v other hshows => ⟨hshows.taken, ?_, hshows.present_iff⟩
    rw [List.getElem?_modify, hshows.list, ObservedStore.contents_pushed hshows.taken]
    by_cases hsame : reference = other
    · rw [hsame] at hknown
      simp [hsame, (hshows.present_iff _).mp hknown]
    · have hother : v ≠ .events s.observed.generation c.functor.text := by
        intro hv
        rw [(hshows.present_iff _).mpr hv] at hknown
        exact hsame (Option.some.inj hknown).symm
      simp [hsame, hother]

/-- A verb without events gets a new list, to which nothing refers yet. -/
theorem Backs.push_unknown (h : w.Backs s) (c : Compound) (timestamp : String)
    (hunknown : w.byVerb.get? c.functor.text = none) :
    Backs { w with
      lists := w.lists ++ [[(s.observed.store.push c timestamp).1]]
      byVerb := w.byVerb.insert c.functor.text w.lists.length }
      { s with observed := s.observed.pushed c timestamp } := by
  have hnone : s.observed.store.withVerb c.functor.text = [] := by
    have hcontains : ¬ s.observed.store.byVerb.contains c.functor.text = true := by
      rw [← h.known, OrderedMap.contains, hunknown]
      exact Bool.false_ne_true
    rw [EventStore.withVerb, Option.not_isSome_iff_eq_none.mp hcontains]
    rfl
  constructor
  case known =>
    intro verb
    rw [OrderedMap.contains_insert, h.known]
    exact (OrderedMap.contains_insert _ _ _ _).symm
  case verbs =>
    intro verb reference hreference
    refine Eq.trans ?_ (congrArg some (ObservedStore.withVerb_push _ c timestamp verb).symm)
    rw [OrderedMap.get?_insert] at hreference
    by_cases hverb : c.functor.text = verb
    · rw [if_pos hverb] at hreference
      simp [← Option.some.inj hreference, ← hverb, hnone]
    · rw [if_neg hverb] at hreference
      rw [List.getElem?_append_left (h.lt_length hreference), h.verbs verb reference hreference]
      simp [hverb]
  case apart =>
    intro verb other reference hverb hother
    rw [OrderedMap.get?_insert] at hverb hother
    split at hverb
    · rename_i hfirst
      split at hother
      · rename_i hsecond
        exact hfirst.symm.trans hsecond
      · have hlt := h.lt_length hother
        cases hverb
        omega
    · split at hother
      · have hlt := h.lt_length hverb
        cases hother
        omega
      · exact h.apart verb other reference hverb hother
  case views =>
    refine h.views.imp fun v reference hshows => ?_
    have hlt : reference < w.lists.length := (List.getElem?_eq_some_iff.mp hshows.list).choose
    have hother : v ≠ .events s.observed.generation c.functor.text := by
      intro hv
      rw [(hshows.present_iff _).mpr hv] at hunknown
      cases hunknown
    constructor
    case taken => exact hshows.taken
    case list =>
      rw [List.getElem?_append_left hlt, hshows.list, ObservedStore.contents_pushed hshows.taken,
        if_neg hother, List.append_nil]
    case present_iff =>
      intro verb
      rw [OrderedMap.get?_insert]
      by_cases hverb : c.functor.text = verb
      · rw [if_pos hverb, ← hverb]
        refine iff_of_false ?_ hother
        intro heq
        exact Nat.ne_of_gt hlt (Option.some.inj heq)
      · rw [if_neg hverb]
        exact hshows.present_iff verb

theorem Backs.append (h : w.Backs s) (t : Term) (timestamp : String) :
    (w.step s (.call (.append t timestamp))).Backs (s.step (.call (.append t timestamp))) := by
  rcases s.observed.perform_append_cases t timestamp with
    ⟨fault, hfault, hperform⟩ | ⟨c, happend, hperform⟩
  · rw [step, hfault, StoreSession.step, hperform]
    exact h
  · rw [step, happend, StoreSession.step, hperform]
    have hverb : (s.observed.store.push c timestamp).1.verb = c.functor.text := rfl
    simp only [push, hverb]
    cases hfound : w.byVerb.get? c.functor.text with
    | some reference => exact h.push_known c timestamp hfound
    | none => exact h.push_unknown c timestamp hfound

theorem Backs.clear (h : w.Backs s) :
    w.clear.Backs { s with observed := s.observed.clear } := by
  constructor
  case known => exact fun verb => Iff.rfl
  case verbs => intro verb reference hverb; cases hverb
  case apart => intro verb other reference hverb; cases hverb
  case views =>
    refine h.views.imp fun v reference hshows => ?_
    constructor
    case taken => exact hshows.taken.clear
    case list =>
      have hcontents := ObservedStore.contents_clear hshows.taken
      exact hshows.list.trans (congrArg some hcontents.symm)
    case present_iff =>
      intro verb
      refine iff_of_false (fun hverb => by cases hverb) ?_
      rintro rfl
      have hle : s.observed.clear.generation ≤ s.observed.generation := hshows.taken
      rw [ObservedStore.generation_clear] at hle
      exact absurd hle (Nat.not_succ_le_self _)

theorem Backs.view_known (h : w.Backs s) {verb : String} {reference : Nat}
    (hfound : w.byVerb.get? verb = some reference) :
    Backs { w with views := w.views ++ [reference] }
      { s with views := s.views ++ [s.observed.view verb] } := by
  have hcontains : s.observed.store.byVerb.contains verb = true := by
    rw [← h.known, OrderedMap.contains, hfound]
    rfl
  have hview : s.observed.view verb = .events s.observed.generation verb := by
    rw [ObservedStore.view, if_pos hcontains]
  have hnew : Shows { w with views := w.views ++ [reference] } s.observed
      (s.observed.view verb) reference := by
    constructor
    case taken => exact s.observed.hasTaken_view verb
    case list =>
      rw [hview, ObservedStore.contents_present]
      exact h.verbs verb reference hfound
    case present_iff =>
      intro other
      rw [hview, EventView.events.injEq]
      constructor
      · intro hother
        exact ⟨rfl, h.apart verb other reference hfound hother⟩
      · rintro ⟨_, rfl⟩
        exact hfound
  constructor
  case known => exact h.known
  case verbs => exact h.verbs
  case apart => exact h.apart
  case views =>
    refine List.rel_append ?_ (List.Forall₂.cons hnew List.Forall₂.nil)
    exact h.views.imp fun v other hshows => ⟨hshows.taken, hshows.list, hshows.present_iff⟩

/-- The view of a verb without events gets a list of its own, which no event reaches. -/
theorem Backs.view_unknown (h : w.Backs s) {verb : String} (hfound : w.byVerb.get? verb = none) :
    Backs { w with lists := w.lists ++ [[]], views := w.views ++ [w.lists.length] }
      { s with views := s.views ++ [s.observed.view verb] } := by
  have hcontains : ¬ s.observed.store.byVerb.contains verb = true := by
    rw [← h.known, OrderedMap.contains, hfound]
    exact Bool.false_ne_true
  have hview : s.observed.view verb = .nothing := by
    rw [ObservedStore.view, if_neg hcontains]
  have hkept : forall (reference : Nat) (events : List Event),
      w.lists[reference]? = some events -> (w.lists ++ [[]])[reference]? = some events := by
    intro reference events hlist
    rw [List.getElem?_append_left (List.getElem?_eq_some_iff.mp hlist).choose, hlist]
  have hnew : Shows { w with lists := w.lists ++ [[]], views := w.views ++ [w.lists.length] }
      s.observed (s.observed.view verb) w.lists.length := by
    rw [hview]
    constructor
    case taken => trivial
    case list => exact List.getElem?_concat_length
    case present_iff =>
      intro other
      refine iff_of_false ?_ (fun heq => by cases heq)
      intro hother
      exact Nat.lt_irrefl _ (h.lt_length hother)
  constructor
  case known => exact h.known
  case verbs => exact fun other reference hother => hkept _ _ (h.verbs other reference hother)
  case apart => exact h.apart
  case views =>
    refine List.rel_append ?_ (List.Forall₂.cons hnew List.Forall₂.nil)
    exact h.views.imp fun v reference hshows =>
      ⟨hshows.taken, hkept _ _ hshows.list, hshows.present_iff⟩

theorem Backs.view (h : w.Backs s) (verb : String) :
    (w.view verb).Backs (s.step (.view verb)) := by
  rw [SharedLists.view, StoreSession.step]
  cases hfound : w.byVerb.get? verb with
  | some reference => exact h.view_known hfound
  | none => exact h.view_unknown hfound

/-- One action: the views go on showing what stands in their lists. -/
theorem Backs.step (h : w.Backs s) (action : SessionAction) :
    (w.step s action).Backs (s.step action) := by
  cases action with
  | call call =>
      cases call with
      | append t timestamp => exact h.append t timestamp
      | clear => exact h.clear
  | view verb => exact h.view verb
  | iterate view => exact ⟨h.known, h.verbs, h.apart, h.views⟩
  | advance cursor => exact ⟨h.known, h.verbs, h.apart, h.views⟩

theorem Backs.run (h : w.Backs s) (actions : List SessionAction) :
    (w.run s actions).Backs (s.run actions) := by
  induction actions generalizing w s with
  | nil => exact h
  | cons action rest ih => exact ih (h.step action)

theorem Backs.map_contents (h : w.Backs s) :
    s.views.map s.observed.contents = w.views.map w.read := by
  rw [← List.forall₂_eq_eq_eq, List.forall₂_map_left_iff, List.forall₂_map_right_iff]
  refine h.views.imp fun v reference hshows => ?_
  rw [read, hshows.list]
  rfl

end SharedLists
end EventCalculus

import EventCalculus.Proofs.Chronology
import EventCalculus.Proofs.Reachability
import EventCalculus.Proofs.SortedSearch
import EventCalculus.Store.View

/-!
# What a store holds

A store is the list of the events that it accepted since it was last cleared, numbered from one.
All that can be asked of it is read off this list, and what lies between two bounds is a part of
the stably sorted list.
-/

namespace EventCalculus

/-!
# Numbered facts
-/

/-- The facts as events with the numbers from one. -/
def numbered (facts : List (Compound × String)) : List Event :=
  facts.mapIdx fun i fact => ⟨i + 1, fact.1, fact.2⟩

theorem length_numbered (facts : List (Compound × String)) :
    (numbered facts).length = facts.length :=
  List.length_mapIdx

theorem numbered_snoc (facts : List (Compound × String)) (fact : Compound × String) :
    numbered (facts ++ [fact]) = numbered facts ++ [⟨facts.length + 1, fact.1, fact.2⟩] :=
  List.mapIdx_concat

theorem id_of_getElem?_numbered {facts : List (Compound × String)} {i : Nat} {e : Event}
    (h : (numbered facts)[i]? = some e) : e.id = i + 1 := by
  rw [numbered, List.getElem?_mapIdx] at h
  rcases Option.map_eq_some_iff.mp h with ⟨fact, _, rfl⟩
  rfl

theorem ids_numbered (facts : List (Compound × String)) :
    (numbered facts).map Event.id = List.range' 1 facts.length := by
  induction facts using List.reverseRecOn with
  | nil => rfl
  | append_singleton rest last ih =>
      rw [numbered_snoc, List.map_append, ih, List.length_append, List.length_singleton,
        List.range'_1_concat, Nat.add_comm 1]
      rfl

namespace Event

/-- The entry of an event in the index by time. -/
def entry (e : Event) : String × Nat :=
  (e.timestamp, e.id)

/-- The timestamp lies between the bounds that there are. -/
def isBetween (start stop : Option String) (e : Event) : Bool :=
  start.all (fun t => decide (t ≤ e.timestamp)) && stop.all (fun t => decide (e.timestamp ≤ t))

end Event

/-- The stable order by timestamp. -/
def byTimestamp (events : List Event) : List Event :=
  events.mergeSort fun a b => decide (a.timestamp ≤ b.timestamp)

/-- Numbered events that are sorted stably are sorted by their entries. -/
theorem entries_byTimestamp (facts : List (Compound × String)) :
    (byTimestamp (numbered facts)).map Event.entry =
      ((numbered facts).map Event.entry).mergeSort fun a b => decide (toLex a ≤ toLex b) := by
  have hid : forall p, p ∈ (numbered facts).zipIdx -> p.1.id = p.2 + 1 := by
    intro p hp
    exact id_of_getElem?_numbered (List.mem_zipIdx_iff_getElem?.mp hp)
  have hentries : (numbered facts).map Event.entry =
      (numbered facts).zipIdx.map fun p => p.1.entry := by
    conv => lhs; rw [← List.zipIdx_map_fst 0 (numbered facts)]
    exact List.map_map
  -- a stable sort compares places where the times are equal, and identifiers are the places
  rw [byTimestamp, ← List.mergeSort_zipIdx, List.map_map, hentries]
  apply List.map_mergeSort
  intro p hp q hq
  rw [Bool.eq_iff_iff, decide_eq_true_eq, Prod.Lex.toLex_le_toLex]
  simp only [List.zipIdxLE, Function.comp_apply, Event.entry, hid p hp, hid q hq]
  rcases lt_trichotomy p.1.timestamp q.1.timestamp with hlt | heq | hgt
  · simp [hlt, le_of_lt hlt, not_le.mpr hlt]
  · simp [heq]
  · simp [not_le.mpr hgt, lt_asymm hgt, hgt.ne']

/-!
# Accepted facts
-/

/-- The description that a store of some depth takes a term for. -/
def storable? (maxDepth : Int) (t : Term) : Option Compound :=
  (Compound.ofTerm? t).filter fun c => c.isGround && decide ((t.depth : Int) ≤ maxDepth)

inductive StoreCall where
  | append (t : Term) (timestamp : String)
  | clear

def StoreCall.accept (maxDepth : Int) (facts : List (Compound × String)) :
    StoreCall -> List (Compound × String)
  | .append t timestamp =>
      facts ++ ((storable? maxDepth t).map fun c => (c, timestamp)).toList
  | .clear => []

/-- The facts that calls leave: those accepted since the last clearing, in their order. -/
def accepted (maxDepth : Int) (calls : List StoreCall) : List (Compound × String) :=
  calls.foldl (StoreCall.accept maxDepth) []

namespace EventStore

/-- The store after a call; a rejected event is not in it. -/
def perform (s : EventStore) : StoreCall -> EventStore
  | .append t timestamp =>
      match s.append t timestamp with
      | .ok (_, next) => next
      | .error _ => s
  | .clear => s.clear

def performAll (s : EventStore) (calls : List StoreCall) : EventStore :=
  calls.foldl perform s

theorem toOption_validate (s : EventStore) (t : Term) :
    (s.validate t).toOption = storable? s.maxDepth t := by
  rw [validate, storable?]
  cases Compound.ofTerm? t with
  | none => rfl
  | some c =>
      rw [Option.filter_some]
      by_cases hground : c.isGround = true
      · by_cases hdepth : s.maxDepth < t.depth
        · simp [hground, hdepth, Except.toOption]
        · simp [hground, hdepth, Except.toOption, Int.not_lt.mp hdepth]
      · simp [hground, Except.toOption]

theorem append_of_storable {s : EventStore} {t : Term} {description : Compound}
    (h : storable? s.maxDepth t = some description) (timestamp : String) :
    s.append t timestamp = .ok (s.push description timestamp) := by
  rw [← toOption_validate, toOption_eq_some_iff] at h
  rw [append, h]
  rfl

theorem append_of_not_storable {s : EventStore} {t : Term} (h : storable? s.maxDepth t = none)
    (timestamp : String) : exists fault, s.append t timestamp = .error fault := by
  rw [← toOption_validate] at h
  cases hvalid : s.validate t with
  | error fault =>
      rw [append, hvalid]
      exact ⟨fault, rfl⟩
  | ok description =>
      rw [hvalid] at h
      cases h

/-- The index by time as insertions by binary search build it. -/
def searchedIndex (events : List Event) : List (String × Nat) :=
  events.foldl (fun entries e => insertBySearch e.entry entries) []

/-- The store holds the facts, and its indices show them. -/
structure Represents (s : EventStore) (facts : List (Compound × String)) : Prop where
  events : s.events = numbered facts
  verbIndexed : s.VerbIndexed
  verbs : s.verbs = ((numbered facts).map Event.verb).eraseDups
  byTime_perm : s.byTime.Perm ((numbered facts).map Event.entry)
  byTime_inOrder : InOrder s.byTime
  byTime_searched : s.byTime = searchedIndex (numbered facts)

namespace Represents

variable {s : EventStore} {facts : List (Compound × String)}

theorem empty (maxDepth : Int) : (EventStore.empty maxDepth).Represents [] :=
  ⟨rfl, verbIndexed_empty maxDepth, rfl, List.Perm.refl _, List.Pairwise.nil, rfl⟩

theorem size (h : s.Represents facts) : s.size = facts.length := by
  rw [EventStore.size, h.events, length_numbered]

theorem id_of_mem_byTime (h : s.Represents facts) {entry : String × Nat}
    (hentry : entry ∈ s.byTime) : 1 ≤ entry.2 ∧ entry.2 ≤ s.size := by
  rcases List.mem_map.mp (h.byTime_perm.mem_iff.mp hentry) with ⟨e, he, rfl⟩
  have hid : e.id ∈ (numbered facts).map Event.id := List.mem_map_of_mem he
  rw [ids_numbered, List.mem_range'_1] at hid
  rw [h.size]
  exact ⟨hid.left, by show e.id ≤ _; omega⟩

theorem id_le_succ_of_mem_byTime (h : s.Represents facts) (entry : String × Nat)
    (hentry : entry ∈ s.byTime) : entry.2 ≤ s.size + 1 :=
  Nat.le_succ_of_le (h.id_of_mem_byTime hentry).right

theorem push (h : s.Represents facts) (description : Compound) (timestamp : String) :
    (s.push description timestamp).2.Represents (facts ++ [(description, timestamp)]) := by
  have hnew : numbered (facts ++ [(description, timestamp)]) =
      numbered facts ++ [⟨s.size + 1, description, timestamp⟩] := by
    rw [numbered_snoc, h.size]
  constructor
  case events =>
    rw [hnew, ← h.events]
    rfl
  case verbIndexed => exact h.verbIndexed.push description timestamp
  case verbs =>
    have hknown : description.functor.text ∈ s.byVerb.entries.map Prod.fst ↔
        description.functor.text ∈ (numbered facts).map Event.verb := by
      show description.functor.text ∈ s.verbs ↔ _
      rw [h.verbs, List.mem_eraseDups]
    rw [hnew, List.map_append, List.map_singleton, eraseDups_snoc, ← h.verbs]
    apply (keys_insertEntry description.functor.text _ s.byVerb.entries).trans
    by_cases hmem : description.functor.text ∈ (numbered facts).map Event.verb
    · rw [if_pos (hknown.mpr hmem)]
      exact (if_pos hmem).symm
    · rw [if_neg (mt hknown.mp hmem)]
      exact (if_neg hmem).symm
  case byTime_perm =>
    rw [hnew, List.map_append]
    apply (insertByTime_perm timestamp (s.size + 1) s.byTime).trans
    exact (h.byTime_perm.cons _).trans (List.perm_append_singleton _ _).symm
  case byTime_inOrder =>
    exact h.byTime_inOrder.insertByTime timestamp h.id_le_succ_of_mem_byTime
  case byTime_searched =>
    rw [hnew, searchedIndex, List.foldl_append]
    show insertByTime timestamp (s.size + 1) s.byTime =
      insertBySearch (timestamp, s.size + 1) (searchedIndex (numbered facts))
    rw [h.byTime_inOrder.insertByTime_eq_insertBySearch timestamp h.id_le_succ_of_mem_byTime,
      h.byTime_searched]

/-- One call: the store represents what is accepted. -/
theorem perform (h : s.Represents facts) (call : StoreCall) :
    (s.perform call).Represents (call.accept s.maxDepth facts) := by
  cases call with
  | append t timestamp =>
      cases hstorable : storable? s.maxDepth t with
      | none =>
          rcases append_of_not_storable hstorable timestamp with ⟨fault, hfault⟩
          simp only [EventStore.perform, StoreCall.accept, hfault, hstorable, Option.map_none,
            Option.toList_none, List.append_nil]
          exact h
      | some description =>
          simp only [EventStore.perform, StoreCall.accept, append_of_storable hstorable timestamp,
            hstorable, Option.map_some, Option.toList_some]
          exact h.push description timestamp
  | clear => exact empty s.maxDepth

end Represents

theorem maxDepth_perform (s : EventStore) (call : StoreCall) :
    (s.perform call).maxDepth = s.maxDepth := by
  cases call with
  | append t timestamp =>
      cases hstorable : storable? s.maxDepth t with
      | none =>
          rcases append_of_not_storable hstorable timestamp with ⟨fault, hfault⟩
          rw [EventStore.perform, hfault]
      | some description =>
          rw [EventStore.perform, append_of_storable hstorable timestamp]
          rfl
  | clear => rfl

theorem maxDepth_performAll (s : EventStore) (calls : List StoreCall) :
    (s.performAll calls).maxDepth = s.maxDepth := by
  induction calls generalizing s with
  | nil => rfl
  | cons call rest ih => exact (ih (s.perform call)).trans (s.maxDepth_perform call)

/-- A run: the store represents what was accepted since it was last cleared. -/
theorem represents_performAll (maxDepth : Int) (calls : List StoreCall) :
    ((empty maxDepth).performAll calls).Represents (accepted maxDepth calls) := by
  induction calls using List.reverseRecOn with
  | nil => exact Represents.empty maxDepth
  | append_singleton rest last ih =>
      have hstep := ih.perform last
      rw [maxDepth_performAll] at hstep
      rw [performAll, accepted, List.foldl_append, List.foldl_append]
      exact hstep

/-!
# Questions to a store
-/

theorem isUntil_and_isFrom_entry (start stop : Option String) (e : Event) :
    ((fun entry => isUntil stop entry && !!isFrom start entry) ∘ Event.entry) e =
      e.isBetween start stop := by
  have hfrom : isFrom start e.entry = start.all fun t => decide (t ≤ e.timestamp) := by
    cases start with
    | none => rfl
    | some t => exact decide_eq_decide.mpr Iff.rfl
  have huntil : isUntil stop e.entry = stop.all fun t => decide (e.timestamp ≤ t) := by
    cases stop with
    | none => rfl
    | some t => exact decide_eq_decide.mpr Iff.rfl
  rw [Function.comp_apply, Bool.not_not, Bool.and_comm, hfrom, huntil]
  rfl

/-- The place of the first entry from a start, by binary search. -/
def firstPlace (s : EventStore) : Option String -> Nat
  | none => 0
  | some start => search (fun entry => isLess entry (start, 0)) s.byTime

/-- The place behind the last entry up to an end, by binary search. -/
def lastPlace (s : EventStore) : Option String -> Nat
  | none => s.byTime.length
  | some stop => search (fun entry => !isLess (stop, s.size + 1) entry) s.byTime

/-- The events between the places of the bounds. -/
def scan (s : EventStore) (start stop : Option String) : List Event :=
  ((s.byTime.take (s.lastPlace stop)).drop (s.firstPlace start)).filterMap fun entry =>
    s.events[entry.2 - 1]?

namespace Represents

variable {s : EventStore} {facts : List (Compound × String)}

theorem get? (h : s.Represents facts) (i : Int) :
    s.get? i = if 1 ≤ i then (numbered facts)[(i - 1).toNat]? else none := by
  rw [EventStore.get?, h.events]

theorem withVerb (h : s.Represents facts) (verb : String) :
    s.withVerb verb = (numbered facts).filter fun e => e.verb = verb := by
  rw [h.verbIndexed verb, h.events]

theorem byTime (h : s.Represents facts) :
    s.byTime = (byTimestamp (numbered facts)).map Event.entry := by
  rw [entries_byTimestamp]
  apply List.Perm.eq_of_pairwise _ h.byTime_inOrder
  · exact List.pairwise_mergeSort' (fun a b => toLex a ≤ toLex b) _
  · exact h.byTime_perm.trans (List.mergeSort_perm _ _).symm
  · intro a b _ _ hab hba
    exact toLex.injective (le_antisymm hab hba)

theorem get?_id (h : s.Represents facts) {e : Event} (he : e ∈ numbered facts) :
    s.get? e.id = some e := by
  rcases List.mem_iff_getElem?.mp he with ⟨i, hi⟩
  rw [h.get?, id_of_getElem?_numbered hi, if_pos (by omega), ← hi]
  congr 1
  omega

/-- What the index shows between the bounds is the part of the sorted facts between them. -/
theorem between (h : s.Represents facts) (start stop : Option String) :
    s.between start stop =
      (byTimestamp (numbered facts)).filter (Event.isBetween start stop) := by
  have hfrom := h.byTime_inOrder.failsFrom_not_isFrom start
  have huntil := h.byTime_inOrder.failsFrom_isUntil stop
  have hfound : forall e, e ∈ (byTimestamp (numbered facts)).filter (Event.isBetween start stop) ->
      s.get? e.entry.2 = some e := by
    intro e he
    exact h.get?_id ((List.mergeSort_perm _ _).mem_iff.mp (List.mem_filter.mp he).left)
  rw [EventStore.between, dropWhile_eq_filter hfrom, takeWhile_eq_filter (huntil.filter _),
    List.filter_filter, h.byTime, List.filter_map, List.filterMap_map,
    List.filter_congr fun e _ => isUntil_and_isFrom_entry start stop e]
  exact (List.filterMap_congr hfound).trans List.filterMap_some

/-- No entry has the identifier zero or a lower one. -/
theorem firstPlace (h : s.Represents facts) (start : Option String) :
    s.firstPlace start = (s.byTime.takeWhile fun entry => !isFrom start entry).length := by
  cases start with
  | none =>
      rw [List.takeWhile_eq_nil_iff.mpr fun _ hnot => by cases hnot]
      rfl
  | some t =>
      have hless := h.byTime_inOrder.failsFrom_isLess (t, 0)
      have hfrom := h.byTime_inOrder.failsFrom_not_isFrom (some t)
      rw [EventStore.firstPlace, search_eq_length_takeWhile hless, takeWhile_eq_filter hless,
        takeWhile_eq_filter hfrom]
      congr 1
      apply List.filter_congr
      intro entry _
      rw [Bool.eq_iff_iff, isLess_iff]
      simp only [isFrom, Bool.not_eq_true', decide_eq_false_iff_not, not_le, Nat.not_lt_zero,
        and_false, or_false]

/-- No entry has an identifier beyond the number of events. -/
theorem lastPlace (h : s.Represents facts) (stop : Option String) :
    s.lastPlace stop = (s.byTime.takeWhile (isUntil stop)).length := by
  cases stop with
  | none =>
      have hall : s.byTime.takeWhile (isUntil none) = s.byTime :=
        List.takeWhile_eq_self_iff.mpr fun _ _ => rfl
      rw [hall]
      rfl
  | some t =>
      have hnot := h.byTime_inOrder.failsFrom_not_isLess (t, s.size + 1)
      have huntil := h.byTime_inOrder.failsFrom_isUntil (some t)
      rw [EventStore.lastPlace, search_eq_length_takeWhile hnot, takeWhile_eq_filter hnot,
        takeWhile_eq_filter huntil]
      congr 1
      apply List.filter_congr
      intro entry hentry
      exact (isUntil_eq_not_isLess (h.id_le_succ_of_mem_byTime entry hentry)).symm

/-- The searches cut the index where the bounds do. -/
theorem scan (h : s.Represents facts) (start stop : Option String) :
    s.scan start stop = s.between start stop := by
  have hcut := drop_takeWhile (p := fun entry => !isFrom start entry)
    (h.byTime_inOrder.failsFrom_isUntil stop)
  rw [EventStore.scan, EventStore.between, h.firstPlace, h.lastPlace, take_length_takeWhile, hcut]
  apply List.filterMap_congr
  intro entry hentry
  have hmem := (List.dropWhile_sublist _).subset ((List.takeWhile_sublist _).subset hentry)
  exact (s.get?_natCast (h.id_of_mem_byTime hmem).left).symm

end Represents
end EventStore

/-!
# Stores and their views
-/

namespace ObservedStore

def perform (s : ObservedStore) : StoreCall -> ObservedStore
  | .append t timestamp =>
      match s.append t timestamp with
      | .ok (_, next) => next
      | .error _ => s
  | .clear => s.clear

def performAll (s : ObservedStore) (calls : List StoreCall) : ObservedStore :=
  calls.foldl perform s

theorem store_perform (s : ObservedStore) (call : StoreCall) :
    (s.perform call).store = s.store.perform call := by
  cases call with
  | append t timestamp =>
      rw [perform, append, EventStore.perform]
      cases s.store.append t timestamp with
      | error fault => rfl
      | ok result => rfl
  | clear => rfl

theorem store_performAll (s : ObservedStore) (calls : List StoreCall) :
    (s.performAll calls).store = s.store.performAll calls := by
  induction calls generalizing s with
  | nil => rfl
  | cons call rest ih =>
      refine (ih (s.perform call)).trans ?_
      rw [store_perform]
      rfl

theorem append_of_storable {s : ObservedStore} {t : Term} {description : Compound}
    (h : storable? s.store.maxDepth t = some description) (timestamp : String) :
    s.append t timestamp =
      .ok (⟨s.store.size + 1, description, timestamp⟩, s.perform (.append t timestamp)) := by
  have happend : s.append t timestamp = .ok ((s.store.push description timestamp).1,
      { s with store := (s.store.push description timestamp).2 }) := by
    rw [append, EventStore.append_of_storable h timestamp]
    rfl
  rw [perform, happend]
  rfl

theorem append_of_not_storable {s : ObservedStore} {t : Term}
    (h : storable? s.store.maxDepth t = none) (timestamp : String) :
    (exists fault, s.append t timestamp = .error fault) ∧
      s.perform (.append t timestamp) = s := by
  rcases EventStore.append_of_not_storable h timestamp with ⟨fault, hfault⟩
  have happend : s.append t timestamp = .error fault := by
    rw [append, hfault]
    rfl
  rw [perform, happend]
  exact ⟨⟨fault, rfl⟩, rfl⟩

theorem performAll_snoc (s : ObservedStore) (calls : List StoreCall) (call : StoreCall) :
    s.performAll (calls ++ [call]) = (s.performAll calls).perform call := by
  rw [performAll, List.foldl_append]
  rfl

theorem contents_view (s : ObservedStore) (verb : String) :
    s.contents (s.view verb) = s.store.withVerb verb := by
  rw [view, EventStore.withVerb]
  cases hfound : s.store.byVerb.get? verb with
  | none =>
      rw [OrderedMap.contains, hfound]
      rfl
  | some events =>
      have hindex : s.index s.generation = s.store.byVerb := by
        rw [index, generation, List.getElem?_eq_none (Nat.le_refl _)]
        rfl
      rw [OrderedMap.contains, hfound, Option.isSome_some, if_pos rfl, contents, hindex, hfound]

/-- A store answers every question from a list of events. -/
structure AnswersFrom (s : ObservedStore) (events : List Event) : Prop where
  ids : events.map Event.id = List.range' 1 events.length
  size : s.store.size = events.length
  all : s.store.events = events
  get?_known : forall i, i < events.length -> s.store.get? (i + 1) = events[i]?
  get?_unknown : forall i : Int, i < 1 ∨ (events.length : Int) < i -> s.store.get? i = none
  withVerb : forall verb, s.store.withVerb verb = events.filter fun e => e.verb = verb
  view : forall verb, s.contents (s.view verb) = events.filter fun e => e.verb = verb
  verbs : s.store.verbs = (events.map Event.verb).eraseDups
  between : forall start stop,
    s.store.between start stop = (byTimestamp events).filter (Event.isBetween start stop)
  scan : forall start stop, s.store.scan start stop = s.store.between start stop
  index : s.store.byTime = EventStore.searchedIndex events

theorem answersFrom_numbered {s : ObservedStore} {facts : List (Compound × String)}
    (h : s.store.Represents facts) : s.AnswersFrom (numbered facts) := by
  constructor
  case ids => rw [ids_numbered, length_numbered]
  case size => rw [h.size, length_numbered]
  case all => exact h.events
  case get?_known =>
    intro i _
    rw [h.get?, if_pos (by omega)]
    congr 1
    omega
  case get?_unknown =>
    intro i hi
    rw [h.get?]
    split
    · exact List.getElem?_eq_none (by omega)
    · rfl
  case withVerb => exact h.withVerb
  case view =>
    intro verb
    rw [contents_view, h.withVerb]
  case verbs => exact h.verbs
  case between => exact h.between
  case scan => exact h.scan
  case index => exact h.byTime_searched

/-- After any calls, a store is the list of the events that it accepted since it was last cleared.
An event is accepted exactly if its description is ground and not too deep, and takes the next
number; a rejected one leaves the store as it is. -/
theorem refines_list (maxDepth : Int) (calls : List StoreCall) :
    ((empty maxDepth).performAll calls).AnswersFrom (numbered (accepted maxDepth calls)) ∧
      forall t timestamp,
        match storable? maxDepth t with
        | some description =>
            ((empty maxDepth).performAll calls).append t timestamp =
              .ok (⟨(accepted maxDepth calls).length + 1, description, timestamp⟩,
                (empty maxDepth).performAll (calls ++ [.append t timestamp]))
        | none =>
            (exists fault, ((empty maxDepth).performAll calls).append t timestamp = .error fault) ∧
              (empty maxDepth).performAll (calls ++ [.append t timestamp]) =
                (empty maxDepth).performAll calls := by
  have hrep : ((empty maxDepth).performAll calls).store.Represents (accepted maxDepth calls) := by
    rw [store_performAll]
    exact EventStore.represents_performAll maxDepth calls
  have hdepth : ((empty maxDepth).performAll calls).store.maxDepth = maxDepth := by
    rw [store_performAll]
    exact EventStore.maxDepth_performAll _ calls
  refine ⟨answersFrom_numbered hrep, ?_⟩
  intro t timestamp
  rw [performAll_snoc]
  cases hstorable : storable? maxDepth t with
  | some description =>
      have happend := append_of_storable (hdepth.symm ▸ hstorable) timestamp
      rw [hrep.size] at happend
      exact happend
  | none => exact append_of_not_storable (hdepth.symm ▸ hstorable) timestamp

end ObservedStore
end EventCalculus

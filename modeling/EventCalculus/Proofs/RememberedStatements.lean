import EventCalculus.Memory
import EventCalculus.Proofs.FailedAssertion
import EventCalculus.Proofs.RepeatedLessons

/-!
# Remembered statements

The events of a statement are recorded one by one.  Their time and their depth are the same for all
of them, so both are refused at the first event or not at all; but by then a lesson about its verb
has been registered, and it stays.
-/

namespace EventCalculus

/-!
# Stated events
-/

namespace StatedEvent

/-- The compounds of those events that have one. -/
def compounds (events : List StatedEvent) : List Compound :=
  events.filterMap fun e => e.compound.toOption

theorem compounds_cons_of_error {e : StatedEvent} {fault : StatedEventFault}
    (h : e.compound = .error fault) (rest : List StatedEvent) :
    compounds (e :: rest) = compounds rest :=
  List.filterMap_cons_none (congrArg Except.toOption h)

theorem compounds_cons_of_ok {e : StatedEvent} {c : Compound} (h : e.compound = .ok c)
    (rest : List StatedEvent) : compounds (e :: rest) = c :: compounds rest :=
  List.filterMap_cons_some (congrArg Except.toOption h)

theorem phraseAtom?_eq_some {phrase : String} {t : Term} (h : phraseAtom? phrase = some t) :
    exists n : AtomName, t = .atom n ∧ n.text = snakeCase phrase := by
  rcases Option.map_eq_some_iff.mp h with ⟨n, hn, rfl⟩
  refine ⟨n, rfl, ?_⟩
  unfold AtomName.ofText? at hn
  split at hn
  · cases hn
    rfl
  · cases hn

/-- The arguments are the subject and perhaps an object, both of them names. -/
theorem args_compound {e : StatedEvent} {c : Compound} (h : e.compound = .ok c) :
    (exists subject, c.args = [.atom subject]) ∨
      exists subject object, c.args = [.atom subject, .atom object] := by
  unfold compound at h
  split at h
  · cases h
  · split at h
    · cases h
    · rename_i t ht
      cases h
      rcases phraseAtom?_eq_some ht with ⟨subject, rfl, _⟩
      cases hobject : e.object.bind phraseAtom? with
      | none => exact Or.inl ⟨subject, rfl⟩
      | some o =>
          rcases Option.bind_eq_some_iff.mp hobject with ⟨phrase, _, hphrase⟩
          rcases phraseAtom?_eq_some hphrase with ⟨object, rfl, _⟩
          exact Or.inr ⟨subject, object, rfl⟩

/-- Every stated event is ground and of depth two. -/
theorem validate_compound {e : StatedEvent} {c : Compound} (h : e.compound = .ok c)
    (s : EventStore) :
    s.validate c.toTerm =
      if s.maxDepth < 2 then .error (.depth s.maxDepth c.functor) else .ok c := by
  rcases c with ⟨verb, args⟩
  rcases args_compound h with ⟨subject, hargs⟩ | ⟨subject, object, hargs⟩
  · simp only at hargs
    subst hargs
    rfl
  · simp only at hargs
    subst hargs
    rfl

end StatedEvent

namespace Engine
variable {e after : Engine}

/-!
# Lessons
-/

/-- The engine after the lesson of a record, if there is one. -/
def taught (e : Engine) : Option RuleRecord -> Engine
  | none => e
  | some r => (e.learn (.record r)).2

theorem store_taught (e : Engine) (lesson : Option RuleRecord) :
    (e.taught lesson).store = e.store := by
  cases lesson with
  | none => rfl
  | some r => exact e.store_learn (.record r)

theorem taxonomy_taught (e : Engine) (lesson : Option RuleRecord) :
    (e.taught lesson).rulebook.taxonomy = e.rulebook.taxonomy := by
  cases lesson with
  | none => rfl
  | some r =>
      show (e.learn (.record r)).2.rulebook.taxonomy = e.rulebook.taxonomy
      rw [rulebook_learn, Rulebook.taxonomy_register]

theorem prepareEvent_taught (e : Engine) (lesson : Option RuleRecord) (v : Value) (m : Moment) :
    (e.taught lesson).prepareEvent v m = e.prepareEvent v m :=
  prepareEvent_eq_of_maxDepth (congrArg EventStore.maxDepth (e.store_taught lesson)) v m

theorem unlogged_taught_of_refused {lesson : Option RuleRecord}
    (h : forall r, lesson = some r -> exists cause, r.rules = .error cause) :
    (e.taught lesson).unlogged = e.unlogged := by
  cases lesson with
  | none => rfl
  | some r =>
      rcases h r rfl with ⟨cause, hcause⟩
      apply e.unlogged_learn_of_error
      show rulesOfRecord r = .error (.record cause)
      rw [rulesOfRecord, hcause]

theorem learn_record_eq_error {r : RuleRecord} {fault : Fault}
    (h : e.learn (.record r) = (.error fault, after)) :
    (exists cause, fault = .record cause) ∧ after.unlogged = e.unlogged := by
  have hafter : (e.learn (.record r)).2 = after := congrArg Prod.snd h
  rcases learn_eq_error (congrArg Prod.fst h) with ⟨hrules, hsame⟩
  rw [hafter] at hsame
  have hmade : rulesOfRecord r = .error fault := hrules
  unfold rulesOfRecord at hmade
  split at hmade
  · cases hmade
  · rename_i cause _
    cases hmade
    exact ⟨⟨cause, rfl⟩, hsame⟩

/-!
# Assertions
-/

theorem isKnownVerb_eq_error {verb : String} {arity : Nat} {fault : Fault}
    (h : e.isKnownVerb verb arity = .error fault) :
    exists cause, fault = .taxonomy cause ∧
      e.rulebook.taxonomy.classify verb arity = .error cause := by
  unfold isKnownVerb at h
  split at h
  · rcases exists_of_mapError_eq_error h with ⟨cause, hcause, hfault⟩
    rw [Rulebook.hasBuiltin] at hcause
    cases hclassify : e.rulebook.taxonomy.classify verb arity with
    | error reason =>
        rw [hclassify] at hcause
        cases hcause
        exact ⟨cause, hfault.symm, rfl⟩
    | ok rules =>
        rw [hclassify] at hcause
        cases hcause
  · cases h

/-- A term is refused for its time or as an event. -/
theorem kind_of_prepareEvent_eq_error {t : Term} {m : Moment} {fault : Fault}
    (h : e.prepareEvent (.term t) m = .error fault) : fault.kind ≠ .limit := by
  rcases exists_of_bind_eq_error h with h | ⟨v, hv, h⟩
  · cases h
  cases hv
  rcases exists_of_bind_eq_error h with h | ⟨timestamp, _, h⟩
  · rcases exists_of_mapError_eq_error h with ⟨_, _, rfl⟩
    exact FaultKind.noConfusion
  rcases exists_of_bind_eq_error h with h | ⟨given, ht, h⟩
  · cases h
  rcases exists_of_bind_eq_error h with h | ⟨c, _, h⟩
  · rcases exists_of_mapError_eq_error h with ⟨_, _, rfl⟩
    exact FaultKind.noConfusion
  · cases h

theorem denotes_term (c : Compound) : Denotes (.term c.toTerm) c := rfl

/-- What is prepared of a compound is itself, and a lesson changes nothing in that. -/
theorem assertEvent_taught_cases (e : Engine) (lesson : Option RuleRecord) (c : Compound)
    (m : Moment) :
    (exists fault, e.prepareEvent (.term c.toTerm) m = .error fault ∧
        ((e.taught lesson).assertEvent (.term c.toTerm) m).1 = .error fault ∧
        ((e.taught lesson).assertEvent (.term c.toTerm) m).2.unlogged =
          (e.taught lesson).unlogged) ∨
      exists timestamp, e.prepareEvent (.term c.toTerm) m = .ok (c, timestamp) ∧
        (e.taught lesson).assertEvent (.term c.toTerm) m =
          (e.taught lesson).storeEvent c timestamp := by
  have htaught := e.prepareEvent_taught lesson (.term c.toTerm) m
  cases hprepare : e.prepareEvent (.term c.toTerm) m with
  | error fault =>
      rw [hprepare] at htaught
      refine Or.inl ⟨fault, rfl, ?_, unlogged_assertEvent_of_error _ htaught⟩
      rw [assertEvent, htaught]
  | ok fact =>
      rcases fact with ⟨other, timestamp⟩
      have hsame : other = c := eq_of_prepareEvent (denotes_term c) hprepare
      rw [hprepare, hsame] at htaught
      exact Or.inr ⟨timestamp, by rw [hsame], assertEvent_of_ok _ htaught⟩

/-!
# Stored events
-/

/-- The compounds were stored one after the other under consecutive identifiers. -/
structure Stores (e after : Engine) (m : Moment) (cs : List Compound) (ids : List Nat) :
    Prop where
  consecutive : ids = List.range' (e.store.size + 1) cs.length
  maxDepth : after.store.maxDepth = e.store.maxDepth
  taxonomy : after.rulebook.taxonomy = e.rulebook.taxonomy
  events : exists stored, after.store.events = e.store.events ++ stored ∧
    stored.map Event.id = ids ∧ stored.map Event.description = cs ∧
    forall x, x ∈ stored -> e.prepareEvent (.term x.description.toTerm) m =
      .ok (x.description, x.timestamp)

theorem stores_nil (e : Engine) (m : Moment) : e.Stores e m [] [] := by
  constructor
  case consecutive => rfl
  case maxDepth => rfl
  case taxonomy => rfl
  case events => exact ⟨[], (List.append_nil _).symm, rfl, rfl, fun x hx => by cases hx⟩

theorem Stores.cons {c : Compound} {m : Moment} {timestamp : String} {next : Engine}
    {cs : List Compound} {ids : List Nat}
    (hprepare : e.prepareEvent (.term c.toTerm) m = .ok (c, timestamp))
    (hstore : next.store = (e.store.push c timestamp).2)
    (htaxonomy : next.rulebook.taxonomy = e.rulebook.taxonomy) (h : next.Stores after m cs ids) :
    e.Stores after m (c :: cs) ((e.store.size + 1) :: ids) := by
  have hdepth : next.store.maxDepth = e.store.maxDepth := by
    rw [hstore]
    rfl
  have hbefore : next.store.events = e.store.events ++ [⟨e.store.size + 1, c, timestamp⟩] := by
    rw [hstore]
    rfl
  have hsize : next.store.size = e.store.size + 1 := by
    rw [EventStore.size, hbefore]
    exact List.length_append
  rcases h.events with ⟨stored, hevents, hids, hdescriptions, hprepared⟩
  constructor
  case consecutive => rw [h.consecutive, hsize, List.length_cons, List.range'_succ]
  case maxDepth => exact h.maxDepth.trans hdepth
  case taxonomy => exact h.taxonomy.trans htaxonomy
  case events =>
    refine ⟨⟨e.store.size + 1, c, timestamp⟩ :: stored, ?_, ?_, ?_, ?_⟩
    · rw [hevents, hbefore, List.append_assoc]
      rfl
    · rw [List.map_cons, hids]
    · rw [List.map_cons, hdescriptions]
    · intro x hx
      rcases List.mem_cons.mp hx with rfl | hrest
      · exact hprepare
      · rw [← prepareEvent_eq_of_maxDepth hdepth]
        exact hprepared x hrest

theorem Stores.get?_of_mem {m : Moment} {cs : List Compound} {ids : List Nat}
    (h : e.Stores after m cs ids) {stored : List Event}
    (hevents : after.store.events = e.store.events ++ stored)
    (hids : stored.map Event.id = ids) {x : Event} (hx : x ∈ stored) :
    after.store.get? x.id = some x := by
  rcases List.mem_iff_getElem?.mp hx with ⟨i, hi⟩
  have hid : x.id = e.store.events.length + 1 + i := by
    have hmap : (stored.map Event.id)[i]? = some x.id := by
      rw [List.getElem?_map, hi]
      rfl
    rw [hids, h.consecutive] at hmap
    rcases List.getElem?_eq_some_iff.mp hmap with ⟨_, hnumber⟩
    rw [← hnumber, List.getElem_range', Nat.one_mul]
    rfl
  have hplace : ((x.id : Int) - 1).toNat = e.store.events.length + i := by omega
  rw [EventStore.get?, if_pos (by omega), hplace, hevents,
    List.getElem?_append_right (Nat.le_add_right _ _), Nat.add_sub_cancel_left]
  exact hi

end Engine

theorem Lesson.kind_of_ofReply_eq_error {verb : String} {reply : Reply} {fault : Fault}
    (h : ofReply verb reply = .error fault) : fault.kind = .limit := by
  unfold ofReply at h
  split at h
  · cases h
  · split at h
    · cases h
      rfl
    · cases h
    · cases h

theorem Learner.kind_of_learn_eq_error (l : Learner) {model : LanguageModel}
    {verb context : String} {fault : Fault}
    (h : (l.learn model verb context).1 = .error fault) : fault.kind = .limit := by
  unfold learn at h
  split at h
  · cases h
  · simp only at h
    split at h
    · rename_i reason hlesson
      cases h
      exact Lesson.kind_of_ofReply_eq_error hlesson
    · cases h

namespace MemoryState
variable {s after : MemoryState} {c : Compound} {context : String} {m : Moment} {fault : Fault}

/-!
# One event
-/

/-- The record that the learner gives for the verb of a compound, if it is asked for one. -/
def lessonFor (s : MemoryState) (c : Compound) (context : String) : Option RuleRecord :=
  match s.memory.autoLearn, s.memory.learner, s.engine.isKnownVerb c.functor.text c.arity with
  | true, some l, .ok false =>
      match (l.learn s.memory.model c.functor.text context).1 with
      | .ok lesson => lesson.record
      | .error _ => none
  | _, _, _ => none

theorem engine_register (s : MemoryState) (verb : String) (r : RuleRecord) :
    (s.register verb r).2.engine = (s.engine.learn (.record r)).2 := by
  unfold register
  cases s.engine.learn (.record r) with
  | mk outcome engine =>
      cases outcome with
      | ok rules => rfl
      | error fault =>
          cases fault with
          | record cause =>
              simp only
              split
              · rfl
              · rfl
          | _ => rfl

theorem register_eq_error {verb : String} {r : RuleRecord}
    (h : s.register verb r = (.error fault, after)) :
    fault.kind = .limit ∧ after.engine.unlogged = s.engine.unlogged := by
  unfold register at h
  cases hlearn : s.engine.learn (.record r) with
  | mk outcome engine =>
      rw [hlearn] at h
      cases outcome with
      | ok rules => cases (Prod.mk.inj h).left
      | error reason =>
          rcases Engine.learn_record_eq_error hlearn with ⟨⟨cause, rfl⟩, hsame⟩
          simp only at h
          split at h
          · rename_i hlimit
            cases h
            exact ⟨if_pos hlimit, hsame⟩
          · cases (Prod.mk.inj h).left

theorem engine_learnVerb (s : MemoryState) (l : Learner) (verb context : String) :
    (s.learnVerb l verb context).2.engine = s.engine.taught
      (match (l.learn s.memory.model verb context).1 with
      | .ok lesson => lesson.record
      | .error _ => none) := by
  unfold learnVerb
  rcases l.learn s.memory.model verb context with ⟨lesson, l, model⟩
  cases lesson with
  | error fault => rfl
  | ok lesson =>
      cases hrecord : lesson.record with
      | none => simp [hrecord, Engine.taught, warn]
      | some r =>
          simp only [hrecord]
          rw [engine_register]
          rfl

theorem learnVerb_eq_error {l : Learner} {verb : String}
    (h : s.learnVerb l verb context = (.error fault, after)) :
    fault.kind = .limit ∧ after.engine.unlogged = s.engine.unlogged := by
  unfold learnVerb at h
  cases hlearn : l.learn s.memory.model verb context with
  | mk lesson rest =>
      rcases rest with ⟨later, model⟩
      rw [hlearn] at h
      cases lesson with
      | error reason =>
          cases h
          exact ⟨l.kind_of_learn_eq_error (congrArg Prod.fst hlearn), rfl⟩
      | ok lesson =>
          simp only at h
          split at h
          · cases (Prod.mk.inj h).left
          · rcases register_eq_error h with ⟨hlimit, hsame⟩
            exact ⟨hlimit, hsame⟩

theorem engine_prepareVerb (s : MemoryState) (c : Compound) (context : String) :
    (s.prepareVerb c context).2.engine = s.engine.taught (s.lessonFor c context) := by
  unfold prepareVerb lessonFor
  cases s.memory.autoLearn with
  | false => rfl
  | true =>
      cases s.memory.learner with
      | none => rfl
      | some l =>
          cases s.engine.isKnownVerb c.functor.text c.arity with
          | error fault => rfl
          | ok known =>
              cases known with
              | true => rfl
              | false => exact s.engine_learnVerb l c.functor.text context

/-- A verb is not prepared only because of a numeral beyond the limit, or because the taxonomy
cannot tell whether it has rules. -/
theorem prepareVerb_eq_error (h : s.prepareVerb c context = (.error fault, after)) :
    (fault.kind = .limit ∨ s.engine.isKnownVerb c.functor.text c.arity = .error fault) ∧
      after.engine.unlogged = s.engine.unlogged := by
  unfold prepareVerb at h
  split at h
  · split at h
    · rename_i hknown
      cases h
      exact ⟨Or.inr hknown, rfl⟩
    · cases (Prod.mk.inj h).left
    · rcases learnVerb_eq_error h with ⟨hlimit, hsame⟩
      exact ⟨Or.inl hlimit, hsame⟩
  · cases (Prod.mk.inj h).left

/-- A compound is recorded by an engine that has had the lesson, unless its verb cannot be
prepared. -/
theorem recordCompound_cases (s : MemoryState) (c : Compound) (context : String) (m : Moment) :
    (exists fault, s.recordCompound c context m = (.error fault, (s.prepareVerb c context).2) ∧
        (s.prepareVerb c context).1 = .error fault) ∨
      ((s.recordCompound c context m).1 =
          ((s.engine.taught (s.lessonFor c context)).assertEvent (.term c.toTerm) m).1 ∧
        (s.recordCompound c context m).2.engine =
          ((s.engine.taught (s.lessonFor c context)).assertEvent (.term c.toTerm) m).2) := by
  rw [← engine_prepareVerb]
  unfold recordCompound
  cases s.prepareVerb c context with
  | mk outcome ready =>
      cases outcome with
      | error fault => exact Or.inl ⟨fault, rfl, rfl⟩
      | ok _ => exact Or.inr ⟨rfl, rfl⟩

theorem recordCompound_eq_ok {id : Nat} (h : s.recordCompound c context m = (.ok id, after)) :
    exists timestamp, s.engine.prepareEvent (.term c.toTerm) m = .ok (c, timestamp) ∧
      id = s.engine.store.size + 1 ∧
      after.engine.store = (s.engine.store.push c timestamp).2 ∧
      after.engine.rulebook.taxonomy = s.engine.rulebook.taxonomy := by
  rcases s.recordCompound_cases c context m with ⟨fault, hfault, _⟩ | ⟨hid, hengine⟩
  · rw [h] at hfault
    cases hfault
  · rw [h] at hid hengine
    simp only at hid hengine
    rcases s.engine.assertEvent_taught_cases (s.lessonFor c context) c m with
      ⟨fault, _, hfault, _⟩ | ⟨timestamp, hprepare, hassert⟩
    · rw [hfault] at hid
      cases hid
    · rw [hassert] at hid hengine
      refine ⟨timestamp, hprepare, ?_, ?_, ?_⟩
      · rw [Engine.id_of_storeEvent hid.symm, Engine.store_taught]
      · rw [hengine, Engine.store_storeEvent, Engine.store_taught]
      · rw [hengine, Engine.rulebook_storeEvent, Rulebook.taxonomy_compileVerb,
          Engine.taxonomy_taught]

/-- An event is not recorded because its verb cannot be prepared, because its time or its depth is
refused, or because the rules of its verb cannot be made. -/
theorem recordCompound_eq_error (h : s.recordCompound c context m = (.error fault, after)) :
    ((fault.kind = .limit ∨ s.engine.isKnownVerb c.functor.text c.arity = .error fault) ∧
        after.engine.unlogged = s.engine.unlogged) ∨
      (s.engine.prepareEvent (.term c.toTerm) m = .error fault ∧
        after.engine.unlogged = (s.engine.taught (s.lessonFor c context)).unlogged) ∨
      exists timestamp cause, fault = .taxonomy cause ∧
        s.engine.rulebook.taxonomy.classify c.functor.text c.arity = .error cause ∧
        after.engine = (s.engine.taught (s.lessonFor c context)).withoutRules c timestamp := by
  rcases s.recordCompound_cases c context m with
    ⟨reason, hrecord, hreason⟩ | ⟨hfault, hengine⟩
  · rw [h] at hrecord
    cases hrecord
    exact Or.inl (prepareVerb_eq_error (Prod.ext hreason rfl))
  · rw [h] at hfault hengine
    simp only at hfault hengine
    rcases s.engine.assertEvent_taught_cases (s.lessonFor c context) c m with
      ⟨reason, hprepare, hreason, hsame⟩ | ⟨timestamp, _, hassert⟩
    · rw [hreason] at hfault
      cases hfault
      exact Or.inr (Or.inl ⟨hprepare, by rw [hengine, hsame]⟩)
    · rw [hassert] at hfault
      rw [hassert] at hengine
      rcases Engine.storeEvent_eq_error (Prod.ext hfault.symm hengine.symm) with
        ⟨cause, hcause, _, hclassify, hafter⟩
      rw [Engine.taxonomy_taught] at hclassify
      exact Or.inr (Or.inr ⟨timestamp, cause, hcause, hclassify, hafter⟩)

/-!
# All events of a statement
-/

/-- The time and the depth are refused for all events or for none. -/
theorem prepareEvent_compound {e e' : StatedEvent} {c' : Compound} (h : e.compound = .ok c)
    (h' : e'.compound = .ok c') {engine : Engine} {timestamp : String}
    (hc : engine.prepareEvent (.term c.toTerm) m = .ok (c, timestamp)) :
    engine.prepareEvent (.term c'.toTerm) m = .ok (c', timestamp) := by
  rcases Engine.exists_of_prepareEvent_eq_ok hc with ⟨htime, t, ht⟩
  have hvalid := (EventStore.validate_toTerm ht).left
  rw [StatedEvent.validate_compound h] at hvalid
  have hdepth : ¬ engine.store.maxDepth < 2 := by
    intro hlt
    rw [if_pos hlt] at hvalid
    cases hvalid
  have hother := StatedEvent.validate_compound h' engine.store
  rw [if_neg hdepth] at hother
  rw [Engine.prepareEvent, htime]
  show (do
    let compound ← (engine.store.validate c'.toTerm).mapError Fault.event
    return (compound, timestamp)) = _
  rw [hother]
  rfl

section
variable {e : StatedEvent} {next : MemoryState}

theorem recordEvents_cons_of_unusable {reason : StatedEventFault} (h : e.compound = .error reason)
    (s : MemoryState) (context : String) (m : Moment) (rest : List StatedEvent) :
    s.recordEvents context m (e :: rest) =
      (s.warn [.unusableEvent e reason]).recordEvents context m rest := by
  rw [recordEvents]
  simp only [h]

theorem recordEvents_cons_of_fault (h : e.compound = .ok c)
    (hrecord : s.recordCompound c context m = (.error fault, next)) (rest : List StatedEvent) :
    s.recordEvents context m (e :: rest) = (.error fault, next) := by
  rw [recordEvents]
  simp only [h, hrecord]

theorem recordEvents_cons_of_recorded {id : Nat} (h : e.compound = .ok c)
    (hrecord : s.recordCompound c context m = (.ok id, next)) (rest : List StatedEvent) :
    s.recordEvents context m (e :: rest) =
      ((next.recordEvents context m rest).1.map (id :: ·),
        (next.recordEvents context m rest).2) := by
  rw [recordEvents]
  simp only [h, hrecord]

end

/-- Without a usable event there are only warnings. -/
theorem recordEvents_of_no_compounds {events : List StatedEvent}
    (h : StatedEvent.compounds events = []) (s : MemoryState) (context : String) (m : Moment) :
    exists warnings, s.recordEvents context m events = (.ok [], s.warn warnings) := by
  induction events generalizing s with
  | nil => exact ⟨[], by simp [recordEvents, warn]⟩
  | cons e rest ih =>
      cases hcompound : e.compound with
      | error reason =>
          rw [StatedEvent.compounds_cons_of_error hcompound] at h
          rcases ih h (s.warn [.unusableEvent e reason]) with ⟨warnings, hrest⟩
          rw [recordEvents_cons_of_unusable hcompound, hrest]
          exact ⟨.unusableEvent e reason :: warnings, by simp [warn]⟩
      | ok c =>
          rw [StatedEvent.compounds_cons_of_ok hcompound] at h
          cases h

theorem recordEvents_eq_ok {events : List StatedEvent} {ids : List Nat}
    (h : s.recordEvents context m events = (.ok ids, after)) :
    s.engine.Stores after.engine m (StatedEvent.compounds events) ids := by
  induction events generalizing s ids with
  | nil =>
      cases h
      exact Engine.stores_nil _ m
  | cons e rest ih =>
      cases hcompound : e.compound with
      | error reason =>
          rw [recordEvents_cons_of_unusable hcompound] at h
          rw [StatedEvent.compounds_cons_of_error hcompound]
          exact ih (s := s.warn [.unusableEvent e reason]) h
      | ok c =>
          rw [StatedEvent.compounds_cons_of_ok hcompound]
          cases hrecord : s.recordCompound c context m with
          | mk outcome next =>
              cases outcome with
              | error reason =>
                  rw [recordEvents_cons_of_fault hcompound hrecord] at h
                  cases (Prod.mk.inj h).left
              | ok id =>
                  rw [recordEvents_cons_of_recorded hcompound hrecord, Prod.mk.injEq] at h
                  rcases exists_of_map_eq_ok h.left with ⟨later, hlater, rfl⟩
                  rcases recordCompound_eq_ok hrecord with
                    ⟨timestamp, hprepare, rfl, hstore, htaxonomy⟩
                  exact Engine.Stores.cons hprepare hstore htaxonomy
                    (ih (Prod.ext hlater h.right))

/-- A run that fails stops at one event, after all events before it have been recorded. -/
theorem recordEvents_eq_error {events : List StatedEvent}
    (h : s.recordEvents context m events = (.error fault, after)) :
    exists done e rest ids before c, events = done ++ e :: rest ∧ e.compound = .ok c ∧
      s.recordEvents context m done = (.ok ids, before) ∧
      before.recordCompound c context m = (.error fault, after) := by
  induction events generalizing s with
  | nil => cases (Prod.mk.inj h).left
  | cons e rest ih =>
      cases hcompound : e.compound with
      | error reason =>
          rw [recordEvents_cons_of_unusable hcompound] at h
          rcases ih h with ⟨done, stop, later, ids, before, c, rfl, hc, hdone, hstop⟩
          refine ⟨e :: done, stop, later, ids, before, c, rfl, hc, ?_, hstop⟩
          rw [recordEvents_cons_of_unusable hcompound]
          exact hdone
      | ok c =>
          cases hrecord : s.recordCompound c context m with
          | mk outcome next =>
              cases outcome with
              | error reason =>
                  rw [recordEvents_cons_of_fault hcompound hrecord] at h
                  cases h
                  exact ⟨[], e, rest, [], s, c, rfl, hcompound, rfl, hrecord⟩
              | ok id =>
                  rw [recordEvents_cons_of_recorded hcompound hrecord, Prod.mk.injEq] at h
                  cases hrest : next.recordEvents context m rest with
                  | mk result final =>
                      rw [hrest] at h
                      cases result with
                      | ok ids => cases h.left
                      | error reason =>
                          cases h.left
                          rcases ih (hrest.trans (Prod.ext rfl h.right)) with
                            ⟨done, stop, later, ids, before, c', rfl, hc, hdone, hstop⟩
                          refine ⟨e :: done, stop, later, id :: ids, before, c', rfl, hc, ?_,
                            hstop⟩
                          rw [recordEvents_cons_of_recorded hcompound hrecord, hdone]
                          rfl

/-!
# Refused and interrupted runs
-/

/-- A run that is neither interrupted nor met by a taxonomy that fails is refused at the first
usable event. -/
theorem recordEvents_refused {events : List StatedEvent}
    (h : s.recordEvents context m events = (.error fault, after)) (hlimit : fault.kind ≠ .limit)
    (htaxonomy : forall cause, fault ≠ .taxonomy cause) :
    exists c rest, StatedEvent.compounds events = c :: rest ∧
      s.engine.prepareEvent (.term c.toTerm) m = .error fault ∧
      after.engine.unlogged = (s.engine.taught (s.lessonFor c context)).unlogged := by
  rcases recordEvents_eq_error h with ⟨done, e, rest, ids, before, c, rfl, hc, hdone, hstop⟩
  rcases recordCompound_eq_error hstop with
    ⟨hlimit' | hknown, _⟩ | ⟨hprepare, hafter⟩ | ⟨_, cause, hcause, _⟩
  · exact absurd hlimit' hlimit
  · rcases Engine.isKnownVerb_eq_error hknown with ⟨cause, hcause, _⟩
    exact absurd hcause (htaxonomy cause)
  · have hcompounds : StatedEvent.compounds (done ++ e :: rest) =
        StatedEvent.compounds done ++ c :: StatedEvent.compounds rest := by
      rw [← StatedEvent.compounds_cons_of_ok hc]
      exact List.filterMap_append
    have hstores := recordEvents_eq_ok hdone
    rw [Engine.prepareEvent_eq_of_maxDepth hstores.maxDepth] at hprepare
    cases hfirst : StatedEvent.compounds done with
    | nil =>
        rcases recordEvents_of_no_compounds hfirst s context m with ⟨warnings, hnothing⟩
        rw [hnothing] at hdone
        cases hdone
        rw [hcompounds, hfirst]
        exact ⟨c, StatedEvent.compounds rest, rfl, hprepare, hafter⟩
    | cons first others =>
        -- the first event has been stored, and what it passed cannot refuse this one
        rcases hstores.events with ⟨stored, _, _, hdescriptions, hprepared⟩
        rw [hfirst] at hdescriptions
        rcases List.map_eq_cons_iff.mp hdescriptions with ⟨x, _, rfl, hx, _⟩
        have hmem : first ∈ StatedEvent.compounds done := hfirst ▸ List.mem_cons_self
        rcases List.mem_filterMap.mp hmem with ⟨e', _, he'⟩
        have hstored := hprepared x List.mem_cons_self
        rw [hx] at hstored
        rw [prepareEvent_compound (toOption_eq_some_iff.mp he') hc hstored] at hprepare
        cases hprepare
  · exact absurd hcause (htaxonomy cause)

theorem recordEvents_interrupted {events : List StatedEvent}
    (h : s.recordEvents context m events = (.error fault, after))
    (hfault : fault.kind = .limit ∨ exists cause, fault = .taxonomy cause) :
    exists done e rest ids before, events = done ++ e :: rest ∧
      s.recordEvents context m done = (.ok ids, before) ∧
      (after.engine.unlogged = before.engine.unlogged ∨
        exists c timestamp cause, e.compound = .ok c ∧ fault = .taxonomy cause ∧
          s.engine.rulebook.taxonomy.classify c.functor.text c.arity = .error cause ∧
          after.engine =
            (before.engine.taught (before.lessonFor c context)).withoutRules c timestamp) := by
  rcases recordEvents_eq_error h with ⟨done, e, rest, ids, before, c, rfl, hc, hdone, hstop⟩
  refine ⟨done, e, rest, ids, before, rfl, hdone, ?_⟩
  rcases recordCompound_eq_error hstop with
    ⟨_, hsame⟩ | ⟨hprepare, _⟩ | ⟨timestamp, cause, hcause, hclassify, hafter⟩
  · exact Or.inl hsame
  · rcases hfault with hlimit | ⟨cause, hcause⟩
    · exact absurd hlimit (Engine.kind_of_prepareEvent_eq_error hprepare)
    · rw [hcause] at hprepare
      exact absurd hprepare (Engine.prepareEvent_ne_taxonomy _ _ _ cause)
  · rw [(recordEvents_eq_ok hdone).taxonomy] at hclassify
    exact Or.inr ⟨c, timestamp, cause, hc, hcause, hclassify, hafter⟩

theorem recordEvents_ne_taxonomy
    (hsound : forall p, p ∈ s.engine.rulebook.taxonomy -> p.IsSound) {events : List StatedEvent}
    (h : s.recordEvents context m events = (.error fault, after)) (cause : TaxonomyFault) :
    fault ≠ .taxonomy cause := by
  rintro rfl
  rcases recordEvents_eq_error h with ⟨done, e, rest, ids, before, c, rfl, hc, hdone, hstop⟩
  have hkept := (recordEvents_eq_ok hdone).taxonomy
  rcases Taxonomy.exists_classify_eq_ok hsound c.functor.valid c.arity with ⟨rules, hrules⟩
  rcases recordCompound_eq_error hstop with
    ⟨hlimit | hknown, _⟩ | ⟨hprepare, _⟩ | ⟨_, reason, _, hclassify, _⟩
  · cases cause with
    | name fault => cases hlimit
    | noCompletion verb => cases hlimit
  · rcases Engine.isKnownVerb_eq_error hknown with ⟨reason, _, hclassify⟩
    rw [hkept, hrules] at hclassify
    cases hclassify
  · exact Engine.prepareEvent_ne_taxonomy _ _ _ cause hprepare
  · rw [hkept, hrules] at hclassify
    cases hclassify

/-!
# What stays
-/

/-- What recording events does to the engine of a memory. -/
structure RecordsOrLeaves (s : MemoryState) (context : String) (m : Moment)
    (events : List StatedEvent) : Prop where
  /-- A success stores the usable events in order, at the time of the moment. -/
  records : forall ids after, s.recordEvents context m events = (.ok ids, after) ->
    ids = List.range' (s.engine.store.size + 1) (StatedEvent.compounds events).length ∧
      exists stored, after.engine.store.events = s.engine.store.events ++ stored ∧
        stored.map Event.id = ids ∧
        stored.map Event.description = StatedEvent.compounds events ∧
        forall x, x ∈ stored ->
          timestampOf m = .ok x.timestamp ∧ after.engine.store.get? x.id = some x
  /-- The time or the depth is refused at the first usable event, after the lesson for its verb. -/
  refuses : forall fault after, s.recordEvents context m events = (.error fault, after) ->
    fault.kind ≠ .limit -> (forall cause, fault ≠ .taxonomy cause) ->
    exists c rest, StatedEvent.compounds events = c :: rest ∧
      s.engine.prepareEvent (.term c.toTerm) m = .error fault ∧
      after.engine.unlogged = (s.engine.taught (s.lessonFor c context)).unlogged
  /-- So nothing but the log changes, unless this lesson has rules to register. -/
  leaves : forall fault after, s.recordEvents context m events = (.error fault, after) ->
    fault.kind ≠ .limit -> (forall cause, fault ≠ .taxonomy cause) ->
    (forall c r, (StatedEvent.compounds events).head? = some c ->
      s.lessonFor c context = some r -> exists cause, r.rules = .error cause) ->
    after.engine.unlogged = s.engine.unlogged
  /-- A numeral beyond the limit in a reply or a record, or a verb for which the taxonomy fails,
  stops the run where it is met; what has been recorded before stays. -/
  interrupts : forall fault after, s.recordEvents context m events = (.error fault, after) ->
    (fault.kind = .limit ∨ exists cause, fault = .taxonomy cause) ->
    exists done e rest ids before, events = done ++ e :: rest ∧
      s.recordEvents context m done = (.ok ids, before) ∧
      (after.engine.unlogged = before.engine.unlogged ∨
        exists c timestamp cause, e.compound = .ok c ∧ fault = .taxonomy cause ∧
          s.engine.rulebook.taxonomy.classify c.functor.text c.arity = .error cause ∧
          after.engine =
            (before.engine.taught (before.lessonFor c context)).withoutRules c timestamp)
  /-- A sound taxonomy does not fail. -/
  sound : (forall p, p ∈ s.engine.rulebook.taxonomy -> p.IsSound) ->
    forall fault after, s.recordEvents context m events = (.error fault, after) ->
    forall cause, fault ≠ .taxonomy cause

/-- Recording events stores all of them or is refused at the first one; of a refused statement the
lesson for the first verb stays, and nothing else.  A statement is read before anything is
recorded. -/
theorem remember_records_or_leaves (s : MemoryState) :
    (forall context m events, s.RecordsOrLeaves context m events) ∧
      forall statement m,
        (forall fault, (readStatement s.memory.model statement).1 = .error fault ->
          (s.remember statement m).1 = .error fault ∧
            (s.remember statement m).2.engine = s.engine) ∧
        forall reading, (readStatement s.memory.model statement).1 = .ok reading ->
          exists asked : MemoryState, asked.engine = s.engine ∧
            asked.memory.learner = s.memory.learner ∧
            asked.memory.autoLearn = s.memory.autoLearn ∧
            s.remember statement m = asked.recordEvents statement
              (m.getD (.text s.engine.currentDate)) reading.events := by
  constructor
  · intro context m events
    constructor
    case records =>
      intro ids after h
      have hstores := recordEvents_eq_ok h
      rcases hstores.events with ⟨stored, hevents, hids, hdescriptions, hprepared⟩
      refine ⟨hstores.consecutive, stored, hevents, hids, hdescriptions, ?_⟩
      intro x hx
      refine ⟨(Engine.exists_of_prepareEvent_eq_ok (hprepared x hx)).left, ?_⟩
      exact hstores.get?_of_mem hevents hids hx
    case refuses => exact fun fault after h => recordEvents_refused h
    case leaves =>
      intro fault after h hlimit htaxonomy hlesson
      rcases recordEvents_refused h hlimit htaxonomy with ⟨c, rest, hcompounds, _, hafter⟩
      rw [hafter]
      refine Engine.unlogged_taught_of_refused ?_
      intro r hr
      exact hlesson c r (by rw [hcompounds]; rfl) hr
    case interrupts => exact fun fault after h => recordEvents_interrupted h
    case sound => exact fun hsound fault after h => recordEvents_ne_taxonomy hsound h
  · intro statement m
    unfold remember
    cases readStatement s.memory.model statement with
    | mk outcome model =>
        constructor
        · rintro fault rfl
          exact ⟨rfl, rfl⟩
        · rintro reading rfl
          exact ⟨warn { s with memory := { s.memory with model := model } } reading.warnings,
            rfl, rfl, rfl, rfl⟩

end MemoryState

namespace Residence

/-- A reply that finds the emigration of Alice. -/
def emigrationFound : String :=
  "[\x7b\"subject\": \"Alice\", \"verb\": \"emigrated to\", \"object\": \"Peru\"\x7d]"

/-- A reply that describes what emigrating changes. -/
def emigrationExplained : String :=
  "\x7b\"type\": \"state_change\", \"initiates\": [\x7b\"fluent\": \"based_in\"\x7d], " ++
    "\"terminates\": [\x7b\"fluent\": \"based_in\"\x7d]\x7d"

/-- A memory without events whose language model gives these replies. -/
def emigrating : MemoryState :=
  ⟨⟨LanguageModel.ofReplies [.text emigrationFound, .text emigrationExplained],
    some Learner.empty, true⟩, engine, []⟩

/-- What the memory makes of the emigration at a time that is none. -/
def emigratedSomeday : Except Fault (List Nat) × MemoryState :=
  emigrating.remember "Alice emigrated to Peru." (some (.text "someday"))

end Residence

namespace MemoryState

open Residence

/-- The time is refused and no event is stored, but the lesson about its verb is registered. -/
theorem refused_time_leaves_lesson :
    emigratedSomeday.1.toOption = none ∧ emigratedSomeday.2.engine.store.events = [] ∧
      emigrating.engine.learnedRules = [] ∧
      emigrating.engine.rulebook.exclusive.contains "based_in" = false ∧
      emigrating.engine.records.keys = [] ∧
      emigratedSomeday.2.engine.learnedRules.map Rule.text =
        ["initiates(emigrated_to(Subject, Object), based_in(Subject, Object))"] ∧
      emigratedSomeday.2.engine.rulebook.exclusive.contains "based_in" = true ∧
      emigratedSomeday.2.engine.records.keys = ["emigrated_to"] := by
  decide +kernel

end MemoryState
end EventCalculus

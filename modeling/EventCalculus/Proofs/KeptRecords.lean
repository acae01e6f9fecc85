import EventCalculus.Proofs.AnswerSets
import EventCalculus.Proofs.OrderIndependence
import EventCalculus.Proofs.RecordText
import EventCalculus.Proofs.TimestampText

/-!
# Records that an engine keeps

An engine keeps one record per verb.  If no verb had two different records, its
rules depend on the set of these records alone: rules of different verbs are never
the same, so which rules are first of their kind is decided for each verb by its
record.
-/

namespace EventCalculus

namespace Engine

/-!
# What is kept
-/

/-- The record that an input makes the engine keep. -/
def record? : Input -> Option RuleRecord
  | .event _ _ => none
  | .rules input => (rulesOfInput input).toOption.bind Prod.snd

/-- The records that inputs make the engine keep, from first to last. -/
def recorded (inputs : List Input) : List RuleRecord :=
  inputs.filterMap record?

/-- The record by its verb. -/
def verbEntry (r : RuleRecord) : String × RuleRecord :=
  (r.verb.text, r)

/-- The engine keeps the records of the inputs, and the index of its events by time. -/
structure Remembers (e : Engine) (inputs : List Input) : Prop where
  timeIndexed : e.store.TimeIndexed
  records : e.records = OrderedMap.ofList ((recorded inputs).map verbEntry)

theorem recorded_snoc (inputs : List Input) (input : Input) :
    recorded (inputs ++ [input]) = recorded inputs ++ (record? input).toList := by
  rw [recorded, List.filterMap_append]
  cases hrecord : record? input with
  | none => simp [recorded, hrecord]
  | some r => simp [recorded, hrecord]

theorem remembers_create {date : Moment} {maxDepth : Int} {taxonomy : Taxonomy}
    {audit : Option AuditLog} {e : Engine} (h : create date maxDepth taxonomy audit = .ok e) :
    e.Remembers [] := by
  rcases exists_of_map_eq_ok h with ⟨currentDate, _, rfl⟩
  exact ⟨EventStore.timeIndexed_empty maxDepth, rfl⟩

section
variable {e : Engine} {inputs : List Input}

theorem Remembers.of_unchanged (h : e.Remembers inputs) {next : Engine} {input : Input}
    (hnext : next.unlogged = e.unlogged) (hrecord : record? input = none) :
    next.Remembers (inputs ++ [input]) := by
  constructor
  case timeIndexed =>
    rw [store_eq_of_unlogged_eq hnext]
    exact h.timeIndexed
  case records =>
    rw [records_eq_of_unlogged_eq hnext, recorded_snoc, hrecord, Option.toList_none,
      List.append_nil, h.records]

theorem Remembers.tell_event (h : e.Remembers inputs) (v : Value) (moment : Moment) :
    (e.tell (.event v moment)).Remembers (inputs ++ [.event v moment]) := by
  show (e.assertEvent v moment).2.Remembers _
  cases hprepare : e.prepareEvent v moment with
  | error fault => exact h.of_unchanged (e.unlogged_assertEvent_of_error hprepare) rfl
  | ok fact =>
      rw [assertEvent_of_ok e hprepare]
      constructor
      case timeIndexed =>
        rw [store_storeEvent]
        exact h.timeIndexed.push fact.1 fact.2
      case records =>
        rw [records_eq_of_unlogged_eq (e.unlogged_storeEvent fact.1 fact.2), recorded_snoc,
          record?, Option.toList_none, List.append_nil]
        exact h.records

theorem Remembers.tell_rules (h : e.Remembers inputs) (input : RuleInput) :
    (e.tell (.rules input)).Remembers (inputs ++ [.rules input]) := by
  show (e.learn input).2.Remembers _
  cases hrules : rulesOfInput input with
  | error fault =>
      apply h.of_unchanged (e.unlogged_learn_of_error hrules)
      rw [record?, hrules]
      rfl
  | ok made =>
      have hrecord : record? (.rules input) = made.2 := by
        rw [record?, hrules]
        rfl
      constructor
      case timeIndexed =>
        rw [store_learn]
        exact h.timeIndexed
      case records =>
        rw [records_eq_of_unlogged_eq (e.unlogged_learn_of_ok hrules), recorded_snoc, hrecord]
        cases made.2 with
        | none =>
            rw [Option.toList_none, List.append_nil]
            exact h.records
        | some r =>
            rw [Option.toList_some, List.map_append, List.map_singleton,
              OrderedMap.ofList_snoc, ← h.records]
            rfl

theorem Remembers.tell (h : e.Remembers inputs) (input : Input) :
    (e.tell input).Remembers (inputs ++ [input]) := by
  cases input with
  | event v moment => exact h.tell_event v moment
  | rules input => exact h.tell_rules input

theorem Remembers.run (h : e.Remembers inputs) (more : List Input) :
    (e.run more).Remembers (inputs ++ more) := by
  induction more generalizing e inputs with
  | nil =>
      rw [List.append_nil]
      exact h
  | cons input rest ih =>
      rw [List.append_cons]
      exact ih (h.tell input)

end

/-- No two different records are kept for one verb. -/
def OneRecordPerVerb (inputs : List Input) : Prop :=
  forall r r', r ∈ recorded inputs -> r' ∈ recorded inputs -> r.verb = r'.verb -> r = r'

theorem entries_eq_of_verb_eq {inputs : List Input} (honce : OneRecordPerVerb inputs)
    (p q : String × RuleRecord) (hp : p ∈ (recorded inputs).map verbEntry)
    (hq : q ∈ (recorded inputs).map verbEntry) (hverb : p.1 = q.1) : p = q := by
  rcases List.mem_map.mp hp with ⟨r, hr, rfl⟩
  rcases List.mem_map.mp hq with ⟨r', hr', rfl⟩
  rw [honce r r' hr hr' (Functor.eq_of_text_eq hverb)]

theorem Remembers.mem_values_iff {e : Engine} {inputs : List Input} (h : e.Remembers inputs)
    (honce : OneRecordPerVerb inputs) (r : RuleRecord) :
    r ∈ e.records.values ↔ r ∈ recorded inputs := by
  rw [OrderedMap.values, h.records, List.mem_map]
  simp only [OrderedMap.mem_entries_ofList_iff (entries_eq_of_verb_eq honce), List.mem_map]
  constructor
  · intro hr
    rcases hr with ⟨entry, ⟨r', hr', rfl⟩, rfl⟩
    exact hr'
  · intro hr
    exact ⟨verbEntry r, ⟨r, hr, rfl⟩, rfl⟩

/-- Every record is at its own verb. -/
theorem map_verb_values (rs : List RuleRecord) :
    (OrderedMap.ofList (rs.map verbEntry)).values.map (fun r => r.verb.text) =
      (OrderedMap.ofList (rs.map verbEntry)).keys := by
  rw [OrderedMap.values, List.map_map]
  apply List.map_congr_left
  intro entry hentry
  rcases List.mem_map.mp (OrderedMap.mem_of_mem_entries_ofList hentry) with ⟨r, _, rfl⟩
  rfl

theorem Remembers.nodup_verbs {e : Engine} {inputs : List Input} (h : e.Remembers inputs) :
    (e.records.values.map fun r => r.verb.text).Nodup := by
  rw [h.records, map_verb_values]
  exact OrderedMap.nodup_keys _

/-!
# Rules of records
-/

/-- The input is an event at a moment that exists, or a record: as data, or as it was read from
data. -/
def Input.IsGiven : Input -> Prop
  | .event _ moment => moment.IsReal
  | .rules (.rule _) => False
  | .rules (.record r) => r.IsRead
  | .rules (.data _) => True

/-- The rules of a record, none if they cannot be made. -/
def recordRules (r : RuleRecord) : List Rule :=
  lessonRules (.record r)

theorem recordRules_of_ok {r : RuleRecord} {rules : List Rule} (h : r.rules = .ok rules) :
    recordRules r = rules := by
  simp only [recordRules, lessonRules, rulesOfInput, rulesOfRecord, h]

theorem exists_of_rulesOfRecord {r : RuleRecord} {made : List Rule × Option RuleRecord}
    (h : rulesOfRecord r = .ok made) : r.rules = .ok made.1 ∧ made.2 = some r := by
  unfold rulesOfRecord at h
  split at h
  · rename_i rules hrules
    cases h
    exact ⟨hrules, rfl⟩
  · cases h

/-- The input is an event or a record, not a rule without a record. -/
def Input.HasRecord : Input -> Prop
  | .rules (.rule _) => False
  | _ => True

theorem Input.IsGiven.hasRecord {input : Input} (h : input.IsGiven) : input.HasRecord := by
  cases input with
  | event description moment => trivial
  | rules input =>
      cases input with
      | rule r => exact h
      | record r => trivial
      | data v => trivial

/-- A rule brings no record; otherwise the rules are those of the record. -/
theorem exists_of_rulesOfInput {input : RuleInput} {made : List Rule × Option RuleRecord}
    (h : rulesOfInput input = .ok made) :
    (exists rule, input = .rule rule ∧ made.2 = none) ∨
      exists r, made.2 = some r ∧ r.rules = .ok made.1 ∧
        ((Input.rules input).IsGiven -> r.IsRead) := by
  cases input with
  | rule rule =>
      cases h
      exact Or.inl ⟨rule, rfl, rfl⟩
  | record r =>
      rcases exists_of_rulesOfRecord h with ⟨hrules, hrecord⟩
      exact Or.inr ⟨r, hrecord, hrules, id⟩
  | data v =>
      simp only [rulesOfInput] at h
      split at h
      · rename_i r hread
        rcases exists_of_rulesOfRecord h with ⟨hrules, hrecord⟩
        exact Or.inr ⟨r, hrecord, hrules, fun _ => ⟨v, .null, hread⟩⟩
      · cases h

theorem exists_record_of_hasRecord {input : RuleInput} (hrecord : (Input.rules input).HasRecord)
    {made : List Rule × Option RuleRecord} (h : rulesOfInput input = .ok made) :
    exists r, made.2 = some r ∧ r.rules = .ok made.1 := by
  rcases exists_of_rulesOfInput h with ⟨rule, rfl, _⟩ | ⟨r, hmade, hrules, _⟩
  · cases hrecord
  · exact ⟨r, hmade, hrules⟩

theorem exists_input_of_mem_recorded {inputs : List Input} {r : RuleRecord}
    (hr : r ∈ recorded inputs) :
    exists input, .rules input ∈ inputs ∧ (exists rules, r.rules = .ok rules) ∧
      ((Input.rules input).IsGiven -> r.IsRead) := by
  rcases List.mem_filterMap.mp hr with ⟨input, hinput, hrecord⟩
  cases input with
  | event description moment => cases hrecord
  | rules input =>
      rcases Option.bind_eq_some_iff.mp hrecord with ⟨made, hmade, hsnd⟩
      rcases exists_of_rulesOfInput (toOption_eq_some_iff.mp hmade) with
        ⟨_, _, hnone⟩ | ⟨r', hr', hrules, hread⟩
      · rw [hnone] at hsnd
        cases hsnd
      · rw [hr', Option.some.injEq] at hsnd
        rw [← hsnd]
        exact ⟨input, hinput, ⟨_, hrules⟩, hread⟩

theorem exists_of_mem_recorded {inputs : List Input}
    (hgiven : forall input, input ∈ inputs -> input.IsGiven) {r : RuleRecord}
    (hr : r ∈ recorded inputs) : r.IsRead ∧ exists rules, r.rules = .ok rules := by
  rcases exists_input_of_mem_recorded hr with ⟨input, hinput, hrules, hread⟩
  exact ⟨hread (hgiven _ hinput), hrules⟩

theorem learned_singleton {input : Input} (hrecord : input.HasRecord) :
    learned [input] = (record? input).toList.flatMap recordRules := by
  cases input with
  | event description moment => rfl
  | rules input =>
      rw [learned_rules, lessonRules, record?]
      cases hrules : rulesOfInput input with
      | error fault => rfl
      | ok made =>
          rcases exists_record_of_hasRecord hrecord hrules with ⟨r, hkept, hmade⟩
          simp only [Except.toOption, Option.bind_some, hkept, Option.toList_some,
            List.flatMap_singleton, recordRules_of_ok hmade]

theorem learned_eq_flatMap_recorded {inputs : List Input}
    (hrecords : forall input, input ∈ inputs -> input.HasRecord) :
    learned inputs = (recorded inputs).flatMap recordRules := by
  induction inputs using List.reverseRecOn with
  | nil => rfl
  | append_singleton rest last ih =>
      have hrest : forall input, input ∈ rest -> input.HasRecord :=
        fun input h => hrecords input (List.mem_append_left _ h)
      have hlast := hrecords last (List.mem_append_right rest List.mem_cons_self)
      rw [learned_append, ih hrest, learned_singleton hlast, recorded_snoc, List.flatMap_append]

theorem exists_spec_of_mem_recordRules {r : RuleRecord} {rule : Rule}
    (h : rule ∈ recordRules r) :
    rule.event = r.event ∧ exists s : FluentSpec, s.compound = .ok rule.fluent := by
  cases hrules : r.rules with
  | error fault =>
      simp only [recordRules, lessonRules, rulesOfInput, rulesOfRecord, hrules] at h
      cases h
  | ok rules =>
      rw [recordRules_of_ok hrules] at h
      rcases RuleRecord.exists_spec_of_mem_rules hrules h with ⟨hevent, _, hspec⟩
      exact ⟨hevent, hspec⟩

theorem verb_of_mem_recordRules {r : RuleRecord} {rule : Rule} (h : rule ∈ recordRules r) :
    rule.verb = r.verb.text := by
  rw [Rule.verb, (exists_spec_of_mem_recordRules h).left]
  rfl

theorem one_le_arity_of_mem_recordRules {r : RuleRecord} {rule : Rule}
    (h : rule ∈ recordRules r) : 1 ≤ rule.fluent.arity := by
  rcases (exists_spec_of_mem_recordRules h).right with ⟨s, hfluent⟩
  exact FluentSpec.one_le_arity_of_compound hfluent

/-!
# The order of records
-/

/-- The records of a verb. -/
def ofVerb (verb : String) (rs : List RuleRecord) : List RuleRecord :=
  rs.filter fun r => r.verb.text = verb

theorem mem_ofVerb_iff {verb : String} {rs : List RuleRecord} {r : RuleRecord} :
    r ∈ ofVerb verb rs ↔ r ∈ rs ∧ r.verb.text = verb := by
  rw [ofVerb, List.mem_filter, decide_eq_true_eq]

theorem filter_recordRules (r : RuleRecord) (verb : String) :
    (recordRules r).filter (fun rule => rule.verb = verb) =
      if r.verb.text = verb then recordRules r else [] := by
  split
  · rename_i hverb
    apply List.filter_eq_self.mpr
    intro rule hrule
    rw [verb_of_mem_recordRules hrule]
    exact decide_eq_true hverb
  · rename_i hverb
    apply List.filter_eq_nil_iff.mpr
    intro rule hrule
    rw [verb_of_mem_recordRules hrule, decide_eq_true_eq]
    exact hverb

theorem filter_flatMap_recordRules (rs : List RuleRecord) (verb : String) :
    (rs.flatMap recordRules).filter (fun rule => rule.verb = verb) =
      (ofVerb verb rs).flatMap recordRules := by
  induction rs with
  | nil => rfl
  | cons r rest ih =>
      rw [List.flatMap_cons, List.filter_append, ih, filter_recordRules, ofVerb, ofVerb]
      by_cases hverb : r.verb.text = verb
      · simp [hverb]
      · simp [hverb]

/-- Among the rules of all records, a rule is the first of its kind if it is so among those of the
records of its verb. -/
theorem mem_firstRules_iff (rs : List RuleRecord) (rule : Rule) :
    rule ∈ (rs.flatMap recordRules).eraseDupsBy Rule.same ↔
      rule ∈ ((ofVerb rule.verb rs).flatMap recordRules).eraseDupsBy Rule.same := by
  have hverb : forall x y : Rule, x.same y = true ->
      decide (x.verb = rule.verb) = decide (y.verb = rule.verb) := by
    intro x y hsame
    rw [Rule.verb_eq_of_same hsame]
  rw [← filter_flatMap_recordRules, ← filter_eraseDupsBy hverb, List.mem_filter]
  simp

section
variable {rs rs' : List RuleRecord}
  (honce : forall r r', r ∈ rs -> r' ∈ rs -> r.verb = r'.verb -> r = r')
  (hmem : forall r, r ∈ rs ↔ r ∈ rs')
include honce hmem

theorem firstRules_ofVerb_eq (verb : String) :
    ((ofVerb verb rs).flatMap recordRules).eraseDupsBy Rule.same =
      ((ofVerb verb rs').flatMap recordRules).eraseDupsBy Rule.same := by
  have hmem' : forall r, r ∈ ofVerb verb rs ↔ r ∈ ofVerb verb rs' := by
    intro r
    rw [mem_ofVerb_iff, mem_ofVerb_iff, hmem]
  cases hrs : ofVerb verb rs with
  | nil =>
      have hnil : ofVerb verb rs' = [] := by
        apply List.eq_nil_iff_forall_not_mem.mpr
        intro r hr
        rw [← hmem' r, hrs] at hr
        cases hr
      rw [hnil]
  | cons first rest =>
      have hfirst : first ∈ ofVerb verb rs := hrs ▸ List.mem_cons_self
      have hall : forall r, r ∈ ofVerb verb rs -> r = first := by
        intro r hr
        rcases mem_ofVerb_iff.mp hr with ⟨hr, hverb⟩
        rcases mem_ofVerb_iff.mp hfirst with ⟨hfirst, hverb'⟩
        exact honce r first hr hfirst (Functor.eq_of_text_eq (hverb.trans hverb'.symm))
      have hrefl : forall x : Rule, x.same x = true := fun x => Rule.same_iff.mpr rfl
      have htrans : forall x y z : Rule, x.same y = true -> y.same z = true -> x.same z = true :=
        fun _ _ _ => Rule.same_trans
      rw [← hrs, eraseDupsBy_flatMap_of_eq hrefl htrans hfirst hall,
        eraseDupsBy_flatMap_of_eq hrefl htrans ((hmem' first).mp hfirst)
          fun r hr => hall r ((hmem' r).mpr hr)]

theorem mem_firstRules_iff_of_mem_iff (rule : Rule) :
    rule ∈ (rs.flatMap recordRules).eraseDupsBy Rule.same ↔
      rule ∈ (rs'.flatMap recordRules).eraseDupsBy Rule.same := by
  rw [mem_firstRules_iff rs, mem_firstRules_iff rs', firstRules_ofVerb_eq honce hmem]

end

/-!
# The same records and events
-/

theorem Follows.hasSubjects {start e : Engine} {inputs : List Input} (h : Follows start e inputs)
    (hgiven : forall input, input ∈ inputs -> input.IsGiven) : e.scenario.HasSubjects := by
  intro r hr
  have hoccurs := (h.knows.occursIn_iff r).mp ⟨r, hr, rfl⟩
  rcases (Rule.occursIn_append r _ _).mp hoccurs with ⟨l, hl, hsource⟩ | ⟨l, hl, hsource⟩
  · have hlearned := (eraseDupsBy_sublist _ _).subset hl
    rw [learned_eq_flatMap_recorded fun input h => (hgiven input h).hasRecord] at hlearned
    rcases List.mem_flatMap.mp hlearned with ⟨record, _, hmem⟩
    rw [← Rule.fluent_eq_of_unsourced_eq hsource]
    exact one_le_arity_of_mem_recordRules hmem
  · rcases List.mem_flatMap.mp hl with ⟨key, _, hmem⟩
    rw [← Rule.fluent_eq_of_unsourced_eq hsource]
    exact Taxonomy.one_le_arity_of_mem_builtinRules hmem

/-- Engines that keep the same records, one for each verb, and store the same events give the same
sets of answers, in whatever order and however often they were told. -/
theorem sameAnswerSets_of_same_records {start start' e e' : Engine} {inputs inputs' : List Input}
    (h : Follows start e inputs) (h' : Follows start' e' inputs')
    (htaxonomy : start.rulebook.taxonomy = start'.rulebook.taxonomy)
    (hgiven : forall input, input ∈ inputs -> input.IsGiven)
    (hgiven' : forall input, input ∈ inputs' -> input.IsGiven)
    (honce : OneRecordPerVerb inputs)
    (hrecords : forall r, r ∈ recorded inputs ↔ r ∈ recorded inputs')
    (hfacts : forall fact, fact ∈ start.facts inputs ↔ fact ∈ start'.facts inputs') :
    e.SameAnswerSets e' := by
  have hlearned := learned_eq_flatMap_recorded fun input h => (hgiven input h).hasRecord
  have hlearned' := learned_eq_flatMap_recorded fun input h => (hgiven' input h).hasRecord
  have hsources : e.scenario.SameSources e'.scenario := by
    apply h.sameSources_of_learned h' htaxonomy _ _ hfacts
    · intro r
      simp only [hlearned, hlearned', List.mem_flatMap, hrecords]
    · intro r
      rw [hlearned, hlearned']
      exact mem_firstRules_iff_of_mem_iff honce hrecords r
  apply sameAnswerSets_of_scenario
  exact Scenario.sameAnswerSets_of_sameFacts h.indexed h'.indexed hsources.sameFacts
    (h.hasSubjects hgiven) (h'.hasSubjects hgiven')

end Engine
end EventCalculus

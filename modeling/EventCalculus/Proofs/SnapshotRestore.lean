import EventCalculus.Archive.Snapshot
import EventCalculus.Proofs.ArchiveLoading
import EventCalculus.Proofs.KeptRecords
import EventCalculus.Proofs.SoundTaxonomy

/-!
# Snapshots give back the answers

Restoring a snapshot tells a fresh engine the records in the order of their verbs
and then the events in the order of time, without repeats.  If every description
reads back from its text and the taxonomy makes rules for its verb, nothing of
this fails, and the engine answers as the one of which the snapshot was taken.
-/

namespace EventCalculus

namespace Engine

/-!
# Telling again
-/

/-- An event as it is told again. -/
def retell (event : Event) : Input :=
  .event (.term event.description.toTerm) (.text event.timestamp)

/-- A record as it is told again. -/
def reteach (r : RuleRecord) : Input :=
  .rules (.record r)

/-- The event can be stored as it is, and its verb has rules or needs none. -/
structure Retellable (e : Engine) (event : Event) : Prop where
  prepared : e.prepareEvent (.term event.description.toTerm) (.text event.timestamp) =
    .ok (event.description, event.timestamp)
  classified : exists rules,
    e.rulebook.taxonomy.classify event.verb event.description.arity = .ok rules

/-- What was stored once can be stored again. -/
theorem prepareEvent_retell {e : Engine} {v : Value} {moment : Moment} (hmoment : moment.IsReal)
    {c : Compound} {timestamp : String} (h : e.prepareEvent v moment = .ok (c, timestamp)) :
    e.prepareEvent (.term c.toTerm) (.text timestamp) = .ok (c, timestamp) ∧
      c.isGround = true := by
  rcases exists_of_prepareEvent_eq_ok h with ⟨htime, t, hcompound⟩
  rcases EventStore.validate_toTerm hcompound with ⟨hvalidate, hground⟩
  refine ⟨?_, hground⟩
  have htime' := timestampOf_text hmoment htime
  simp only [prepareEvent, readTerm, Except.mapError, htime', Value.expectTerm, Value.term?,
    hvalidate, bind, Except.bind, pure, Except.pure]

theorem exists_compileVerb_eq_ok {b : Rulebook} {verb : String} {arity : Nat} {rules : List Rule}
    (h : b.taxonomy.classify verb arity = .ok rules) :
    exists added, (b.compileVerb verb arity).1 = .ok added := by
  unfold Rulebook.compileVerb
  split
  · exact ⟨[], rfl⟩
  · simp only [h]
    exact ⟨_, rfl⟩

theorem tell_retell (e : Engine) (event : Event) : e.tell (retell event) =
    (e.assertEvent (.term event.description.toTerm) (.text event.timestamp)).2 := by
  rw [retell, tell]

/-- Telling the event again gives an identifier. -/
theorem Retellable.exists_assertEvent_eq {e : Engine} {event : Event} (h : e.Retellable event) :
    exists id, e.assertEvent (.term event.description.toTerm) (.text event.timestamp) =
      (.ok id, e.tell (retell event)) := by
  rcases h.classified with ⟨rules, hclassify⟩
  rcases exists_compileVerb_eq_ok hclassify with ⟨added, hadded⟩
  have hok : exists id,
      (e.assertEvent (.term event.description.toTerm) (.text event.timestamp)).1 = .ok id := by
    rw [e.assertEvent_of_ok h.prepared]
    unfold storeEvent
    have hverb : (e.store.push event.description event.timestamp).1.verb = event.verb := rfl
    simp only [hverb]
    split
    · rename_i hcompile
      rw [hcompile] at hadded
      cases hadded
    · exact ⟨_, rfl⟩
  rcases hok with ⟨id, hid⟩
  rw [tell_retell]
  exact ⟨id, Prod.ext hid rfl⟩

theorem Retellable.of_same {e e' : Engine} {event : Event} (h : e.Retellable event)
    (hdepth : e'.store.maxDepth = e.store.maxDepth)
    (htaxonomy : e'.rulebook.taxonomy = e.rulebook.taxonomy) : e'.Retellable event := by
  constructor
  case prepared =>
    rw [prepareEvent_eq_of_maxDepth hdepth]
    exact h.prepared
  case classified =>
    rw [htaxonomy]
    exact h.classified

theorem Retellable.tell {e : Engine} {event other : Event} (h : e.Retellable event)
    (hother : e.Retellable other) : (e.tell (retell other)).Retellable event := by
  rw [tell_retell, e.assertEvent_of_ok hother.prepared]
  apply h.of_same
  · rw [store_storeEvent]
    rfl
  · rw [rulebook_storeEvent, Rulebook.taxonomy_compileVerb]

end Engine

namespace Archive

open Engine

theorem replayRecords_eq_ok {rs : List RuleRecord}
    (h : forall r, r ∈ rs -> exists rules, r.rules = .ok rules) (e : Engine) :
    replayRecords e rs = (.ok (), e.run (rs.map reteach)) := by
  induction rs generalizing e with
  | nil => rfl
  | cons r rest ih =>
      rcases h r List.mem_cons_self with ⟨rules, hrules⟩
      have hlearn : exists added, (e.learn (.record r)).1 = .ok added := by
        simp only [learn, rulesOfInput, rulesOfRecord, hrules]
        exact ⟨_, rfl⟩
      rcases hlearn with ⟨added, hadded⟩
      have hpair : e.learn (.record r) = (.ok added, e.tell (reteach r)) :=
        Prod.ext hadded rfl
      rw [replayRecords, hpair]
      exact ih (fun r' hr' => h r' (List.mem_cons_of_mem r hr')) _

-- Unfolding the call would make this equation slow to check.
seal assertEvent in
theorem replayEvents_cons (e : Engine) (event : Event) (rest : List Event) :
    replayEvents e (event :: rest) =
      match e.assertEvent (.term event.description.toTerm) (.text event.timestamp) with
      | (.error fault, e) => (.error fault, e)
      | (.ok _, e) => replayEvents e rest := by
  rfl

theorem replayEvents_eq_ok {events : List Event} {e : Engine}
    (h : forall event, event ∈ events -> e.Retellable event) :
    replayEvents e events = (.ok (), e.run (events.map retell)) := by
  induction events generalizing e with
  | nil => rfl
  | cons event rest ih =>
      have hevent := h event List.mem_cons_self
      rcases hevent.exists_assertEvent_eq with ⟨id, hassert⟩
      rw [replayEvents_cons, hassert]
      apply ih
      intro other hother
      exact (h other (List.mem_cons_of_mem event hother)).tell hevent

/-- If all that is loaded can be told again, restoring is telling it. -/
theorem restore_eq_ok {a : Archive} {rs : List RuleRecord} {events : List Event}
    (hrecords : a.loadRecords = .ok rs)
    (hrules : forall r, r ∈ rs -> exists rules, r.rules = .ok rules)
    (hload : a.loadEvents none none = .ok events) {e : Engine}
    (hevents : forall event, event ∈ events -> (e.run (rs.map reteach)).Retellable event) :
    a.restore e = (.ok events.length, e.run (rs.map reteach ++ events.map retell)) := by
  rw [run, List.foldl_append, restore, hrecords]
  simp only [replayRecords_eq_ok hrules, hload, replayEvents_eq_ok hevents]
  rfl

/-!
# The archive of a snapshot
-/

/-- The data of a record by its verb. -/
def dataEntry (r : RuleRecord) : String × Value :=
  (r.verb.text, r.toValue)

/-- The descriptions and times of the events of an engine in the order of time. -/
def kept (e : Engine) : List (Compound × String) :=
  (e.store.between none none).map fun event => (event.description, event.timestamp)

/-- The order of records by verb. -/
def byVerb (r r' : RuleRecord) : Bool :=
  decide (r.verb.text ≤ r'.verb.text)

theorem foldl_saveRecord (rs : List RuleRecord) (a : Archive) :
    rs.foldl saveRecord a = { a with
      records := (rs.map dataEntry).foldl (fun m entry => m.insert entry.1 entry.2)
        a.records } := by
  induction rs generalizing a with
  | nil => rfl
  | cons r rest ih => exact ih (a.saveRecord r)

theorem records_save (a : Archive) (c : Compound) (timestamp : String) :
    (a.save c timestamp).2.records = a.records := by
  unfold save
  split
  · rfl
  · rfl

theorem records_saveAll (a : Archive) (list : List (Compound × String)) :
    (a.saveAll list).2.records = a.records := by
  induction list generalizing a with
  | nil => rfl
  | cons p rest ih => exact (ih (a.save p.1 p.2).2).trans (a.records_save p.1 p.2)

theorem snapshot_eq (e : Engine) :
    (empty.snapshot e).2 = ((⟨[], 0, OrderedMap.ofList (e.records.values.map dataEntry)⟩ :
      Archive).saveAll (kept e)).2 := by
  rw [snapshot, foldl_saveRecord]
  rfl

theorem keeps_snapshot {e : Engine} (hground : forall p, p ∈ kept e -> p.1.isGround = true) :
    (empty.snapshot e).2.Keeps (kept e) := by
  rw [snapshot_eq]
  exact (keeps_nil 0 _).saveAll hground

/-- Records that were read from data are loaded in the order of their verbs. -/
theorem loadRecords_of_entries {a : Archive} {rs : List RuleRecord}
    (hentries : a.records.entries = rs.map dataEntry) (hread : forall r, r ∈ rs -> r.IsRead) :
    a.loadRecords = .ok (rs.mergeSort byVerb) := by
  have hsorted : (rs.map dataEntry).mergeSort (fun x y => decide (x.1 ≤ y.1)) =
      (rs.mergeSort byVerb).map dataEntry := by
    rw [List.map_mergeSort]
    intro r _ r' _
    rfl
  rw [loadRecords, hentries, hsorted]
  apply mapM_map_eq_ok
  intro r hr
  show (RuleRecord.ofValue r.toValue .null).mapError Fault.record = .ok r
  rw [RuleRecord.ofValue_toValue (hread r (List.mem_mergeSort.mp hr))]
  rfl

theorem loadRecords_snapshot {e : Engine}
    (hnodup : (e.records.values.map fun r => r.verb.text).Nodup)
    (hread : forall r, r ∈ e.records.values -> r.IsRead) :
    (empty.snapshot e).2.loadRecords = .ok (e.records.values.mergeSort byVerb) := by
  have hkeys : ((e.records.values.map dataEntry).map Prod.fst).Nodup := by
    rw [List.map_map]
    exact hnodup
  apply loadRecords_of_entries _ hread
  rw [snapshot_eq, records_saveAll, OrderedMap.entries_ofList_of_nodup hkeys]

end Archive

namespace Engine

/-!
# What is told again
-/

theorem recorded_append (inputs more : List Input) :
    recorded (inputs ++ more) = recorded inputs ++ recorded more :=
  List.filterMap_append

theorem recorded_reteach {rs : List RuleRecord}
    (h : forall r, r ∈ rs -> exists rules, r.rules = .ok rules) :
    recorded (rs.map reteach) = rs := by
  have hrecord : forall r, r ∈ rs -> record? (reteach r) = some r := by
    intro r hr
    rcases h r hr with ⟨rules, hrules⟩
    simp only [record?, reteach, rulesOfInput, rulesOfRecord, hrules, Except.toOption,
      Option.bind_some]
  rw [recorded, List.filterMap_map]
  exact (List.filterMap_congr hrecord).trans List.filterMap_some

theorem recorded_retell (events : List Event) : recorded (events.map retell) = [] := by
  apply List.filterMap_eq_nil_iff.mpr
  intro input hinput
  rcases List.mem_map.mp hinput with ⟨event, _, rfl⟩
  rfl

theorem facts_reteach (e : Engine) (rs : List RuleRecord) : e.facts (rs.map reteach) = [] := by
  apply List.filterMap_eq_nil_iff.mpr
  intro input hinput
  rcases List.mem_map.mp hinput with ⟨r, _, rfl⟩
  rfl

theorem facts_retell {e : Engine} {events : List Event}
    (h : forall event, event ∈ events -> e.Retellable event) :
    e.facts (events.map retell) = events.map fun event => (event.description, event.timestamp) := by
  have hfact : forall event, event ∈ events ->
      e.fact? (retell event) = some (event.description, event.timestamp) := by
    intro event hevent
    simp only [fact?, retell, (h event hevent).prepared, Except.toOption]
  rw [facts, List.filterMap_map, ← List.filterMap_eq_map]
  exact List.filterMap_congr hfact

/-- What an engine stores can be stored again and is ground. -/
theorem prepared_of_mem_facts {e : Engine} {inputs : List Input}
    (hgiven : forall input, input ∈ inputs -> input.IsGiven) {c : Compound} {timestamp : String}
    (h : (c, timestamp) ∈ e.facts inputs) :
    e.prepareEvent (.term c.toTerm) (.text timestamp) = .ok (c, timestamp) ∧
      c.isGround = true := by
  rcases List.mem_filterMap.mp h with ⟨input, hinput, hfact⟩
  cases input with
  | rules input => cases hfact
  | event v moment =>
      exact prepareEvent_retell (hgiven _ hinput) (toOption_eq_some_iff.mp hfact)

theorem maxDepth_create {date : Moment} {maxDepth : Int} {taxonomy : Taxonomy}
    {audit : Option AuditLog} {e : Engine} (h : create date maxDepth taxonomy audit = .ok e) :
    e.store.maxDepth = maxDepth := by
  rcases exists_of_map_eq_ok h with ⟨currentDate, _, rfl⟩
  rfl

section
variable {date date' : Moment} {maxDepth : Int} {taxonomy : Taxonomy}
  {audit audit' : Option AuditLog} {start start' : Engine} {inputs : List Input}
  {rs : List RuleRecord} {events : List Event}
  (hstart : create date maxDepth taxonomy audit = .ok start)
  (hstart' : create date' maxDepth taxonomy audit' = .ok start')
include hstart hstart'

theorem Retellable.run_reteach {event : Event} (h : start.Retellable event)
    (rs : List RuleRecord) : (start'.run (rs.map reteach)).Retellable event := by
  have hfollows := (follows_create hstart').run (rs.map reteach)
  apply h.of_same
  · rw [hfollows.maxDepth, maxDepth_create hstart', maxDepth_create hstart]
  · rw [hfollows.taxonomy, taxonomy_create hstart', taxonomy_create hstart]

/-- An engine that is told the records and the events of another one, and nothing else, gives the
same sets of answers. -/
theorem sameAnswerSets_of_retelling (hgiven : forall input, input ∈ inputs -> input.IsGiven)
    (honce : OneRecordPerVerb inputs) (hrecords : forall r, r ∈ recorded inputs ↔ r ∈ rs)
    (hevents : forall event, event ∈ events -> start.Retellable event)
    (hfacts : forall fact, fact ∈ start.facts inputs ↔
      fact ∈ events.map fun event => (event.description, event.timestamp)) :
    (start.run inputs).SameAnswerSets (start'.run (rs.map reteach ++ events.map retell)) := by
  have hread : forall r, r ∈ rs -> r.IsRead ∧ exists rules, r.rules = .ok rules :=
    fun r hr => exists_of_mem_recorded hgiven ((hrecords r).mpr hr)
  have hfollows := (follows_create hstart).run inputs
  have hfollows' := (follows_create hstart').run (rs.map reteach ++ events.map retell)
  rw [List.nil_append] at hfollows hfollows'
  apply sameAnswerSets_of_same_records hfollows hfollows' _ hgiven _ honce
  · intro r
    rw [recorded_append, recorded_reteach fun r hr => (hread r hr).right, recorded_retell,
      List.append_nil, hrecords]
  · have htold : forall event, event ∈ events -> start'.Retellable event :=
      fun event hevent => (hevents event hevent).run_reteach hstart hstart' []
    intro fact
    rw [facts_append, facts_reteach, List.nil_append, facts_retell htold, hfacts]
  · rw [taxonomy_create hstart, taxonomy_create hstart']
  · intro input hinput
    rcases List.mem_append.mp hinput with htaught | htold
    · rcases List.mem_map.mp htaught with ⟨r, hr, rfl⟩
      exact (hread r hr).left
    · rcases List.mem_map.mp htold with ⟨event, _, rfl⟩
      trivial

end

end Engine

namespace Archive

open Engine

section
variable {date : Moment} {maxDepth : Int} {taxonomy : Taxonomy} {audit : Option AuditLog}
  {start : Engine} {inputs : List Input}
  (hstart : create date maxDepth taxonomy audit = .ok start)
include hstart

theorem mem_kept_iff (fact : Compound × String) :
    fact ∈ kept (start.run inputs) ↔ fact ∈ start.facts inputs := by
  have hfollows := (follows_create hstart).run inputs
  have hremembers := (remembers_create hstart).run inputs
  rw [List.nil_append] at hfollows hremembers
  rw [← hfollows.stored, kept, List.mem_map, List.mem_map]
  simp only [hremembers.timeIndexed.mem_between_iff]

theorem exists_event_of_mem_kept {fact : Compound × String}
    (h : fact ∈ kept (start.run inputs)) :
    exists event, event ∈ (start.run inputs).store.events ∧
      event.description = fact.1 ∧ event.timestamp = fact.2 := by
  have hfollows := (follows_create hstart).run inputs
  rw [List.nil_append] at hfollows
  rw [mem_kept_iff hstart, ← hfollows.stored] at h
  rcases List.mem_map.mp h with ⟨event, hevent, rfl⟩
  exact ⟨event, hevent, rfl, rfl⟩

theorem readsBack_of_mem_kept (hread : forall event, event ∈ (start.run inputs).store.events ->
      event.description.ReadsBack) {fact : Compound × String}
    (h : fact ∈ kept (start.run inputs)) : fact.1.ReadsBack := by
  rcases exists_event_of_mem_kept hstart h with ⟨event, hevent, hdescription, _⟩
  rw [← hdescription]
  exact hread event hevent

variable (hgiven : forall input, input ∈ inputs -> input.IsGiven)
include hgiven

theorem keeps_snapshot_run :
    (empty.snapshot (start.run inputs)).2.Keeps (kept (start.run inputs)) := by
  apply keeps_snapshot
  intro p hp
  exact (prepared_of_mem_facts hgiven ((mem_kept_iff hstart p).mp hp)).right

/-- What an engine keeps can be told to an engine that is like it at the start. -/
theorem retellable_of_mem_kept
    (hclassify : forall event, event ∈ (start.run inputs).store.events ->
      exists rules, taxonomy.classify event.verb event.description.arity = .ok rules)
    {event : Event} (h : (event.description, event.timestamp) ∈ kept (start.run inputs)) :
    start.Retellable event := by
  constructor
  case prepared => exact (prepared_of_mem_facts hgiven ((mem_kept_iff hstart _).mp h)).left
  case classified =>
    rcases exists_event_of_mem_kept hstart h with ⟨stored, hstored, hdescription, _⟩
    have hrules := hclassify stored hstored
    rw [Event.verb, hdescription, ← taxonomy_create hstart] at hrules
    exact hrules

/-- What the archive of the snapshot loads is what was stored. -/
theorem mem_facts_iff_loaded (hread : forall event, event ∈ (start.run inputs).store.events ->
      event.description.ReadsBack) (fact : Compound × String) :
    fact ∈ start.facts inputs ↔ fact ∈ (empty.snapshot (start.run inputs)).2.loaded.map
      fun event => (event.description, event.timestamp) := by
  have hkeeps := keeps_snapshot_run hstart hgiven
  have hreadKept : forall p, p ∈ kept (start.run inputs) -> p.1.ReadsBack :=
    fun _ hp => readsBack_of_mem_kept hstart hread hp
  rw [← mem_kept_iff hstart, (hkeeps.givesBack_loaded hreadKept).listed, List.mem_map]
  simp only [Prod.ext_iff]

/-- Restoring a snapshot of an engine into a fresh one with the same depth and taxonomy succeeds,
and afterwards both give the same sets of answers. -/
theorem restore_snapshot {date' : Moment} {audit' : Option AuditLog} {start' : Engine}
    (hstart' : create date' maxDepth taxonomy audit' = .ok start')
    (honce : OneRecordPerVerb inputs)
    (hread : forall event, event ∈ (start.run inputs).store.events ->
      event.description.ReadsBack)
    (hclassify : forall event, event ∈ (start.run inputs).store.events ->
      exists rules, taxonomy.classify event.verb event.description.arity = .ok rules) :
    exists count after,
      (empty.snapshot (start.run inputs)).2.restore start' = (.ok count, after) ∧
        (start.run inputs).SameAnswerSets after := by
  have hremembers := (remembers_create hstart).run inputs
  rw [List.nil_append] at hremembers
  have hrecords : forall r, r ∈ recorded inputs ↔
      r ∈ (start.run inputs).records.values.mergeSort byVerb := by
    intro r
    rw [List.mem_mergeSort, hremembers.mem_values_iff honce]
  have hrules : forall r, r ∈ (start.run inputs).records.values.mergeSort byVerb ->
      r.IsRead ∧ exists rules, r.rules = .ok rules :=
    fun r hr => exists_of_mem_recorded hgiven ((hrecords r).mpr hr)
  have hretellable : forall event, event ∈ (empty.snapshot (start.run inputs)).2.loaded ->
      start.Retellable event := by
    intro event hevent
    apply retellable_of_mem_kept hstart hgiven hclassify
    rw [mem_kept_iff hstart, mem_facts_iff_loaded hstart hgiven hread]
    exact List.mem_map_of_mem hevent
  refine ⟨_, _, restore_eq_ok (loadRecords_snapshot hremembers.nodup_verbs ?_) ?_
    ((keeps_snapshot_run hstart hgiven).loadEvents_none_eq_ok ?_) ?_, ?_⟩
  · intro r hr
    exact (hrules r (List.mem_mergeSort.mpr hr)).left
  · intro r hr
    exact (hrules r hr).right
  · intro p hp
    exact readsBack_of_mem_kept hstart hread hp
  · intro event hevent
    exact (hretellable event hevent).run_reteach hstart hstart' _
  · exact sameAnswerSets_of_retelling hstart hstart' hgiven honce hrecords hretellable
      (mem_facts_iff_loaded hstart hgiven hread)

end

end Archive

/-!
# Moves and settlements
-/

namespace Residence

def residing : Value :=
  .list [.object [("fluent", .text "lives_in")]]

/-- Whoever settles somewhere lives there and nowhere else. -/
def settling : Value :=
  .object [("verb", .text "settled_in"), ("type", .text "state_change"),
    ("initiates", residing), ("terminates", residing)]

def settled : RuleRecord where
  verb := ⟨"settled_in", by decide +kernel⟩
  type := .stateChange
  initiates := [⟨livesIn, none⟩]
  terminates := [⟨livesIn, none⟩]

/-- The later move comes first and last, and the record is given as data and as it was read. -/
def told : List Engine.Input :=
  [tellRome, .rules (.data settling), tellParis, .rules (.record settled), tellRome]

theorem isGiven_of_mem_told (input : Engine.Input) (h : input ∈ told) : input.IsGiven := by
  simp only [told, List.mem_cons, List.not_mem_nil, or_false] at h
  rcases h with rfl | rfl | rfl | rfl | rfl
  · trivial
  · trivial
  · show firstDay.isValid = true
    decide
  · exact ⟨settling, .null, rfl⟩
  · trivial

theorem oneRecordPerVerb_told : Engine.OneRecordPerVerb told := by
  have hrecorded : Engine.recorded told = [settled, settled] := by
    decide +kernel
  intro r r' hr hr' _
  simp only [hrecorded, List.mem_cons, List.not_mem_nil, or_self, or_false] at hr hr'
  rw [hr, hr']

theorem readsBack_of_mem_told (event : Event) (h : event ∈ (engine.run told).store.events) :
    event.description.ReadsBack := by
  have hevents : (engine.run told).store.events.map Event.description =
      [move rome, move paris, move rome] := by
    decide +kernel
  have hmem := List.mem_map_of_mem (f := Event.description) h
  simp only [hevents, List.mem_cons, List.not_mem_nil, or_false] at hmem
  rcases hmem with hrome | hparis | hrome
  · rw [hrome]
    exact Compound.readsBack_of_reading? (by decide +kernel)
  · rw [hparis]
    exact Compound.readsBack_of_reading? (by decide +kernel)
  · rw [hrome]
    exact Compound.readsBack_of_reading? (by decide +kernel)

end Residence

namespace Archive

open Engine

theorem restore_snapshot_residence :
    create (.date Residence.firstDay) EventStore.defaultMaxDepth Taxonomy.standard none =
        .ok Residence.engine ∧
      (forall input, input ∈ Residence.told -> input.IsGiven) ∧
      OneRecordPerVerb Residence.told ∧
      (forall event, event ∈ (Residence.engine.run Residence.told).store.events ->
        event.description.ReadsBack) ∧
      exists count after,
        (empty.snapshot (Residence.engine.run Residence.told)).2.restore Residence.engine =
            (.ok count, after) ∧
          (Residence.engine.run Residence.told).SameAnswerSets after := by
  have hcreate : create (.date Residence.firstDay) EventStore.defaultMaxDepth Taxonomy.standard
      none = .ok Residence.engine := rfl
  refine ⟨hcreate, Residence.isGiven_of_mem_told, Residence.oneRecordPerVerb_told,
    Residence.readsBack_of_mem_told, ?_⟩
  apply restore_snapshot hcreate Residence.isGiven_of_mem_told hcreate
    Residence.oneRecordPerVerb_told Residence.readsBack_of_mem_told
  intro event _
  exact Taxonomy.exists_classify_eq_ok Taxonomy.isSound_of_mem_standard
    event.description.functor.valid _

/-- A taxonomy with a domain that cannot be named. -/
def unnamedTaxonomy : Taxonomy :=
  [⟨"sightings", .exact [("seen", "Not A Name")], .accumulate⟩]

def unnamedEngine : Engine where
  store := EventStore.empty EventStore.defaultMaxDepth
  rulebook := Rulebook.ofTaxonomy unnamedTaxonomy
  records := OrderedMap.empty
  currentDate := "2024-01-01"
  audit := none

def seen : Compound :=
  ⟨⟨"seen", by decide +kernel⟩, [.atom ⟨"alice", by decide⟩]⟩

def sighting : Input :=
  .event (.text "seen(alice)") (.text "2024-01-01")

/-- An event is stored before its rules are made.  If they cannot be made, restoring fails where
asserting failed. -/
theorem restore_fails_without_rules :
    create (.date Residence.firstDay) EventStore.defaultMaxDepth unnamedTaxonomy none =
        .ok unnamedEngine ∧
      sighting.IsGiven ∧ OneRecordPerVerb [sighting] ∧
      (forall event, event ∈ (unnamedEngine.run [sighting]).store.events ->
        event.description.ReadsBack) ∧
      forall count after,
        (empty.snapshot (unnamedEngine.run [sighting])).2.restore unnamedEngine ≠
          (.ok count, after) := by
  have hevents : (unnamedEngine.run [sighting]).store.events.map Event.description = [seen] := by
    decide +kernel
  have hfails :
      ((empty.snapshot (unnamedEngine.run [sighting])).2.restore unnamedEngine).1.toOption =
        none := by
    decide +kernel
  refine ⟨rfl, trivial, ?_, ?_, ?_⟩
  · intro r r' hr
    cases hr
  · intro event hevent
    have hmem := List.mem_map_of_mem (f := Event.description) hevent
    rw [hevents, List.mem_singleton] at hmem
    rw [hmem]
    exact Compound.readsBack_of_reading? (by decide +kernel)
  · intro count after hrestore
    rw [hrestore] at hfails
    cases hfails

end Archive
end EventCalculus

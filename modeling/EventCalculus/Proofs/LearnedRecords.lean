import EventCalculus.Proofs.RuleOrigins
import EventCalculus.Proofs.SnapshotRestore

/-!
# Records of learned rules

An engine that learns from records alone keeps the last record of every verb, but all rules.  So
every rule of a record that is kept is in force, and every learned rule in force is the rule of a
record that is kept or that another one of its verb replaced.  What is taught again from the
records is complete as far as no record was replaced by a different one.
-/

namespace EventCalculus
namespace Engine

variable {e : Engine} {inputs : List Input}

/-!
# Records that are kept
-/

theorem get?_ofList_verbEntry (rs : List RuleRecord) (verb : String) :
    (OrderedMap.ofList (rs.map verbEntry)).get? verb = (ofVerb verb rs).getLast? := by
  have hfilter : (rs.map verbEntry).filter (fun entry => entry.1 = verb) =
      (ofVerb verb rs).map verbEntry := by
    rw [List.filter_map]
    rfl
  rw [OrderedMap.get?_ofList, hfilter, List.getLast?_map, Option.map_map]
  exact Option.map_id'

/-- Of each verb the map has the last record. -/
theorem mem_values_ofList_verbEntry_iff (rs : List RuleRecord) (record : RuleRecord) :
    record ∈ (OrderedMap.ofList (rs.map verbEntry)).values ↔
      (ofVerb record.verb.text rs).getLast? = some record := by
  rw [OrderedMap.mem_values_iff]
  simp only [get?_ofList_verbEntry]
  constructor
  · intro hlast
    rcases hlast with ⟨verb, hlast⟩
    rw [(mem_ofVerb_iff.mp (List.mem_of_getLast? hlast)).right]
    exact hlast
  · intro hlast
    exact ⟨record.verb.text, hlast⟩

/-- Of each verb the last record is kept. -/
theorem Remembers.mem_values_iff_last (h : e.Remembers inputs) (record : RuleRecord) :
    record ∈ e.records.values ↔
      (ofVerb record.verb.text (recorded inputs)).getLast? = some record := by
  rw [h.records]
  exact mem_values_ofList_verbEntry_iff (recorded inputs) record

theorem Remembers.mem_recorded_of_mem_values (h : e.Remembers inputs) {record : RuleRecord}
    (hrecord : record ∈ e.records.values) : record ∈ recorded inputs :=
  (mem_ofVerb_iff.mp (List.mem_of_getLast? ((h.mem_values_iff_last record).mp hrecord))).left

/-- A record that is not kept gave way to a different one of its verb. -/
theorem Remembers.mem_values_or_replaced (h : e.Remembers inputs) {record : RuleRecord}
    (hrecord : record ∈ recorded inputs) :
    record ∈ e.records.values ∨ exists other, other ∈ e.records.values ∧
      other.verb = record.verb ∧ other ≠ record := by
  by_cases hkept : record ∈ e.records.values
  · exact Or.inl hkept
  · right
    have hmem : record ∈ ofVerb record.verb.text (recorded inputs) :=
      mem_ofVerb_iff.mpr ⟨hrecord, rfl⟩
    have hsome := List.getLast?_isSome.mpr (List.ne_nil_of_mem hmem)
    rcases Option.isSome_iff_exists.mp hsome with ⟨last, hlast⟩
    have hverb := (mem_ofVerb_iff.mp (List.mem_of_getLast? hlast)).right
    have hlastKept : last ∈ e.records.values := by
      rw [h.mem_values_iff_last, hverb]
      exact hlast
    refine ⟨last, hlastKept, Functor.eq_of_text_eq hverb, ?_⟩
    intro heq
    exact hkept (heq ▸ hlastKept)

theorem exists_rules_of_mem_recorded {record : RuleRecord} (h : record ∈ recorded inputs) :
    exists rules, record.rules = .ok rules := by
  rcases exists_input_of_mem_recorded h with ⟨_, _, hrules, _⟩
  exact hrules

/-!
# Rules of records
-/

/-- The records that an engine keeps account for its learned rules. -/
structure AccountsFor (e : Engine) (inputs : List Input) : Prop where
  kept_iff : forall record, record ∈ e.records.values ↔
    (ofVerb record.verb.text (recorded inputs)).getLast? = some record
  in_force : forall record, record ∈ e.records.values -> exists rules, record.rules = .ok rules ∧
    forall r, r ∈ rules -> e.rulebook.rules.contains r = true
  learned : forall r, r ∈ e.learnedRules -> exists record rules, record ∈ recorded inputs ∧
    record.rules = .ok rules ∧ r ∈ rules ∧
      (record ∈ e.records.values ∨ exists other, other ∈ e.records.values ∧
        other.verb = record.verb ∧ other ≠ record)
  complete : OneRecordPerVerb inputs -> forall r, r ∈ e.learnedRules ->
    exists record rules, record ∈ e.records.values ∧ record.rules = .ok rules ∧ r ∈ rules

variable {start : Engine}

theorem Follows.contains_of_mem_learned (h : Follows start e inputs) {r : Rule}
    (hr : r ∈ Engine.learned inputs) : e.rulebook.rules.contains r = true := by
  have hrefl : forall x : Rule, x.same x = true := fun x => Rule.same_iff.mpr rfl
  rcases exists_mem_eraseDupsBy hrefl hr with ⟨first, hfirst, hsame⟩
  exact h.knows.contains_of_same_learned (List.any_eq_true.mpr ⟨first, hfirst, hsame⟩)

/-- An engine that is told records has their rules in force. -/
theorem contains_run_reteach {date : Moment} {maxDepth : Int} {taxonomy : Taxonomy}
    {audit : Option AuditLog} (hstart : create date maxDepth taxonomy audit = .ok start)
    {records : List RuleRecord}
    (hrules : forall record, record ∈ records -> exists rules, record.rules = .ok rules)
    {record : RuleRecord} (hrecord : record ∈ records) {r : Rule} (hr : r ∈ recordRules record) :
    (start.run (records.map reteach)).rulebook.rules.contains r = true := by
  apply ((follows_create hstart).run (records.map reteach)).contains_of_mem_learned
  rw [List.nil_append, learned_eq_flatMap_recorded, recorded_reteach hrules, List.mem_flatMap]
  · exact ⟨record, hrecord, hr⟩
  · intro input hinput
    rcases List.mem_map.mp hinput with ⟨_, _, rfl⟩
    trivial

theorem accountsFor_of_origins {calls : List Call} (h : Origins start e calls)
    (hrecords : e.Remembers (sinceReset calls))
    (hcalls : forall input, .tell input ∈ calls -> input.HasRecord) :
    e.AccountsFor (sinceReset calls) := by
  have hrule : forall r, r ∈ Engine.learned (sinceReset calls) ↔
      exists record, record ∈ recorded (sinceReset calls) ∧ r ∈ recordRules record := by
    intro r
    rw [learned_eq_flatMap_recorded, List.mem_flatMap]
    intro input hinput
    exact hcalls input (tell_mem_of_mem_told (mem_told_of_mem_sinceReset hinput))
  have hlearned : forall r, r ∈ e.learnedRules -> exists record rules,
      record ∈ recorded (sinceReset calls) ∧ record.rules = .ok rules ∧ r ∈ rules := by
    intro r hr
    rcases List.mem_filter.mp hr with ⟨hmem, hsource⟩
    rcases (hrule r).mp (h.learned r hmem (of_decide_eq_true hsource)) with
      ⟨record, hrecord, hmade⟩
    rcases exists_rules_of_mem_recorded hrecord with ⟨rules, hrules⟩
    rw [recordRules_of_ok hrules] at hmade
    exact ⟨record, rules, hrecord, hrules, hmade⟩
  constructor
  case kept_iff => exact hrecords.mem_values_iff_last
  case in_force =>
    intro record hkept
    have hrecord := hrecords.mem_recorded_of_mem_values hkept
    rcases exists_rules_of_mem_recorded hrecord with ⟨rules, hrules⟩
    refine ⟨rules, hrules, ?_⟩
    intro r hr
    apply h.in_force r
    rw [← recordRules_of_ok hrules] at hr
    exact (hrule r).mpr ⟨record, hrecord, hr⟩
  case learned =>
    intro r hr
    rcases hlearned r hr with ⟨record, rules, hrecord, hrules, hmade⟩
    exact ⟨record, rules, hrecord, hrules, hmade, hrecords.mem_values_or_replaced hrecord⟩
  case complete =>
    intro honce r hr
    rcases hlearned r hr with ⟨record, rules, hrecord, hrules, hmade⟩
    exact ⟨record, rules, (hrecords.mem_values_iff honce record).mpr hrecord, hrules, hmade⟩

/-- The records that are kept account for the learned rules, but for those of records that were
replaced.  If none was replaced by a different one, another engine that is told the records has
every learned rule in force. -/
theorem records_account_for_rules {date : Moment} {maxDepth : Int} {taxonomy : Taxonomy}
    {audit : Option AuditLog} (hstart : create date maxDepth taxonomy audit = .ok start)
    (calls : List Call) (hcalls : forall input, .tell input ∈ calls -> input.HasRecord) :
    (start.performAll calls).AccountsFor (sinceReset calls) ∧
      (OneRecordPerVerb (sinceReset calls) ->
        forall date' maxDepth' taxonomy' audit' fresh,
          create date' maxDepth' taxonomy' audit' = .ok fresh ->
          forall r, r ∈ (start.performAll calls).learnedRules ->
            (fresh.run ((start.performAll calls).records.values.map reteach)
              ).rulebook.rules.contains r = true) := by
  have horigins := (origins_create hstart).performAll (descends_create hstart) calls
  have haccounts := accountsFor_of_origins horigins ((remembers_create hstart).performAll calls)
    hcalls
  constructor
  · exact haccounts
  · intro honce date' maxDepth' taxonomy' audit' fresh hfresh r hr
    rcases haccounts.complete honce r hr with ⟨record, rules, hkept, hrules, hmade⟩
    rw [← recordRules_of_ok hrules] at hmade
    apply contains_run_reteach hfresh _ hkept hmade
    intro other hother
    rcases haccounts.in_force other hother with ⟨rules', hrules', _⟩
    exact ⟨rules', hrules'⟩

end Engine

/-!
# Two records of one verb
-/

namespace Residence

def registeredIn : Functor :=
  ⟨"registered_in", by decide +kernel⟩

/-- Another record of the same verb: whoever settles somewhere is registered there. -/
def registered : RuleRecord where
  verb := settled.verb
  type := .instantaneous
  initiates := [⟨registeredIn, none⟩]
  terminates := []

/-- The rules of the two records. -/
def settlingHome : Rule :=
  ⟨settled.event, .initiates, ⟨livesIn, recordSlots⟩, true, .learned⟩

def registering : Rule :=
  ⟨registered.event, .initiates, ⟨registeredIn, recordSlots⟩, false, .learned⟩

/-- The records are taught, dropped, and then one of them is taught twice. -/
def taughtAgain : List Engine.Call :=
  [.tell (.rules (.record registered)), .tell (.rules (.data settling)), .reset, .tell tellRome,
    .tell (.rules (.record settled)), .tell (.rules (.data settling))]

def taughtTwice : List Engine.Call :=
  [.tell (.rules (.record settled)), .tell (.rules (.record registered))]

end Residence

namespace Engine

theorem records_account_for_rules_taughtAgain :
    create (.date Residence.firstDay) EventStore.defaultMaxDepth Taxonomy.standard none =
        .ok Residence.engine ∧
      (forall input, .tell input ∈ Residence.taughtAgain -> input.HasRecord) ∧
      OneRecordPerVerb (sinceReset Residence.taughtAgain) ∧
      (Residence.engine.performAll Residence.taughtAgain).AccountsFor
        (sinceReset Residence.taughtAgain) ∧
      forall r, r ∈ (Residence.engine.performAll Residence.taughtAgain).learnedRules ->
        (Residence.engine.run ((Residence.engine.performAll
          Residence.taughtAgain).records.values.map reteach)).rulebook.rules.contains r = true := by
  have hcreate : create (.date Residence.firstDay) EventStore.defaultMaxDepth Taxonomy.standard
      none = .ok Residence.engine := rfl
  have hcalls : forall input, .tell input ∈ Residence.taughtAgain -> input.HasRecord := by
    intro input h
    simp only [Residence.taughtAgain, List.mem_cons, List.not_mem_nil, or_false,
      Call.tell.injEq, reduceCtorEq, false_or] at h
    rcases h with rfl | rfl | rfl | rfl | rfl
    all_goals trivial
  have hrecorded : recorded (sinceReset Residence.taughtAgain) =
      [Residence.settled, Residence.settled] := by
    decide +kernel
  have honce : OneRecordPerVerb (sinceReset Residence.taughtAgain) := by
    intro r r' hr hr' _
    simp only [hrecorded, List.mem_cons, List.not_mem_nil, or_self, or_false] at hr hr'
    rw [hr, hr']
  rcases records_account_for_rules hcreate Residence.taughtAgain hcalls with ⟨haccounts, hteach⟩
  exact ⟨hcreate, hcalls, honce, haccounts, hteach honce _ _ _ _ Residence.engine hcreate⟩

/-- The first record is replaced, and its rule stays in force.  An engine that is taught the
record that is left does not have it. -/
theorem rule_without_record_taughtTwice :
    create (.date Residence.firstDay) EventStore.defaultMaxDepth Taxonomy.standard none =
        .ok Residence.engine ∧
      (forall input, .tell input ∈ Residence.taughtTwice -> input.HasRecord) ∧
      exists r, r ∈ (Residence.engine.performAll Residence.taughtTwice).learnedRules ∧
        (forall record,
          record ∈ (Residence.engine.performAll Residence.taughtTwice).records.values ->
          forall rules, record.rules = .ok rules ->
            forall other, other ∈ rules -> other.same r = false) ∧
        (Residence.engine.run ((Residence.engine.performAll
          Residence.taughtTwice).records.values.map reteach)).rulebook.rules.contains r =
            false := by
  have hkept : (Residence.engine.performAll Residence.taughtTwice).records.values =
      [Residence.registered] := by
    decide +kernel
  have hrules : Residence.registered.rules.toOption = some [Residence.registering] := by
    decide +kernel
  refine ⟨rfl, ?_, Residence.settlingHome, by decide +kernel, ?_, by decide +kernel⟩
  · intro input h
    simp only [Residence.taughtTwice, List.mem_cons, List.not_mem_nil, or_false,
      Call.tell.injEq] at h
    rcases h with rfl | rfl
    · trivial
    · trivial
  · intro record hrecord rules hmade other hother
    rw [hkept, List.mem_singleton] at hrecord
    rw [hrecord, toOption_eq_some_iff.mp hrules, Except.ok.injEq] at hmade
    rw [← hmade, List.mem_singleton] at hother
    rw [hother]
    decide

end Engine
end EventCalculus

import EventCalculus.Proofs.LearnedRecords

/-!
# Archived records

An archive keeps the data of the record that was saved last for each verb.  The data of a record
that was read from data describe this record, so what is loaded is what was saved: one record for
each verb, in the order of verbs, with the same rules or the same fault.
-/

namespace EventCalculus

/-!
# Maps of data
-/

section
variable {κ α β : Type} [DecidableEq κ] (f : α -> β)

theorem insertEntry_map (key : κ) (value : α) (entries : List (κ × α)) :
    insertEntry key (f value) (entries.map fun entry => (entry.1, f entry.2)) =
      (insertEntry key value entries).map fun entry => (entry.1, f entry.2) := by
  induction entries with
  | nil => rfl
  | cons entry rest ih =>
      rcases entry with ⟨k, v⟩
      simp only [List.map_cons, insertEntry]
      by_cases hk : k = key
      · rw [if_pos hk, if_pos hk, List.map_cons]
      · rw [if_neg hk, if_neg hk, List.map_cons, ih]

/-- Values may be written as data before or after they are put into a map. -/
theorem OrderedMap.entries_ofList_map (entries : List (κ × α)) :
    (ofList (entries.map fun entry => (entry.1, f entry.2))).entries =
      (ofList entries).entries.map fun entry => (entry.1, f entry.2) := by
  induction entries using List.reverseRecOn with
  | nil => rfl
  | append_singleton rest last ih =>
      rw [List.map_append, List.map_singleton, ofList_snoc, ofList_snoc]
      show insertEntry last.1 (f last.2) (ofList (rest.map _)).entries = _
      rw [ih, insertEntry_map]
      rfl

end

namespace Archive

open Engine

/-!
# Calls
-/

/-- A call that changes the records of an archive. -/
inductive RecordCall where
  | save (r : RuleRecord)
  | clear

def performRecord (a : Archive) : RecordCall -> Archive
  | .save r => a.saveRecord r
  | .clear => a.clear

def performRecords (a : Archive) (calls : List RecordCall) : Archive :=
  calls.foldl performRecord a

/-- The records saved since the last clearing, after one more call. -/
def recordsAfter (before : List RuleRecord) : RecordCall -> List RuleRecord
  | .save r => before ++ [r]
  | .clear => []

/-- The records saved since the last clearing, from first to last. -/
def savedRecords (calls : List RecordCall) : List RuleRecord :=
  calls.foldl recordsAfter []

theorem save_mem_of_mem_savedRecords {calls : List RecordCall} {r : RuleRecord}
    (h : r ∈ savedRecords calls) : .save r ∈ calls := by
  induction calls using List.reverseRecOn with
  | nil => cases h
  | append_singleton rest last ih =>
      rw [savedRecords, List.foldl_append] at h
      cases last with
      | clear => cases h
      | save saved =>
          rcases List.mem_append.mp h with hold | hnew
          · exact List.mem_append_left _ (ih hold)
          · rw [List.mem_singleton.mp hnew]
            exact List.mem_append_right _ List.mem_cons_self

theorem records_performRecords (calls : List RecordCall) :
    (empty.performRecords calls).records = OrderedMap.ofList ((savedRecords calls).map dataEntry) := by
  induction calls using List.reverseRecOn with
  | nil => rfl
  | append_singleton rest last ih =>
      rw [performRecords, savedRecords, List.foldl_append, List.foldl_append]
      cases last with
      | clear => rfl
      | save r =>
          show (empty.performRecords rest).records.insert r.verb.text r.toValue =
            OrderedMap.ofList ((savedRecords rest ++ [r]).map dataEntry)
          rw [ih, List.map_append, List.map_singleton, OrderedMap.ofList_snoc]
          rfl

/-!
# Loading
-/

/-- The last record of each verb. -/
def lastRecords (saved : List RuleRecord) : List RuleRecord :=
  (OrderedMap.ofList (saved.map verbEntry)).values

theorem mem_of_mem_lastRecords {saved : List RuleRecord} {r : RuleRecord}
    (h : r ∈ lastRecords saved) : r ∈ saved := by
  rw [lastRecords, mem_values_ofList_verbEntry_iff] at h
  exact (mem_ofVerb_iff.mp (List.mem_of_getLast? h)).left

/-- The archive has the data of the last records. -/
theorem entries_ofList_dataEntry (saved : List RuleRecord) :
    (OrderedMap.ofList (saved.map dataEntry)).entries = (lastRecords saved).map dataEntry := by
  have hdata : saved.map dataEntry =
      (saved.map verbEntry).map fun entry => (entry.1, entry.2.toValue) := by
    rw [List.map_map]
    rfl
  rw [hdata, OrderedMap.entries_ofList_map, lastRecords, OrderedMap.values, List.map_map]
  apply List.map_congr_left
  intro entry hentry
  rcases List.mem_map.mp (OrderedMap.mem_of_mem_entries_ofList hentry) with ⟨r, _, rfl⟩
  rfl

theorem pairwise_lastRecords (saved : List RuleRecord) :
    ((lastRecords saved).mergeSort byVerb).Pairwise fun r r' => r.verb.text < r'.verb.text := by
  apply pairwise_mergeSort_lt fun r : RuleRecord => r.verb.text
  rw [lastRecords, map_verb_values]
  exact OrderedMap.nodup_keys _

/-- What is loaded is one record for each verb that was saved, in the order of verbs, and equal to
the last one saved, so it compiles alike. -/
structure RecallsRecords (saved loaded : List RuleRecord) : Prop where
  ascending : loaded.Pairwise fun r r' => r.verb.text < r'.verb.text
  verb_iff : forall verb, (exists r, r ∈ loaded ∧ r.verb.text = verb) ↔
    exists r, r ∈ saved ∧ r.verb.text = verb
  mem_iff : forall r, r ∈ loaded ↔ (ofVerb r.verb.text saved).getLast? = some r
  compiles : forall r verb, r ∈ loaded -> r.verb.text = verb ->
    exists last, (ofVerb verb saved).getLast? = some last ∧ r.rules = last.rules ∧
      forall b : Rulebook, b.compileRecord r = b.compileRecord last

theorem recallsRecords_lastRecords (saved : List RuleRecord) :
    RecallsRecords saved ((lastRecords saved).mergeSort byVerb) := by
  have hmem : forall r, r ∈ (lastRecords saved).mergeSort byVerb ↔
      (ofVerb r.verb.text saved).getLast? = some r := by
    intro r
    rw [List.mem_mergeSort]
    exact mem_values_ofList_verbEntry_iff saved r
  constructor
  case ascending => exact pairwise_lastRecords saved
  case verb_iff =>
    intro verb
    constructor
    · intro h
      rcases h with ⟨r, hr, hverb⟩
      exact ⟨r, mem_of_mem_lastRecords (List.mem_mergeSort.mp hr), hverb⟩
    · intro h
      rcases h with ⟨r, hr, hverb⟩
      have hofVerb : r ∈ ofVerb verb saved := mem_ofVerb_iff.mpr ⟨hr, hverb⟩
      have hsome := List.getLast?_isSome.mpr (List.ne_nil_of_mem hofVerb)
      rcases Option.isSome_iff_exists.mp hsome with ⟨last, hlast⟩
      have hlastVerb := (mem_ofVerb_iff.mp (List.mem_of_getLast? hlast)).right
      refine ⟨last, (hmem last).mpr ?_, hlastVerb⟩
      rw [hlastVerb]
      exact hlast
  case mem_iff => exact hmem
  case compiles =>
    intro r verb hr hverb
    rw [← hverb]
    exact ⟨r, (hmem r).mp hr, rfl, fun _ => rfl⟩

/-- After any calls that save and clear records, loading succeeds and the last write of each verb
wins. -/
theorem records_recalled (calls : List RecordCall)
    (hread : forall r, .save r ∈ calls -> r.IsRead) :
    exists loaded, (empty.performRecords calls).loadRecords = .ok loaded ∧
      RecallsRecords (savedRecords calls) loaded := by
  have hentries : (empty.performRecords calls).records.entries =
      (lastRecords (savedRecords calls)).map dataEntry := by
    rw [records_performRecords, entries_ofList_dataEntry]
  have hlast : forall r, r ∈ lastRecords (savedRecords calls) -> r.IsRead :=
    fun r hr => hread r (save_mem_of_mem_savedRecords (mem_of_mem_lastRecords hr))
  exact ⟨_, loadRecords_of_entries hentries hlast, recallsRecords_lastRecords (savedRecords calls)⟩

end Archive

namespace Residence

/-- Whoever moves is registered in the new place. -/
def reregistered : RuleRecord where
  verb := movedTo
  type := .stateChange
  initiates := [⟨registeredIn, some "registered_in(Subject, Object)"⟩]
  terminates := []

/-- A record is cleared away, and of two records of one verb the later one remains. -/
def archiving : List Archive.RecordCall :=
  [.save reregistered, .clear, .save settled, .save reregistered, .save registered]

end Residence

namespace Archive

open Residence

theorem records_recalled_archiving :
    (forall r, .save r ∈ archiving -> r.IsRead) ∧
      savedRecords archiving = [settled, reregistered, registered] ∧
      exists loaded, (empty.performRecords archiving).loadRecords = .ok loaded ∧
        RecallsRecords (savedRecords archiving) loaded ∧ registered ∈ loaded ∧
        settled ∉ loaded := by
  have hread : forall r, .save r ∈ archiving -> r.IsRead := by
    intro r hr
    simp only [archiving, List.mem_cons, List.not_mem_nil, or_false, RecordCall.save.injEq,
      reduceCtorEq, false_or] at hr
    rcases hr with rfl | rfl | rfl | rfl
    · exact ⟨reregistered.toValue, .null, rfl⟩
    · exact ⟨settling, .null, rfl⟩
    · exact ⟨reregistered.toValue, .null, rfl⟩
    · exact ⟨registered.toValue, .null, rfl⟩
  rcases records_recalled archiving hread with ⟨loaded, hload, hrecalls⟩
  refine ⟨hread, rfl, loaded, hload, hrecalls, (hrecalls.mem_iff registered).mpr rfl, ?_⟩
  intro hmem
  exact absurd ((hrecalls.mem_iff settled).mp hmem) (by decide +kernel)

end Archive
end EventCalculus

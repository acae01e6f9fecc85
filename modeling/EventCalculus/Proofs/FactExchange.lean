import EventCalculus.Archive.Snapshot
import EventCalculus.Proofs.ArchiveLoading
import EventCalculus.Proofs.CutTexts
import EventCalculus.Proofs.EngineHistory

/-!
# Facts that archives exchange

What one archive writes as facts another one reads.  The timestamps of an archive
are in normal form, so they come back as they are, and the facts are written in
the order of time.  The only thing that can go wrong is that a text or an atom in
quotes has a character that ends lines and is not escaped.
-/

namespace EventCalculus

/-!
# Timestamps that are kept
-/

theorem Moment.isReal_text (source : String) : (Moment.text source).IsReal :=
  trivial

theorem isTimestamp_of_readFact {number : Nat} {cs : List Char} {fact : Compound × String}
    (h : readFact number cs = .ok fact) : IsTimestamp fact.2 := by
  unfold readFact at h
  split at h
  · cases h
  · split at h
    · cases h
    · split at h
      · cases h
      · rename_i moment _ _ _ _
        rcases exists_of_map_eq_ok h with ⟨timestamp, htime, rfl⟩
        exact timestampOf_text (Moment.isReal_text _) htime

theorem isTimestamp_of_occurrence {v : Value} {m : Moment} (hm : m.IsReal)
    {fact : Compound × String} (h : occurrence v m = .ok fact) : IsTimestamp fact.2 := by
  rcases exists_of_bind_eq_ok h with ⟨c, _, hmore⟩
  rcases exists_of_bind_eq_ok hmore with ⟨timestamp, htime, hfact⟩
  cases hfact
  exact timestampOf_text hm htime

namespace Engine

def Call.IsReal : Call -> Prop
  | .tell (.event _ m) => m.IsReal
  | .tell (.rules _) => True
  | .reset => True

def IsTimed (e : Engine) : Prop :=
  forall x, x ∈ e.store.events -> IsTimestamp x.timestamp

theorem isTimed_create {date : Moment} {maxDepth : Int} {taxonomy : Taxonomy}
    {audit : Option AuditLog} {e : Engine} (h : create date maxDepth taxonomy audit = .ok e) :
    e.IsTimed := by
  rcases exists_of_map_eq_ok h with ⟨currentDate, _, rfl⟩
  intro x hx
  cases hx

theorem IsTimed.performAll {e : Engine} (h : e.IsTimed) {calls : List Call}
    (hcalls : forall call, call ∈ calls -> call.IsReal) : (e.performAll calls).IsTimed := by
  intro x hx
  rcases mem_events_performAll hx with hold | ⟨v, m, hcall, before, hprepare⟩
  · exact h x hold
  · exact timestampOf_text (hcalls _ hcall) (exists_of_prepareEvent_eq_ok hprepare).left

end Engine

def Event.fact (e : Event) : Compound × String :=
  (e.description, e.timestamp)

namespace Archive

def Call.IsReal : Call -> Prop
  | .saveEvent _ m => m.IsReal
  | .saveEvents _ => True
  | .importFacts _ => True
  | .clear => True

/-- The archives that calls, records and snapshots of engines lead to.  A call that fails after some
of its events leads where the call with these events alone does. -/
inductive Reachable : Archive -> Prop where
  | empty : Reachable empty
  | perform {a next : Archive} {call : Call} (ha : a.Reachable) (hcall : call.IsReal)
      (h : a.perform call = .ok next) : next.Reachable
  | saveRecord {a : Archive} (ha : a.Reachable) (r : RuleRecord) : (a.saveRecord r).Reachable
  | snapshot {a : Archive} (ha : a.Reachable) {date : Moment} {maxDepth : Int}
      {taxonomy : Taxonomy} {audit : Option AuditLog} {start : Engine}
      (hstart : Engine.create date maxDepth taxonomy audit = .ok start)
      {calls : List Engine.Call} (hcalls : forall call, call ∈ calls -> call.IsReal) :
      (a.snapshot (start.performAll calls)).2.Reachable

def IsTimed (a : Archive) : Prop :=
  forall r, r ∈ a.rows -> IsTimestamp r.timestamp

theorem isTimestamp_of_mem_given {call : Call} (hcall : call.IsReal)
    {list : List (Compound × String)} (h : call.given = .ok list) {p : Compound × String}
    (hp : p ∈ list) : IsTimestamp p.2 := by
  rcases exists_of_mem_given h hp with ⟨v, m, hread, rfl | ⟨source, rfl⟩⟩ | ⟨number, cs, hread⟩
  · exact isTimestamp_of_occurrence hcall hread
  · exact isTimestamp_of_occurrence (Moment.isReal_text source) hread
  · exact isTimestamp_of_readFact hread

section
variable {a : Archive}

theorem IsTimed.save (h : a.IsTimed) (c : Compound) {timestamp : String}
    (htime : IsTimestamp timestamp) : (a.save c timestamp).2.IsTimed := by
  unfold Archive.save
  split
  · exact h
  · intro r hr
    cases List.mem_append.mp hr with
    | inl hold => exact h r hold
    | inr hnew =>
        rw [List.mem_singleton.mp hnew]
        exact htime

theorem IsTimed.saveAll (h : a.IsTimed) {list : List (Compound × String)}
    (hlist : forall p, p ∈ list -> IsTimestamp p.2) : (a.saveAll list).2.IsTimed := by
  induction list generalizing a with
  | nil => exact h
  | cons p rest ih =>
      apply ih (h.save p.1 (hlist p List.mem_cons_self))
      intro q hq
      exact hlist q (List.mem_cons_of_mem p hq)

theorem rows_foldl_saveRecord (rs : List RuleRecord) (a : Archive) :
    (rs.foldl Archive.saveRecord a).rows = a.rows := by
  induction rs generalizing a with
  | nil => rfl
  | cons r rest ih => exact ih (a.saveRecord r)

theorem mem_events_of_mem_between {s : EventStore} {start stop : Option String} {x : Event}
    (hx : x ∈ s.between start stop) : x ∈ s.events := by
  rcases List.mem_filterMap.mp hx with ⟨entry, _, hget⟩
  unfold EventStore.get? at hget
  split at hget
  · exact List.mem_of_getElem? hget
  · cases hget

theorem Reachable.isTimed (h : a.Reachable) : a.IsTimed := by
  induction h with
  | empty =>
      intro r hr
      cases hr
  | perform _ hcall hperform ih =>
      rcases perform_eq_ok hperform with ⟨_, rfl⟩ | ⟨list, hgiven, rfl, _⟩
      · intro r hr
        cases hr
      · exact ih.saveAll fun p hp => isTimestamp_of_mem_given hcall hgiven hp
  | saveRecord _ r ih => exact ih
  | @snapshot a _ date maxDepth taxonomy audit start hstart calls hcalls ih =>
      have hevents := (Engine.isTimed_create hstart).performAll hcalls
      have hrecords :
          IsTimed ((start.performAll calls).records.values.foldl Archive.saveRecord a) := by
        intro r hr
        rw [rows_foldl_saveRecord] at hr
        exact ih r hr
      apply hrecords.saveAll
      intro p hp
      rcases List.mem_map.mp hp with ⟨x, hx, rfl⟩
      exact hevents x (mem_events_of_mem_between hx)

theorem Reachable.performAll (h : a.Reachable) {calls : List Call}
    (hcalls : forall call, call ∈ calls -> call.IsReal) {next : Archive}
    (hperform : a.performAll calls = .ok next) : next.Reachable := by
  induction calls generalizing a with
  | nil =>
      cases hperform
      exact h
  | cons call rest ih =>
      rcases exists_of_bind_eq_ok hperform with ⟨between, hfirst, hrest⟩
      have hbetween := h.perform (hcalls call List.mem_cons_self) hfirst
      exact ih hbetween (fun other hother => hcalls other (List.mem_cons_of_mem call hother)) hrest

/-!
# Writing facts
-/

/-- The characters of a fact file. -/
def factChars (facts : List (Compound × String)) : List Char :=
  (facts.map factLine).flatMap (· ++ ['\n'])

/-- What is loaded are facts with timestamps in normal form, in the order of time. -/
theorem IsTimed.of_loadEvents (h : a.IsTimed) {events : List Event}
    (hload : a.loadEvents none none = .ok events) :
    (forall e, e ∈ events -> e.description.isGround = true ∧ IsTimestamp e.timestamp) ∧
      events.Pairwise fun e e' => e.timestamp ≤ e'.timestamp := by
  have hnone : (none : Option Moment).mapM timestampOf = .ok none := rfl
  rw [a.loadEvents_eq hnone hnone] at hload
  constructor
  · intro e he
    rcases exists_of_mem_of_mapM_eq_ok hload he with ⟨r, hr, hevent⟩
    rcases exists_of_map_eq_ok hevent with ⟨c, hread, rfl⟩
    exact ⟨isGround_of_readOccurrence hread, h r ((mem_sortedRows_iff r).mp hr).left⟩
  · have htimes : events.map Event.timestamp =
        (a.sortedRows none none).map ArchiveRow.timestamp := by
      apply map_eq_map_of_mapM_eq_ok hload
      intro r e hevent
      rcases exists_of_map_eq_ok hevent with ⟨c, _, rfl⟩
      rfl
    have hsorted : (events.map Event.timestamp).Pairwise (· ≤ ·) := by
      rw [htimes, List.pairwise_map]
      apply pairwise_sortedRows.imp
      intro r r' hle
      rcases (ArchiveRow.notAfter_iff r r').mp hle with hlt | ⟨heq, _⟩
      · exact le_of_lt hlt
      · exact le_of_eq heq
    exact List.pairwise_map.mp hsorted

theorem toList_join_factTexts {events : List Event}
    (h : forall e, e ∈ events -> IsTimestamp e.timestamp) :
    (String.join (events.map fun e => e.text ++ ".\n")).toList =
      factChars (events.map Event.fact) := by
  have hline : forall e, e ∈ events ->
      (e.text ++ ".\n").toList = factLine e.fact ++ ['\n'] :=
    fun e he => toList_factText (h e he)
  rw [String.toList_join, factChars, List.map_map, List.flatMap_map, List.flatMap_map]
  exact List.flatMap_congr hline

end

/-!
# Reading facts
-/

section
variable {facts : List (Compound × String)} (h : forall fact, fact ∈ facts -> IsFact fact)
include h

theorem readFacts_factChars (hline : forall fact, fact ∈ facts -> fact.1.OnOneLine)
    (number : Nat) : readFacts number (Text.lines (factChars facts)) = .ok facts := by
  have hlines : forall cs, cs ∈ facts.map factLine -> Text.OnOneLine cs := by
    intro cs hcs
    rcases List.mem_map.mp hcs with ⟨fact, hfact, rfl⟩
    exact (h fact hfact).onOneLine_factLine_iff.mpr (hline fact hfact)
  rw [factChars, Text.lines_flatMap hlines, readFacts_map_factLine h]

/-- The first fact that is not on one line is cut, so nothing is read at all. -/
theorem onOneLine_of_readFacts {number : Nat} {read : List (Compound × String)}
    (hread : readFacts number (Text.lines (factChars facts)) = .ok read) :
    forall fact, fact ∈ facts -> fact.1.OnOneLine := by
  induction facts generalizing number read with
  | nil =>
      intro fact hfact
      cases hfact
  | cons first rest ih =>
      have hfirst := h first List.mem_cons_self
      have hchars : factChars (first :: rest) = factLine first ++ '\n' :: factChars rest := by
        rw [factChars, List.map_cons, List.flatMap_cons, List.append_assoc]
        rfl
      rw [hchars] at hread
      by_cases hline : first.1.OnOneLine
      · rw [Text.lines_append_lineFeed (hfirst.onOneLine_factLine_iff.mpr hline),
          hfirst.readFacts_cons] at hread
        rcases exists_of_map_eq_ok hread with ⟨others, hothers, _⟩
        intro fact hfact
        cases List.mem_cons.mp hfact with
        | inl heq =>
            rw [heq]
            exact hline
        | inr hmem =>
            exact ih (fun f hf => h f (List.mem_cons_of_mem first hf)) hothers fact hmem
      · exact absurd hread (hfirst.readFacts_lines_ne_ok hline number _ read)

end

/-!
# The archive that takes the facts in
-/

section
variable {facts : List (Compound × String)} (h : forall fact, fact ∈ facts -> IsFact fact)
include h

theorem eraseDups_texts : (texts facts).eraseDups = texts facts.eraseDups := by
  apply eraseDups_map_of_injective
  intro p q hp hq heq
  rcases Prod.mk.inj heq with ⟨hrender, htime⟩
  exact Prod.ext ((h p hp).readsBack.eq_of_render_eq (h q hq).readsBack hrender) htime

theorem exists_mapM_toEvent {rows : List ArchiveRow}
    (hrows : rows.map ArchiveRow.texts = texts facts) :
    exists events, rows.mapM ArchiveRow.toEvent = .ok events ∧
      events.map Event.fact = facts := by
  induction facts generalizing rows with
  | nil =>
      rw [List.map_eq_nil_iff.mp hrows]
      exact ⟨[], rfl, rfl⟩
  | cons fact rest ih =>
      rcases List.map_eq_cons_iff.mp hrows with ⟨r, more, rfl, hrow, hmore⟩
      rcases ih (fun f hf => h f (List.mem_cons_of_mem fact hf)) hmore with
        ⟨events, hevents, hsame⟩
      have hfact := h fact List.mem_cons_self
      have hdescription : r.description = fact.1.render := congrArg Prod.fst hrow
      have htime : r.timestamp = fact.2 := congrArg Prod.snd hrow
      have hevent : r.toEvent = .ok ⟨r.id, fact.1, fact.2⟩ := by
        rw [ArchiveRow.toEvent, hdescription, htime,
          readOccurrence_render hfact.readsBack hfact.ground]
        rfl
      refine ⟨⟨r.id, fact.1, fact.2⟩ :: events, ?_, by rw [List.map_cons, hsame]; rfl⟩
      rw [List.mapM_cons, hevent, hevents]
      rfl

/-- An archive without events that saves facts in the order of time loads them, each once. -/
theorem exists_loadEvents_saveAll {b : Archive} (hb : b.rows = [])
    (hsorted : facts.Pairwise fun p q => p.2 ≤ q.2) :
    exists events, (b.saveAll facts).2.loadEvents none none = .ok events ∧
      events.map Event.fact = facts.eraseDups := by
  have hkeeps : (b.saveAll facts).2.Keeps ([] ++ facts) := by
    cases b
    cases hb
    exact (keeps_nil _ _).saveAll fun p hp => (h p hp).ground
  have hrows : (b.saveAll facts).2.rows.map ArchiveRow.texts = texts facts.eraseDups := by
    rw [hkeeps.rows, List.nil_append, eraseDups_texts h]
  have htimes : ((b.saveAll facts).2.rows.map ArchiveRow.texts).Pairwise
      fun p q => p.2 ≤ q.2 := by
    rw [hrows, texts, List.pairwise_map]
    exact hsorted.sublist (eraseDupsBy_sublist _ facts)
  have hordered : (b.saveAll facts).2.rows.Pairwise fun r r' => r.notAfter r' = true := by
    apply (hkeeps.ids.and (List.pairwise_map.mp htimes)).imp
    intro r r' hpair
    rw [ArchiveRow.notAfter_iff]
    rcases lt_or_eq_of_le hpair.right with hlt | heq
    · exact Or.inl hlt
    · exact Or.inr ⟨heq, le_of_lt hpair.left⟩
  have hall : (b.saveAll facts).2.sortedRows none none = (b.saveAll facts).2.rows := by
    have hkept : forall r, r ∈ (b.saveAll facts).2.rows -> r.isBetween none none = true :=
      fun _ _ => rfl
    rw [sortedRows, List.filter_eq_self.mpr hkept, List.mergeSort_of_pairwise hordered]
  have hnone : (none : Option Moment).mapM timestampOf = .ok none := rfl
  rw [loadEvents_eq _ hnone hnone, hall]
  apply exists_mapM_toEvent _ hrows
  intro fact hfact
  exact h fact (List.mem_eraseDups.mp hfact)

end

/-- An archive without events takes in the facts of another one exactly if every description is on
one line, and then it loads the same facts in the same order, each once. -/
theorem facts_exchanged {a b : Archive} (ha : a.Reachable) (hb : b.rows = []) {events : List Event}
    (hload : a.loadEvents none none = .ok events)
    (hread : forall e, e ∈ events -> e.description.ReadsBack) :
    exists source, a.exportFacts = .ok source ∧
      ((exists count next, b.importFacts source = .ok (count, next)) ↔
        forall e, e ∈ events -> e.description.OnOneLine) ∧
      forall count next, b.importFacts source = .ok (count, next) ->
        exists others, next.loadEvents none none = .ok others ∧
          others.map Event.fact = (events.map Event.fact).eraseDups := by
  rcases ha.isTimed.of_loadEvents hload with ⟨hloaded, hordered⟩
  have hfacts : forall fact, fact ∈ events.map Event.fact -> IsFact fact := by
    intro fact hfact
    rcases List.mem_map.mp hfact with ⟨e, he, rfl⟩
    exact ⟨hread e he, (hloaded e he).left, (hloaded e he).right⟩
  have hsorted : (events.map Event.fact).Pairwise fun p q => p.2 ≤ q.2 :=
    List.pairwise_map.mpr hordered
  have hlines : (forall fact, fact ∈ events.map Event.fact -> fact.1.OnOneLine) ↔
      forall e, e ∈ events -> e.description.OnOneLine :=
    List.forall_mem_map
  have hexport : a.exportFacts = .ok (String.join (events.map fun e => e.text ++ ".\n")) := by
    rw [exportFacts, hload]
    rfl
  have himport : b.importFacts (String.join (events.map fun e => e.text ++ ".\n")) =
      (readFacts 1 (Text.lines (factChars (events.map Event.fact)))).map b.saveAll := by
    rw [importFacts, toList_join_factTexts fun e he => (hloaded e he).right]
  refine ⟨_, hexport, ?_, ?_⟩
  · rw [himport, ← hlines]
    constructor
    · intro hresult
      rcases hresult with ⟨count, next, hresult⟩
      rcases exists_of_map_eq_ok hresult with ⟨read, hlist, _⟩
      exact onOneLine_of_readFacts hfacts hlist
    · intro hline
      rw [readFacts_factChars hfacts hline]
      exact ⟨_, _, rfl⟩
  · intro count next hresult
    rw [himport] at hresult
    rcases exists_of_map_eq_ok hresult with ⟨read, hlist, hsaved⟩
    have hline := onOneLine_of_readFacts hfacts hlist
    rw [readFacts_factChars hfacts hline, Except.ok.injEq] at hlist
    rw [← hlist] at hsaved
    have hnext : next = (b.saveAll (events.map Event.fact)).2 := (congrArg Prod.snd hsaved).symm
    rw [hnext]
    exact exists_loadEvents_saveAll hfacts hb hsorted

def saying (verb : Functor) (words : String) : Compound :=
  ⟨verb, [Residence.alice, .text words]⟩

def said : Functor :=
  ⟨"said", by decide +kernel⟩

/-- The same verb with a line feed at its end, which loading drops. -/
def saidBelow : Functor :=
  ⟨"said\n", by decide +kernel⟩

def twoLines : Compound :=
  saying said "\"one\"\n100%."

def sayings : List Call :=
  [.saveEvent (.term (saying saidBelow "yes").toTerm) (.text "2024-01-01"),
    .saveEvents [⟨1, saying said "yes", "2024-01-01T00:00"⟩, ⟨2, twoLines, "2024-06-01T10:30"⟩]]

def sayingsArchive : Archive where
  rows := [⟨1, (saying saidBelow "yes").render, "said\n", "2024-01-01"⟩,
    ⟨2, (saying said "yes").render, "said", "2024-01-01"⟩,
    ⟨3, twoLines.render, "said", "2024-06-01T10:30:00"⟩]
  lastId := 3
  records := OrderedMap.empty

def sayingsEvents : List Event :=
  [⟨1, saying said "yes", "2024-01-01"⟩, ⟨2, saying said "yes", "2024-01-01"⟩,
    ⟨3, twoLines, "2024-06-01T10:30:00"⟩]

theorem reachable_sayings : sayingsArchive.Reachable := by
  have hcalls : forall call, call ∈ sayings -> call.IsReal := by
    intro call hcall
    simp only [sayings, List.mem_cons, List.not_mem_nil, or_false] at hcall
    rcases hcall with rfl | rfl
    · trivial
    · trivial
  exact Reachable.empty.performAll hcalls rfl

theorem loadEvents_sayings : sayingsArchive.loadEvents none none = .ok sayingsEvents := by
  have hyes : Term.parse (saying said "yes").render = .ok (saying said "yes").toTerm :=
    (Term.parse_render_eq_ok_iff _ _).mpr (by decide +kernel)
  have hbelow : Term.parse (saying saidBelow "yes").render = .ok (saying said "yes").toTerm :=
    (Term.parse_render_eq_ok_iff _ _).mpr (by decide +kernel)
  have htwo : Term.parse twoLines.render = .ok twoLines.toTerm :=
    (Term.parse_render_eq_ok_iff _ _).mpr (by decide +kernel)
  have hsorted : sayingsArchive.sortedRows none none = sayingsArchive.rows :=
    List.mergeSort_of_pairwise (by decide +kernel)
  have hnone : (none : Option Moment).mapM timestampOf = .ok none := rfl
  rw [loadEvents_eq _ hnone hnone, hsorted]
  simp only [sayingsArchive, List.mapM_cons, ArchiveRow.toEvent,
    readOccurrence_of_parse hyes rfl, readOccurrence_of_parse hbelow rfl,
    readOccurrence_of_parse htwo rfl, List.mapM_nil]
  rfl

/-- What was said goes to an archive that was cleared, and what is loaded twice arrives once. -/
theorem facts_exchanged_sayings :
    sayingsArchive.Reachable ∧ movesArchive.clear.rows = [] ∧
      sayingsArchive.loadEvents none none = .ok sayingsEvents ∧
      (forall e, e ∈ sayingsEvents -> e.description.ReadsBack) ∧
      exists source count next others, sayingsArchive.exportFacts = .ok source ∧
        movesArchive.clear.importFacts source = .ok (count, next) ∧
        next.loadEvents none none = .ok others ∧
        others.map Event.fact =
          [(saying said "yes", "2024-01-01"), (twoLines, "2024-06-01T10:30:00")] := by
  have hyes : (saying said "yes").ReadsBack :=
    Compound.readsBack_of_reading? (by decide +kernel)
  have htwo : twoLines.ReadsBack :=
    Compound.readsBack_of_reading? (by decide +kernel)
  have hread : forall e, e ∈ sayingsEvents -> e.description.ReadsBack := by
    intro e he
    simp only [sayingsEvents, List.mem_cons, List.not_mem_nil, or_false] at he
    rcases he with rfl | rfl | rfl
    · exact hyes
    · exact hyes
    · exact htwo
  have hline : forall e, e ∈ sayingsEvents ->
      Text.OnOneLine e.description.render.toList := by
    decide +kernel
  have honce : (sayingsEvents.map Event.fact).eraseDups =
      [(saying said "yes", "2024-01-01"), (twoLines, "2024-06-01T10:30:00")] := by
    decide +kernel
  rcases facts_exchanged reachable_sayings (b := movesArchive.clear) rfl loadEvents_sayings hread
    with ⟨source, hexport, hiff, hloads⟩
  rcases hiff.mpr hline with ⟨count, next, himport⟩
  rcases hloads count next himport with ⟨others, hload, hothers⟩
  exact ⟨reachable_sayings, rfl, loadEvents_sayings, hread, source, count, next, others, hexport,
    himport, hload, hothers.trans honce⟩

def brokenLines : Compound :=
  saying said "one\rtwo"

def brokenArchive : Archive :=
  empty.addRow brokenLines.render brokenLines.functor.text "2024-01-01"

def brokenSource : String :=
  "happens(said(\"alice\", \"one\rtwo\"), \"2024-01-01\").\n"

/-- A carriage return is written as it is, so an archive cannot read what another one wrote. -/
theorem facts_lost_at_carriage_return :
    empty.saveEvent (.term brokenLines.toTerm) (.text "2024-01-01") = .ok (true, brokenArchive) ∧
      brokenArchive.loadEvents none none = .ok [⟨1, brokenLines, "2024-01-01"⟩] ∧
      brokenLines.ReadsBack ∧
      brokenArchive.exportFacts = .ok brokenSource ∧
      forall result, empty.importFacts brokenSource ≠ .ok result := by
  have hread : brokenLines.ReadsBack :=
    Compound.readsBack_of_reading? (by decide +kernel)
  have hload : brokenArchive.loadEvents none none = .ok [⟨1, brokenLines, "2024-01-01"⟩] := by
    have hnone : (none : Option Moment).mapM timestampOf = .ok none := rfl
    have hsorted : brokenArchive.sortedRows none none = brokenArchive.rows :=
      List.mergeSort_of_pairwise (by decide +kernel)
    rw [loadEvents_eq _ hnone hnone, hsorted]
    simp only [brokenArchive, addRow, empty, List.nil_append, List.mapM_cons, ArchiveRow.toEvent,
      readOccurrence_render hread rfl, List.mapM_nil]
    rfl
  have hfact : forall fact, fact ∈ [(brokenLines, "2024-01-01")] -> IsFact fact := by
    intro fact hmem
    rw [List.mem_singleton.mp hmem]
    exact ⟨hread, rfl, rfl⟩
  have hbreak : ¬ brokenLines.OnOneLine := by
    unfold Compound.OnOneLine
    decide +kernel
  refine ⟨rfl, hload, hread, ?_, ?_⟩
  · rw [exportFacts, hload]
    rfl
  · intro result hresult
    have hchars : brokenSource.toList = factChars [(brokenLines, "2024-01-01")] := rfl
    rw [importFacts, hchars] at hresult
    rcases exists_of_map_eq_ok hresult with ⟨read, hlist, _⟩
    have hline : brokenLines.OnOneLine :=
      onOneLine_of_readFacts hfact hlist (brokenLines, "2024-01-01") List.mem_cons_self
    exact hbreak hline

end Archive
end EventCalculus

import EventCalculus.Proofs.ArchiveHistory
import EventCalculus.Proofs.Reachability
import Mathlib.Data.List.Induction

/-!
# Loading an archive

The rows are loaded in the order of their timestamps and, among equal ones, of
their identifiers, which is the order in which their texts were first saved.
-/

namespace EventCalculus

/-- The first occurrences of the entries that stay are in their order. -/
theorem pairwise_idxOf_eraseDups {α : Type} [BEq α] [LawfulBEq α] (xs : List α) :
    xs.eraseDups.Pairwise fun x y => xs.idxOf x < xs.idxOf y := by
  induction xs using List.reverseRecOn with
  | nil => exact List.Pairwise.nil
  | append_singleton xs z ih =>
      have hold : xs.eraseDups.Pairwise fun x y => (xs ++ [z]).idxOf x < (xs ++ [z]).idxOf y := by
        apply List.Pairwise.imp_of_mem _ ih
        intro x y hx hy hlt
        rw [List.idxOf_append_of_mem (List.mem_eraseDups.mp hx),
          List.idxOf_append_of_mem (List.mem_eraseDups.mp hy)]
        exact hlt
      rw [eraseDups_snoc]
      split
      · exact hold
      · rename_i hfresh
        apply List.pairwise_append.mpr
        refine ⟨hold, List.pairwise_singleton _ _, ?_⟩
        intro x hx y hy
        have hmem : x ∈ xs := List.mem_eraseDups.mp hx
        rw [List.mem_singleton.mp hy, List.idxOf_append_of_mem hmem,
          List.idxOf_append_of_notMem hfresh]
        exact Nat.lt_add_right _ (List.idxOf_lt_length_of_mem hmem)

namespace ArchiveRow

theorem notAfter_iff (a b : ArchiveRow) :
    a.notAfter b = true ↔
      a.timestamp < b.timestamp ∨ (a.timestamp = b.timestamp ∧ a.id ≤ b.id) := by
  simp only [notAfter, Bool.or_eq_true, Bool.and_eq_true, decide_eq_true_eq, beq_iff_eq]

theorem notAfter_trans (a b c : ArchiveRow) (hab : a.notAfter b = true)
    (hbc : b.notAfter c = true) : a.notAfter c = true := by
  rw [notAfter_iff] at hab hbc ⊢
  rcases hab with hab | ⟨hab, hid⟩
  · rcases hbc with hbc | ⟨hbc, _⟩
    · exact Or.inl (lt_trans hab hbc)
    · exact Or.inl (hbc ▸ hab)
  · rcases hbc with hbc | ⟨hbc, hid'⟩
    · exact Or.inl (hab ▸ hbc)
    · exact Or.inr ⟨hab.trans hbc, le_trans hid hid'⟩

theorem notAfter_total (a b : ArchiveRow) : (a.notAfter b || b.notAfter a) = true := by
  rw [Bool.or_eq_true, notAfter_iff, notAfter_iff]
  rcases lt_trichotomy a.timestamp b.timestamp with hlt | heq | hgt
  · exact Or.inl (Or.inl hlt)
  · rcases le_total a.id b.id with hle | hle
    · exact Or.inl (Or.inr ⟨heq, hle⟩)
    · exact Or.inr (Or.inr ⟨heq.symm, hle⟩)
  · exact Or.inr (Or.inl hgt)

theorem id_eq_of_notAfter {a b : ArchiveRow} (hab : a.notAfter b = true)
    (hba : b.notAfter a = true) : a.id = b.id := by
  rw [notAfter_iff] at hab hba
  rcases hab with hab | ⟨hab, hid⟩
  · rcases hba with hba | ⟨hba, _⟩
    · exact absurd hba (lt_asymm hab)
    · exact absurd hba hab.ne'
  · rcases hba with hba | ⟨_, hid'⟩
    · exact absurd hab hba.ne'
    · exact le_antisymm hid hid'

end ArchiveRow

namespace Archive

/-!
# The rows in the order of loading
-/

/-- The rows from a start to an end in the order in which they are loaded. -/
def sortedRows (a : Archive) (first last : Option String) : List ArchiveRow :=
  (a.rows.filter (ArchiveRow.isBetween first last)).mergeSort ArchiveRow.notAfter

theorem loadEvents_eq (a : Archive) {start stop : Option Moment} {first last : Option String}
    (hstart : start.mapM timestampOf = .ok first) (hstop : stop.mapM timestampOf = .ok last) :
    a.loadEvents start stop = (a.sortedRows first last).mapM ArchiveRow.toEvent := by
  simp only [loadEvents, hstart, hstop, bind, Except.bind]
  rfl

section
variable {a : Archive} {saved : List (Compound × String)} {first last : Option String}

theorem mem_sortedRows_iff (r : ArchiveRow) :
    r ∈ a.sortedRows first last ↔ r ∈ a.rows ∧ r.isBetween first last = true := by
  rw [sortedRows, (List.mergeSort_perm _ _).mem_iff, List.mem_filter]

theorem pairwise_sortedRows :
    (a.sortedRows first last).Pairwise fun r r' => r.notAfter r' = true :=
  List.pairwise_mergeSort ArchiveRow.notAfter_trans ArchiveRow.notAfter_total _

theorem Keeps.nodup_rows (h : a.Keeps saved) : a.rows.Nodup := by
  apply h.ids.imp
  intro r r' hlt heq
  rw [heq] at hlt
  exact lt_irrefl _ hlt

theorem Keeps.nodup_sortedRows (h : a.Keeps saved) : (a.sortedRows first last).Nodup :=
  (List.mergeSort_perm _ _).nodup_iff.mpr (h.nodup_rows.filter _)

/-- Rows are numbered in the order in which their texts were first saved. -/
theorem Keeps.pairwise_rows (h : a.Keeps saved) :
    a.rows.Pairwise fun r r' =>
      r.id < r'.id ∧ (texts saved).idxOf r.texts < (texts saved).idxOf r'.texts := by
  have hfirst := pairwise_idxOf_eraseDups (texts saved)
  rw [← h.rows, List.pairwise_map] at hfirst
  exact h.ids.and hfirst

theorem Keeps.eq_of_id_eq (h : a.Keeps saved) {r r' : ArchiveRow} (hr : r ∈ a.rows)
    (hr' : r' ∈ a.rows) (hid : r.id = r'.id) : r = r' := by
  rcases eq_or_of_pairwise h.ids hr hr' with heq | hlt | hlt
  · exact heq
  · exact absurd hid (Nat.ne_of_lt hlt)
  · exact absurd hid.symm (Nat.ne_of_lt hlt)

/-- Loading a span is loading everything and keeping the span. -/
theorem Keeps.filter_sortedRows (h : a.Keeps saved) :
    (a.sortedRows none none).filter (ArchiveRow.isBetween first last) =
      a.sortedRows first last := by
  have hall : forall r, r ∈ a.rows -> r.isBetween none none = true := fun _ _ => rfl
  apply List.Perm.eq_of_pairwise _ (pairwise_sortedRows.filter _) pairwise_sortedRows
  · apply (List.perm_ext_iff_of_nodup (h.nodup_sortedRows.filter _) h.nodup_sortedRows).mpr
    intro r
    rw [List.mem_filter, mem_sortedRows_iff, mem_sortedRows_iff]
    constructor
    · intro hr
      exact ⟨hr.left.left, hr.right⟩
    · intro hr
      exact ⟨⟨hr.left, hall r hr.left⟩, hr.right⟩
  · intro r r' hr hr' hle hle'
    have hmem := ((mem_sortedRows_iff r).mp (List.mem_of_mem_filter hr)).left
    have hmem' := ((mem_sortedRows_iff r').mp hr').left
    exact h.eq_of_id_eq hmem hmem' (ArchiveRow.id_eq_of_notAfter hle hle')

/-- The rows come in the order of time and, at one time, of the first saving. -/
theorem Keeps.pairwise_sortedRows_first (h : a.Keeps saved) :
    (a.sortedRows first last).Pairwise fun r r' => r.timestamp < r'.timestamp ∨
      (r.timestamp = r'.timestamp ∧
        (texts saved).idxOf r.texts < (texts saved).idxOf r'.texts) := by
  have hdistinct : (a.sortedRows first last).Pairwise (· ≠ ·) := h.nodup_sortedRows
  apply List.Pairwise.imp_of_mem _ (pairwise_sortedRows.and hdistinct)
  intro r r' hr hr' hpair
  rcases (ArchiveRow.notAfter_iff r r').mp hpair.left with hlt | ⟨heq, hid⟩
  · exact Or.inl hlt
  · refine Or.inr ⟨heq, ?_⟩
    rcases eq_or_of_pairwise h.pairwise_rows ((mem_sortedRows_iff r).mp hr).left
      ((mem_sortedRows_iff r').mp hr').left with hsame | ⟨_, hfirst⟩ | ⟨hlater, _⟩
    · exact absurd hsame hpair.right
    · exact hfirst
    · exact absurd hlater (Nat.not_lt.mpr hid)

/-!
# The events
-/

/-- The place of an event's text among the texts that were saved. -/
def firstSave (saved : List (Compound × String)) (e : Event) : Nat :=
  (texts saved).idxOf (e.description.render, e.timestamp)

/-- The event lies between a start and an end, both inclusive. -/
def isBetween (first last : Option String) (e : Event) : Bool :=
  first.all (fun t => decide (t ≤ e.timestamp)) && last.all (fun t => decide (e.timestamp ≤ t))

/-- The events are what was saved: each description at each of its times, once, in the order of
time and then of the first saving. -/
structure GivesBack (saved : List (Compound × String)) (events : List Event) : Prop where
  listed : forall c timestamp, (c, timestamp) ∈ saved ↔
    exists e, e ∈ events ∧ e.description = c ∧ e.timestamp = timestamp
  once : events.Pairwise fun e e' =>
    (e.description.render, e.timestamp) ≠ (e'.description.render, e'.timestamp)
  ordered : events.Pairwise fun e e' => e.timestamp < e'.timestamp ∨
    (e.timestamp = e'.timestamp ∧ firstSave saved e < firstSave saved e')

/-- The row is read as an event with its number, its time and its text. -/
theorem Keeps.exists_toEvent (h : a.Keeps saved) (hread : forall p, p ∈ saved -> p.1.ReadsBack)
    {r : ArchiveRow} (hr : r ∈ a.rows) :
    exists c, (c, r.timestamp) ∈ saved ∧ r.description = c.render ∧
      r.toEvent = .ok ⟨r.id, c, r.timestamp⟩ := by
  have htext : r.texts ∈ texts saved := (h.mem_rows_iff r.texts).mp ⟨r, hr, rfl⟩
  rcases List.mem_map.mp htext with ⟨⟨c, timestamp⟩, hp, htexts⟩
  rcases Prod.mk.inj htexts with ⟨hdescription, htimestamp⟩
  simp only at hdescription htimestamp
  rw [htimestamp] at hp
  refine ⟨c, hp, hdescription.symm, ?_⟩
  rw [ArchiveRow.toEvent, ← hdescription, readOccurrence_render (hread _ hp) (h.ground _ hp)]
  rfl

theorem filterMap_filter_eq {α β : Type} {f : α -> Option β} {p : α -> Bool} {q : β -> Bool}
    {xs : List α} (h : forall x, x ∈ xs -> forall y, f x = some y -> p x = q y) :
    (xs.filter p).filterMap f = (xs.filterMap f).filter q := by
  rw [List.filterMap_filter, List.filter_filterMap]
  apply List.filterMap_congr
  intro x hx
  cases hf : f x with
  | none => simp
  | some y =>
      rw [Option.filter_some, h x hx y hf]

/-- All rows as events. -/
def loaded (a : Archive) : List Event :=
  (a.sortedRows none none).filterMap fun r => r.toEvent.toOption

theorem mem_loaded_iff (e : Event) :
    e ∈ a.loaded ↔ exists r, r ∈ a.rows ∧ r.toEvent = .ok e := by
  simp only [loaded, List.mem_filterMap, mem_sortedRows_iff, toOption_eq_some_iff]
  constructor
  · intro h
    rcases h with ⟨r, ⟨hr, _⟩, hevent⟩
    exact ⟨r, hr, hevent⟩
  · intro h
    rcases h with ⟨r, hr, hevent⟩
    exact ⟨r, ⟨hr, rfl⟩, hevent⟩

section
variable (h : a.Keeps saved) (hread : forall p, p ∈ saved -> p.1.ReadsBack)
include h hread

theorem Keeps.of_toEvent {r : ArchiveRow} (hr : r ∈ a.rows) {e : Event}
    (he : r.toEvent = .ok e) :
    (e.description, e.timestamp) ∈ saved ∧ r.description = e.description.render ∧
      r.timestamp = e.timestamp := by
  rcases h.exists_toEvent hread hr with ⟨c, hsaved, hdescription, hevent⟩
  rw [hevent] at he
  cases he
  exact ⟨hsaved, hdescription, rfl⟩

theorem Keeps.ordered_loaded :
    a.loaded.Pairwise fun e e' => e.timestamp < e'.timestamp ∨
      (e.timestamp = e'.timestamp ∧ firstSave saved e < firstSave saved e') := by
  unfold loaded
  rw [List.pairwise_filterMap]
  apply List.Pairwise.imp_of_mem _ h.pairwise_sortedRows_first
  intro r r' hr hr' hrows e he e' he'
  rcases h.of_toEvent hread ((mem_sortedRows_iff r).mp hr).left (toOption_eq_some_iff.mp he) with
    ⟨_, hdescription, htimestamp⟩
  rcases h.of_toEvent hread ((mem_sortedRows_iff r').mp hr').left
    (toOption_eq_some_iff.mp he') with ⟨_, hdescription', htimestamp'⟩
  simp only [ArchiveRow.texts, hdescription, htimestamp, hdescription', htimestamp'] at hrows
  exact hrows

theorem Keeps.givesBack_loaded : GivesBack saved a.loaded := by
  constructor
  case listed =>
    intro c timestamp
    constructor
    · intro hsaved
      rcases (h.mem_rows_iff _).mpr (mem_texts hsaved) with ⟨r, hr, hrow⟩
      have hrender : r.description = c.render := congrArg Prod.fst hrow
      have htimestamp : r.timestamp = timestamp := congrArg Prod.snd hrow
      rcases h.exists_toEvent hread hr with ⟨d, hd, hdescription, hevent⟩
      have hsame : d = c := by
        apply (hread _ hd).eq_of_render_eq (hread _ hsaved)
        exact hdescription.symm.trans hrender
      exact ⟨⟨r.id, d, r.timestamp⟩, (mem_loaded_iff _).mpr ⟨r, hr, hevent⟩, hsame, htimestamp⟩
    · intro hlisted
      rcases hlisted with ⟨e, he, rfl, rfl⟩
      rcases (mem_loaded_iff e).mp he with ⟨r, hr, hevent⟩
      exact (h.of_toEvent hread hr hevent).left
  case once =>
    apply (h.ordered_loaded hread).imp
    intro e e' hordered heq
    rcases hordered with hlt | ⟨_, hlt⟩
    · exact absurd (congrArg Prod.snd heq) hlt.ne
    · unfold firstSave at hlt
      rw [heq] at hlt
      exact lt_irrefl _ hlt
  case ordered => exact h.ordered_loaded hread

/-- Every span is what lies in it of all that is loaded. -/
theorem Keeps.loadEvents_eq_ok {start stop : Option Moment} {first last : Option String}
    (hstart : start.mapM timestampOf = .ok first) (hstop : stop.mapM timestampOf = .ok last) :
    a.loadEvents start stop = .ok (a.loaded.filter (isBetween first last)) := by
  have hevents : forall r, r ∈ a.sortedRows first last -> exists e, r.toEvent = .ok e := by
    intro r hr
    rcases h.exists_toEvent hread ((mem_sortedRows_iff r).mp hr).left with ⟨c, _, _, hevent⟩
    exact ⟨_, hevent⟩
  have hbetween : forall r, r ∈ a.sortedRows none none -> forall e,
      r.toEvent.toOption = some e -> r.isBetween first last = isBetween first last e := by
    intro r hr e he
    rcases h.of_toEvent hread ((mem_sortedRows_iff r).mp hr).left
      (toOption_eq_some_iff.mp he) with ⟨_, _, htimestamp⟩
    rw [ArchiveRow.isBetween, isBetween, htimestamp]
  rw [a.loadEvents_eq hstart hstop, mapM_eq_ok_filterMap hevents, ← h.filter_sortedRows,
    filterMap_filter_eq hbetween, loaded]

theorem Keeps.loadEvents_none_eq_ok : a.loadEvents none none = .ok a.loaded := by
  have hnone : (none : Option Moment).mapM timestampOf = .ok none := rfl
  have hall : forall e, e ∈ a.loaded -> isBetween none none e = true := fun _ _ => rfl
  rw [h.loadEvents_eq_ok hread hnone hnone, List.filter_eq_self.mpr hall]

end

/-- Loading succeeds only if every text that was saved is that of a ground compound. -/
theorem Keeps.readOccurrence_of_loadEvents (h : a.Keeps saved) {events : List Event}
    (hload : a.loadEvents none none = .ok events) {p : Compound × String} (hp : p ∈ saved) :
    exists c, readOccurrence (.text p.1.render) = .ok c := by
  rcases (h.mem_rows_iff _).mpr (mem_texts hp) with ⟨r, hr, hrow⟩
  have hrender : r.description = p.1.render := congrArg Prod.fst hrow
  have hnone : (none : Option Moment).mapM timestampOf = .ok none := rfl
  rw [a.loadEvents_eq hnone hnone] at hload
  rcases exists_of_mapM_eq_ok hload ((mem_sortedRows_iff r).mpr ⟨hr, rfl⟩) with ⟨e, hevent⟩
  rcases exists_of_map_eq_ok hevent with ⟨c, hread, _⟩
  rw [hrender] at hread
  exact ⟨c, hread⟩

/-!
# What saving tells
-/

/-- A call tells that it saved something new exactly if the text was not saved at that time since
the last clearing, and then it adds a row. -/
theorem Keeps.answer (h : a.Keeps saved) {v : Value} {m : Moment} {isNew : Bool} {next : Archive}
    (hsave : a.saveEvent v m = .ok (isNew, next)) :
    exists c timestamp, occurrence v m = .ok (c, timestamp) ∧
      (isNew = true ↔ (c.render, timestamp) ∉ texts saved) ∧
      (isNew = true ↔ next.rows ≠ a.rows) := by
  rw [saveEvent_eq] at hsave
  rcases exists_of_map_eq_ok hsave with ⟨⟨c, timestamp⟩, hread, hresult⟩
  have hnew := h.fst_save_iff c timestamp
  rw [hresult] at hnew
  refine ⟨c, timestamp, hread, hnew, ?_⟩
  rw [hnew, ← h.contains_iff]
  simp only [Archive.save] at hresult
  split at hresult
  · rename_i hcontains
    cases hresult
    simp [hcontains]
  · rename_i hcontains
    cases hresult
    simp [hcontains, Archive.addRow]

end

/-!
# The history of an archive
-/

/-- What an archive says of the calls that led to it. -/
structure Recalls (a : Archive) (calls : List Call) : Prop where
  answers : forall v m isNew next, a.saveEvent v m = .ok (isNew, next) ->
    exists c timestamp, occurrence v m = .ok (c, timestamp) ∧
      (isNew = true ↔ (c.render, timestamp) ∉ texts (saved calls)) ∧
      (isNew = true ↔ next.rows ≠ a.rows)
  readable : forall events, a.loadEvents none none = .ok events ->
    forall p, p ∈ saved calls -> exists c, readOccurrence (.text p.1.render) = .ok c
  givesBack : (forall p, p ∈ saved calls -> p.1.ReadsBack) ->
    exists events, a.loadEvents none none = .ok events ∧ GivesBack (saved calls) events ∧
      forall start stop first last, start.mapM timestampOf = .ok first ->
        stop.mapM timestampOf = .ok last ->
        a.loadEvents start stop = .ok (events.filter (isBetween first last))

/-- After any calls that succeed, an archive gives back what was saved since it was last cleared,
provided that all of it can be read back from its text. -/
theorem recalls_of_performAll {calls : List Call} {a : Archive}
    (hcalls : empty.performAll calls = .ok a) : a.Recalls calls := by
  have h : a.Keeps (saved calls) := (keeps_nil 0 OrderedMap.empty).performAll hcalls
  constructor
  case answers =>
    intro v m isNew next hsave
    exact h.answer hsave
  case readable =>
    intro events hload p hp
    exact h.readOccurrence_of_loadEvents hload hp
  case givesBack =>
    intro hread
    refine ⟨a.loaded, h.loadEvents_none_eq_ok hread, h.givesBack_loaded hread, ?_⟩
    intro start stop first last hstart hstop
    exact h.loadEvents_eq_ok hread hstart hstop

/-- Somebody's moves, saved one by one and as events, with a repetition. -/
def moves : List Call :=
  [.saveEvent (.term (Residence.move Residence.rome).toTerm) (.text "2024-06-01"),
    .saveEvents [⟨7, Residence.move Residence.paris, "2024-01-01T00:00"⟩],
    .saveEvent (.term (Residence.move Residence.rome).toTerm) (.text " 2024-06-01 ")]

def movesArchive : Archive where
  rows := [⟨1, (Residence.move Residence.rome).render, "moved_to", "2024-06-01"⟩,
    ⟨2, (Residence.move Residence.paris).render, "moved_to", "2024-01-01"⟩]
  lastId := 3
  records := OrderedMap.empty

theorem recalls_moves :
    empty.performAll moves = .ok movesArchive ∧ movesArchive.Recalls moves ∧
      (saved moves).map Prod.snd = ["2024-06-01", "2024-01-01", "2024-06-01"] ∧
      (forall p, p ∈ saved moves -> p.1.ReadsBack) := by
  have hcalls : empty.performAll moves = .ok movesArchive := by
    rfl
  have hsaved : saved moves = [(Residence.move Residence.rome, "2024-06-01"),
      (Residence.move Residence.paris, "2024-01-01"),
      (Residence.move Residence.rome, "2024-06-01")] := by
    rfl
  have hrome : (Residence.move Residence.rome).ReadsBack :=
    Compound.readsBack_of_reading? (by decide +kernel)
  have hparis : (Residence.move Residence.paris).ReadsBack :=
    Compound.readsBack_of_reading? (by decide +kernel)
  refine ⟨hcalls, recalls_of_performAll hcalls, by rw [hsaved]; rfl, ?_⟩
  intro p hp
  rw [hsaved] at hp
  simp only [List.mem_cons, List.not_mem_nil, or_false] at hp
  rcases hp with rfl | rfl | rfl
  · exact hrome
  · exact hparis
  · exact hrome

/-- A weight that is shown with an exponent. -/
def weighed : Compound :=
  ⟨⟨"weighed", by decide +kernel⟩, [.number (.float (Binary64.ofDecimal false 1 16))]⟩

def weighedArchive : Archive :=
  empty.addRow weighed.render weighed.functor.text "2024-01-01"

/-- A description that shows an exponent is saved as new, and then nothing can be loaded. -/
theorem loadEvents_fails_after_exponent :
    empty.saveEvent (.term weighed.toTerm) (.text "2024-01-01") = .ok (true, weighedArchive) ∧
      forall events, weighedArchive.loadEvents none none ≠ .ok events := by
  have hsave : empty.saveEvent (.term weighed.toTerm) (.text "2024-01-01") =
      .ok (true, weighedArchive) := by
    rfl
  refine ⟨hsave, ?_⟩
  intro events hload
  have hkeeps : weighedArchive.Keeps ([] ++ [(weighed, "2024-01-01")]) :=
    (keeps_nil 0 OrderedMap.empty).save (by decide) "2024-01-01"
  rcases hkeeps.readOccurrence_of_loadEvents hload List.mem_cons_self with ⟨c, hread⟩
  rcases exists_parse_of_readOccurrence hread with ⟨u, hparse⟩
  have hreading := (Term.parse_render_eq_ok_iff weighed.toTerm u).mp hparse
  have hnone : weighed.toTerm.reading? = none := by
    decide +kernel
  rw [hnone] at hreading
  cases hreading

end Archive
end EventCalculus

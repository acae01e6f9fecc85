import EventCalculus.Archive.Facts
import EventCalculus.Proofs.Distinct
import EventCalculus.Proofs.Outcomes
import EventCalculus.Proofs.TextFidelity
import Mathlib.Data.String.Basic

/-!
# What an archive gives back

An archive tells descriptions apart by their texts.  After any calls that succeed
its rows are the texts that were saved since it was last cleared, each once and in
the order of the first saving.  Loading reads every text again, so it gives back
what was saved if the descriptions survive their texts, which saving does not
check: a single one that does not makes the whole archive unreadable.
-/

namespace EventCalculus

/-!
# Occurrences
-/

section
variable {c : Compound}

/-- The text of the compound denotes the same compound. -/
def Compound.ReadsBack (c : Compound) : Prop :=
  exists u, Term.parse c.render = .ok u ∧ u.same c.toTerm = true

theorem Compound.readsBack_of_reading? (h : c.toTerm.reading? = some c.toTerm) : c.ReadsBack :=
  ⟨c.toTerm, (Term.parse_render_eq_ok_iff _ _).mpr h, Term.same_iff.mpr rfl⟩

theorem Compound.ReadsBack.parse_render (h : c.ReadsBack) :
    Term.parse c.render = .ok c.toTerm := by
  rcases h with ⟨u, hparse, hsame⟩
  rw [← Term.eq_of_parse_render hparse hsame]
  exact hparse

/-- Texts that read back tell compounds apart. -/
theorem Compound.ReadsBack.eq_of_render_eq {d : Compound} (hc : c.ReadsBack) (hd : d.ReadsBack)
    (h : c.render = d.render) : c = d := by
  have hparse := hc.parse_render
  rw [h, hd.parse_render, Except.ok.injEq] at hparse
  rcases Term.compound.inj hparse with ⟨hfunctor, hargs⟩
  cases c
  cases d
  exact congrArg₂ Compound.mk hfunctor.symm hargs.symm

theorem readOccurrence_of_parse {source : String} (h : Term.parse source = .ok c.toTerm)
    (hground : c.isGround = true) : readOccurrence (.text source) = .ok c := by
  have hread : readTerm (.text source) = .ok (.term c.toTerm) := by
    rw [readTerm, h]
    rfl
  rw [readOccurrence, hread]
  have hcompound : Compound.ofTerm? c.toTerm = some c := rfl
  simp only [Except.mapError, bind, Except.bind, Value.expectTerm, Value.term?, hcompound, hground,
    ↓reduceIte]

theorem readOccurrence_render (h : c.ReadsBack) (hground : c.isGround = true) :
    readOccurrence (.text c.render) = .ok c :=
  readOccurrence_of_parse h.parse_render hground

theorem isGround_of_readOccurrence {v : Value} (h : readOccurrence v = .ok c) :
    c.isGround = true := by
  rcases exists_of_bind_eq_ok h with ⟨given, _, hgiven⟩
  rcases exists_of_bind_eq_ok hgiven with ⟨t, _, ht⟩
  cases hcompound : Compound.ofTerm? t with
  | none =>
      rw [hcompound] at ht
      cases ht
  | some d =>
      rw [hcompound] at ht
      cases hground : d.isGround with
      | false => simp [hground] at ht
      | true =>
          simp only [hground, ↓reduceIte, Except.ok.injEq] at ht
          rw [← ht]
          exact hground

theorem exists_parse_of_readOccurrence {source : String}
    (h : readOccurrence (.text source) = .ok c) : exists u, Term.parse source = .ok u := by
  rcases exists_of_bind_eq_ok h with ⟨given, hgiven, _⟩
  rcases exists_of_map_eq_ok (exists_of_mapError_eq_ok hgiven) with ⟨u, hparse, _⟩
  exact ⟨u, hparse⟩

theorem isGround_of_readFact {number : Nat} {cs : List Char} {timestamp : String}
    (h : readFact number cs = .ok (c, timestamp)) : c.isGround = true := by
  unfold readFact at h
  split at h
  · cases h
  · split at h
    · cases h
    · split at h
      · cases h
      · rename_i hfilter
        rcases exists_of_map_eq_ok h with ⟨_, _, hpair⟩
        rw [← (Prod.mk.inj hpair).left]
        exact (Option.filter_eq_some_iff.mp hfilter).right

/-- Every fact is read from a line. -/
theorem exists_readFact_of_mem {lines : List (List Char)} {number : Nat}
    {facts : List (Compound × String)} (h : readFacts number lines = .ok facts)
    {fact : Compound × String} (hmem : fact ∈ facts) :
    exists n cs, readFact n cs = .ok fact := by
  induction lines generalizing number facts with
  | nil =>
      cases h
      cases hmem
  | cons line rest ih =>
      simp only [readFacts] at h
      split at h
      · exact ih h hmem
      · rcases exists_of_bind_eq_ok h with ⟨first, hfirst, hmore⟩
        rcases exists_of_bind_eq_ok hmore with ⟨others, hothers, hfacts⟩
        cases hfacts
        cases List.mem_cons.mp hmem with
        | inl hsame =>
            rw [← hsame] at hfirst
            exact ⟨_, _, hfirst⟩
        | inr htail => exact ih hothers htail

end

/-- The occurrence that a value and a moment give. -/
def occurrence (v : Value) (m : Moment) : Except Fault (Compound × String) := do
  let c ← readOccurrence v
  let timestamp ← timestampOf m
  return (c, timestamp)

theorem isGround_of_occurrence {v : Value} {m : Moment} {p : Compound × String}
    (h : occurrence v m = .ok p) : p.1.isGround = true := by
  rcases exists_of_bind_eq_ok h with ⟨c, hread, hmore⟩
  rcases exists_of_bind_eq_ok hmore with ⟨timestamp, _, hpair⟩
  cases hpair
  exact isGround_of_readOccurrence hread

namespace Archive

theorem saveEvent_eq (a : Archive) (v : Value) (m : Moment) :
    a.saveEvent v m = (occurrence v m).map fun p => a.save p.1 p.2 := by
  unfold saveEvent occurrence
  cases readOccurrence v with
  | error fault => rfl
  | ok c =>
      cases timestampOf m with
      | error fault => rfl
      | ok timestamp => rfl

/-!
# Calls
-/

/-- A call that changes the events of an archive. -/
inductive Call where
  | saveEvent (description : Value) (m : Moment)
  | saveEvents (events : List Event)
  | importFacts (source : String)
  | clear

/-- The archive after a call that succeeds. -/
def perform (a : Archive) : Call -> Except Fault Archive
  | .saveEvent v m => (a.saveEvent v m).map Prod.snd
  | .saveEvents events => (a.saveEach events).map Prod.snd
  | .importFacts source => (a.importFacts source).map Prod.snd
  | .clear => .ok a.clear

/-- The archive after calls that all succeed. -/
def performAll (a : Archive) : List Call -> Except Fault Archive
  | [] => .ok a
  | call :: rest => do
      let next ← a.perform call
      next.performAll rest

/-- The occurrences of stored events. -/
def occurrences (events : List Event) : Except Fault (List (Compound × String)) :=
  events.mapM fun e => occurrence (.term e.description.toTerm) (.text e.timestamp)

/-- The occurrences that a call hands over to be saved. -/
def Call.given : Call -> Except Fault (List (Compound × String))
  | .saveEvent v m => (occurrence v m).map fun p => [p]
  | .saveEvents events => occurrences events
  | .importFacts source => readFacts 1 (Text.lines source.toList)
  | .clear => .ok []

/-- What was saved since the last clearing, when a call comes after what was saved before. -/
def savedAfter (before : List (Compound × String)) : Call -> List (Compound × String)
  | .clear => []
  | call => before ++ call.given.toOption.getD []

/-- What was saved since the last clearing. -/
def saved (calls : List Call) : List (Compound × String) :=
  calls.foldl savedAfter []

theorem saveEach_eq (a : Archive) (events : List Event) :
    a.saveEach events = (occurrences events).map a.saveAll := by
  induction events generalizing a with
  | nil => rfl
  | cons e rest ih =>
      unfold saveEach occurrences
      rw [saveEvent_eq, List.mapM_cons]
      cases occurrence (.term e.description.toTerm) (.text e.timestamp) with
      | error fault => rfl
      | ok p =>
          have hrest := ih (a.save p.1 p.2).2
          unfold occurrences at hrest
          simp only [Except.map, bind, Except.bind, hrest]
          cases List.mapM (fun e => occurrence (.term e.description.toTerm) (.text e.timestamp))
            rest with
          | error fault => rfl
          | ok others => rfl

theorem perform_eq (a : Archive) {call : Call} (hclear : call ≠ .clear) :
    a.perform call = call.given.map fun list => (a.saveAll list).2 := by
  cases call with
  | clear => exact absurd rfl hclear
  | saveEvent v m =>
      rw [perform, saveEvent_eq, Call.given]
      cases occurrence v m with
      | error fault => rfl
      | ok p => rfl
  | saveEvents events =>
      rw [perform, saveEach_eq, Call.given]
      cases occurrences events with
      | error fault => rfl
      | ok list => rfl
  | importFacts source =>
      rw [perform, importFacts, Call.given]
      cases readFacts 1 (Text.lines source.toList) with
      | error fault => rfl
      | ok list => rfl

theorem savedAfter_of_given {call : Call} (hclear : call ≠ .clear)
    {list : List (Compound × String)} (h : call.given = .ok list)
    (before : List (Compound × String)) : savedAfter before call = before ++ list := by
  unfold savedAfter
  split
  · exact absurd rfl hclear
  · rw [h]
    rfl

/-- A call that succeeds clears the archive or saves all that it is given. -/
theorem perform_eq_ok {a next : Archive} {call : Call} (h : a.perform call = .ok next) :
    (call = .clear ∧ next = a.clear) ∨
      exists list, call.given = .ok list ∧ next = (a.saveAll list).2 ∧
        forall before, savedAfter before call = before ++ list := by
  by_cases hclear : call = .clear
  · rw [hclear] at h
    cases h
    exact Or.inl ⟨hclear, rfl⟩
  · rw [perform_eq a hclear] at h
    rcases exists_of_map_eq_ok h with ⟨list, hgiven, rfl⟩
    exact Or.inr ⟨list, hgiven, rfl, savedAfter_of_given hclear hgiven⟩

/-- What a call hands over is an occurrence at its moment or at a time that is a text, or it is read
from a line. -/
theorem exists_of_mem_given {call : Call} {list : List (Compound × String)}
    (h : call.given = .ok list) {p : Compound × String} (hp : p ∈ list) :
    (exists v m, occurrence v m = .ok p ∧
        (call = .saveEvent v m ∨ exists timestamp, m = .text timestamp)) ∨
      exists number cs, readFact number cs = .ok p := by
  cases call with
  | clear =>
      cases h
      cases hp
  | saveEvent v m =>
      rcases exists_of_map_eq_ok h with ⟨q, hq, rfl⟩
      rw [List.mem_singleton.mp hp]
      exact Or.inl ⟨v, m, hq, Or.inl rfl⟩
  | saveEvents events =>
      rcases exists_of_mem_of_mapM_eq_ok h hp with ⟨e, _, hread⟩
      exact Or.inl ⟨_, _, hread, Or.inr ⟨e.timestamp, rfl⟩⟩
  | importFacts source => exact Or.inr (exists_readFact_of_mem h hp)

theorem isGround_of_mem_given {call : Call} {list : List (Compound × String)}
    (h : call.given = .ok list) {p : Compound × String} (hp : p ∈ list) : p.1.isGround = true := by
  rcases exists_of_mem_given h hp with ⟨v, m, hread, _⟩ | ⟨number, cs, hread⟩
  · exact isGround_of_occurrence hread
  · exact isGround_of_readFact hread

/-!
# The rows
-/

/-- The texts by which what is saved is told apart. -/
def texts (saved : List (Compound × String)) : List (String × String) :=
  saved.map fun p => (p.1.render, p.2)

theorem mem_texts {saved : List (Compound × String)} {p : Compound × String} (h : p ∈ saved) :
    (p.1.render, p.2) ∈ texts saved :=
  List.mem_map.mpr ⟨p, h, rfl⟩

end Archive

/-- The description and the timestamp of a row. -/
def ArchiveRow.texts (row : ArchiveRow) : String × String :=
  (row.description, row.timestamp)

namespace Archive

/-- The rows show what was saved, each text once and in the order of the first saving. -/
structure Keeps (a : Archive) (saved : List (Compound × String)) : Prop where
  rows : a.rows.map ArchiveRow.texts = (texts saved).eraseDups
  ids : a.rows.Pairwise fun r r' => r.id < r'.id
  lastId : forall r, r ∈ a.rows -> r.id ≤ a.lastId
  ground : forall p, p ∈ saved -> p.1.isGround = true

theorem keeps_nil (lastId : Nat) (records : OrderedMap String Value) :
    Keeps ⟨[], lastId, records⟩ [] := by
  constructor
  case rows => rfl
  case ids => exact List.Pairwise.nil
  case lastId =>
    intro r hr
    cases hr
  case ground =>
    intro p hp
    cases hp

section
variable {a : Archive} {saved : List (Compound × String)}

theorem Keeps.mem_rows_iff (h : a.Keeps saved) (pair : String × String) :
    (exists r, r ∈ a.rows ∧ r.texts = pair) ↔ pair ∈ texts saved := by
  rw [← List.mem_map, h.rows, List.mem_eraseDups]

theorem Keeps.contains_iff (h : a.Keeps saved) (description timestamp : String) :
    a.contains description timestamp = true ↔ (description, timestamp) ∈ texts saved := by
  rw [← h.mem_rows_iff, contains, List.any_eq_true]
  simp only [Bool.and_eq_true, beq_iff_eq, ArchiveRow.texts, Prod.mk.injEq]

/-- A text is reported as new exactly if it was not saved before. -/
theorem Keeps.fst_save_iff (h : a.Keeps saved) (c : Compound) (timestamp : String) :
    (a.save c timestamp).1 = true ↔ (c.render, timestamp) ∉ texts saved := by
  rw [← h.contains_iff, save]
  split
  · rename_i hcontains
    simp [hcontains]
  · rename_i hcontains
    simp [hcontains]

theorem eraseDups_texts_snoc (saved : List (Compound × String)) (c : Compound)
    (timestamp : String) :
    (texts (saved ++ [(c, timestamp)])).eraseDups =
      if (c.render, timestamp) ∈ texts saved then (texts saved).eraseDups
      else (texts saved).eraseDups ++ [(c.render, timestamp)] := by
  rw [texts, List.map_append]
  exact eraseDups_snoc (texts saved) (c.render, timestamp)

section
variable (h : a.Keeps saved) {c : Compound} (hground : c.isGround = true) (timestamp : String)
include h hground

theorem Keeps.ground_snoc :
    forall p, p ∈ saved ++ [(c, timestamp)] -> p.1.isGround = true := by
  intro p hp
  cases List.mem_append.mp hp with
  | inl hold => exact h.ground p hold
  | inr hnew =>
      rw [List.mem_singleton.mp hnew]
      exact hground

theorem Keeps.again (hmem : (c.render, timestamp) ∈ texts saved) :
    { a with lastId := a.lastId + 1 }.Keeps (saved ++ [(c, timestamp)]) := by
  constructor
  case rows =>
    rw [eraseDups_texts_snoc, if_pos hmem]
    exact h.rows
  case ids => exact h.ids
  case lastId =>
    intro r hr
    exact Nat.le_succ_of_le (h.lastId r hr)
  case ground => exact h.ground_snoc hground timestamp

theorem Keeps.addRow (hmem : (c.render, timestamp) ∉ texts saved) :
    (a.addRow c.render c.functor.text timestamp).Keeps (saved ++ [(c, timestamp)]) := by
  constructor
  case rows =>
    rw [eraseDups_texts_snoc, if_neg hmem]
    simp only [Archive.addRow, List.map_append, h.rows]
    rfl
  case ids =>
    apply List.pairwise_append.mpr
    refine ⟨h.ids, List.pairwise_singleton _ _, ?_⟩
    intro r hr r' hr'
    rw [List.mem_singleton.mp hr']
    exact Nat.lt_succ_of_le (h.lastId r hr)
  case lastId =>
    intro r hr
    cases List.mem_append.mp hr with
    | inl hold => exact Nat.le_succ_of_le (h.lastId r hold)
    | inr hnew =>
        rw [List.mem_singleton.mp hnew]
        exact Nat.le_refl _
  case ground => exact h.ground_snoc hground timestamp

theorem Keeps.save : (a.save c timestamp).2.Keeps (saved ++ [(c, timestamp)]) := by
  unfold Archive.save
  split
  · rename_i hcontains
    exact h.again hground timestamp ((h.contains_iff _ _).mp hcontains)
  · rename_i hcontains
    exact h.addRow hground timestamp (mt (h.contains_iff _ _).mpr hcontains)

end

theorem Keeps.saveAll (h : a.Keeps saved) {list : List (Compound × String)}
    (hground : forall p, p ∈ list -> p.1.isGround = true) :
    (a.saveAll list).2.Keeps (saved ++ list) := by
  induction list generalizing a saved with
  | nil =>
      rw [List.append_nil]
      exact h
  | cons p rest ih =>
      rw [List.append_cons]
      apply ih (h.save (hground p List.mem_cons_self) p.2)
      intro q hq
      exact hground q (List.mem_cons_of_mem p hq)

theorem Keeps.perform (h : a.Keeps saved) {call : Call} {next : Archive}
    (hcall : a.perform call = .ok next) : next.Keeps (savedAfter saved call) := by
  rcases perform_eq_ok hcall with ⟨rfl, rfl⟩ | ⟨list, hgiven, rfl, hsaved⟩
  · exact keeps_nil a.lastId OrderedMap.empty
  · rw [hsaved]
    exact h.saveAll fun _ hp => isGround_of_mem_given hgiven hp

theorem Keeps.performAll (h : a.Keeps saved) {calls : List Call} {next : Archive}
    (hcalls : a.performAll calls = .ok next) : next.Keeps (calls.foldl savedAfter saved) := by
  induction calls generalizing a saved with
  | nil =>
      cases hcalls
      exact h
  | cons call rest ih =>
      rcases exists_of_bind_eq_ok hcalls with ⟨between, hfirst, hrest⟩
      exact ih (h.perform hfirst) hrest

end

end Archive
end EventCalculus

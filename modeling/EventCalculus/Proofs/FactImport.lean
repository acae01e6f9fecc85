import EventCalculus.Proofs.FactExchange
import EventCalculus.Proofs.SnapshotRestore

/-!
# Importing facts

An import reads all lines before it saves the first fact, and every fact is checked again when it is
saved.  What was read from a line cannot fail this second check: its description is ground, and its
timestamp is the normal form of itself.  So an import fails before it has saved anything, or it saves
the facts of all lines.
-/

namespace EventCalculus

/-!
# Lines that state facts
-/

/-- The lines that are not skipped, without the blanks around them. -/
def keptLines (lines : List (List Char)) : List (List Char) :=
  (lines.map Text.trimChars).filter fun cs => !isSkipped cs

/-- The line says that the ground compound happened at a moment with the timestamp. -/
def States (cs : List Char) (fact : Compound × String) : Prop :=
  exists moment, Term.parse (String.ofList (dropFinalPoint cs)) = .ok (factTerm fact.1 moment) ∧
    fact.1.isGround = true ∧ timestampOf (.text moment) = .ok fact.2

theorem factParts?_eq_some_iff {t description : Term} {moment : String} :
    factParts? t = some (description, moment) ↔
      t = .compound happens [description, .text moment] := by
  constructor
  · intro h
    unfold factParts? at h
    split at h
    · rename_i f _ _
      split at h
      · rename_i hfunctor
        cases h
        have hhappens : f = happens := Functor.eq_of_text_eq hfunctor
        rw [hhappens]
      · cases h
    · cases h
  · intro h
    rw [h]
    rfl

theorem filter_ofTerm?_eq_some_iff {t : Term} {c : Compound} :
    (Compound.ofTerm? t).filter Compound.isGround = some c ↔
      t = c.toTerm ∧ c.isGround = true := by
  rw [Option.filter_eq_some_iff]
  constructor
  · intro h
    exact ⟨Compound.eq_toTerm_of_ofTerm? h.left, h.right⟩
  · intro h
    rw [h.left]
    exact ⟨rfl, h.right⟩

/-- The number of a line plays a part in faults only. -/
theorem readFact_eq_ok_iff {number : Nat} {cs : List Char} {fact : Compound × String} :
    readFact number cs = .ok fact ↔ States cs fact := by
  constructor
  · intro h
    unfold readFact at h
    split at h
    · cases h
    · rename_i t hparse
      split at h
      · cases h
      · rename_i description moment hparts
        split at h
        · cases h
        · rename_i c hcompound
          rcases exists_of_map_eq_ok h with ⟨timestamp, htime, rfl⟩
          rcases filter_ofTerm?_eq_some_iff.mp hcompound with ⟨rfl, hground⟩
          rw [factParts?_eq_some_iff.mp hparts] at hparse
          exact ⟨moment, hparse, hground, htime⟩
  · intro h
    rcases h with ⟨moment, hparse, hground, htime⟩
    have hparts : factParts? (factTerm fact.1 moment) = some (fact.1.toTerm, moment) := rfl
    have hcompound := filter_ofTerm?_eq_some_iff.mpr ⟨rfl, hground⟩
    simp only [readFact, hparse, hparts, hcompound, htime, Except.map]

theorem keptLines_cons (line : List Char) (rest : List (List Char)) :
    keptLines (line :: rest) =
      if isSkipped (Text.trimChars line) then keptLines rest
      else Text.trimChars line :: keptLines rest := by
  rw [keptLines, List.map_cons]
  cases hskipped : isSkipped (Text.trimChars line) with
  | false => rw [List.filter_cons_of_pos (by simp [hskipped])]; rfl
  | true => rw [List.filter_cons_of_neg (by simp [hskipped])]; rfl

section
variable {lines : List (List Char)} {number : Nat}

theorem forall₂_of_readFacts {facts : List (Compound × String)}
    (h : readFacts number lines = .ok facts) : List.Forall₂ States (keptLines lines) facts := by
  induction lines generalizing number facts with
  | nil =>
      cases h
      exact List.Forall₂.nil
  | cons line rest ih =>
      simp only [readFacts] at h
      rw [keptLines_cons]
      split at h
      · rename_i hskipped
        rw [if_pos hskipped]
        exact ih h
      · rename_i hkept
        rw [if_neg hkept]
        rcases exists_of_bind_eq_ok h with ⟨first, hfirst, hmore⟩
        rcases exists_of_bind_eq_ok hmore with ⟨others, hothers, hfacts⟩
        cases hfacts
        exact List.Forall₂.cons (readFact_eq_ok_iff.mp hfirst) (ih hothers)

theorem exists_of_readFacts_eq_error {fault : Fault} (h : readFacts number lines = .error fault) :
    exists cs, cs ∈ keptLines lines ∧ forall fact, ¬ States cs fact := by
  induction lines generalizing number fault with
  | nil => cases h
  | cons line rest ih =>
      simp only [readFacts] at h
      rw [keptLines_cons]
      split at h
      · rename_i hskipped
        rw [if_pos hskipped]
        exact ih h
      · rename_i hkept
        rw [if_neg hkept]
        cases hfirst : readFact number (Text.trimChars line) with
        | error cause =>
            refine ⟨_, List.mem_cons_self, ?_⟩
            intro fact hstates
            rw [readFact_eq_ok_iff.mpr hstates] at hfirst
            cases hfirst
        | ok first =>
            cases hrest : readFacts (number + 1) rest with
            | error cause =>
                rcases ih hrest with ⟨cs, hcs, hnone⟩
                exact ⟨cs, List.mem_cons_of_mem _ hcs, hnone⟩
            | ok others =>
                rw [hfirst, hrest] at h
                cases h

end

/-!
# The second check
-/

theorem readOccurrence_toTerm {c : Compound} (hground : c.isGround = true) :
    readOccurrence (.term c.toTerm) = .ok c := by
  have hcompound : Compound.ofTerm? c.toTerm = some c := rfl
  simp only [readOccurrence, readTerm, Except.mapError, bind, Except.bind, Value.expectTerm,
    Value.term?, hcompound, hground, ↓reduceIte]

namespace Archive

/-- Saves occurrences from first to last, each as a single one is saved, and counts the new ones.
If one of them is refused, those before it stay saved. -/
def saveChecked (a : Archive) : List (Compound × String) -> Except Fault Nat × Archive
  | [] => (.ok 0, a)
  | (c, timestamp) :: rest =>
      match a.saveEvent (.term c.toTerm) (.text timestamp) with
      | .error fault => (.error fault, a)
      | .ok (isNew, next) =>
          let (count, last) := next.saveChecked rest
          (count.map fun n => if isNew then n + 1 else n, last)

/-- Imports facts with both checks, and gives the archive after a failure too. -/
def importChecked (a : Archive) (source : String) : Except Fault Nat × Archive :=
  match readFacts 1 (Text.lines source.toList) with
  | .error fault => (.error fault, a)
  | .ok facts => a.saveChecked facts

theorem saveEvent_of_isTimestamp (a : Archive) {c : Compound} (hground : c.isGround = true)
    {timestamp : String} (htime : IsTimestamp timestamp) :
    a.saveEvent (.term c.toTerm) (.text timestamp) = .ok (a.save c timestamp) := by
  have htimestamp : timestampOf (.text timestamp) = .ok timestamp := htime
  rw [saveEvent, readOccurrence_toTerm hground, htimestamp]
  rfl

/-- Nothing that was read from lines is refused. -/
theorem saveChecked_eq (a : Archive) {lines : List (List Char)} {facts : List (Compound × String)}
    (h : List.Forall₂ States lines facts) :
    a.saveChecked facts = (.ok (a.saveAll facts).1, (a.saveAll facts).2) := by
  induction h generalizing a with
  | nil => rfl
  | @cons cs fact _ _ hfirst _ ih =>
      have hread : readFact 0 cs = .ok fact := readFact_eq_ok_iff.mpr hfirst
      have hsaved := a.saveEvent_of_isTimestamp (isGround_of_readFact hread)
        (isTimestamp_of_readFact hread)
      simp only [saveChecked, saveAll, hsaved, ih, Except.map]

/-!
# What is saved
-/

/-- The pairs of description and timestamp that are archived. -/
def archived (a : Archive) : List (String × String) :=
  a.rows.map ArchiveRow.texts

theorem contains_eq_any (a : Archive) (pair : String × String) :
    a.contains pair.1 pair.2 = a.archived.any fun other => pair == other := by
  rw [Bool.eq_iff_iff, List.any_beq, List.contains_iff_mem, contains, List.any_eq_true,
    archived, List.mem_map]
  simp only [Bool.and_eq_true, beq_iff_eq, ArchiveRow.texts, Prod.ext_iff]

/-- The new rows are those of the pairs that were not archived, each once. -/
theorem exists_rows_saveAll (a : Archive) (facts : List (Compound × String)) :
    exists added, (a.saveAll facts).2.rows = a.rows ++ added ∧
      added.map ArchiveRow.texts =
        newEntries (fun pair other => pair == other) a.archived (texts facts) ∧
      (a.saveAll facts).1 = added.length := by
  -- A fact that is repeated is met among the rows that were added before it, so the archive varies.
  induction facts generalizing a with
  | nil => exact ⟨[], (List.append_nil _).symm, rfl, rfl⟩
  | cons fact rest ih =>
      rcases fact with ⟨c, timestamp⟩
      have hcontains := a.contains_eq_any (c.render, timestamp)
      by_cases hold : a.contains c.render timestamp = true
      · rcases ih { a with lastId := a.lastId + 1 } with ⟨added, hrows, htexts, hcount⟩
        refine ⟨added, ?_, ?_, ?_⟩
        · simp only [saveAll, save, hold, ↓reduceIte, hrows]
        · rw [htexts]
          exact (newEntries_cons_of_any (hcontains.symm.trans hold) _).symm
        · simp only [saveAll, save, hold, ↓reduceIte, hcount, Bool.false_eq_true]
      · rcases ih (a.addRow c.render c.functor.text timestamp) with
          ⟨added, hrows, htexts, hcount⟩
        have hnew : ¬ (a.archived.any fun other => (c.render, timestamp) == other) = true :=
          fun hany => hold (hcontains.trans hany)
        refine ⟨⟨a.lastId + 1, c.render, c.functor.text, timestamp⟩ :: added, ?_, ?_, ?_⟩
        · simp only [saveAll, save, hold, Bool.false_eq_true, ↓reduceIte, hrows]
          rw [addRow, List.append_assoc, List.singleton_append]
        · have hpairs : (a.addRow c.render c.functor.text timestamp).archived =
              a.archived ++ [(c.render, timestamp)] := List.map_append
          rw [List.map_cons, htexts, hpairs]
          exact (newEntries_cons hnew _).symm
        · simp only [saveAll, save, hold, Bool.false_eq_true, ↓reduceIte, hcount,
            List.length_cons]

/-- The pairs of the facts that are not archived, each once. -/
def newTexts (a : Archive) (facts : List (Compound × String)) : List (String × String) :=
  ((texts facts).filter fun pair => !a.archived.contains pair).eraseDups

/-- The archive has what it had and the facts, and the count is that of the pairs it did not have. -/
structure TakesIn (a : Archive) (facts : List (Compound × String)) (count : Nat)
    (next : Archive) : Prop where
  count_eq : count = (a.newTexts facts).length
  rows_eq : exists added, next.rows = a.rows ++ added ∧
    added.map ArchiveRow.texts = a.newTexts facts
  archived_iff : forall pair, pair ∈ next.archived ↔
    pair ∈ a.archived ∨ exists fact, fact ∈ facts ∧ pair = (fact.1.render, fact.2)
  records_eq : next.records = a.records

theorem takesIn_saveAll (a : Archive) (facts : List (Compound × String)) :
    a.TakesIn facts (a.saveAll facts).1 (a.saveAll facts).2 := by
  rcases a.exists_rows_saveAll facts with ⟨added, hrows, htexts, hcount⟩
  have hnew : added.map ArchiveRow.texts = a.newTexts facts := by
    rw [htexts, newEntries_beq]
    rfl
  constructor
  case count_eq => rw [hcount, ← hnew, List.length_map]
  case rows_eq => exact ⟨added, hrows, hnew⟩
  case archived_iff =>
    intro pair
    rw [archived, hrows, List.map_append, htexts]
    show pair ∈ a.archived ++ _ ↔ _
    rw [mem_append_newEntries_iff, texts, List.mem_map]
    simp only [eq_comm]
  case records_eq => exact a.records_saveAll facts

/-!
# Imports
-/

/-- Either some line states no fact and the import leaves the archive as it was, or every line
states one and the import takes in all of them. -/
theorem imports_all_or_nothing (a : Archive) (source : String) :
    (exists fault cs, a.importChecked source = (.error fault, a) ∧
        a.importFacts source = .error fault ∧ cs ∈ keptLines (Text.lines source.toList) ∧
        forall fact, ¬ States cs fact) ∨
      exists facts count next, a.importChecked source = (.ok count, next) ∧
        a.importFacts source = .ok (count, next) ∧
        List.Forall₂ States (keptLines (Text.lines source.toList)) facts ∧
        a.TakesIn facts count next := by
  unfold importChecked importFacts
  cases hread : readFacts 1 (Text.lines source.toList) with
  | error fault =>
      rcases exists_of_readFacts_eq_error hread with ⟨cs, hcs, hnone⟩
      exact Or.inl ⟨fault, cs, rfl, rfl, hcs, hnone⟩
  | ok facts =>
      have hstates := forall₂_of_readFacts hread
      exact Or.inr ⟨facts, _, _, a.saveChecked_eq hstates, rfl, hstates, a.takesIn_saveAll facts⟩

end Archive
end EventCalculus

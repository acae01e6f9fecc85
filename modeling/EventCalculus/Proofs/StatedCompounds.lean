import EventCalculus.Proofs.FactImport
import EventCalculus.Proofs.PhraseNames
import EventCalculus.Proofs.RememberedStatements

/-!
# Compounds of stated events

The compound of a stated event has the names of its phrases.  It can be stored and archived, it is
read back from its text, and what holds for its subject is found by every phrase of the same name.
-/

namespace EventCalculus

/-- The text starts with a small letter. -/
def StartsSmall (s : String) : Prop :=
  exists c rest, s.toList = c :: rest ∧ 'a' ≤ c ∧ c ≤ 'z'

/-!
# Names
-/

theorem isWordChar_of_isNameChar {c : Char} (h : IsNameChar c ∨ c = '_') :
    isWordChar c = true := by
  rcases h with hchar | rfl
  · have hphrase := (isPhraseChar_iff c).mpr hchar
    simp only [isPhraseChar, isWordChar, Char.isAlphanum, Bool.or_eq_true] at hphrase ⊢
    exact Or.inl (hphrase.imp_left fun hlower => Bool.or_eq_true_iff.mpr (Or.inr hlower))
  · rfl

namespace IsPhraseName

variable {s : String}

/-- A name can be that of a verb if and only if it starts with a letter. -/
theorem isFunctorText_iff (h : IsPhraseName s) : isFunctorText s = true ↔ StartsSmall s := by
  rw [isFunctorText]
  constructor
  · intro hname
    rcases exists_start_of_isIdentifier hname with ⟨c, rest, hchars, hc⟩
    exact ⟨c, rest, hchars, (isLower_iff c).mp hc⟩
  · rintro ⟨c, rest, hchars, hc⟩
    rw [hchars]
    apply isIdentifier_of_isWordChar ((isLower_iff c).mpr hc)
    intro d hd
    exact isWordChar_of_isNameChar (h.isNameChar (hchars ▸ List.mem_cons_of_mem c hd))

theorem lineFeed_not_mem (h : IsPhraseName s) : '\n' ∉ s.toList := by
  intro hmem
  have hword := isWordChar_of_isNameChar (h.isNameChar hmem)
  rw [isWordChar_lineFeed] at hword
  cases hword

theorem not_endsInLineFeed (h : IsPhraseName s) : ¬ EndsInLineFeed s :=
  fun hend => h.lineFeed_not_mem (List.mem_of_getLast? hend)

theorem not_isWordWithLineFeed (h : IsPhraseName s) : ¬ IsWordWithLineFeed s := by
  rintro ⟨c, rest, hchars, _, _⟩
  apply h.lineFeed_not_mem
  rw [hchars]
  exact List.mem_append_right _ List.mem_cons_self

end IsPhraseName

theorem Term.atom_same_iff {n : AtomName} {t : Term} :
    (Term.atom n).same t = true ↔ t = .atom n := by
  rw [Term.same_iff]
  cases t <;> simp [canonical, eq_comm]

theorem AtomName.ofText?_of_ne {s : String} (h : s ≠ "") : AtomName.ofText? s = some ⟨s, h⟩ :=
  dif_pos h

/-!
# Phrases
-/

namespace StatedEvent

variable {e : StatedEvent} {c : Compound}

theorem phraseAtom?_eq_none {phrase : String} (h : phraseAtom? phrase = none) :
    snakeCase phrase = "" := by
  by_contra hne
  rw [phraseAtom?, AtomName.ofText?_of_ne hne] at h
  cases h

/-- The parts of the compound of a stated event. -/
structure Names (e : StatedEvent) (c : Compound) (subject : AtomName) : Prop where
  functorName : c.functor.text = snakeCase e.verb
  subjectName : subject.text = snakeCase e.subject
  args : c.args = [.atom subject] ∨
    exists phrase object, e.object = some phrase ∧ object.text = snakeCase phrase ∧
      c.args = [.atom subject, .atom object]

theorem names_compound (h : e.compound = .ok c) : exists subject, e.Names c subject := by
  unfold compound at h
  split at h
  · cases h
  · rename_i verb hverb
    split at h
    · cases h
    · rename_i t ht
      cases h
      rcases phraseAtom?_eq_some ht with ⟨subject, rfl, hsubject⟩
      refine ⟨subject, Functor.text_of_ofText? hverb, hsubject, ?_⟩
      cases hobject : e.object.bind phraseAtom? with
      | none => exact Or.inl rfl
      | some o =>
          rcases Option.bind_eq_some_iff.mp hobject with ⟨phrase, hphrase, ho⟩
          rcases phraseAtom?_eq_some ho with ⟨object, rfl, hname⟩
          exact Or.inr ⟨phrase, object, hphrase, hname, rfl⟩

/-- An event has no compound only if no letter starts the name of its verb, or if its subject has
no name. -/
theorem compound_eq_error {fault : StatedEventFault} (h : e.compound = .error fault) :
    ¬ StartsSmall (snakeCase e.verb) ∨ snakeCase e.subject = "" := by
  unfold compound at h
  split at h
  · rename_i hverb
    left
    intro hsmall
    rcases snakeCase_eq_empty_or e.verb with hempty | hname
    · rcases hsmall with ⟨first, rest, hchars, _⟩
      rw [hempty] at hchars
      cases hchars
    · rw [Functor.ofText?, dif_pos (hname.isFunctorText_iff.mpr hsmall)] at hverb
      cases hverb
  · split at h
    · exact Or.inr (phraseAtom?_eq_none ‹_›)
    · cases h

/-!
# Names of compounds
-/

namespace Names

variable {subject : AtomName}

theorem isPhraseName_verb (h : e.Names c subject) : IsPhraseName c.functor.text := by
  rw [h.functorName]
  apply isPhraseName_snakeCase
  rw [← h.functorName]
  exact c.functor.text_ne_empty

theorem isPhraseName_subject (h : e.Names c subject) : IsPhraseName subject.text := by
  rw [h.subjectName]
  apply isPhraseName_snakeCase
  rw [← h.subjectName]
  exact subject.nonempty

theorem exists_name_of_mem_args (h : e.Names c subject) {t : Term} (ht : t ∈ c.args) :
    exists n : AtomName, t = .atom n ∧ IsPhraseName n.text := by
  rcases h.args with hargs | ⟨phrase, object, _, hobject, hargs⟩
  · rw [hargs, List.mem_singleton] at ht
    exact ⟨subject, ht, h.isPhraseName_subject⟩
  · rw [hargs, List.mem_pair] at ht
    rcases ht with rfl | rfl
    · exact ⟨subject, rfl, h.isPhraseName_subject⟩
    · refine ⟨object, rfl, ?_⟩
      rw [hobject]
      apply isPhraseName_snakeCase
      rw [← hobject]
      exact object.nonempty

theorem subject?_eq (h : e.Names c subject) : c.args.head? = some (.atom subject) := by
  rcases h.args with hargs | ⟨_, _, _, _, hargs⟩
  · rw [hargs]
    rfl
  · rw [hargs]
    rfl

theorem isGround (h : e.Names c subject) : c.isGround = true := by
  rcases c with ⟨verb, args⟩
  rcases h.args with hargs | ⟨_, _, _, _, hargs⟩
  · cases hargs
    rfl
  · cases hargs
    rfl

theorem depth_toTerm (h : e.Names c subject) : c.toTerm.depth = 2 := by
  rcases c with ⟨verb, args⟩
  rcases h.args with hargs | ⟨_, _, _, _, hargs⟩
  · cases hargs
    rfl
  · cases hargs
    rfl

theorem arity_eq (h : e.Names c subject) : c.arity = 1 ∨ c.arity = 2 := by
  rcases h.args with hargs | ⟨_, _, _, _, hargs⟩
  · exact Or.inl (congrArg List.length hargs)
  · exact Or.inr (congrArg List.length hargs)

/-- The parts of the compound are itself and its atoms. -/
theorem eq_of_mem_subterms (h : e.Names c subject) {t : Term} (ht : t ∈ c.toTerm.subterms) :
    t = c.toTerm ∨ exists n : AtomName, t = .atom n ∧ IsPhraseName n.text := by
  have hparts : c.toTerm.subterms = c.toTerm :: c.args := by
    rcases c with ⟨verb, args⟩
    rcases h.args with hargs | ⟨_, _, _, _, hargs⟩
    · cases hargs
      rfl
    · cases hargs
      rfl
  rw [hparts] at ht
  exact (List.mem_cons.mp ht).imp_right h.exists_name_of_mem_args

theorem parse_render (h : e.Names c subject) : Term.parse c.render = .ok c.toTerm := by
  apply (Term.parse_render_eq_ok_iff _ _).mpr
  apply Term.reading?_of_keepsItself
  · intro n hn
    rcases h.eq_of_mem_subterms hn with hself | ⟨_, hatom, _⟩
    · cases hself
    · cases hatom
  · intro t ht
    rcases h.eq_of_mem_subterms ht with rfl | ⟨n, rfl, hname⟩
    · exact h.isPhraseName_verb.not_endsInLineFeed
    · exact hname.not_isWordWithLineFeed

end Names

end StatedEvent

/-!
# What holds for a subject
-/

/-- A phrase finds the fluents whose subject is the atom of its name. -/
theorem Engine.holdingsFor_eq (engine : Engine) {phrase : String} {subject : AtomName}
    (h : snakeCase phrase = subject.text) (m : Option Moment) :
    engine.holdingsFor phrase m = (engine.allHolding m).map fun holdings =>
      holdings.filter fun holding => holding.fluent.subject? = some (.atom subject) := by
  have hatom : (Value.text subject.text).toAtom = .ok (.atom subject) := by
    have hname : AtomName.ofText? subject.text = some subject :=
      AtomName.ofText?_of_ne subject.nonempty
    simp only [Value.toAtom, Value.text?, Option.bind_some, hname]
  have hfilter : (fun holding : Holding => holding.fluent.subject?.any (Term.atom subject).same) =
      fun holding => decide (holding.fluent.subject? = some (.atom subject)) := by
    funext holding
    rw [Bool.eq_iff_iff, decide_eq_true_eq]
    cases holding.fluent.subject? with
    | none => simp
    | some t => simp [Term.atom_same_iff]
  rw [holdingsFor, h, hatom]
  cases engine.allHolding m with
  | error fault => rfl
  | ok holdings =>
      show Except.ok (holdings.filter _) = Except.ok (holdings.filter _)
      rw [hfilter]

namespace StatedEvent

/-- What can be done with the compound of a stated event. -/
structure IsUsable (e : StatedEvent) (c : Compound) : Prop where
  ground : c.isGround = true
  depth : c.toTerm.depth = 2
  arity : c.arity = 1 ∨ c.arity = 2
  /-- Every store that admits depth two takes it in. -/
  stored : forall (s : EventStore) timestamp, 2 ≤ s.maxDepth ->
    exists event after, s.append c.toTerm timestamp = .ok (event, after) ∧
      event.description = c ∧ event.timestamp = timestamp ∧ after.events = s.events ++ [event]
  /-- Every archive saves it, and a row with its text gives it back. -/
  archived : forall (a : Archive) m timestamp, timestampOf m = .ok timestamp ->
    a.saveEvent (.term c.toTerm) m = .ok (a.save c timestamp)
  recalled : forall id verb timestamp,
    ArchiveRow.toEvent ⟨id, c.render, verb, timestamp⟩ = .ok ⟨id, c, timestamp⟩
  readsBack : Term.parse c.render = .ok c.toTerm
  verb : c.functor.text = snakeCase e.verb ∧ IsPhraseName c.functor.text
  atoms : forall t, t ∈ c.args -> exists n : AtomName, t = .atom n ∧ IsPhraseName n.text
  /-- The subject comes first, under the name of its phrase.  This is a name of its own, and all
  phrases with this name find the fluents of this subject and no others. -/
  subject : exists n : AtomName, c.args.head? = some (.atom n) ∧ n.text = snakeCase e.subject ∧
    snakeCase n.text = n.text ∧
    forall (engine : Engine) phrase m, snakeCase phrase = snakeCase e.subject ->
      engine.holdingsFor phrase m = (engine.allHolding m).map fun holdings =>
        holdings.filter fun holding => holding.fluent.subject? = some (.atom n)

/-- A stated event is malformed, because its verb or its subject gives no name, or it has a compound
that can be stored, archived, read back and found again. -/
theorem malformed_or_usable (e : StatedEvent) :
    (exists fault, e.compound = .error fault ∧ (Fault.statement fault).kind = .malformedTerm ∧
        (¬ StartsSmall (snakeCase e.verb) ∨ snakeCase e.subject = "")) ∨
      exists c, e.compound = .ok c ∧ e.IsUsable c := by
  cases hcompound : e.compound with
  | error fault => exact Or.inl ⟨fault, rfl, rfl, compound_eq_error hcompound⟩
  | ok c =>
      rcases names_compound hcompound with ⟨subject, hnames⟩
      have hvalid : forall s : EventStore, 2 ≤ s.maxDepth -> s.validate c.toTerm = .ok c := by
        intro s hs
        rw [validate_compound hcompound, if_neg (Int.not_lt.mpr hs)]
      refine Or.inr ⟨c, rfl, ?_⟩
      constructor
      case ground => exact hnames.isGround
      case depth => exact hnames.depth_toTerm
      case arity => exact hnames.arity_eq
      case stored =>
        intro s timestamp hs
        refine ⟨(s.push c timestamp).1, (s.push c timestamp).2, ?_, rfl, rfl, rfl⟩
        rw [EventStore.append, hvalid s hs]
        rfl
      case archived =>
        intro a m timestamp htime
        rw [Archive.saveEvent, readOccurrence_toTerm hnames.isGround, htime]
        rfl
      case recalled =>
        intro id verb timestamp
        rw [ArchiveRow.toEvent, readOccurrence_of_parse hnames.parse_render hnames.isGround]
        rfl
      case readsBack => exact hnames.parse_render
      case verb => exact ⟨hnames.functorName, hnames.isPhraseName_verb⟩
      case atoms => exact fun t => hnames.exists_name_of_mem_args
      case subject =>
        refine ⟨subject, hnames.subject?_eq, hnames.subjectName, ?_, ?_⟩
        · exact hnames.isPhraseName_subject.snakeCase_eq
        · intro engine phrase m hphrase
          exact engine.holdingsFor_eq (hphrase.trans hnames.subjectName.symm) m

end StatedEvent
end EventCalculus

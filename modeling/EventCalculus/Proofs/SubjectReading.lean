import EventCalculus.Proofs.AnswerSets
import EventCalculus.Proofs.RuleOrigins

/-!
# Reading subjects

The evaluator reads the subjects of fluents at two places: where it looks for another value of the
same subject in an exclusive domain, and where it sorts all that holds.  A fluent without arguments
has none, and then the question fails.  Here every reading can fail.  A question about a pattern
with a subject never does, and all that holds can be listed unless a fluent without arguments holds.
-/

namespace EventCalculus

/-!
# Steps that can fail
-/

section
variable {α β : Type} {f : α -> Option β} {g : α -> β} {xs : List α}

theorem mapM_eq_some_map (h : forall x, x ∈ xs -> f x = some (g x)) :
    xs.mapM f = some (xs.map g) := by
  induction xs with
  | nil => rfl
  | cons x rest ih =>
      rw [List.mapM_cons, h x List.mem_cons_self, ih fun y hy => h y (List.mem_cons_of_mem x hy)]
      rfl

theorem anyM_eq_some_any {f : α -> Option Bool} {g : α -> Bool}
    (h : forall x, x ∈ xs -> f x = some (g x)) : xs.anyM f = some (xs.any g) := by
  induction xs with
  | nil => rfl
  | cons x rest ih =>
      rw [List.anyM, h x List.mem_cons_self, List.any_cons]
      cases g x with
      | true => rfl
      | false => exact ih fun y hy => h y (List.mem_cons_of_mem x hy)

end

/-!
# Questions that read subjects
-/

/-- The fluents have the same subject, which is read from both, and different values. -/
def Compound.readCompetes? (a b : Compound) : Option Bool :=
  b.subject?.bind fun subject => a.subject?.map fun other =>
    other.same subject && decide (Term.canonicalAll a.values ≠ Term.canonicalAll b.values)

def Event.fallsIn (start stop : String) (e : Event) : Bool :=
  decide (start < e.timestamp) && decide (e.timestamp ≤ stop)

namespace Scenario

/-- Looks for a clipping, among the terminations first, and stops at the first one. -/
def readClipped? (s : Scenario) (fluent : Compound) (start stop : String) : Option Bool :=
  if (s.terminations fluent).any (Event.fallsIn start stop) then
    some true
  else if s.exclusive.contains fluent.functor.text then
    fluent.subject?.bind fun _ =>
      (s.initiations fluent.functor.text fluent.arity none).anyM fun other =>
        (other.fluent.readCompetes? fluent).map fun competes =>
          competes && other.event.fallsIn start stop
  else
    some false

def readDisplacement? (fluent : Compound) (other : Initiation) : Option (Option Event) :=
  (other.fluent.readCompetes? fluent).map fun competes => if competes then some other.event else none

/-- All clippings, as the times at which the status of a fluent can change ask for them. -/
def readClippings? (s : Scenario) (fluent : Compound) : Option (List Event) :=
  if s.exclusive.contains fluent.functor.text then
    fluent.subject?.bind fun _ =>
      ((s.initiations fluent.functor.text fluent.arity none).mapM (readDisplacement? fluent)).map
        fun found => s.terminations fluent ++ found.filterMap id
  else
    some (s.terminations fluent)

def readCandidate? (s : Scenario) (pattern : Compound) (time : String) (i : Initiation) :
    Option (Option Candidate) :=
  match pattern.matchCompound? i.fluent with
  | none => some none
  | some bindings =>
      (s.readClipped? i.fluent i.timestamp time).map fun isClipped =>
        if isClipped then none else some ⟨i.timestamp, i.fluent.render, bindings⟩

/-- A query; a pattern without subject is refused. -/
def readQuery? (s : Scenario) (pattern : Compound) (time : String) : Option (List Bindings) :=
  if pattern.arity = 0 then
    none
  else
    ((s.initiations pattern.functor.text pattern.arity (some time)).mapM
      (s.readCandidate? pattern time)).map fun found =>
        distinctBindings (((found.filterMap id).mergeSort Candidate.notAfter).map
          Candidate.bindings)

end Scenario

/-- The intervals of a status that is asked for at one time after the other. -/
def readIntervalsFrom? (fluent : Compound) (holds : String -> Option Bool)
    (start : Option String) : List String -> Option (List Interval)
  | [] =>
      match start with
      | none => some []
      | some begun => some [⟨fluent, begun, none⟩]
  | time :: rest =>
      (holds time).bind fun status =>
        match start, status with
        | none, true => readIntervalsFrom? fluent holds (some time) rest
        | none, false => readIntervalsFrom? fluent holds none rest
        | some begun, true => readIntervalsFrom? fluent holds (some begun) rest
        | some begun, false =>
            (readIntervalsFrom? fluent holds none rest).map (⟨fluent, begun, some time⟩ :: ·)

namespace Scenario

def readIntervals? (s : Scenario) (fluent : Compound) : Option (List Interval) :=
  (s.readClippings? fluent).bind fun clippings =>
    let started := (s.initiations fluent.functor.text fluent.arity none).filter fun i =>
      i.fluent.same fluent
    let times := started.map Initiation.timestamp ++ clippings.map Event.timestamp
    readIntervalsFrom? fluent
      (fun time => (s.readQuery? fluent time).map fun answers => !answers.isEmpty) none
      (times.eraseDups.mergeSort fun a b => decide (a ≤ b))

/-- A timeline; a pattern without subject is refused, here and in every query. -/
def readTimeline? (s : Scenario) (pattern : Compound) : Option (List Interval) :=
  if pattern.arity = 0 then
    none
  else
    ((s.fluentsOf pattern).mapM s.readIntervals?).map fun found =>
      found.flatten.mergeSort Interval.notAfter

def readAddHolding? (s : Scenario) (time : String) (holdings : List Holding) (i : Initiation) :
    Option (List Holding) :=
  if isListed holdings i then
    some holdings
  else
    (s.readClipped? i.fluent i.timestamp time).map fun isClipped =>
      if isClipped then holdings else setSince i.fluent i.timestamp holdings

/-- All that holds; the subjects are read again where the list is sorted. -/
def readAllHolding? (s : Scenario) (time : String) : Option (List Holding) :=
  ((s.allInitiations (some time)).foldlM (s.readAddHolding? time) []).bind fun holdings =>
    if holdings.any fun h => h.fluent.subject?.isNone then
      none
    else
      some (holdings.mergeSort Holding.notAfter)

end Scenario

/-!
# Readings that succeed
-/

theorem Compound.args_eq_of_subject? {c : Compound} {subject : Term}
    (h : c.subject? = some subject) : c.args = subject :: c.values := by
  rcases c with ⟨f, args⟩
  cases args with
  | nil => cases h
  | cons first rest => rw [← Option.some.inj h]; rfl

theorem Compound.subject?_eq_none_iff (c : Compound) : c.subject? = none ↔ c.arity = 0 := by
  rw [subject?, List.head?_eq_none_iff, arity, List.length_eq_zero_iff]

theorem Compound.readCompetes?_eq {a b : Compound} (ha : 1 ≤ a.arity) (hb : 1 ≤ b.arity) :
    a.readCompetes? b = some (a.competesWith b) := by
  rcases a with ⟨f, xs⟩
  rcases b with ⟨g, ys⟩
  cases xs with
  | nil => cases ha
  | cons x xs =>
      cases ys with
      | nil => cases hb
      | cons y ys => rfl

theorem readIntervalsFrom?_eq {fluent : Compound} {holds : String -> Bool}
    {reading : String -> Option Bool} (h : forall time, reading time = some (holds time))
    (start : Option String) (points : List String) :
    readIntervalsFrom? fluent reading start points =
      some (intervalsFrom fluent holds start points) := by
  fun_induction intervalsFrom fluent holds start points with
  | case1 => rfl
  | case2 begun => rfl
  | case3 point rest hpoint ih => simp only [readIntervalsFrom?, h, hpoint, Option.bind_some, ih]
  | case4 point rest hpoint ih => simp only [readIntervalsFrom?, h, hpoint, Option.bind_some, ih]
  | case5 point rest begun hpoint ih =>
      simp only [readIntervalsFrom?, h, hpoint, Option.bind_some, ih]
  | case6 point rest begun hpoint ih =>
      simp only [readIntervalsFrom?, h, hpoint, Option.bind_some, ih, Option.map_some]

namespace Scenario

variable {s : Scenario} {fluent : Compound}

theorem one_le_arity_of_mem_initiations (hs : s.Indexed) {domain : String} {arity : Nat}
    (harity : 1 ≤ arity) {limit : Option String} {i : Initiation}
    (hi : i ∈ s.initiations domain arity limit) : 1 ≤ i.fluent.arity := by
  rcases (mem_initiations_iff hs domain arity limit i).mp hi with ⟨_, _, _, hfluent, _⟩
  rw [hfluent]
  exact harity

theorem isClipped_eq (s : Scenario) (fluent : Compound) (start stop : String) :
    s.isClipped fluent start stop = ((s.terminations fluent).any (Event.fallsIn start stop) ||
      (s.exclusive.contains fluent.functor.text &&
        (s.initiations fluent.functor.text fluent.arity none).any fun other =>
          other.fluent.competesWith fluent && other.event.fallsIn start stop)) := by
  show (s.terminations fluent ++ s.displacements fluent).any (Event.fallsIn start stop) = _
  rw [List.any_append, displacements]
  cases s.exclusive.contains fluent.functor.text with
  | true => simp only [↓reduceIte, List.any_map, List.any_filter, Bool.true_and]; rfl
  | false => rfl

theorem readClipped?_eq (hs : s.Indexed) (h : 1 ≤ fluent.arity) (start stop : String) :
    s.readClipped? fluent start stop = some (s.isClipped fluent start stop) := by
  rw [isClipped_eq, readClipped?]
  cases (s.terminations fluent).any (Event.fallsIn start stop) with
  | true => rfl
  | false =>
      cases s.exclusive.contains fluent.functor.text with
      | false => rfl
      | true =>
          rcases Compound.exists_subject? h with ⟨subject, hsubject⟩
          have hread : forall other,
              other ∈ s.initiations fluent.functor.text fluent.arity none ->
              ((other.fluent.readCompetes? fluent).map fun competes =>
                competes && other.event.fallsIn start stop) =
                some (other.fluent.competesWith fluent && other.event.fallsIn start stop) := by
            intro other hother
            rw [Compound.readCompetes?_eq (one_le_arity_of_mem_initiations hs h hother) h]
            rfl
          rw [hsubject]
          exact anyM_eq_some_any hread

theorem readClippings?_eq (hs : s.Indexed) (h : 1 ≤ fluent.arity) :
    s.readClippings? fluent = some (s.clippings fluent) := by
  rw [readClippings?, clippings, displacements]
  cases s.exclusive.contains fluent.functor.text with
  | false =>
      rw [if_neg Bool.false_ne_true, if_neg Bool.false_ne_true, List.append_nil]
  | true =>
      rcases Compound.exists_subject? h with ⟨subject, hsubject⟩
      have hread : forall other,
          other ∈ s.initiations fluent.functor.text fluent.arity none ->
          readDisplacement? fluent other =
            some (if other.fluent.competesWith fluent then some other.event else none) := by
        intro other hother
        rw [readDisplacement?,
          Compound.readCompetes?_eq (one_le_arity_of_mem_initiations hs h hother) h]
        rfl
      rw [if_pos rfl, if_pos rfl, hsubject, Option.bind_some, mapM_eq_some_map hread,
        Option.map_some, List.filterMap_map, ← List.filterMap_eq_map, List.filterMap_filter]
      rfl

theorem readCandidate?_eq (hs : s.Indexed) (p : Compound) (time : String) {i : Initiation}
    (hi : 1 ≤ i.fluent.arity) :
    s.readCandidate? p time i = some (s.candidate? p time i) := by
  rw [readCandidate?, candidate?]
  cases p.matchCompound? i.fluent with
  | none => rfl
  | some bindings =>
      simp only [readClipped?_eq hs hi, Option.map_some, persists]
      by_cases hclipped : s.isClipped i.fluent i.timestamp time = true
      · simp only [hclipped, ↓reduceIte, Bool.not_true, Bool.false_eq_true]
      · simp only [hclipped, ↓reduceIte, Bool.not_eq_true', Bool.false_eq_true]

theorem readQuery?_eq (hs : s.Indexed) {p : Compound} (hp : 1 ≤ p.arity) (time : String) :
    s.readQuery? p time = some (s.query p time) := by
  have hread : forall i, i ∈ s.initiations p.functor.text p.arity (some time) ->
      s.readCandidate? p time i = some (s.candidate? p time i) := fun i hi =>
    readCandidate?_eq hs p time (one_le_arity_of_mem_initiations hs hp hi)
  rw [readQuery?, if_neg (by omega), mapM_eq_some_map hread, Option.map_some, List.filterMap_map]
  rfl

theorem readIntervals?_eq (hs : s.Indexed) (h : 1 ≤ fluent.arity) :
    s.readIntervals? fluent = some (s.intervals fluent) := by
  rw [readIntervals?, readClippings?_eq hs h, Option.bind_some]
  apply readIntervalsFrom?_eq
  intro time
  rw [readQuery?_eq hs h]
  rfl

theorem readTimeline?_eq (hs : s.Indexed) {p : Compound} (hp : 1 ≤ p.arity) :
    s.readTimeline? p = some (s.timeline p) := by
  have hread : forall form, form ∈ s.fluentsOf p ->
      s.readIntervals? form = some (s.intervals form) := by
    intro form hform
    rcases Option.isSome_iff_exists.mp (isSome_matchCompound?_of_mem_fluentsOf hform) with ⟨b, hb⟩
    exact readIntervals?_eq hs (Compound.arity_eq_of_matchCompound? hb ▸ hp)
  rw [readTimeline?, if_neg (by omega), mapM_eq_some_map hread]
  rfl

/-!
# All that holds
-/

theorem competesWith_of_subject_eq_none {c : Compound} (h : c.subject? = none)
    (other : Compound) : other.competesWith c = false := by
  cases hcompetes : other.competesWith c with
  | false => rfl
  | true =>
      rcases ((Compound.competesWith_iff other c).mp hcompetes).left with ⟨_, _, _, hsubject, _⟩
      rw [h] at hsubject
      cases hsubject

theorem isClipped_of_subject_eq_none (h : fluent.subject? = none) (start stop : String) :
    s.isClipped fluent start stop = (s.terminations fluent).any (Event.fallsIn start stop) := by
  have hnone : ((s.initiations fluent.functor.text fluent.arity none).any fun other =>
      other.fluent.competesWith fluent && other.event.fallsIn start stop) = false := by
    apply List.any_eq_false.mpr
    intro other _
    rw [competesWith_of_subject_eq_none h, Bool.false_and]
    exact Bool.false_ne_true
  rw [isClipped_eq, hnone, Bool.and_false, Bool.or_false]

/-- A reading fails only where the fluent has no subject and would not be found clipped. -/
theorem readClipped?_cases (hs : s.Indexed) (fluent : Compound) (start stop : String) :
    s.readClipped? fluent start stop = some (s.isClipped fluent start stop) ∨
      (s.readClipped? fluent start stop = none ∧ s.isClipped fluent start stop = false ∧
        fluent.subject? = none) := by
  cases hsubject : fluent.subject? with
  | some subject =>
      have harity : 1 ≤ fluent.arity := by
        by_contra hzero
        rw [(Compound.subject?_eq_none_iff fluent).mpr (by omega)] at hsubject
        cases hsubject
      exact Or.inl (readClipped?_eq hs harity start stop)
  | none =>
      rw [isClipped_of_subject_eq_none hsubject, readClipped?, hsubject]
      cases (s.terminations fluent).any (Event.fallsIn start stop) with
      | true => exact Or.inl rfl
      | false =>
          cases s.exclusive.contains fluent.functor.text with
          | true => exact Or.inr ⟨rfl, rfl, rfl⟩
          | false => exact Or.inl rfl

def LacksSubject (holdings : List Holding) : Prop :=
  exists h, h ∈ holdings ∧ h.fluent.subject? = none

theorem lacksSubject_iff (holdings : List Holding) :
    (holdings.any fun h => h.fluent.subject?.isNone) = true ↔ LacksSubject holdings := by
  simp only [List.any_eq_true, Option.isNone_iff_eq_none, LacksSubject]

theorem LacksSubject.setSince {holdings : List Holding} (h : LacksSubject holdings)
    (fluent : Compound) (since : String) : LacksSubject (setSince fluent since holdings) := by
  rcases h with ⟨holding, hmem, hnone⟩
  have hkept : holding.fluent ∈ (EventCalculus.setSince fluent since holdings).map
      Holding.fluent := by
    rw [fluents_setSince]
    split
    · exact List.mem_map_of_mem hmem
    · exact List.mem_append_left _ (List.mem_map_of_mem hmem)
  rcases List.mem_map.mp hkept with ⟨own, hown, hfluent⟩
  exact ⟨own, hown, hfluent ▸ hnone⟩

theorem lacksSubject_setSince (h : fluent.subject? = none) (since : String)
    (holdings : List Holding) : LacksSubject (setSince fluent since holdings) := by
  rcases exists_mem_setSince fluent since holdings with ⟨own, hown, hsame, _⟩
  refine ⟨own, hown, ?_⟩
  rw [Compound.subject?_eq_none_iff, Compound.arity_eq_of_same hsame]
  exact (Compound.subject?_eq_none_iff fluent).mp h

theorem LacksSubject.addHolding {time : String} {holdings : List Holding}
    (h : LacksSubject holdings) (i : Initiation) :
    LacksSubject (s.addHolding time holdings i) := by
  rcases s.addHolding_cases time holdings i with hkeep | ⟨_, hset⟩
  · rw [hkeep]
    exact h
  · rw [hset]
    exact h.setSince i.fluent i.timestamp

theorem LacksSubject.foldl {time : String} {holdings : List Holding} (h : LacksSubject holdings)
    (more : List Initiation) : LacksSubject (more.foldl (s.addHolding time) holdings) := by
  induction more generalizing holdings with
  | nil => exact h
  | cons i rest ih => exact ih (h.addHolding i)

/-- A reading that fails lists a fluent without subject. -/
theorem readAddHolding?_cases (hs : s.Indexed) (time : String) (holdings : List Holding)
    (i : Initiation) :
    s.readAddHolding? time holdings i = some (s.addHolding time holdings i) ∨
      (s.readAddHolding? time holdings i = none ∧
        LacksSubject (s.addHolding time holdings i)) := by
  rw [readAddHolding?, addHolding_eq, persists, Bool.not_not]
  cases isListed holdings i with
  | true => exact Or.inl rfl
  | false =>
      rw [Bool.false_or, if_neg Bool.false_ne_true]
      rcases readClipped?_cases hs i.fluent i.timestamp time with
        hread | ⟨hread, hclipped, hsubject⟩
      · rw [hread]
        exact Or.inl rfl
      · rw [hread, hclipped, if_neg Bool.false_ne_true]
        exact Or.inr ⟨rfl, lacksSubject_setSince hsubject i.timestamp holdings⟩

theorem foldlM_readAddHolding?_cases (hs : s.Indexed) (time : String) (seen : List Initiation)
    (holdings : List Holding) :
    seen.foldlM (s.readAddHolding? time) holdings =
        some (seen.foldl (s.addHolding time) holdings) ∨
      (seen.foldlM (s.readAddHolding? time) holdings = none ∧
        LacksSubject (seen.foldl (s.addHolding time) holdings)) := by
  induction seen generalizing holdings with
  | nil => exact Or.inl rfl
  | cons i rest ih =>
      rw [List.foldlM_cons, List.foldl_cons]
      rcases readAddHolding?_cases hs time holdings i with hread | ⟨hread, hlacks⟩
      · rw [hread]
        exact ih (s.addHolding time holdings i)
      · -- the list keeps the fluent without subject, whatever comes after it
        rw [hread]
        exact Or.inr ⟨rfl, hlacks.foldl rest⟩

/-- The list of all that holds shows every reading that fails. -/
theorem readAllHolding?_eq (hs : s.Indexed) (time : String) :
    s.readAllHolding? time = s.allHolding? time := by
  rw [readAllHolding?, allHolding?_eq]
  rcases foldlM_readAddHolding?_cases hs time (s.allInitiations (some time)) [] with
    hread | ⟨hread, hlacks⟩
  · rw [hread]
    rfl
  · have hnone : ((s.unsortedHoldings time).any fun h => h.fluent.subject?.isNone) = true :=
      (lacksSubject_iff _).mpr hlacks
    rw [hread, if_pos hnone]
    rfl

/-- All that holds cannot be listed exactly if a fluent without arguments holds. -/
theorem allHolding?_eq_none_iff (hs : s.Indexed) (time : String) :
    s.allHolding? time = none ↔
      exists fluent start, s.HoldsFrom fluent start time ∧ fluent.arity = 0 := by
  have hlist : s.allHolding? time = none ↔ LacksSubject (s.unsortedHoldings time) := by
    rw [allHolding?_eq, ← lacksSubject_iff]
    split
    · rename_i hlacks
      exact iff_of_true rfl hlacks
    · rename_i hlacks
      exact iff_of_false (Option.some_ne_none _) hlacks
  rw [hlist]
  constructor
  · rintro ⟨h, hh, hnone⟩
    rcases (isLeastStart_of_mem_unsortedHoldings hs hh).left with
      ⟨⟨form, hsame, hinitiates⟩, hle, hunclipped⟩
    refine ⟨form, h.since, ⟨hinitiates, hle, ?_⟩, ?_⟩
    · intro clip hafter hbefore hclips
      exact hunclipped clip hafter hbefore (clips_of_same hsame hclips)
    · rw [Compound.arity_eq_of_same hsame]
      exact (Compound.subject?_eq_none_iff h.fluent).mp hnone
  · rintro ⟨fluent, start, hholds, harity⟩
    rcases exists_mem_unsortedHoldings hs hholds.persistsFrom with ⟨h, hh, hsame, _⟩
    refine ⟨h, hh, ?_⟩
    rw [Compound.subject?_eq_none_iff, Compound.arity_eq_of_same hsame]
    exact harity

theorem exists_subject_of_mem_allHolding {time : String} {holdings : List Holding}
    (h : s.allHolding? time = some holdings) {x : Holding} (hx : x ∈ holdings) :
    exists subject, x.fluent.subject? = some subject ∧
      x.fluent.args = subject :: x.fluent.values := by
  have hmem := (perm_of_allHolding? h).mem_iff.mp hx
  rw [allHolding?_eq] at h
  split at h
  · cases h
  · rename_i hlacks
    cases hsubject : x.fluent.subject? with
    | none => exact absurd ((lacksSubject_iff _).mpr ⟨x, hmem, hsubject⟩) hlacks
    | some subject => exact ⟨subject, rfl, Compound.args_eq_of_subject? hsubject⟩

end Scenario

/-!
# Engines
-/

namespace Engine

variable {start e : Engine} {calls : List Call}

/-- The rules of records have subjects, so only rules that are learned as they are can lack one. -/
theorem one_le_arity_of_mem_lessonRules {input : RuleInput}
    (h : forall rule, input = .rule rule -> 1 ≤ rule.fluent.arity) {r : Rule}
    (hr : r ∈ lessonRules input) : 1 ≤ r.fluent.arity := by
  unfold lessonRules at hr
  split at hr
  · rename_i rules record hrules
    rcases exists_of_rulesOfInput hrules with ⟨rule, rfl, _⟩ | ⟨given, _, hmade, _⟩
    · cases hrules
      rw [List.mem_singleton.mp hr]
      exact h rule rfl
    · rcases (RuleRecord.exists_spec_of_mem_rules hmade hr).right.right with ⟨spec, hfluent⟩
      exact FluentSpec.one_le_arity_of_compound hfluent
  · cases hr

theorem eq_rules_of_lesson? {input : Input} {given : RuleInput} (h : lesson? input = some given) :
    input = .rules given := by
  cases input with
  | event description moment => cases h
  | rules own =>
      simp only [lesson?] at h
      split at h
      · rw [Option.some.inj h]
      · cases h

theorem one_le_arity_of_mem_learned {inputs : List Input}
    (h : forall rule, .rules (.rule rule) ∈ inputs -> 1 ≤ rule.fluent.arity) {r : Rule}
    (hr : r ∈ learned inputs) : 1 ≤ r.fluent.arity := by
  rcases List.mem_flatMap.mp hr with ⟨lesson, hlesson, hmem⟩
  rcases List.mem_filterMap.mp hlesson with ⟨input, hinput, hread⟩
  rw [eq_rules_of_lesson? hread] at hinput
  apply one_le_arity_of_mem_lessonRules _ hmem
  rintro rule rfl
  exact h rule hinput

theorem Origins.hasSubjects (h : Origins start e calls)
    (hrules : forall rule, .rules (.rule rule) ∈ sinceReset calls -> 1 ≤ rule.fluent.arity) :
    e.scenario.HasSubjects := by
  intro r hr
  cases hsource : r.source with
  | builtin =>
      rcases h.builtin r hr hsource with ⟨key, _, hmade⟩
      exact Taxonomy.one_le_arity_of_mem_builtinRules hmade
  | learned => exact one_le_arity_of_mem_learned hrules (h.learned r hr hsource)

/-- Questions about a pattern with a subject return, and so does every reading of theirs. -/
structure Returns (e : Engine) (p : Compound) (moment : Option Moment) (time : String) :
    Prop where
  query : (e.query (.term p.toTerm) moment).1 = .ok (e.scenario.query p time) ∧
    e.scenario.readQuery? p time = some (e.scenario.query p time)
  everHeld : (e.everHeld (.term p.toTerm)).1 = .ok (e.scenario.everHeld p)
  timeline : (e.timeline (.term p.toTerm)).1 = .ok (e.scenario.timeline p) ∧
    e.scenario.readTimeline? p = some (e.scenario.timeline p)

/-- All that holds is listed with subjects, unless a reading fails. -/
structure ListsSubjects (e : Engine) (moment : Option Moment) (time : String) : Prop where
  reading : e.scenario.readAllHolding? time = (e.allHolding moment).toOption
  returns_iff : (exists holdings, e.allHolding moment = .ok holdings) ↔
    forall fluent start, e.scenario.HoldsFrom fluent start time -> 1 ≤ fluent.arity
  fault : forall fault, e.allHolding moment = .error fault -> fault = .noSubject
  subjects : forall holdings, e.allHolding moment = .ok holdings ->
    forall h, h ∈ holdings -> exists subject, h.fluent.subject? = some subject ∧
      h.fluent.args = subject :: h.fluent.values

theorem returns_of_indexed (h : e.scenario.Indexed) {p : Compound} (hp : 1 ≤ p.arity)
    {moment : Option Moment} {time : String} (htime : e.timeOf moment = .ok time) :
    e.Returns p moment time := by
  have hpattern : (e.pattern (.term p.toTerm)).1 = .ok p := by
    show (checkPattern (.term p.toTerm)).mapError Fault.query = .ok p
    rw [Scenario.checkPattern_toTerm hp]
    rfl
  constructor
  case query =>
    rw [e.fst_query_eq_map htime, hpattern]
    exact ⟨rfl, Scenario.readQuery?_eq h hp time⟩
  case everHeld =>
    rw [fst_everHeld, hpattern]
    rfl
  case timeline =>
    rw [fst_timeline, hpattern]
    exact ⟨rfl, Scenario.readTimeline?_eq h hp⟩

theorem toOption_allHolding {moment : Option Moment} {time : String}
    (htime : e.timeOf moment = .ok time) :
    (e.allHolding moment).toOption = e.scenario.allHolding? time := by
  rw [e.allHolding_eq htime]
  cases e.scenario.allHolding? time with
  | none => rfl
  | some holdings => rfl

theorem listsSubjects_of_indexed (h : e.scenario.Indexed) {moment : Option Moment}
    {time : String} (htime : e.timeOf moment = .ok time) : e.ListsSubjects moment time := by
  have hlist := toOption_allHolding htime
  constructor
  case reading => rw [Scenario.readAllHolding?_eq h, hlist]
  case returns_iff =>
    have hreturns : (exists holdings, e.allHolding moment = .ok holdings) ↔
        ¬ e.scenario.allHolding? time = none := by
      simp only [← hlist, ← toOption_eq_some_iff, Option.ne_none_iff_exists', ← ne_eq]
    rw [hreturns, Scenario.allHolding?_eq_none_iff h]
    constructor
    · intro hnone fluent start hholds
      by_contra harity
      exact hnone ⟨fluent, start, hholds, by omega⟩
    · rintro hsubjects ⟨fluent, start, hholds, harity⟩
      have hsubject := hsubjects fluent start hholds
      omega
  case fault =>
    intro fault hfault
    rw [e.allHolding_eq htime] at hfault
    split at hfault
    · cases hfault
    · exact (Except.error.inj hfault).symm
  case subjects =>
    intro holdings hok
    have hsome : e.scenario.allHolding? time = some holdings :=
      hlist.symm.trans (toOption_eq_some_iff.mpr hok)
    exact fun x hx => Scenario.exists_subject_of_mem_allHolding hsome hx

end Engine

/-!
# A fluent without arguments
-/

namespace Weather

def rained : Functor :=
  ⟨"rained", by decide +kernel⟩

def wet : Functor :=
  ⟨"wet", by decide +kernel⟩

/-- Rain makes everything wet. -/
def wetting : Rule :=
  ⟨⟨rained, [.var subjectVariable]⟩, .initiates, ⟨wet, []⟩, false, .learned⟩

def rain : List Engine.Call :=
  [.tell (.rules (.rule wetting)),
    .tell (.event (.text "rained(today)") (.date Residence.firstDay))]

end Weather

end EventCalculus

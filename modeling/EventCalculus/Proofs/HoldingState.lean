import EventCalculus.Fluent.Holding
import EventCalculus.Proofs.QueryAnswers

/-!
# All that holds and queries

The list of all that holds is made in one pass over the initiations of all
domains, which keeps the earliest start so far of every fluent.  Whatever the
order of the pass, a fluent is listed if and only if it holds, once, and with the
least start from which it holds.  So the list and the queries show one state.
-/

namespace EventCalculus

/-!
# The list of starts
-/

/-- No two holdings are of the same fluent. -/
def Holding.Distinct (holdings : List Holding) : Prop :=
  holdings.Pairwise fun a b => a.fluent.same b.fluent = false

section
variable {fluent : Compound} {since : String} {holdings : List Holding}

theorem sinceOf?_cons_of_same {h : Holding} (hsame : h.fluent.same fluent = true)
    (rest : List Holding) : sinceOf? (h :: rest) fluent = some h.since := by
  simp [sinceOf?, hsame]

theorem sinceOf?_cons_of_not_same {h : Holding} (hsame : h.fluent.same fluent = false)
    (rest : List Holding) : sinceOf? (h :: rest) fluent = sinceOf? rest fluent := by
  simp [sinceOf?, hsame]

theorem exists_mem_of_sinceOf? (h : sinceOf? holdings fluent = some since) :
    exists holding, holding ∈ holdings ∧ holding.fluent.same fluent = true ∧
      holding.since = since := by
  rcases Option.map_eq_some_iff.mp h with ⟨holding, hfound, hsince⟩
  have hsame : holding.fluent.same fluent = true := by
    have hfulfilled := List.find?_some hfound
    exact hfulfilled
  exact ⟨holding, List.mem_of_find?_eq_some hfound, hsame, hsince⟩

/-- Of distinct holdings only one can be of the fluent, so its start is the listed one. -/
theorem sinceOf?_eq_some (hdistinct : Holding.Distinct holdings) {holding : Holding}
    (hmem : holding ∈ holdings) (hsame : holding.fluent.same fluent = true) :
    sinceOf? holdings fluent = some holding.since := by
  induction holdings with
  | nil =>
      cases hmem
  | cons first rest ih =>
      rcases List.pairwise_cons.mp hdistinct with ⟨hfirst, hrest⟩
      cases List.mem_cons.mp hmem with
      | inl heq =>
          rw [← heq]
          exact sinceOf?_cons_of_same hsame rest
      | inr htail =>
          rw [sinceOf?_cons_of_not_same _ rest]
          · exact ih hrest htail
          · cases hother : first.fluent.same fluent with
            | false => rfl
            | true =>
                rw [← hfirst holding htail]
                exact (Compound.same_trans hother (Compound.same_symm hsame)).symm

theorem mem_setSince {holding : Holding} (hmem : holding ∈ setSince fluent since holdings) :
    holding ∈ holdings ∨ (holding.fluent.same fluent = true ∧ holding.since = since) := by
  induction holdings with
  | nil =>
      rw [List.mem_singleton.mp hmem]
      exact Or.inr ⟨Compound.same_refl fluent, rfl⟩
  | cons first rest ih =>
      unfold setSince at hmem
      split at hmem
      · rename_i hsame
        cases List.mem_cons.mp hmem with
        | inl heq =>
            rw [heq]
            exact Or.inr ⟨hsame, rfl⟩
        | inr htail => exact Or.inl (List.mem_cons_of_mem first htail)
      · cases List.mem_cons.mp hmem with
        | inl heq => exact Or.inl (heq ▸ List.mem_cons_self)
        | inr htail => exact (ih htail).imp (List.mem_cons_of_mem first) id

theorem exists_mem_setSince (fluent : Compound) (since : String) (holdings : List Holding) :
    exists holding, holding ∈ setSince fluent since holdings ∧
      holding.fluent.same fluent = true ∧ holding.since = since := by
  induction holdings with
  | nil =>
      exact ⟨⟨fluent, since⟩, List.mem_cons_self, Compound.same_refl fluent, rfl⟩
  | cons first rest ih =>
      unfold setSince
      split
      · rename_i hsame
        exact ⟨⟨first.fluent, since⟩, List.mem_cons_self, hsame, rfl⟩
      · rcases ih with ⟨holding, hmem, hholding⟩
        exact ⟨holding, List.mem_cons_of_mem first hmem, hholding⟩

theorem mem_setSince_of_not_same {holding : Holding} (hmem : holding ∈ holdings)
    (hsame : holding.fluent.same fluent = false) :
    holding ∈ setSince fluent since holdings := by
  induction holdings with
  | nil =>
      cases hmem
  | cons first rest ih =>
      unfold setSince
      split
      · rename_i hfirst
        cases List.mem_cons.mp hmem with
        | inl heq =>
            rw [heq, hfirst] at hsame
            cases hsame
        | inr htail => exact List.mem_cons_of_mem _ htail
      · cases List.mem_cons.mp hmem with
        | inl heq => exact heq ▸ List.mem_cons_self
        | inr htail => exact List.mem_cons_of_mem first (ih htail)

/-- The fluents of the list stay, and a new one comes last. -/
theorem fluents_setSince (fluent : Compound) (since : String) (holdings : List Holding) :
    (setSince fluent since holdings).map Holding.fluent =
      if holdings.any fun h => h.fluent.same fluent then holdings.map Holding.fluent
      else holdings.map Holding.fluent ++ [fluent] := by
  induction holdings with
  | nil => rfl
  | cons first rest ih =>
      cases hfirst : first.fluent.same fluent with
      | true => simp [setSince, hfirst]
      | false =>
          simp only [setSince, hfirst, Bool.false_eq_true, ↓reduceIte, List.map_cons, ih,
            List.any_cons, Bool.false_or]
          split
          · rfl
          · rfl

theorem Holding.Distinct.setSince (hdistinct : Holding.Distinct holdings) (fluent : Compound)
    (since : String) : Holding.Distinct (setSince fluent since holdings) := by
  have hfluents : (holdings.map Holding.fluent).Pairwise fun a b => a.same b = false :=
    List.pairwise_map.mpr hdistinct
  suffices hnext : ((EventCalculus.setSince fluent since holdings).map Holding.fluent).Pairwise
      fun a b => a.same b = false from List.pairwise_map.mp hnext
  rw [fluents_setSince]
  split
  · exact hfluents
  · rename_i hnew
    apply List.pairwise_append.mpr
    refine ⟨hfluents, List.pairwise_singleton _ _, ?_⟩
    intro a ha b hb
    rw [List.mem_singleton.mp hb]
    rcases List.mem_map.mp ha with ⟨h, hh, rfl⟩
    simp only [List.any_eq_true, not_exists, not_and, Bool.not_eq_true] at hnew
    exact hnew h hh

end

namespace Scenario

variable {s : Scenario} {time : String}

/-!
# The pass over the initiations
-/

/-- The holdings are what the initiations seen so far list. -/
structure Lists (s : Scenario) (time : String) (seen : List Initiation)
    (holdings : List Holding) : Prop where
  distinct : Holding.Distinct holdings
  started : forall h, h ∈ holdings -> exists i, i ∈ seen ∧ i.fluent.same h.fluent = true ∧
    i.timestamp = h.since ∧ s.persists i time = true
  covered : forall i, i ∈ seen -> s.persists i time = true ->
    exists h, h ∈ holdings ∧ h.fluent.same i.fluent = true ∧ h.since ≤ i.timestamp

theorem lists_nil (s : Scenario) (time : String) : s.Lists time [] [] := by
  constructor
  case distinct => exact List.Pairwise.nil
  case started =>
    intro h hh
    cases hh
  case covered =>
    intro i hi
    cases hi

/-- A further initiation changes nothing if it does not persist or a start that is no later is
listed. -/
theorem Lists.keep {seen : List Initiation} {holdings : List Holding}
    (h : s.Lists time seen holdings) {i : Initiation}
    (hi : s.persists i time = true ->
      exists holding, holding ∈ holdings ∧ holding.fluent.same i.fluent = true ∧
        holding.since ≤ i.timestamp) : s.Lists time (seen ++ [i]) holdings := by
  constructor
  case distinct => exact h.distinct
  case started =>
    intro holding hholding
    rcases h.started holding hholding with ⟨j, hj, hstart⟩
    exact ⟨j, List.mem_append_left [i] hj, hstart⟩
  case covered =>
    intro j hj hpersists
    cases List.mem_append.mp hj with
    | inl hseen => exact h.covered j hseen hpersists
    | inr hnew =>
        rw [List.mem_singleton.mp hnew] at hpersists ⊢
        exact hi hpersists

/-- An initiation that persists sets the start of its fluent if every listed one is later. -/
theorem Lists.setSince {seen : List Initiation} {holdings : List Holding}
    (h : s.Lists time seen holdings) {i : Initiation} (hi : s.persists i time = true)
    (hlater : forall since, sinceOf? holdings i.fluent = some since -> i.timestamp ≤ since) :
    s.Lists time (seen ++ [i]) (setSince i.fluent i.timestamp holdings) := by
  have hown := exists_mem_setSince i.fluent i.timestamp holdings
  rcases hown with ⟨own, hown, hsame, hsince⟩
  constructor
  case distinct => exact h.distinct.setSince i.fluent i.timestamp
  case started =>
    intro holding hholding
    cases mem_setSince hholding with
    | inl hold =>
        rcases h.started holding hold with ⟨j, hj, hstart⟩
        exact ⟨j, List.mem_append_left [i] hj, hstart⟩
    | inr hnew =>
        exact ⟨i, List.mem_append_right seen List.mem_cons_self, Compound.same_symm hnew.left,
          hnew.right.symm, hi⟩
  case covered =>
    intro j hj hpersists
    cases List.mem_append.mp hj with
    | inr hnew =>
        rw [List.mem_singleton.mp hnew]
        exact ⟨own, hown, hsame, le_of_eq hsince⟩
    | inl hseen =>
        rcases h.covered j hseen hpersists with ⟨holding, hholding, hform, hle⟩
        cases hother : holding.fluent.same i.fluent with
        | false => exact ⟨holding, mem_setSince_of_not_same hholding hother, hform, hle⟩
        | true =>
            have hlisted := hlater holding.since (sinceOf?_eq_some h.distinct hholding hother)
            refine ⟨own, hown, ?_, ?_⟩
            · exact Compound.same_trans hsame
                (Compound.same_trans (Compound.same_symm hother) hform)
            · rw [hsince]
              exact le_trans hlisted hle

theorem Lists.addHolding {seen : List Initiation} {holdings : List Holding}
    (h : s.Lists time seen holdings) (i : Initiation) :
    s.Lists time (seen ++ [i]) (s.addHolding time holdings i) := by
  unfold Scenario.addHolding
  cases hpersists : s.persists i time with
  | false =>
      simp only [Bool.not_false, Bool.or_true, ↓reduceIte]
      apply h.keep
      intro htrue
      rw [hpersists] at htrue
      cases htrue
  | true =>
      simp only [Bool.not_true, Bool.or_false]
      cases hsince : sinceOf? holdings i.fluent with
      | none =>
          apply h.setSince hpersists
          intro since hsome
          rw [hsince] at hsome
          cases hsome
      | some since =>
          by_cases hle : since ≤ i.timestamp
          · simp only [hle, decide_true, ↓reduceIte]
            apply h.keep
            intro _
            rcases exists_mem_of_sinceOf? hsince with ⟨holding, hmem, hsame, rfl⟩
            exact ⟨holding, hmem, hsame, hle⟩
          · simp only [hle, decide_false, Bool.false_eq_true, ↓reduceIte]
            apply h.setSince hpersists
            intro other hsome
            rw [hsince] at hsome
            cases hsome
            exact le_of_lt (not_le.mp hle)

/-- A start that is no later than the initiation is listed. -/
def isListed (holdings : List Holding) (i : Initiation) : Bool :=
  match sinceOf? holdings i.fluent with
  | some since => decide (since ≤ i.timestamp)
  | none => false

theorem addHolding_eq (s : Scenario) (time : String) (holdings : List Holding) (i : Initiation) :
    s.addHolding time holdings i =
      if isListed holdings i || !s.persists i time then holdings
      else setSince i.fluent i.timestamp holdings := rfl

/-- Only an initiation that persists changes the list. -/
theorem addHolding_cases (s : Scenario) (time : String) (holdings : List Holding)
    (i : Initiation) :
    s.addHolding time holdings i = holdings ∨ (s.persists i time = true ∧
      s.addHolding time holdings i = setSince i.fluent i.timestamp holdings) := by
  rw [addHolding_eq]
  cases s.persists i time with
  | false => exact Or.inl (if_pos (Bool.or_true _))
  | true =>
      rw [Bool.not_true, Bool.or_false]
      split
      · exact Or.inl rfl
      · exact Or.inr ⟨rfl, rfl⟩

theorem Lists.foldl {seen : List Initiation} {holdings : List Holding}
    (h : s.Lists time seen holdings) (more : List Initiation) :
    s.Lists time (seen ++ more) (more.foldl (s.addHolding time) holdings) := by
  induction more generalizing seen holdings with
  | nil =>
      rw [List.append_nil]
      exact h
  | cons i rest ih =>
      rw [List.append_cons]
      exact ih (h.addHolding i)

/-!
# The initiations of all domains
-/

end Scenario

theorem RuleSet.mem_initiatingAll_iff {rules : RuleSet} (hrules : rules.Indexed) (r : Rule) :
    r ∈ rules.initiatingAll ↔ r ∈ rules.all ∧ r.effect = .initiates := by
  unfold RuleSet.initiatingAll
  rw [List.mem_flatMap]
  constructor
  · intro h
    rcases h with ⟨entry, hentry, hr⟩
    rcases entry with ⟨⟨domain, arity, effect⟩, listed⟩
    by_cases heffect : effect = .initiates
    · simp only [heffect, ↓reduceIte] at hr
      have hfound := (rules.byDomain.get?_eq_some_iff_mem (domain, arity, effect) listed).mpr hentry
      have hmem : r ∈ rules.affecting effect domain arity := by
        rw [RuleSet.affecting, hfound]
        exact hr
      have hindexed := (hrules.mem_affecting_iff r effect domain arity).mp hmem
      exact ⟨hindexed.left, hindexed.right.left.trans heffect⟩
    · simp only [heffect, ↓reduceIte, List.not_mem_nil] at hr
  · intro h
    have hmem := (hrules.mem_affecting_iff r .initiates r.domain r.fluent.arity).mpr
      ⟨h.left, h.right, rfl, rfl⟩
    unfold RuleSet.affecting at hmem
    cases hfound : rules.byDomain.get? (r.domain, r.fluent.arity, .initiates) with
    | none =>
        rw [hfound] at hmem
        cases hmem
    | some listed =>
        rw [hfound] at hmem
        exact ⟨_, (rules.byDomain.get?_eq_some_iff_mem _ listed).mp hfound, hmem⟩

namespace Scenario

variable {s : Scenario} {time : String}

theorem exists_mem_allInitiations_iff (hs : s.Indexed) (fluent : Compound) (start : String) :
    (exists i, i ∈ s.allInitiations (some time) ∧ i.fluent = fluent ∧ i.timestamp = start) ↔
      s.Initiates fluent start ∧ start ≤ time := by
  unfold allInitiations
  simp only [List.mem_flatMap, RuleSet.mem_initiatingAll_iff hs.rules, mem_initiationsBy_iff hs]
  rw [initiates_iff_exists_event]
  constructor
  · intro h
    rcases h with ⟨i, ⟨r, ⟨hr, heffect⟩, hevent, hlimit, hfluent⟩, rfl, rfl⟩
    exact ⟨⟨i.event, hevent, rfl, r, hr, heffect, hfluent⟩, of_decide_eq_true hlimit⟩
  · intro h
    rcases h with ⟨⟨e, he, rfl, r, hr, heffect, hfluent⟩, hle⟩
    exact ⟨⟨fluent, e⟩, ⟨r, ⟨hr, heffect⟩, he, decide_eq_true hle, hfluent⟩, rfl, rfl⟩

/-!
# What is listed
-/

/-- The fluent is initiated at the start, in this or another form, and not clipped from then on up
to the time. -/
def PersistsFrom (s : Scenario) (fluent : Compound) (start time : String) : Prop :=
  s.InitiatesSame fluent start ∧ start ≤ time ∧
    forall clip, start < clip -> clip ≤ time -> ¬ s.Clips fluent clip

/-- The least of the starts from which the fluent persists. -/
def IsLeastStart (s : Scenario) (fluent : Compound) (time start : String) : Prop :=
  s.PersistsFrom fluent start time ∧
    forall other, s.PersistsFrom fluent other time -> start ≤ other

theorem persistsFrom_of_same {fluent form : Compound} (hsame : fluent.same form = true)
    {start : String} (h : s.PersistsFrom fluent start time) : s.PersistsFrom form start time := by
  rcases h with ⟨hinitiates, hle, hunclipped⟩
  refine ⟨initiatesSame_of_same hsame hinitiates, hle, ?_⟩
  intro clip hafter hbefore hclips
  exact hunclipped clip hafter hbefore (clips_of_same (Compound.same_symm hsame) hclips)

theorem isLeastStart_of_same {fluent form : Compound} (hsame : fluent.same form = true)
    {start : String} (h : s.IsLeastStart fluent time start) : s.IsLeastStart form time start := by
  refine ⟨persistsFrom_of_same hsame h.left, ?_⟩
  intro other hother
  exact h.right other (persistsFrom_of_same (Compound.same_symm hsame) hother)

theorem IsLeastStart.unique {fluent : Compound} {start start' : String}
    (h : s.IsLeastStart fluent time start) (h' : s.IsLeastStart fluent time start') :
    start = start' :=
  le_antisymm (h.right start' h'.left) (h'.right start h.left)

theorem HoldsFrom.persistsFrom {fluent : Compound} {start : String}
    (h : s.HoldsFrom fluent start time) : s.PersistsFrom fluent start time :=
  ⟨⟨fluent, Compound.same_refl fluent, h.left⟩, h.right⟩

/-- The holdings before they are sorted. -/
def unsortedHoldings (s : Scenario) (time : String) : List Holding :=
  (s.allInitiations (some time)).foldl (s.addHolding time) []

theorem lists_unsortedHoldings (s : Scenario) (time : String) :
    s.Lists time (s.allInitiations (some time)) (s.unsortedHoldings time) := by
  have h := (s.lists_nil time).foldl (s.allInitiations (some time))
  rw [List.nil_append] at h
  exact h

/-- A fluent that persists is listed, with a start that is no later. -/
theorem exists_mem_unsortedHoldings (hs : s.Indexed) {fluent : Compound} {start : String}
    (h : s.PersistsFrom fluent start time) :
    exists holding, holding ∈ s.unsortedHoldings time ∧
      holding.fluent.same fluent = true ∧ holding.since ≤ start := by
  rcases h with ⟨⟨form, hform, hinitiates⟩, hle, hunclipped⟩
  rcases (exists_mem_allInitiations_iff hs form start).mpr ⟨hinitiates, hle⟩ with
    ⟨i, hi, rfl, rfl⟩
  have hpersists : s.persists i time = true := by
    apply (persists_iff hs i time).mpr
    intro clip hafter hbefore hclips
    exact hunclipped clip hafter hbefore (clips_of_same hform hclips)
  rcases (s.lists_unsortedHoldings time).covered i hi hpersists with ⟨holding, hmem, hsame, hsince⟩
  exact ⟨holding, hmem, Compound.same_trans hsame hform, hsince⟩

theorem isLeastStart_of_mem_unsortedHoldings (hs : s.Indexed) {h : Holding}
    (hh : h ∈ s.unsortedHoldings time) : s.IsLeastStart h.fluent time h.since := by
  have hlists := s.lists_unsortedHoldings time
  constructor
  · rcases hlists.started h hh with ⟨i, hi, hsame, hsince, hpersists⟩
    have hinitiates := (exists_mem_allInitiations_iff hs i.fluent i.timestamp).mp ⟨i, hi, rfl, rfl⟩
    rw [← hsince]
    apply persistsFrom_of_same hsame
    exact ⟨⟨i.fluent, Compound.same_refl i.fluent, hinitiates.left⟩, hinitiates.right,
      (persists_iff hs i time).mp hpersists⟩
  · intro other hother
    rcases exists_mem_unsortedHoldings hs hother with ⟨h', hh', hsame, hle⟩
    have hlisted := sinceOf?_eq_some hlists.distinct hh (Compound.same_refl h.fluent)
    rw [sinceOf?_eq_some hlists.distinct hh' hsame] at hlisted
    rw [← Option.some.inj hlisted]
    exact hle

/-- Exactly the fluents that hold are listed, each with its least start. -/
theorem exists_mem_unsortedHoldings_iff (hs : s.Indexed) (fluent : Compound) (start : String) :
    (exists h, h ∈ s.unsortedHoldings time ∧ h.fluent.same fluent = true ∧ h.since = start) ↔
      s.IsLeastStart fluent time start := by
  constructor
  · intro h
    rcases h with ⟨holding, hmem, hsame, rfl⟩
    exact isLeastStart_of_same hsame (isLeastStart_of_mem_unsortedHoldings hs hmem)
  · intro h
    rcases exists_mem_unsortedHoldings hs h.left with ⟨holding, hmem, hsame, _⟩
    have hleast := isLeastStart_of_same hsame (isLeastStart_of_mem_unsortedHoldings hs hmem)
    exact ⟨holding, hmem, hsame, hleast.unique h⟩

/-!
# The order of the list
-/

end Scenario

namespace Holding

/-- The first holding comes before the second one or has the same domain, subject and fluent
texts. -/
def Precedes (a b : Holding) : Prop :=
  a.domain < b.domain ∨ (a.domain = b.domain ∧
    (a.subjectText < b.subjectText ∨ (a.subjectText = b.subjectText ∧
      a.fluent.render ≤ b.fluent.render)))

theorem notAfter_iff (a b : Holding) : a.notAfter b = true ↔ a.Precedes b := by
  simp only [notAfter, Precedes, Bool.or_eq_true, Bool.and_eq_true, decide_eq_true_eq, beq_iff_eq]

theorem notAfter_iff_earlierOrEqual (a b : Holding) :
    a.notAfter b = true ↔ a.domain < b.domain ∨ (a.domain = b.domain ∧
      earlierOrEqual (a.subjectText, a.fluent.render) (b.subjectText, b.fluent.render) = true) := by
  rw [notAfter_iff, earlierOrEqual_iff]
  exact Iff.rfl

theorem notAfter_trans (a b c : Holding) (hab : a.notAfter b = true)
    (hbc : b.notAfter c = true) : a.notAfter c = true := by
  rw [notAfter_iff_earlierOrEqual] at hab hbc ⊢
  rcases hab with hab | ⟨hab, hrest⟩
  · rcases hbc with hbc | ⟨hbc, _⟩
    · exact Or.inl (lt_trans hab hbc)
    · exact Or.inl (hbc ▸ hab)
  · rcases hbc with hbc | ⟨hbc, hrest'⟩
    · exact Or.inl (hab ▸ hbc)
    · exact Or.inr ⟨hab.trans hbc, earlierOrEqual_trans _ _ _ hrest hrest'⟩

theorem notAfter_total (a b : Holding) : (a.notAfter b || b.notAfter a) = true := by
  rw [Bool.or_eq_true, notAfter_iff_earlierOrEqual, notAfter_iff_earlierOrEqual]
  rcases lt_trichotomy a.domain b.domain with hlt | heq | hgt
  · exact Or.inl (Or.inl hlt)
  · have htotal := earlierOrEqual_total (a.subjectText, a.fluent.render)
      (b.subjectText, b.fluent.render)
    cases Bool.or_eq_true_iff.mp htotal with
    | inl hfirst => exact Or.inl (Or.inr ⟨heq, hfirst⟩)
    | inr hsecond => exact Or.inr (Or.inr ⟨heq.symm, hsecond⟩)
  · exact Or.inr (Or.inl hgt)

theorem pairwise_mergeSort_notAfter (holdings : List Holding) :
    (holdings.mergeSort notAfter).Pairwise Precedes :=
  (List.pairwise_mergeSort notAfter_trans notAfter_total holdings).imp fun {a b} =>
    (notAfter_iff a b).mp

end Holding

namespace Scenario

variable {s : Scenario} {time : String}

/-!
# The list as a whole
-/

theorem allHolding?_eq (s : Scenario) (time : String) :
    s.allHolding? time =
      if (s.unsortedHoldings time).any fun h => h.fluent.subject?.isNone then none
      else some ((s.unsortedHoldings time).mergeSort Holding.notAfter) := rfl

/-- The rules give their fluents a subject. -/
def HasSubjects (s : Scenario) : Prop :=
  forall r, r ∈ s.rules.all -> 1 ≤ r.fluent.arity

theorem one_le_arity_of_initiates (hsubjects : s.HasSubjects) {fluent : Compound}
    {start : String} (h : s.Initiates fluent start) : 1 ≤ fluent.arity := by
  rcases h with ⟨r, e, b, hr, _, _, _, _, hfluent, _⟩
  rw [← hfluent, Compound.arity_substitute]
  exact hsubjects r hr

theorem one_le_arity_of_isLeastStart (hsubjects : s.HasSubjects) {fluent : Compound}
    {start : String} (h : s.IsLeastStart fluent time start) : 1 ≤ fluent.arity := by
  rcases h.left.left with ⟨form, hsame, hinitiates⟩
  rw [← Compound.arity_eq_of_same hsame]
  exact one_le_arity_of_initiates hsubjects hinitiates

theorem allHolding?_eq_some (hs : s.Indexed) (hsubjects : s.HasSubjects) (time : String) :
    s.allHolding? time = some ((s.unsortedHoldings time).mergeSort Holding.notAfter) := by
  rw [allHolding?_eq, if_neg]
  intro hany
  rcases List.any_eq_true.mp hany with ⟨h, hh, hnone⟩
  have harity := one_le_arity_of_isLeastStart hsubjects (isLeastStart_of_mem_unsortedHoldings hs hh)
  rw [Compound.subject?, Option.isNone_iff_eq_none, List.head?_eq_none_iff] at hnone
  rw [Compound.arity, hnone] at harity
  cases harity

/-- An answer of a query is the answer of a holding. -/
theorem exists_holding_of_answers (hs : s.Indexed) {p : Compound} {b : Bindings}
    (h : s.Answers p time b) :
    exists holding form, holding ∈ s.unsortedHoldings time ∧
      p.matchCompound? holding.fluent = some form ∧ form.same b = true := by
  rcases h with ⟨fluent, start, hholds, hmatch⟩
  rcases exists_mem_unsortedHoldings hs hholds.persistsFrom with ⟨holding, hmem, hsame, _⟩
  have hforms := Compound.map_canonical_matchCompound?_of_same (Compound.same_refl p) hsame
  rw [hmatch, Option.map_some, Option.map_eq_some_iff] at hforms
  rcases hforms with ⟨form, hform, hcanonical⟩
  exact ⟨holding, form, hmem, hform, Bindings.same_of_canonical_eq hcanonical⟩

/-- A holding that matches is the answer of a query, in the form in which it was initiated. -/
theorem answers_of_holding (hs : s.Indexed) {p : Compound} {holding : Holding} {form : Bindings}
    (hmem : holding ∈ s.unsortedHoldings time)
    (hform : p.matchCompound? holding.fluent = some form) :
    exists b, s.Answers p time b ∧ b.same form = true := by
  have hleast := isLeastStart_of_mem_unsortedHoldings hs hmem
  rcases hleast.left with ⟨⟨fluent, hsame, hinitiates⟩, hle, hunclipped⟩
  have hforms := Compound.map_canonical_matchCompound?_of_same (Compound.same_refl p) hsame
  rw [hform, Option.map_some, Option.map_eq_some_iff] at hforms
  rcases hforms with ⟨b, hb, hcanonical⟩
  refine ⟨b, ⟨fluent, holding.since, ⟨hinitiates, hle, ?_⟩, hb⟩,
    Bindings.same_of_canonical_eq hcanonical⟩
  intro clip hafter hbefore hclips
  exact hunclipped clip hafter hbefore (clips_of_same hsame hclips)

/-- The list and the queries show one state: every fluent is listed once, with the least of its
starts, the answers of a query are the matches with the list, and the list is in order. -/
structure ShowsState (s : Scenario) (time : String) (holdings : List Holding) : Prop where
  distinct : holdings.Pairwise fun a b => a.fluent.same b.fluent = false
  since : forall h, h ∈ holdings -> s.IsLeastStart h.fluent time h.since
  accepted : forall p : Compound, 1 ≤ p.arity -> checkPattern (.term p.toTerm) = .ok p
  listed : forall p : Compound, 1 ≤ p.arity -> forall b, b ∈ s.query p time ->
    exists h form, h ∈ holdings ∧ p.matchCompound? h.fluent = some form ∧ form.same b = true
  answered : forall p : Compound, 1 ≤ p.arity -> forall h form, h ∈ holdings ->
    p.matchCompound? h.fluent = some form -> exists b, b ∈ s.query p time ∧ b.same form = true
  sorted : holdings.Pairwise Holding.Precedes

theorem distinct_mergeSort {holdings : List Holding} (h : Holding.Distinct holdings) :
    Holding.Distinct (holdings.mergeSort Holding.notAfter) := by
  apply (List.mergeSort_perm holdings Holding.notAfter).symm.pairwise h
  intro a b hab
  cases hba : b.fluent.same a.fluent with
  | false => rfl
  | true =>
      rw [Compound.same_symm hba] at hab
      cases hab

end Scenario
end EventCalculus

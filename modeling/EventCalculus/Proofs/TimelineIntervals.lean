import EventCalculus.Proofs.QueryAnswers
import EventCalculus.Proofs.Sampling

/-!
# Timelines and queries

A timeline samples the status of a fluent at the times at which it is initiated
or clipped.  Between these times the status cannot change, so the intervals agree
with queries at every time, and they are maximal.
-/

namespace EventCalculus

theorem distinctFluents_eq_eraseDupsBy (fluents : List Compound) :
    distinctFluents fluents = fluents.eraseDupsBy Compound.same :=
  foldl_distinct_eq_eraseDupsBy Compound.same fluents

namespace Scenario

variable {s : Scenario} {fluent : Compound}

/-!
# Change points
-/

theorem exists_initiation_of_same_iff (hs : s.Indexed) (fluent : Compound) (time : String) :
    (exists i, i ∈ s.initiations fluent.functor.text fluent.arity none ∧
      i.fluent.same fluent = true ∧ i.timestamp = time) ↔ s.InitiatesSame fluent time := by
  constructor
  · intro h
    rcases h with ⟨i, hi, hsame, htime⟩
    refine ⟨i.fluent, hsame, ?_⟩
    exact ((exists_mem_initiations_iff hs _ _ none i.fluent time).mp
      ⟨i, hi, rfl, htime⟩).left
  · intro h
    rcases h with ⟨form, hsame, hinitiates⟩
    have hfunctor : form.functor.text = fluent.functor.text := by
      rw [Compound.functor_eq_of_same hsame]
    rcases (exists_mem_initiations_iff hs fluent.functor.text fluent.arity none form time).mpr
      ⟨hinitiates, (by intro t h; cases h), hfunctor, Compound.arity_eq_of_same hsame⟩ with
      ⟨i, hi, heq, htime⟩
    exact ⟨i, hi, heq ▸ hsame, htime⟩

theorem mem_changePoints_iff (hs : s.Indexed) (fluent : Compound) (time : String) :
    time ∈ s.changePoints fluent ↔ s.InitiatesSame fluent time ∨ s.Clips fluent time := by
  unfold changePoints
  rw [(List.mergeSort_perm _ _).mem_iff, List.mem_eraseDups, List.mem_append,
    ← exists_initiation_of_same_iff hs, ← exists_mem_clippings_iff hs]
  simp only [List.mem_map, List.mem_filter, and_assoc]

theorem pairwise_changePoints (s : Scenario) (fluent : Compound) :
    (s.changePoints fluent).Pairwise (· < ·) := by
  apply pairwise_mergeSort_lt id
  rw [List.map_id]
  exact nodup_eraseDups _

/-- The status of a fluent changes only where it is initiated or clipped. -/
theorem changesOnlyAt_changePoints (hs : s.Indexed) (hground : fluent.isGround = true) :
    ChangesOnlyAt (s.holdsAt fluent) (s.changePoints fluent) := by
  constructor
  · intro time hearly
    cases hholds : s.holdsAt fluent time with
    | false => rfl
    | true =>
        rcases (holdsAt_iff_holds hs hground).mp hholds with ⟨start, hinitiates, hle, _⟩
        have hpoint := (mem_changePoints_iff hs fluent start).mpr (Or.inl hinitiates)
        exact absurd (hearly start hpoint) (not_lt.mpr hle)
  · intro time point _ hle hgreatest
    rw [Bool.eq_iff_iff, holdsAt_iff_holds hs hground, holdsAt_iff_holds hs hground]
    constructor
    · intro h
      rcases h with ⟨start, hinitiates, hstart, hunclipped⟩
      have hpoint := (mem_changePoints_iff hs fluent start).mpr (Or.inl hinitiates)
      refine ⟨start, hinitiates, hgreatest start hpoint hstart, ?_⟩
      intro clip hafter hbefore
      exact hunclipped clip hafter (le_trans hbefore hle)
    · intro h
      rcases h with ⟨start, hinitiates, hstart, hunclipped⟩
      refine ⟨start, hinitiates, le_trans hstart hle, ?_⟩
      intro clip hafter hbefore hclips
      have hpoint := (mem_changePoints_iff hs fluent clip).mpr (Or.inr hclips)
      exact hunclipped clip hafter (hgreatest clip hpoint hbefore) hclips

/-!
# The intervals of one fluent
-/

theorem countP_contains_intervals (hs : s.Indexed) (hground : fluent.isGround = true)
    (time : String) :
    (s.intervals fluent).countP (fun i => i.contains time) = (s.holdsAt fluent time).toNat :=
  (changesOnlyAt_changePoints hs hground).countP_contains (s.pairwise_changePoints fluent) time

theorem fluent_of_mem_intervals {i : Interval} (hi : i ∈ s.intervals fluent) :
    i.fluent = fluent :=
  fluent_of_mem_intervalsFrom hi

theorem stop_of_mem_intervals {i : Interval} (hi : i ∈ s.intervals fluent) {stop : String}
    (hstop : i.stop = some stop) :
    i.start < stop ∧ stop ∈ s.changePoints fluent ∧ s.holdsAt fluent stop = false :=
  stop_of_mem_intervalsFrom (s.pairwise_changePoints fluent) (by intro begun h; cases h) hi hstop

theorem holds_of_contains (hs : s.Indexed) (hground : fluent.isGround = true) {i : Interval}
    (hi : i ∈ s.intervals fluent) {time : String} (hcontains : i.contains time = true) :
    s.Holds fluent time := by
  have hcount := countP_contains_intervals hs hground time
  have hpos : 0 < (s.intervals fluent).countP fun i => i.contains time :=
    List.countP_pos_iff.mpr ⟨i, hi, hcontains⟩
  apply (holdsAt_iff_holds hs hground).mp
  cases hholds : s.holdsAt fluent time with
  | true => rfl
  | false =>
      rw [hcount, hholds] at hpos
      cases hpos

theorem contains_start {i : Interval} (hi : i ∈ s.intervals fluent) :
    i.contains i.start = true := by
  apply (i.contains_iff i.start).mpr
  refine ⟨le_refl i.start, ?_⟩
  intro stop hstop
  exact (stop_of_mem_intervals hi hstop).left

/-- A start that is no initiation would be a clipping, and then the fluent would not hold. -/
theorem initiatesSame_start (hs : s.Indexed) (hground : fluent.isGround = true) {i : Interval}
    (hi : i ∈ s.intervals fluent) : s.InitiatesSame fluent i.start := by
  have hpoint : i.start ∈ s.changePoints fluent := by
    rcases start_mem_of_mem_intervalsFrom hi with heq | hmem
    · cases heq
    · exact hmem
  rcases (mem_changePoints_iff hs fluent i.start).mp hpoint with hinitiates | hclips
  · exact hinitiates
  · rcases holds_of_contains hs hground hi (contains_start hi) with
      ⟨start, hinitiates, hle, hunclipped⟩
    rcases lt_or_eq_of_le hle with hlt | heq
    · exact absurd hclips (hunclipped i.start hlt (le_refl i.start))
    · exact heq ▸ hinitiates

theorem holds_of_initiatesSame {time : String} (h : s.InitiatesSame fluent time) :
    s.Holds fluent time := by
  refine ⟨time, h, le_refl time, ?_⟩
  intro clip hafter hbefore
  exact absurd hbefore (not_le.mpr hafter)

theorem clips_stop (hs : s.Indexed) (hground : fluent.isGround = true) {i : Interval}
    (hi : i ∈ s.intervals fluent) {stop : String} (hstop : i.stop = some stop) :
    s.Clips fluent stop ∧ ¬ s.Holds fluent stop := by
  rcases stop_of_mem_intervals hi hstop with ⟨_, hpoint, hfalse⟩
  have hnot : ¬ s.Holds fluent stop := by
    intro hholds
    rw [(holdsAt_iff_holds hs hground).mpr hholds] at hfalse
    cases hfalse
  rcases (mem_changePoints_iff hs fluent stop).mp hpoint with hinitiates | hclips
  · exact absurd (holds_of_initiatesSame hinitiates) hnot
  · exact ⟨hclips, hnot⟩

theorem stop_eq_none_iff (hs : s.Indexed) (hground : fluent.isGround = true) {i : Interval}
    (hi : i ∈ s.intervals fluent) :
    i.stop = none ↔ forall time, i.start ≤ time -> s.Holds fluent time := by
  constructor
  · intro hnone time hle
    apply holds_of_contains hs hground hi
    apply (i.contains_iff time).mpr
    refine ⟨hle, ?_⟩
    intro stop hstop
    rw [hnone] at hstop
    cases hstop
  · intro h
    cases hstop : i.stop with
    | none => rfl
    | some stop =>
        have hlt := (stop_of_mem_intervals hi hstop).left
        exact absurd (h stop (le_of_lt hlt)) (clips_stop hs hground hi hstop).right

/-!
# The fluents of a timeline
-/

variable {p : Compound}

theorem exists_initiates_of_mem_fluentsOf (hs : s.Indexed) (hmem : fluent ∈ s.fluentsOf p) :
    exists time, s.Initiates fluent time := by
  unfold fluentsOf at hmem
  rw [distinctFluents_eq_eraseDupsBy] at hmem
  have hfilter := (eraseDupsBy_sublist _ _).subset hmem
  rcases List.mem_map.mp (List.mem_filter.mp hfilter).left with ⟨i, hi, rfl⟩
  have hi' := (List.mergeSort_perm _ _).mem_iff.mp hi
  exact ⟨i.timestamp, ((exists_mem_initiations_iff hs _ _ none i.fluent i.timestamp).mp
    ⟨i, hi', rfl, rfl⟩).left⟩

theorem isGround_of_initiates {time : String} (h : s.Initiates fluent time) :
    fluent.isGround = true := by
  rcases h with ⟨_, _, _, _, _, _, _, _, _, hground⟩
  exact hground

theorem pairwise_fluentsOf (s : Scenario) (p : Compound) :
    (s.fluentsOf p).Pairwise fun a b => b.same a = false := by
  unfold fluentsOf
  rw [distinctFluents_eq_eraseDupsBy]
  exact pairwise_eraseDupsBy Compound.same _

theorem exists_mem_fluentsOf_of_initiatesSame (hs : s.Indexed)
    (hmatch : (p.matchCompound? fluent).isSome = true) {time : String}
    (h : s.InitiatesSame fluent time) :
    exists form, form ∈ s.fluentsOf p ∧ form.same fluent = true := by
  rcases h with ⟨other, hother, hinitiates⟩
  have hmatch' : (p.matchCompound? other).isSome = true := by
    rw [Compound.isSome_matchCompound?_of_same (Compound.same_refl p) hother]
    exact hmatch
  rcases Option.isSome_iff_exists.mp hmatch' with ⟨b, hb⟩
  have hfunctor : other.functor.text = p.functor.text := by
    rw [Compound.functor_eq_of_matchCompound? hb]
  have harity : other.arity = p.arity := (Compound.arity_eq_of_matchCompound? hb).symm
  rcases (exists_mem_initiations_iff hs p.functor.text p.arity none other time).mpr
    ⟨hinitiates, (by intro t h; cases h), hfunctor, harity⟩ with ⟨i, hi, heq, _⟩
  unfold fluentsOf
  rw [distinctFluents_eq_eraseDupsBy]
  have hlisted : other ∈ (((s.initiations p.functor.text p.arity none).mergeSort
      Initiation.notAfter).map Initiation.fluent).filter
        fun fluent => (p.matchCompound? fluent).isSome := by
    apply List.mem_filter.mpr
    refine ⟨List.mem_map.mpr ⟨i, (List.mergeSort_perm _ _).mem_iff.mpr hi, heq⟩, hmatch'⟩
  rcases exists_mem_eraseDupsBy Compound.same_refl hlisted with ⟨form, hform, hsame⟩
  exact ⟨form, hform, Compound.same_trans (Compound.same_symm hsame) hother⟩

/-- The intervals of a timeline that belong to one fluent. -/
def ownIntervals (s : Scenario) (p fluent : Compound) : List Interval :=
  (s.timeline p).filter fun i => i.fluent.same fluent

theorem filter_intervals (s : Scenario) (form fluent : Compound) :
    (s.intervals form).filter (fun i => i.fluent.same fluent) =
      if form.same fluent = true then s.intervals form else [] := by
  by_cases hsame : form.same fluent = true
  · rw [if_pos hsame]
    apply List.filter_eq_self.mpr
    intro i hi
    rw [fluent_of_mem_intervals hi]
    exact hsame
  · rw [if_neg hsame]
    apply List.filter_eq_nil_iff.mpr
    intro i hi
    rw [fluent_of_mem_intervals hi]
    exact hsame

theorem flatMap_intervals_eq_nil {forms : List Compound}
    (h : forall form, form ∈ forms -> ¬ form.same fluent = true) :
    (forms.flatMap fun form => if form.same fluent = true then s.intervals form else []) =
      [] := by
  apply List.flatMap_eq_nil_iff.mpr
  intro form hform
  rw [if_neg (h form hform)]

theorem flatMap_intervals_eq {forms : List Compound}
    (hdistinct : forms.Pairwise fun a b => b.same a = false) {form : Compound}
    (hform : form ∈ forms) (hsame : form.same fluent = true) :
    (forms.flatMap fun form => if form.same fluent = true then s.intervals form else []) =
      s.intervals form := by
  induction forms with
  | nil =>
      cases hform
  | cons first rest ih =>
      rw [List.pairwise_cons] at hdistinct
      rw [List.flatMap_cons]
      rcases List.mem_cons.mp hform with rfl | hrest
      · have hothers : forall other, other ∈ rest -> ¬ other.same fluent = true := by
          intro other hother hother'
          have hsame' := Compound.same_trans hother' (Compound.same_symm hsame)
          rw [hdistinct.left other hother] at hsame'
          cases hsame'
        rw [if_pos hsame, flatMap_intervals_eq_nil hothers, List.append_nil]
      · have hfirst : ¬ first.same fluent = true := by
          intro hfirst
          have hsame' := Compound.same_trans hsame (Compound.same_symm hfirst)
          rw [hdistinct.left form hrest] at hsame'
          cases hsame'
        rw [if_neg hfirst, List.nil_append]
        exact ih hdistinct.right hrest

theorem ownIntervals_perm (s : Scenario) (p fluent : Compound) :
    (s.ownIntervals p fluent).Perm ((s.fluentsOf p).flatMap fun form =>
      if form.same fluent = true then s.intervals form else []) := by
  have hfilter : ((s.fluentsOf p).flatMap s.intervals).filter (fun i => i.fluent.same fluent) =
      (s.fluentsOf p).flatMap fun form =>
        if form.same fluent = true then s.intervals form else [] := by
    rw [List.filter_flatMap]
    congr 1
    funext form
    exact s.filter_intervals form fluent
  rw [← hfilter]
  exact (List.mergeSort_perm _ _).filter _

/-- The intervals of a fluent in a timeline are those of the form under which it is listed. -/
theorem ownIntervals_perm_intervals {form : Compound} (hform : form ∈ s.fluentsOf p)
    (hsame : form.same fluent = true) :
    (s.ownIntervals p fluent).Perm (s.intervals form) := by
  have hperm := s.ownIntervals_perm p fluent
  rw [flatMap_intervals_eq (s.pairwise_fluentsOf p) hform hsame] at hperm
  exact hperm

/-- Every interval of a fluent belongs to a ground form that the timeline lists. -/
theorem exists_form_of_mem_ownIntervals (hs : s.Indexed) {i : Interval}
    (hi : i ∈ s.ownIntervals p fluent) :
    exists form, form.isGround = true ∧ form.same fluent = true ∧ i ∈ s.intervals form := by
  rcases List.mem_filter.mp hi with ⟨hmem, hsame⟩
  rcases List.mem_flatMap.mp ((List.mergeSort_perm _ _).mem_iff.mp hmem) with
    ⟨form, hform, hinterval⟩
  rw [fluent_of_mem_intervals hinterval] at hsame
  rcases exists_initiates_of_mem_fluentsOf hs hform with ⟨time, hinitiates⟩
  exact ⟨form, isGround_of_initiates hinitiates, hsame, hinterval⟩

/-!
# Agreement with queries
-/

theorem countP_ownIntervals (hs : s.Indexed) (hground : fluent.isGround = true)
    (hmatch : (p.matchCompound? fluent).isSome = true) (time : String) :
    (s.ownIntervals p fluent).countP (fun i => i.contains time) =
      (s.holdsAt fluent time).toNat := by
  by_cases hlisted : exists form, form ∈ s.fluentsOf p ∧ form.same fluent = true
  · rcases hlisted with ⟨form, hform, hsame⟩
    have hground' : form.isGround = true := by
      rw [Compound.isGround_eq_of_same hsame]
      exact hground
    have hstatus := holdsAt_eq_of_same hs hground' hground hsame time
    rw [(ownIntervals_perm_intervals hform hsame).countP_eq,
      countP_contains_intervals hs hground', hstatus]
  · have hnone : forall form, form ∈ s.fluentsOf p -> ¬ form.same fluent = true :=
      fun form hform hsame => hlisted ⟨form, hform, hsame⟩
    have hperm := s.ownIntervals_perm p fluent
    rw [flatMap_intervals_eq_nil hnone] at hperm
    have hfalse : s.holdsAt fluent time = false := by
      cases hholds : s.holdsAt fluent time with
      | false => rfl
      | true =>
          rcases (holdsAt_iff_holds hs hground).mp hholds with ⟨start, hinitiates, _⟩
          exact absurd (exists_mem_fluentsOf_of_initiatesSame hs hmatch hinitiates) hlisted
    rw [hperm.countP_eq, hfalse]
    rfl

theorem pairwise_ownIntervals_start (s : Scenario) (p fluent : Compound) :
    (s.ownIntervals p fluent).Pairwise fun i j => i.start ≤ j.start := by
  have hsorted := pairwise_mergeSort_by_key (fun i : Interval => (i.start, i.fluent.render))
    ((s.fluentsOf p).flatMap s.intervals)
  apply (hsorted.filter _).imp
  intro i j h
  exact earlierOrEqual_fst_le h

/-- Between two intervals of a fluent there is a gap. -/
theorem pairwise_ownIntervals (hs : s.Indexed) :
    (s.ownIntervals p fluent).Pairwise fun i j =>
      exists stop, i.stop = some stop ∧ stop < j.start := by
  by_cases hlisted : exists form, form ∈ s.fluentsOf p ∧ form.same fluent = true
  · rcases hlisted with ⟨form, hform, hsame⟩
    have hapart : (s.ownIntervals p fluent).Pairwise fun i j =>
        (exists stop, i.stop = some stop ∧ stop < j.start) ∨
          exists stop, j.stop = some stop ∧ stop < i.start := by
      apply ((ownIntervals_perm_intervals hform hsame).pairwise_iff Or.symm).mpr
      apply (pairwise_intervalsFrom none (s.pairwise_changePoints form)).imp
      intro i j h
      exact Or.inl h
    apply List.Pairwise.imp_of_mem _ (hapart.and (s.pairwise_ownIntervals_start p fluent))
    intro i j _ hj hij
    rcases hij with ⟨hleft | ⟨stop, hstop, hlt⟩, hle⟩
    · exact hleft
    · rcases exists_form_of_mem_ownIntervals hs hj with ⟨_, _, _, hinterval⟩
      have hpositive := (stop_of_mem_intervals hinterval hstop).left
      exact absurd (lt_trans hpositive (lt_of_lt_of_le hlt hle)) (lt_irrefl j.start)
  · have hnone : forall form, form ∈ s.fluentsOf p -> ¬ form.same fluent = true :=
      fun form hform hsame => hlisted ⟨form, hform, hsame⟩
    have hperm := s.ownIntervals_perm p fluent
    rw [flatMap_intervals_eq_nil hnone] at hperm
    rw [hperm.eq_nil]
    exact List.Pairwise.nil

/-- The timeline of a pattern shows when a ground fluent holds. -/
structure TimelineShows (s : Scenario) (p fluent : Compound) : Prop where
  accepted : checkPattern (.term p.toTerm) = .ok p ∧
    checkPattern (.term fluent.toTerm) = .ok fluent
  agrees : forall time, s.query fluent time ≠ [] ↔
    ((s.timeline p).filter fun i => i.fluent.same fluent && i.contains time).length = 1
  apart : ((s.timeline p).filter fun i => i.fluent.same fluent).Pairwise fun i j =>
    exists stop, i.stop = some stop ∧ stop < j.start
  start_initiates : forall i, i ∈ s.timeline p -> i.fluent.same fluent = true ->
    s.InitiatesSame fluent i.start
  stop_clips : forall i, i ∈ s.timeline p -> i.fluent.same fluent = true ->
    forall stop, i.stop = some stop -> s.Clips fluent stop ∧ s.query fluent stop = []
  unbounded_iff : forall i, i ∈ s.timeline p -> i.fluent.same fluent = true ->
    (i.stop = none ↔ forall time, i.start ≤ time -> s.query fluent time ≠ [])

end Scenario
end EventCalculus

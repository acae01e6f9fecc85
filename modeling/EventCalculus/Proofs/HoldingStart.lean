import EventCalculus.Proofs.AnswerSets
import EventCalculus.Proofs.HoldingState
import Mathlib.Data.Set.Finite.Lemmas
import Mathlib.Data.Set.Finite.List

/-!
# Starts of holdings and of intervals

A holding gives the least start from which its fluent holds without being clipped; an interval
goes on as long as the fluent holds.  The two starts differ only where a fluent is clipped and
initiated at one time: it holds at that time, so the interval goes on, but not from before, so the
holding starts anew.
-/

namespace EventCalculus

namespace Scenario

variable {s : Scenario} {fluent : Compound} {time : String}

/-!
# The timeline of a ground fluent
-/

theorem same_of_mem_timeline (hground : fluent.isGround = true) {i : Interval}
    (hi : i ∈ s.timeline fluent) : i.fluent.same fluent = true := by
  rcases List.mem_flatMap.mp ((List.mergeSort_perm _ _).mem_iff.mp hi) with
    ⟨form, hform, hinterval⟩
  have hmatch := isSome_matchCompound?_of_mem_fluentsOf hform
  rw [Compound.matchCompound?_of_isGround hground] at hmatch
  rw [fluent_of_mem_intervals hinterval]
  by_cases hsame : fluent.same form = true
  · exact Compound.same_symm hsame
  · rw [if_neg hsame] at hmatch
    cases hmatch

theorem ownIntervals_of_isGround (hground : fluent.isGround = true) :
    s.ownIntervals fluent fluent = s.timeline fluent :=
  List.filter_eq_self.mpr fun _ hi => same_of_mem_timeline hground hi

theorem isSome_matchCompound?_self (hground : fluent.isGround = true) :
    (fluent.matchCompound? fluent).isSome = true := by
  rw [Compound.matchCompound?_of_isGround hground, if_pos (Compound.same_refl fluent)]
  rfl

theorem filter_contains_timeline (hs : s.Indexed) (hground : fluent.isGround = true)
    {i : Interval} (hi : i ∈ s.timeline fluent) (hcontains : i.contains time = true) :
    (s.timeline fluent).filter (fun j => j.contains time) = [i] := by
  have hcount := countP_ownIntervals hs hground (isSome_matchCompound?_self hground) time
  rw [ownIntervals_of_isGround hground, List.countP_eq_length_filter] at hcount
  have hmem : i ∈ (s.timeline fluent).filter fun j => j.contains time :=
    List.mem_filter.mpr ⟨hi, hcontains⟩
  cases hfound : (s.timeline fluent).filter fun j => j.contains time with
  | nil =>
      rw [hfound] at hmem
      cases hmem
  | cons first rest =>
      rw [hfound, List.length_cons] at hcount
      have hrest : rest = [] := by
        apply List.eq_nil_of_length_eq_zero
        have hle := Bool.toNat_le (s.holdsAt fluent time)
        omega
      rw [hfound, hrest, List.mem_singleton] at hmem
      rw [hrest, hmem]

/-- The interval around a start reaches as far as the fluent is not clipped. -/
theorem exists_mem_timeline_of_persistsFrom (hs : s.Indexed) (hground : fluent.isGround = true)
    {start : String} (h : s.PersistsFrom fluent start time) :
    exists i, i ∈ s.timeline fluent ∧ i.start ≤ start ∧ i.contains time = true := by
  rcases h with ⟨hinitiates, hle, hunclipped⟩
  rcases exists_mem_fluentsOf_of_initiatesSame hs (isSome_matchCompound?_self hground)
    hinitiates with ⟨form, hform, hsame⟩
  have hground' : form.isGround = true := by
    rw [Compound.isGround_eq_of_same hsame]
    exact hground
  have hholds : s.Holds form start :=
    holds_of_same (Compound.same_symm hsame) (holds_of_initiatesSame hinitiates)
  rcases exists_interval_of_holds hs hground' hholds with ⟨i, hi, hcontains⟩
  rcases (i.contains_iff start).mp hcontains with ⟨hstart, hbefore⟩
  refine ⟨i, ?_, hstart, ?_⟩
  · exact (List.mergeSort_perm _ _).mem_iff.mpr (List.mem_flatMap.mpr ⟨form, hform, hi⟩)
  · apply (i.contains_iff time).mpr
    refine ⟨le_trans hstart hle, ?_⟩
    intro stop hstop
    by_contra hover
    have hclips := clips_of_same hsame (clips_stop hs hground' hi hstop).left
    exact hunclipped stop (hbefore stop hstop) (not_lt.mp hover) hclips

/-!
# Clippings within an interval
-/

theorem finite_clips (hs : s.Indexed) (fluent : Compound) :
    { clip | s.Clips fluent clip }.Finite := by
  apply ((s.clippings fluent).map Event.timestamp).finite_toSet.subset
  intro clip hclip
  rcases (exists_mem_clippings_iff hs fluent clip).mpr hclip with ⟨e, he, htime⟩
  exact List.mem_map.mpr ⟨e, he, htime⟩

/-- Of the clippings before a time there is a last one. -/
theorem exists_last_clip (hs : s.Indexed) {clip : String} (hclip : s.Clips fluent clip)
    (hbefore : clip < time) :
    exists last, s.Clips fluent last ∧ last < time ∧
      forall other, s.Clips fluent other -> other < time -> other ≤ last := by
  have hfinite : { clip | s.Clips fluent clip ∧ clip < time }.Finite :=
    (finite_clips hs fluent).subset fun _ h => h.left
  rcases Set.exists_max_image _ id hfinite ⟨clip, hclip, hbefore⟩ with ⟨last, hlast, hgreatest⟩
  exact ⟨last, hlast.left, hlast.right, fun other h h' => hgreatest other ⟨h, h'⟩⟩

/-- A fluent that holds at a time at which it is clipped is initiated there. -/
theorem initiatesSame_of_holds_of_clips (hholds : s.Holds fluent time)
    (hclips : s.Clips fluent time) : s.InitiatesSame fluent time := by
  rcases hholds with ⟨start, hinitiates, hle, hunclipped⟩
  rcases lt_or_eq_of_le hle with hlt | heq
  · exact absurd hclips (hunclipped time hlt (le_refl time))
  · exact heq ▸ hinitiates

/-- A start with an initiation before it, and no gap in between, is a clipping: otherwise the
fluent would persist from its last clipping before, or from the initiation. -/
theorem clips_of_isLeastStart (hs : s.Indexed) {first since : String}
    (hleast : s.IsLeastStart fluent time since) (hfirst : s.InitiatesSame fluent first)
    (hlt : first < since)
    (hholds : forall moment, first ≤ moment -> moment ≤ since -> s.Holds fluent moment) :
    s.Clips fluent since := by
  by_contra hsince
  rcases hleast.left with ⟨_, hle, hunclipped⟩
  have hfrom : forall start, start < since -> s.InitiatesSame fluent start ->
      exists clip, start < clip ∧ clip < since ∧ s.Clips fluent clip := by
    intro start hstart hinitiates
    by_contra hnone
    have hpersists : s.PersistsFrom fluent start time := by
      refine ⟨hinitiates, le_trans (le_of_lt hstart) hle, ?_⟩
      intro clip hafter hbefore hclips
      rcases lt_trichotomy clip since with hearlier | heq | hlater
      · exact hnone ⟨clip, hafter, hearlier, hclips⟩
      · exact hsince (heq ▸ hclips)
      · exact hunclipped clip hlater hbefore hclips
    exact absurd (hleast.right start hpersists) (not_le.mpr hstart)
  -- the fluent is initiated again at its last clipping, so another one would have to follow
  rcases hfrom first hlt hfirst with ⟨clip, hafter, hbefore, hclips⟩
  rcases exists_last_clip hs hclips hbefore with ⟨last, hlast, hlastBefore, hgreatest⟩
  have hin : first ≤ last := le_of_lt (lt_of_lt_of_le hafter (hgreatest clip hclips hbefore))
  have hagain := initiatesSame_of_holds_of_clips (hholds last hin (le_of_lt hlastBefore)) hlast
  rcases hfrom last hlastBefore hagain with ⟨next, hnextAfter, hnextBefore, hnext⟩
  exact absurd (hgreatest next hnext hnextBefore) (not_le.mpr hnextAfter)

/-!
# The two starts
-/

/-- The start of a holding in the interval around the time. -/
structure StartsIn (s : Scenario) (time : String) (h : Holding) (i : Interval) : Prop where
  accepted : checkPattern (.term h.fluent.toTerm) = .ok h.fluent
  only : (s.timeline h.fluent).filter (fun j => j.contains time) = [i]
  fluent : i.fluent.same h.fluent = true
  start_le : i.start ≤ h.since
  eq_iff : h.since = i.start ↔
    forall clip, i.start < clip -> clip ≤ time -> ¬ s.Clips h.fluent clip
  restarts : h.since ≠ i.start -> s.Clips h.fluent h.since ∧ s.InitiatesSame h.fluent h.since
  unclipped : forall clip, h.since < clip -> clip ≤ time -> ¬ s.Clips h.fluent clip

theorem exists_form_of_mem_timeline (hs : s.Indexed) (hground : fluent.isGround = true)
    {i : Interval} (hi : i ∈ s.timeline fluent) :
    exists form, form.isGround = true ∧ form.same fluent = true ∧ i ∈ s.intervals form :=
  exists_form_of_mem_ownIntervals hs ((ownIntervals_of_isGround hground).symm ▸ hi)

theorem exists_startsIn (hs : s.Indexed) {h : Holding} (hsubject : 1 ≤ h.fluent.arity)
    (hleast : s.IsLeastStart h.fluent time h.since) : exists i, s.StartsIn time h i := by
  have hground : h.fluent.isGround = true := by
    rcases hleast.left.left with ⟨form, hsame, hinitiates⟩
    rw [← Compound.isGround_eq_of_same hsame]
    exact isGround_of_initiates hinitiates
  have hunclipped := hleast.left.right.right
  rcases exists_mem_timeline_of_persistsFrom hs hground hleast.left with
    ⟨i, hi, hle, hcontains⟩
  rcases exists_form_of_mem_timeline hs hground hi with ⟨form, hground', hsame, hinterval⟩
  rcases (i.contains_iff time).mp hcontains with ⟨hstart, hbefore⟩
  have hinitiates : s.InitiatesSame h.fluent i.start :=
    initiatesSame_of_same hsame (initiatesSame_start hs hground' hinterval)
  have hholds : forall moment, i.start ≤ moment -> moment ≤ h.since -> s.Holds h.fluent moment := by
    intro moment hafter hsince
    apply holds_of_same hsame (holds_of_contains hs hground' hinterval _)
    apply (i.contains_iff moment).mpr
    refine ⟨hafter, fun stop hstop => ?_⟩
    exact lt_of_le_of_lt (le_trans hsince hleast.left.right.left) (hbefore stop hstop)
  refine ⟨i, ?_⟩
  constructor
  case accepted => exact checkPattern_toTerm hsubject
  case only => exact filter_contains_timeline hs hground hi hcontains
  case fluent => exact same_of_mem_timeline hground hi
  case start_le => exact hle
  case eq_iff =>
    constructor
    · intro heq clip hafter
      exact hunclipped clip (heq ▸ hafter)
    · intro hnone
      exact le_antisymm (hleast.right i.start ⟨hinitiates, hstart, hnone⟩) hle
  case restarts =>
    intro hne
    have hlt := lt_of_le_of_ne hle (Ne.symm hne)
    exact ⟨clips_of_isLeastStart hs hleast hinitiates hlt hholds, hleast.left.left⟩
  case unclipped => exact hunclipped

end Scenario

/-!
# A sale and a purchase on one day
-/

namespace Trade

def bought : Functor :=
  ⟨"bought", by decide +kernel⟩

def sold : Functor :=
  ⟨"sold", by decide +kernel⟩

def has : Functor :=
  ⟨"has", by decide +kernel⟩

def car : List Term :=
  [.text "alice", .text "car"]

def ownership : Compound :=
  ⟨has, car⟩

def buying : Rule :=
  ⟨⟨bought, recordSlots⟩, .initiates, ⟨has, recordSlots⟩, false, .learned⟩

def selling : Rule :=
  ⟨⟨sold, recordSlots⟩, .terminates, ⟨has, recordSlots⟩, false, .learned⟩

def purchase : EventStore :=
  ((EventStore.empty EventStore.defaultMaxDepth).push ⟨bought, car⟩ "2024-01-01").2

def sale : EventStore :=
  (purchase.push ⟨sold, car⟩ "2024-03-01").2

def repurchase : EventStore :=
  (sale.push ⟨bought, car⟩ "2024-03-01").2

def scenario : Scenario :=
  ⟨repurchase, ((RuleSet.empty.add buying).2.add selling).2, ExclusiveDomains.empty⟩

theorem reachable_scenario : scenario.Reachable := by
  have hpurchase : purchase.Reachable :=
    EventStore.Reachable.append (t := .compound bought car)
      (.empty EventStore.defaultMaxDepth) rfl
  have hsale : sale.Reachable :=
    EventStore.Reachable.append (t := .compound sold car) hpurchase rfl
  have hrepurchase : repurchase.Reachable :=
    EventStore.Reachable.append (t := .compound bought car) hsale rfl
  exact ⟨hrepurchase, .add selling (.add buying .empty)⟩

theorem hasSubjects_scenario : scenario.HasSubjects := by
  intro r hr
  have hrules : scenario.rules.all = [buying, selling] := by decide +kernel
  rw [hrules] at hr
  rcases List.mem_cons.mp hr with rfl | hr
  · decide
  · rw [List.mem_singleton.mp hr]
    decide

theorem fluentsOf_ownership : scenario.fluentsOf ownership = [ownership] := by
  have hsorted : (scenario.initiations ownership.functor.text ownership.arity none).mergeSort
      Initiation.notAfter = scenario.initiations ownership.functor.text ownership.arity none :=
    List.mergeSort_of_pairwise (by decide +kernel)
  rw [Scenario.fluentsOf, hsorted]
  decide +kernel

theorem changePoints_ownership :
    scenario.changePoints ownership = ["2024-01-01", "2024-03-01"] := by
  have htimes : ((((scenario.initiations ownership.functor.text ownership.arity none).filter
      fun i => i.fluent.same ownership).map Initiation.timestamp) ++
        (scenario.clippings ownership).map Event.timestamp).eraseDups =
          ["2024-01-01", "2024-03-01"] := by
    decide +kernel
  rw [Scenario.changePoints, htimes]
  exact List.mergeSort_of_pairwise (by decide +kernel)

theorem timeline_ownership : scenario.timeline ownership = [⟨ownership, "2024-01-01", none⟩] := by
  rw [Scenario.timeline, fluentsOf_ownership, List.flatMap_singleton, Scenario.intervals,
    changePoints_ownership]
  decide +kernel

end Trade

end EventCalculus

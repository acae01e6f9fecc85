import EventCalculus.Proofs.Determinacy
import EventCalculus.Proofs.EngineSteps
import EventCalculus.Proofs.HoldingState

/-!
# Sets of answers

Scenarios that initiate and clip the fluents of a class alike give the same sets of
answers about this class, whatever they say of other fluents.  Only the order at
equal times and the choice among the forms of a fluent are left to the order of
their events and rules.
-/

namespace EventCalculus

section
variable {α : Type}

/-- For every member of the first list there is one of the second list that it agrees with. -/
def Covers (agree : α -> α -> Prop) (xs ys : List α) : Prop :=
  forall x, x ∈ xs -> exists y, y ∈ ys ∧ agree x y

theorem Covers.of_perm {agree : α -> α -> Prop} {xs xs' ys ys' : List α}
    (h : Covers agree xs ys) (hxs : xs'.Perm xs) (hys : ys'.Perm ys) : Covers agree xs' ys' := by
  intro x hx
  rcases h x (hxs.mem_iff.mp hx) with ⟨y, hy, hagree⟩
  exact ⟨y, hys.mem_iff.mpr hy, hagree⟩

/-- If agreement respects a selection, it is enough to cover the selected members. -/
theorem covers_filter {agree : α -> α -> Prop} {p : α -> Bool} {xs ys : List α}
    (hp : forall x y, agree x y -> p x = p y)
    (h : forall x, x ∈ xs -> p x = true -> exists y, y ∈ ys ∧ agree x y) :
    Covers agree (xs.filter p) (ys.filter p) := by
  intro x hx
  rcases List.mem_filter.mp hx with ⟨hmem, hselected⟩
  rcases h x hmem hselected with ⟨y, hy, hagree⟩
  exact ⟨y, List.mem_filter.mpr ⟨hy, (hp x y hagree).symm.trans hselected⟩, hagree⟩

/-- The lists have the same members, up to agreement. -/
structure SameMembers (agree : α -> α -> Prop) (xs ys : List α) : Prop where
  covers : Covers agree xs ys
  covered : Covers agree ys xs

theorem SameMembers.of_perm {agree : α -> α -> Prop} {xs xs' ys ys' : List α}
    (h : SameMembers agree xs ys) (hxs : xs'.Perm xs) (hys : ys'.Perm ys) :
    SameMembers agree xs' ys' :=
  ⟨h.covers.of_perm hxs hys, h.covered.of_perm hys hxs⟩

end

/-- The bindings differ at most in the kind of numbers of equal value. -/
def Bindings.Agree (a b : Bindings) : Prop :=
  a.same b = true

/-- The intervals have the same ends, and their fluents differ at most in the kind of numbers of
equal value. -/
structure Interval.Agree (i j : Interval) : Prop where
  fluent : i.fluent.same j.fluent = true
  start : i.start = j.start
  stop : i.stop = j.stop

/-- The intervals are of the same fluent, and the second one has all times of the first one. -/
structure Interval.LiesIn (i j : Interval) : Prop where
  fluent : i.fluent.same j.fluent = true
  contains : forall time, i.contains time = true -> j.contains time = true

/-- The holdings have the same start, and their fluents differ at most in the kind of numbers of
equal value. -/
structure Holding.Agree (a b : Holding) : Prop where
  fluent : a.fluent.same b.fluent = true
  since : a.since = b.since

/-!
# Intervals of another form
-/

theorem intervalsFrom_eq_map (fluent form : Compound) (holds : String -> Bool)
    (start : Option String) (points : List String) :
    intervalsFrom form holds start points =
      (intervalsFrom fluent holds start points).map fun i => ⟨form, i.start, i.stop⟩ := by
  induction points generalizing start with
  | nil =>
      cases start with
      | none => rfl
      | some begun => rfl
  | cons time rest ih =>
      cases hholds : holds time with
      | true =>
          cases start with
          | none => simp only [intervalsFrom, hholds, ih]
          | some begun => simp only [intervalsFrom, hholds, ih]
      | false =>
          cases start with
          | none => simp only [intervalsFrom, hholds, ih]
          | some begun => simp only [intervalsFrom, hholds, ih, List.map_cons]

namespace Scenario

variable {s s' : Scenario}

theorem changePoints_eq_of_same (hs : s.Indexed) {fluent form : Compound}
    (hsame : fluent.same form = true) : s.changePoints fluent = s.changePoints form := by
  apply changePoints_eq_of_mem_iff
  intro time
  rw [mem_changePoints_iff hs, mem_changePoints_iff hs]
  constructor
  · intro h
    exact h.imp (initiatesSame_of_same hsame) (clips_of_same hsame)
  · intro h
    exact h.imp (initiatesSame_of_same (Compound.same_symm hsame))
      (clips_of_same (Compound.same_symm hsame))

theorem intervals_eq_map_of_same (hs : s.Indexed) {fluent form : Compound}
    (hground : fluent.isGround = true) (hform : form.isGround = true)
    (hsame : fluent.same form = true) :
    s.intervals form = (s.intervals fluent).map fun i => ⟨form, i.start, i.stop⟩ := by
  have hholds : s.holdsAt fluent = s.holdsAt form :=
    funext (holdsAt_eq_of_same hs hground hform hsame)
  rw [intervals, intervals, ← hholds, ← changePoints_eq_of_same hs hsame, ← intervalsFrom_eq_map]

theorem isSome_matchCompound?_of_mem_fluentsOf {p fluent : Compound}
    (h : fluent ∈ s.fluentsOf p) : (p.matchCompound? fluent).isSome = true := by
  unfold fluentsOf at h
  rw [distinctFluents_eq_eraseDupsBy] at h
  exact (List.mem_filter.mp ((eraseDupsBy_sublist _ _).subset h)).right

theorem perm_of_allHolding? {time : String} {holdings : List Holding}
    (h : s.allHolding? time = some holdings) :
    holdings.Perm (s.unsortedHoldings time) := by
  rw [allHolding?_eq] at h
  split at h
  · cases h
  · rw [← Option.some.inj h]
    exact List.mergeSort_perm _ _

/-- If one list of all that holds fails with the other, both are there or neither is. -/
theorem allHolding?_none_or_some {time : String}
    (h : s'.allHolding? time = none ↔ s.allHolding? time = none) :
    (s'.allHolding? time = none ∧ s.allHolding? time = none) ∨
      exists holdings' holdings, s'.allHolding? time = some holdings' ∧
        s.allHolding? time = some holdings ∧ holdings'.Perm (s'.unsortedHoldings time) ∧
        holdings.Perm (s.unsortedHoldings time) := by
  cases hbefore : s.allHolding? time with
  | none => exact Or.inl ⟨h.mpr hbefore, rfl⟩
  | some holdings =>
      cases hafter : s'.allHolding? time with
      | none =>
          rw [h.mp hafter] at hbefore
          cases hbefore
      | some holdings' =>
          exact Or.inr ⟨holdings', holdings, rfl, rfl, perm_of_allHolding? hafter,
            perm_of_allHolding? hbefore⟩

/-!
# Agreement about a class of fluents
-/

/-- The scenarios initiate and clip the fluents of a class alike.  With a fluent its other forms are
in the class. -/
structure AgreeAbout (about : Compound -> Prop) (s s' : Scenario) : Prop where
  of_same : forall a b : Compound, a.same b = true -> about a -> about b
  initiatesSame_iff : forall fluent, about fluent -> forall time,
    s.InitiatesSame fluent time ↔ s'.InitiatesSame fluent time
  clips_iff : forall fluent, about fluent -> forall time,
    s.Clips fluent time ↔ s'.Clips fluent time

theorem SameFacts.agreeAbout (hfacts : s.SameFacts s') : AgreeAbout (fun _ => True) s s' :=
  ⟨fun _ _ _ _ => trivial, fun fluent _ => hfacts.initiatesSame_iff fluent,
    fun fluent _ => hfacts.clips_iff fluent⟩

section
variable {about : Compound -> Prop}

theorem AgreeAbout.symm (h : AgreeAbout about s s') : AgreeAbout about s' s :=
  ⟨h.of_same, fun fluent hfluent time => (h.initiatesSame_iff fluent hfluent time).symm,
    fun fluent hfluent time => (h.clips_iff fluent hfluent time).symm⟩

/-- With a fluent a class has what could displace it; then it is enough to compare initiations,
terminations and exclusive domains. -/
theorem agreeAbout_of_terminates_iff
    (of_same : forall a b : Compound, a.same b = true -> about a -> about b)
    (hcompeting : forall a b : Compound, a.functor = b.functor -> a.SameSubject b -> about b ->
      about a)
    (hinitiates : forall fluent, about fluent -> forall time,
      s.InitiatesSame fluent time ↔ s'.InitiatesSame fluent time)
    (hterminates : forall fluent, about fluent -> forall time,
      s.Terminates fluent time ↔ s'.Terminates fluent time)
    (hexclusive : forall fluent t, about fluent -> fluent.subject? = some t ->
      s.exclusive.contains fluent.functor.text = s'.exclusive.contains fluent.functor.text) :
    AgreeAbout about s s' := by
  have hdisplaces : forall {t t' : Scenario} {fluent time}, about fluent ->
      (forall other, about other -> t.InitiatesSame other time -> t'.InitiatesSame other time) ->
      (forall subject, fluent.subject? = some subject ->
        t.exclusive.contains fluent.functor.text = t'.exclusive.contains fluent.functor.text) ->
      t.Displaces fluent time -> t'.Displaces fluent time := by
    intro t t' fluent time hfluent hinitiates hexclusive h
    rcases h with ⟨hcontains, other, hother, hfunctor, harity, hcompetes⟩
    have habout := hcompeting other fluent hfunctor hcompetes.left hfluent
    rcases hcompetes.left with ⟨_, subject, _, hsubject, _⟩
    rcases hinitiates other habout ⟨other, Compound.same_refl other, hother⟩ with
      ⟨form, hsame, hform⟩
    have hsame' := Compound.same_symm hsame
    rw [hexclusive subject hsubject] at hcontains
    refine ⟨hcontains, form, hform, (Compound.functor_eq_of_same hsame).trans hfunctor,
      (Compound.arity_eq_of_same hsame).trans harity, ?_⟩
    apply (Compound.competesWith_iff form fluent).mp
    rw [← Compound.competesWith_canonical, Compound.same_iff.mp hsame,
      Compound.competesWith_canonical]
    exact (Compound.competesWith_iff other fluent).mpr hcompetes
  constructor
  case of_same => exact of_same
  case initiatesSame_iff => exact hinitiates
  case clips_iff =>
    intro fluent hfluent time
    have hforth : s.Displaces fluent time -> s'.Displaces fluent time :=
      hdisplaces hfluent (fun other hother => (hinitiates other hother time).mp)
        fun subject => hexclusive fluent subject hfluent
    have hback : s'.Displaces fluent time -> s.Displaces fluent time :=
      hdisplaces hfluent (fun other hother => (hinitiates other hother time).mpr)
        fun subject hsubject => (hexclusive fluent subject hfluent hsubject).symm
    exact or_congr (hterminates fluent hfluent time) ⟨hforth, hback⟩

section
variable (h : AgreeAbout about s s') {fluent : Compound} (hfluent : about fluent)
include h hfluent

theorem AgreeAbout.holds_iff (time : String) : s.Holds fluent time ↔ s'.Holds fluent time := by
  simp only [Holds, h.initiatesSame_iff fluent hfluent, h.clips_iff fluent hfluent]

theorem AgreeAbout.isLeastStart_iff (time start : String) :
    s.IsLeastStart fluent time start ↔ s'.IsLeastStart fluent time start := by
  simp only [IsLeastStart, PersistsFrom, h.initiatesSame_iff fluent hfluent,
    h.clips_iff fluent hfluent]

theorem AgreeAbout.intervals_eq (hs : s.Indexed) (hs' : s'.Indexed)
    (hground : fluent.isGround = true) : s.intervals fluent = s'.intervals fluent := by
  have hholds : s.holdsAt fluent = s'.holdsAt fluent := by
    funext time
    rw [Bool.eq_iff_iff, holdsAt_iff_holds hs hground, holdsAt_iff_holds hs' hground,
      h.holds_iff hfluent]
  have hpoints : s.changePoints fluent = s'.changePoints fluent := by
    apply changePoints_eq_of_mem_iff
    intro time
    rw [mem_changePoints_iff hs, mem_changePoints_iff hs', h.initiatesSame_iff fluent hfluent,
      h.clips_iff fluent hfluent]
  rw [intervals, intervals, hholds, hpoints]

/-- The other scenario has some form of a fluent hold from the same start. -/
theorem AgreeAbout.exists_form_holdsFrom {start time : String}
    (hholds : s.HoldsFrom fluent start time) :
    exists form, form.same fluent = true ∧ s'.HoldsFrom form start time := by
  rcases hholds with ⟨hinitiates, hle, hunclipped⟩
  rcases (h.initiatesSame_iff fluent hfluent start).mp
    ⟨fluent, Compound.same_refl fluent, hinitiates⟩ with ⟨form, hsame, hform⟩
  refine ⟨form, hsame, hform, hle, ?_⟩
  intro clip hafter hbefore hclips
  exact hunclipped clip hafter hbefore
    ((h.clips_iff fluent hfluent clip).mpr (clips_of_same hsame hclips))

end

section
variable (h : AgreeAbout about s s') (hs : s.Indexed) (hs' : s'.Indexed)
include h hs hs'

/-- A pattern is about a class if all that it matches is in the class. -/
theorem AgreeAbout.covers_query {p : Compound}
    (hp : forall fluent, (p.matchCompound? fluent).isSome = true -> about fluent)
    (time : String) : Covers Bindings.Agree (s.query p time) (s'.query p time) := by
  intro b hb
  rcases answers_of_mem_query hs hb with ⟨fluent, start, hholds, hmatch⟩
  have hfluent : about fluent := hp fluent (by rw [hmatch]; rfl)
  rcases h.exists_form_holdsFrom hfluent hholds with ⟨form, hsame, hform⟩
  have hcanonical := Compound.map_canonical_matchCompound?_of_same (Compound.same_refl p) hsame
  rw [hmatch] at hcanonical
  rcases Option.map_eq_some_iff.mp hcanonical with ⟨c, hc, hbindings⟩
  rcases exists_mem_query_of_answers hs' ⟨form, start, hform, hc⟩ with ⟨b', hb', hsame'⟩
  have hagree := Bindings.same_trans hsame' (Bindings.same_of_canonical_eq hbindings)
  exact ⟨b', hb', Bindings.same_symm hagree⟩

theorem AgreeAbout.covers_timeline {p : Compound}
    (hp : forall fluent, (p.matchCompound? fluent).isSome = true -> about fluent) :
    Covers Interval.Agree (s.timeline p) (s'.timeline p) := by
  apply Covers.of_perm _ (List.mergeSort_perm _ _) (List.mergeSort_perm _ _)
  intro i hi
  rcases List.mem_flatMap.mp hi with ⟨fluent, hmem, hi⟩
  rcases exists_initiates_of_mem_fluentsOf hs hmem with ⟨time, hinitiates⟩
  have hmatch := isSome_matchCompound?_of_mem_fluentsOf hmem
  have hfluent := hp fluent hmatch
  have hinitiates' := (h.initiatesSame_iff fluent hfluent time).mp
    ⟨fluent, Compound.same_refl fluent, hinitiates⟩
  rcases exists_mem_fluentsOf_of_initiatesSame hs' hmatch hinitiates' with ⟨form, hform, hsame⟩
  rcases exists_initiates_of_mem_fluentsOf hs' hform with ⟨_, hformInitiates⟩
  have hground := isGround_of_initiates hinitiates
  rw [h.intervals_eq hfluent hs hs' hground] at hi
  have hown := fluent_of_mem_intervals hi
  refine ⟨⟨form, i.start, i.stop⟩, ?_, hown ▸ Compound.same_symm hsame, rfl, rfl⟩
  apply List.mem_flatMap.mpr
  refine ⟨form, hform, ?_⟩
  rw [intervals_eq_map_of_same hs' hground (isGround_of_initiates hformInitiates)
    (Compound.same_symm hsame)]
  exact List.mem_map_of_mem hi

theorem AgreeAbout.exists_mem_unsortedHoldings {time : String} {x : Holding}
    (hx : x ∈ s.unsortedHoldings time) (habout : about x.fluent) :
    exists y, y ∈ s'.unsortedHoldings time ∧ x.Agree y := by
  have hleast := (h.isLeastStart_iff habout _ _).mp (isLeastStart_of_mem_unsortedHoldings hs hx)
  rcases (exists_mem_unsortedHoldings_iff hs' x.fluent x.since).mpr hleast with
    ⟨y, hy, hsame, hsince⟩
  exact ⟨y, hy, Compound.same_symm hsame, hsince.symm⟩

/-- A list of all that holds fails at a fluent without subject. -/
theorem AgreeAbout.allHolding?_eq_none
    (hsubject : forall c : Compound, c.subject? = none -> about c) {time : String}
    (hnone : s.allHolding? time = none) : s'.allHolding? time = none := by
  have hany : (s.unsortedHoldings time).any (fun x => x.fluent.subject?.isNone) = true := by
    rw [allHolding?_eq] at hnone
    split at hnone
    · assumption
    · cases hnone
  rcases List.any_eq_true.mp hany with ⟨x, hx, hxnone⟩
  rw [Option.isNone_iff_eq_none] at hxnone
  rcases h.exists_mem_unsortedHoldings hs hs' hx (hsubject _ hxnone) with ⟨y, hy, hagree⟩
  rw [allHolding?_eq, if_pos]
  apply List.any_eq_true.mpr
  refine ⟨y, hy, ?_⟩
  have hcanonical : x.fluent.canonical.subject? = y.fluent.canonical.subject? := by
    rw [Compound.same_iff.mp hagree.fluent]
  simp only [Compound.subject?_canonical, hxnone, Option.map_none] at hcanonical
  rw [Option.map_eq_none_iff.mp hcanonical.symm]
  rfl

end

/-- Questions about a class of fluents have the same sets of answers. -/
theorem AgreeAbout.sameMembers_query (h : AgreeAbout about s s') (hs : s.Indexed)
    (hs' : s'.Indexed) {p : Compound}
    (hp : forall fluent, (p.matchCompound? fluent).isSome = true -> about fluent)
    (time : String) : SameMembers Bindings.Agree (s.query p time) (s'.query p time) :=
  ⟨h.covers_query hs hs' hp time, h.symm.covers_query hs' hs hp time⟩

theorem AgreeAbout.sameMembers_timeline (h : AgreeAbout about s s') (hs : s.Indexed)
    (hs' : s'.Indexed) {p : Compound}
    (hp : forall fluent, (p.matchCompound? fluent).isSome = true -> about fluent) :
    SameMembers Interval.Agree (s.timeline p) (s'.timeline p) :=
  ⟨h.covers_timeline hs hs' hp, h.symm.covers_timeline hs' hs hp⟩

end

/-- The fluents of a class hold in both scenarios, since the same times. -/
theorem AgreeAbout.sameMembers_unsortedHoldings {p : Compound -> Bool}
    (h : AgreeAbout (fun c => p c = true) s s') (hs : s.Indexed) (hs' : s'.Indexed)
    (time : String) :
    SameMembers Holding.Agree ((s.unsortedHoldings time).filter fun x => p x.fluent)
      ((s'.unsortedHoldings time).filter fun x => p x.fluent) := by
  have hp : forall x y : Holding, x.Agree y -> p x.fluent = p y.fluent := by
    intro x y hagree
    rw [Bool.eq_iff_iff]
    exact ⟨h.of_same _ _ hagree.fluent, h.of_same _ _ (Compound.same_symm hagree.fluent)⟩
  constructor
  · exact covers_filter hp fun _ hx habout => h.exists_mem_unsortedHoldings hs hs' hx habout
  · exact covers_filter hp fun _ hx habout => h.symm.exists_mem_unsortedHoldings hs' hs hx habout

/-!
# Narrower scenarios
-/

/-- Up to the time the second scenario initiates no more than the first one and clips no less. -/
structure Narrows (time : String) (s s' : Scenario) : Prop where
  initiates : forall fluent start, start ≤ time -> s'.Initiates fluent start ->
    s.Initiates fluent start
  clips : forall fluent clip, clip ≤ time -> s.Clips fluent clip -> s'.Clips fluent clip

section
variable {time : String} (h : Narrows time s s')
include h

theorem Narrows.holdsFrom {fluent : Compound} {start : String}
    (hholds : s'.HoldsFrom fluent start time) : s.HoldsFrom fluent start time := by
  rcases hholds with ⟨hinitiates, hle, hunclipped⟩
  refine ⟨h.initiates fluent start hle hinitiates, hle, ?_⟩
  intro clip hafter hbefore hclips
  exact hunclipped clip hafter hbefore (h.clips fluent clip hbefore hclips)

theorem Narrows.persistsFrom {fluent : Compound} {start : String}
    (hpersists : s'.PersistsFrom fluent start time) : s.PersistsFrom fluent start time := by
  rcases hpersists with ⟨⟨form, hform, hinitiates⟩, hle, hunclipped⟩
  refine ⟨⟨form, hform, h.initiates form start hle hinitiates⟩, hle, ?_⟩
  intro clip hafter hbefore hclips
  exact hunclipped clip hafter hbefore (h.clips fluent clip hbefore hclips)

variable (hs : s.Indexed) (hs' : s'.Indexed)
include hs hs'

theorem Narrows.covers_query (p : Compound) :
    Covers Bindings.Agree (s'.query p time) (s.query p time) := by
  intro b hb
  rcases answers_of_mem_query hs' hb with ⟨fluent, start, hholds, hmatch⟩
  rcases exists_mem_query_of_answers hs ⟨fluent, start, h.holdsFrom hholds, hmatch⟩ with
    ⟨b', hb', hsame⟩
  exact ⟨b', hb', Bindings.same_symm hsame⟩

theorem Narrows.covers_unsortedHoldings :
    Covers (fun x y : Holding => y.fluent.same x.fluent = true ∧ y.since ≤ x.since)
      (s'.unsortedHoldings time) (s.unsortedHoldings time) := by
  intro x hx
  have hpersists := (isLeastStart_of_mem_unsortedHoldings hs' hx).left
  exact exists_mem_unsortedHoldings hs (h.persistsFrom hpersists)

end

theorem exists_interval_of_holds (hs : s.Indexed) {fluent : Compound}
    (hground : fluent.isGround = true) {time : String} (h : s.Holds fluent time) :
    exists i, i ∈ s.intervals fluent ∧ i.contains time = true := by
  have hcount := countP_contains_intervals hs hground time
  rw [(holdsAt_iff_holds hs hground).mpr h] at hcount
  have hpos : 0 < (s.intervals fluent).countP fun i => i.contains time := by
    rw [hcount]
    exact Nat.one_pos
  exact List.countP_pos_iff.mp hpos

/-- If a fluent holds throughout an interval, it does not cease to hold in between. -/
theorem exists_interval_around (hs : s.Indexed) {fluent : Compound}
    (hground : fluent.isGround = true) {i : Interval} (hstart : i.contains i.start = true)
    (hholds : forall time, i.contains time = true -> s.Holds fluent time) :
    exists j, j ∈ s.intervals fluent ∧
      forall time, i.contains time = true -> j.contains time = true := by
  rcases exists_interval_of_holds hs hground (hholds i.start hstart) with ⟨j, hj, hcontains⟩
  refine ⟨j, hj, ?_⟩
  intro time htime
  rcases (j.contains_iff i.start).mp hcontains with ⟨hbegun, hbefore⟩
  rcases (i.contains_iff time).mp htime with ⟨hle, hin⟩
  apply (j.contains_iff time).mpr
  refine ⟨le_trans hbegun hle, ?_⟩
  intro stop hstop
  apply lt_of_not_ge
  intro hover
  apply (clips_stop hs hground hj hstop).right
  apply hholds stop
  apply (i.contains_iff stop).mpr
  exact ⟨le_of_lt (hbefore stop hstop), fun last hlast => lt_of_le_of_lt hover (hin last hlast)⟩

/-- In a scenario that is narrower at all times every interval lies in one of the wider one. -/
theorem covers_timeline_of_narrows (h : forall time, Narrows time s s') (hs : s.Indexed)
    (hs' : s'.Indexed) (p : Compound) :
    Covers Interval.LiesIn (s'.timeline p) (s.timeline p) := by
  apply Covers.of_perm _ (List.mergeSort_perm _ _) (List.mergeSort_perm _ _)
  intro i hi
  rcases List.mem_flatMap.mp hi with ⟨fluent, hmem, hi⟩
  rcases exists_initiates_of_mem_fluentsOf hs' hmem with ⟨time, hinitiates'⟩
  have hinitiates := (h time).initiates fluent time (le_refl time) hinitiates'
  have hground := isGround_of_initiates hinitiates
  rcases exists_mem_fluentsOf_of_initiatesSame hs (isSome_matchCompound?_of_mem_fluentsOf hmem)
    ⟨fluent, Compound.same_refl fluent, hinitiates⟩ with ⟨form, hform, hsame⟩
  rcases exists_initiates_of_mem_fluentsOf hs hform with ⟨_, hformInitiates⟩
  have hholds : forall t, i.contains t = true -> s.Holds fluent t := by
    intro t ht
    rcases holds_of_contains hs' hground hi ht with ⟨start, hpersists⟩
    exact ⟨start, (h t).persistsFrom hpersists⟩
  rcases exists_interval_around hs hground (contains_start hi) hholds with ⟨j, hj, haround⟩
  refine ⟨⟨form, j.start, j.stop⟩, ?_, ?_, haround⟩
  · apply List.mem_flatMap.mpr
    refine ⟨form, hform, ?_⟩
    rw [intervals_eq_map_of_same hs hground (isGround_of_initiates hformInitiates)
      (Compound.same_symm hsame)]
    exact List.mem_map_of_mem hj
  · rw [fluent_of_mem_intervals hi]
    exact Compound.same_symm hsame

/-!
# Equal sets
-/

/-- The scenarios give the same sets of answers. -/
structure SameAnswerSets (s s' : Scenario) : Prop where
  query : forall p time, SameMembers Bindings.Agree (s.query p time) (s'.query p time)
  timeline : forall p, SameMembers Interval.Agree (s.timeline p) (s'.timeline p)
  holdsAt : forall p time, s.holdsAt p time = s'.holdsAt p time
  everHeld : forall p, s.everHeld p = s'.everHeld p
  allHolding : forall time, exists holdings holdings', s.allHolding? time = some holdings ∧
    s'.allHolding? time = some holdings' ∧ SameMembers Holding.Agree holdings holdings'

theorem sameAnswerSets_of_sameFacts (hs : s.Indexed) (hs' : s'.Indexed)
    (hfacts : s.SameFacts s') (hsubjects : s.HasSubjects) (hsubjects' : s'.HasSubjects) :
    s.SameAnswerSets s' := by
  constructor
  case query =>
    intro p time
    exact hfacts.agreeAbout.sameMembers_query hs hs' (fun _ _ => trivial) time
  case timeline =>
    intro p
    exact hfacts.agreeAbout.sameMembers_timeline hs hs' fun _ _ => trivial
  case holdsAt => exact holdsAt_eq_of_sameFacts hs hs' hfacts
  case everHeld => exact everHeld_eq_of_sameFacts hs hs' hfacts
  case allHolding =>
    intro time
    have hcovers : Covers Holding.Agree (s.unsortedHoldings time) (s'.unsortedHoldings time) :=
      fun x hx => hfacts.agreeAbout.exists_mem_unsortedHoldings hs hs' hx trivial
    have hcovered : Covers Holding.Agree (s'.unsortedHoldings time) (s.unsortedHoldings time) :=
      fun x hx => hfacts.symm.agreeAbout.exists_mem_unsortedHoldings hs' hs hx trivial
    exact ⟨_, _, allHolding?_eq_some hs hsubjects time, allHolding?_eq_some hs' hsubjects' time,
      SameMembers.of_perm ⟨hcovers, hcovered⟩ (List.mergeSort_perm _ _) (List.mergeSort_perm _ _)⟩

end Scenario

namespace Engine

/-- The engines give the same sets of answers, or fail alike, when they are asked about a given time
or about all times. -/
structure SameAnswerSets (a b : Engine) : Prop where
  query : forall pattern moment, SameOutcome (SameMembers Bindings.Agree)
    (a.query pattern (some moment)).1 (b.query pattern (some moment)).1
  timeline : forall pattern, SameOutcome (SameMembers Interval.Agree)
    (a.timeline pattern).1 (b.timeline pattern).1
  holds : forall pattern moment,
    (a.holds pattern (some moment)).1 = (b.holds pattern (some moment)).1
  everHeld : forall pattern, (a.everHeld pattern).1 = (b.everHeld pattern).1
  allHolding : forall moment time, timestampOf moment = .ok time ->
    exists holdings holdings', a.allHolding (some moment) = .ok holdings ∧
      b.allHolding (some moment) = .ok holdings' ∧ SameMembers Holding.Agree holdings holdings'

theorem allHolding_of_scenario (e : Engine) {moment : Moment} {time : String}
    (htime : timestampOf moment = .ok time) {holdings : List Holding}
    (h : e.scenario.allHolding? time = some holdings) :
    e.allHolding (some moment) = .ok holdings := by
  have htimeOf : e.timeOf (some moment) = .ok time := htime
  rw [e.allHolding_eq htimeOf, h]

theorem sameAnswerSets_of_scenario {a b : Engine} (h : a.scenario.SameAnswerSets b.scenario) :
    a.SameAnswerSets b := by
  constructor
  case query =>
    intro v moment
    rw [fst_query, fst_query, fst_patternAt a b]
    exact sameOutcome_map _ fun question => h.query question.1 question.2
  case timeline =>
    intro v
    rw [fst_timeline, fst_timeline, fst_pattern a b]
    exact sameOutcome_map _ h.timeline
  case holds =>
    intro v moment
    rw [fst_holds, fst_holds, fst_query, fst_query, fst_patternAt a b]
    cases (b.patternAt v (some moment)).1 with
    | error fault => rfl
    | ok question => exact congrArg Except.ok (h.holdsAt question.1 question.2)
  case everHeld =>
    intro v
    rw [fst_everHeld, fst_everHeld, fst_pattern a b, funext h.everHeld]
  case allHolding =>
    intro moment time htime
    rcases h.allHolding time with ⟨holdings, holdings', hfirst, hsecond, hsame⟩
    exact ⟨holdings, holdings', a.allHolding_of_scenario htime hfirst,
      b.allHolding_of_scenario htime hsecond, hsame⟩

end Engine
end EventCalculus

import EventCalculus.Proofs.QueryAnswers
import Mathlib.Data.List.MinMax

/-!
# Exclusive domains as registers

For each subject, an exclusive domain keeps what was written last: a fluent holds
if it was initiated at the last time at which any fluent of the subject was, and
has not been terminated since.
-/

namespace EventCalculus

/-- The fluent has the domain, the arity and the subject of a register. -/
def Compound.IsIn (c : Compound) (domain : Functor) (arity : Nat) (subject : Term) : Prop :=
  c.functor = domain ∧ c.arity = arity ∧
    exists t, c.subject? = some t ∧ t.same subject = true

theorem Compound.sameSubject_of_isIn {a b : Compound} {domain : Functor} {arity : Nat}
    {subject : Term} (ha : a.IsIn domain arity subject) (hb : b.IsIn domain arity subject) :
    a.SameSubject b := by
  rcases ha with ⟨_, _, u, hu, husame⟩
  rcases hb with ⟨_, _, v, hv, hvsame⟩
  refine ⟨u, v, hu, hv, ?_⟩
  exact Term.same_iff.mpr ((Term.same_iff.mp husame).trans (Term.same_iff.mp hvsame).symm)

theorem Compound.isIn_of_sameSubject {a b : Compound} {domain : Functor} {arity : Nat}
    {subject : Term} (hfunctor : a.functor = b.functor) (harity : a.arity = b.arity)
    (hsubject : a.SameSubject b) (hb : b.IsIn domain arity subject) :
    a.IsIn domain arity subject := by
  rcases hb with ⟨hdomain, hlength, v, hv, hvsame⟩
  rcases hsubject with ⟨u, v', hu, hv', huv⟩
  rw [hv] at hv'
  cases hv'
  refine ⟨hfunctor.trans hdomain, harity.trans hlength, u, hu, ?_⟩
  exact Term.same_iff.mpr ((Term.same_iff.mp huv).trans (Term.same_iff.mp hvsame))

theorem Compound.isIn_of_same {a b : Compound} {domain : Functor} {arity : Nat}
    {subject : Term} (hsame : a.same b = true) (hb : b.IsIn domain arity subject) :
    a.IsIn domain arity subject := by
  have hb' := hb
  rcases hb' with ⟨_, _, v, hv, _⟩
  exact Compound.isIn_of_sameSubject (Compound.functor_eq_of_same hsame)
    (Compound.arity_eq_of_same hsame) (Compound.sameSubject_of_same hsame hv) hb

namespace Scenario

/-- Some fluent of the register is initiated at the time. -/
def Writes (s : Scenario) (domain : Functor) (arity : Nat) (subject : Term) (time : String) :
    Prop :=
  exists fluent, s.Initiates fluent time ∧ fluent.IsIn domain arity subject

/-- The greatest time up to the limit at which the register is written. -/
def IsLastWrite (s : Scenario) (domain : Functor) (arity : Nat) (subject : Term)
    (limit time : String) : Prop :=
  s.Writes domain arity subject time ∧ time ≤ limit ∧
    forall other, s.Writes domain arity subject other -> other ≤ limit -> other ≤ time

variable {s : Scenario} {domain : Functor} {arity : Nat} {subject : Term}

theorem writes_of_initiatesSame {fluent : Compound} (hin : fluent.IsIn domain arity subject)
    {time : String} (h : s.InitiatesSame fluent time) : s.Writes domain arity subject time := by
  rcases h with ⟨form, hsame, hinitiates⟩
  exact ⟨form, hinitiates, Compound.isIn_of_same hsame hin⟩

theorem exists_isLastWrite (hs : s.Indexed) {limit start : String}
    (hwrites : s.Writes domain arity subject start) (hle : start ≤ limit) :
    exists last, s.IsLastWrite domain arity subject limit last := by
  classical
  let own := (s.initiations domain.text arity (some limit)).filter
    fun i => decide (i.fluent.IsIn domain arity subject)
  have hmem : forall time, s.Writes domain arity subject time -> time ≤ limit ->
      time ∈ own.map Initiation.timestamp := by
    intro time htime hbefore
    rcases htime with ⟨fluent, hinitiates, hin⟩
    have hlimit : forall t, some limit = some t -> time ≤ t := by
      intro t ht
      cases ht
      exact hbefore
    rcases (exists_mem_initiations_iff hs domain.text arity (some limit) fluent time).mpr
      ⟨hinitiates, hlimit, congrArg Functor.text hin.left, hin.right.left⟩ with
      ⟨i, hi, rfl, rfl⟩
    exact List.mem_map_of_mem (List.mem_filter.mpr ⟨hi, decide_eq_true hin⟩)
  cases hmax : (own.map Initiation.timestamp).maximum with
  | bot =>
      have hnil := List.maximum_eq_bot.mp hmax
      have hstart := hmem start hwrites hle
      rw [hnil] at hstart
      cases hstart
  | coe last =>
      refine ⟨last, ?_⟩
      rcases List.mem_map.mp (List.maximum_mem hmax) with ⟨i, hi, rfl⟩
      rcases List.mem_filter.mp hi with ⟨hinit, hin⟩
      rcases (exists_mem_initiations_iff hs domain.text arity (some limit) i.fluent
        i.timestamp).mp ⟨i, hinit, rfl, rfl⟩ with ⟨hinitiates, hlimit, _, _⟩
      refine ⟨⟨i.fluent, hinitiates, of_decide_eq_true hin⟩, hlimit limit rfl, ?_⟩
      intro other hother hbefore
      exact List.le_maximum_of_mem (hmem other hother hbefore) hmax

/-- An initiation of another value of the register displaces the fluent. -/
theorem displaces_of_write {fluent other : Compound} {time : String}
    (hexclusive : s.exclusive.contains domain.text = true)
    (hin : fluent.IsIn domain arity subject) (hother : other.IsIn domain arity subject)
    (hinitiates : s.Initiates other time) (hdiffer : ¬ other.same fluent = true) :
    s.Displaces fluent time := by
  have hfunctor : other.functor = fluent.functor := hother.left.trans hin.left.symm
  have hsubject := Compound.sameSubject_of_isIn hother hin
  refine ⟨by rw [hin.left]; exact hexclusive, other, hinitiates, hfunctor,
    hother.right.left.trans hin.right.left.symm, hsubject, ?_⟩
  intro hvalues
  exact hdiffer (Compound.same_of_sameSubject_of_sameValues hfunctor hsubject hvalues)

/-- Whatever displaces a fluent of a register writes the register. -/
theorem writes_of_displaces {fluent : Compound} {time : String}
    (hin : fluent.IsIn domain arity subject) (h : s.Displaces fluent time) :
    s.Writes domain arity subject time := by
  rcases h with ⟨_, other, hinitiates, hfunctor, harity, hsubject, _⟩
  exact ⟨other, hinitiates, Compound.isIn_of_sameSubject hfunctor harity hsubject hin⟩

theorem holds_iff_of_isLastWrite (hexclusive : s.exclusive.contains domain.text = true)
    {limit last : String} (hlast : s.IsLastWrite domain arity subject limit last)
    {fluent : Compound} (hin : fluent.IsIn domain arity subject) :
    s.Holds fluent limit ↔ s.InitiatesSame fluent last ∧
      forall stop, last < stop -> stop ≤ limit -> ¬ s.Terminates fluent stop := by
  rcases hlast with ⟨⟨writer, hwriter, hwriterIn⟩, hlastLe, hgreatest⟩
  constructor
  · intro h
    rcases h with ⟨start, hinitiates, hle, hunclipped⟩
    have hstart : start ≤ last :=
      hgreatest start (writes_of_initiatesSame hin hinitiates) hle
    refine ⟨?_, ?_⟩
    · rcases lt_or_eq_of_le hstart with hlt | heq
      · -- The last write came after the start, so it wrote the fluent itself.
        refine ⟨writer, ?_, hwriter⟩
        by_contra hdiffer
        exact hunclipped last hlt hlastLe
          (Or.inr (displaces_of_write hexclusive hin hwriterIn hwriter hdiffer))
      · exact heq ▸ hinitiates
    · intro stop hafter hbefore hterminates
      exact hunclipped stop (lt_of_le_of_lt hstart hafter) hbefore (Or.inl hterminates)
  · intro h
    rcases h with ⟨hinitiates, hunterminated⟩
    refine ⟨last, hinitiates, hlastLe, ?_⟩
    intro clip hafter hbefore hclips
    cases hclips with
    | inl hterminates =>
        exact hunterminated clip hafter hbefore hterminates
    | inr hdisplaces =>
        have hwrites := writes_of_displaces hin hdisplaces
        exact absurd (hgreatest clip hwrites hbefore) (not_le.mpr hafter)

theorem exists_isLastWrite_of_holds (hs : s.Indexed) {limit : String} {fluent : Compound}
    (hin : fluent.IsIn domain arity subject) (h : s.Holds fluent limit) :
    exists last, s.IsLastWrite domain arity subject limit last := by
  rcases h with ⟨start, hinitiates, hle, _⟩
  exact exists_isLastWrite hs (writes_of_initiatesSame hin hinitiates) hle

/-- The two scenarios initiate and terminate the fluents of a register alike. -/
structure AgreeOn (s s' : Scenario) (domain : Functor) (arity : Nat) (subject : Term) :
    Prop where
  initiates : forall fluent time, fluent.IsIn domain arity subject ->
    (s.Initiates fluent time ↔ s'.Initiates fluent time)
  terminates : forall fluent time, fluent.IsIn domain arity subject ->
    (s.Terminates fluent time ↔ s'.Terminates fluent time)

theorem AgreeOn.symm {s s' : Scenario} (h : AgreeOn s s' domain arity subject) :
    AgreeOn s' s domain arity subject :=
  ⟨fun fluent time hin => (h.initiates fluent time hin).symm,
    fun fluent time hin => (h.terminates fluent time hin).symm⟩

theorem AgreeOn.holds {s s' : Scenario} (h : AgreeOn s s' domain arity subject)
    (hs : s.Indexed) (hexclusive : s.exclusive.contains domain.text = true)
    (hexclusive' : s'.exclusive.contains domain.text = true) {limit : String}
    {fluent : Compound} (hin : fluent.IsIn domain arity subject) (hholds : s.Holds fluent limit) :
    s'.Holds fluent limit := by
  have hwrites : forall time,
      s.Writes domain arity subject time ↔ s'.Writes domain arity subject time := by
    intro time
    constructor
    · intro hwrites
      rcases hwrites with ⟨other, hinitiates, hother⟩
      exact ⟨other, (h.initiates other time hother).mp hinitiates, hother⟩
    · intro hwrites
      rcases hwrites with ⟨other, hinitiates, hother⟩
      exact ⟨other, (h.initiates other time hother).mpr hinitiates, hother⟩
  rcases exists_isLastWrite_of_holds hs hin hholds with ⟨last, hlast⟩
  have hlast' : s'.IsLastWrite domain arity subject limit last := by
    refine ⟨(hwrites last).mp hlast.left, hlast.right.left, ?_⟩
    intro other hother
    exact hlast.right.right other ((hwrites other).mpr hother)
  rcases (holds_iff_of_isLastWrite hexclusive hlast hin).mp hholds with
    ⟨⟨form, hsame, hinitiates⟩, hunterminated⟩
  apply (holds_iff_of_isLastWrite hexclusive' hlast' hin).mpr
  constructor
  · exact ⟨form, hsame,
      (h.initiates form last (Compound.isIn_of_same hsame hin)).mp hinitiates⟩
  · intro stop hafter hbefore hterminates
    exact hunterminated stop hafter hbefore ((h.terminates fluent stop hin).mpr hterminates)

/-- The fluents of a domain, an arity and a subject behave as a register at a time: what was
written last is what holds, until it is terminated. -/
structure KeepsLastWrite (s : Scenario) (domain : Functor) (arity : Nat) (subject : Term)
    (time : String) : Prop where
  unwritten : (forall start, s.Writes domain arity subject start -> ¬ start ≤ time) ->
    forall fluent, fluent.isGround = true -> fluent.IsIn domain arity subject ->
      s.holdsAt fluent time = false
  written : forall start, s.Writes domain arity subject start -> start ≤ time ->
    exists last, s.IsLastWrite domain arity subject time last
  holds_iff : forall last, s.IsLastWrite domain arity subject time last ->
    forall fluent, fluent.isGround = true -> fluent.IsIn domain arity subject ->
      (s.holdsAt fluent time = true ↔ s.InitiatesSame fluent last ∧
        forall stop, last < stop -> stop ≤ time -> ¬ s.Terminates fluent stop)
  together : forall a b, a.isGround = true -> b.isGround = true ->
    a.IsIn domain arity subject -> b.IsIn domain arity subject ->
    s.holdsAt a time = true -> s.holdsAt b time = true ->
      exists last, s.IsLastWrite domain arity subject time last ∧
        s.InitiatesSame a last ∧ s.InitiatesSame b last
  other_subjects : forall s', s'.Reachable -> s'.exclusive.contains domain.text = true ->
    AgreeOn s s' domain arity subject ->
    forall fluent, fluent.isGround = true -> fluent.IsIn domain arity subject ->
      s.holdsAt fluent time = s'.holdsAt fluent time

end Scenario
end EventCalculus

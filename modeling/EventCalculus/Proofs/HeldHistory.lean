import EventCalculus.Proofs.AnswerSets

/-!
# What was ever held

Whether a fluent was ever held is read off its initiations, without a look at what clips it, while
queries and timelines apply every clipping.  They agree because a clipping counts only from right
after a start: at the time of its initiation a fluent holds, whatever else happens at this time.
-/

namespace EventCalculus
namespace Scenario

variable {s : Scenario} {p : Compound} {time : String}

/-- A fluent of the pattern is initiated at the time. -/
def InitiatesSome (s : Scenario) (p : Compound) (time : String) : Prop :=
  exists fluent, s.Initiates fluent time ∧ (p.matchCompound? fluent).isSome = true

theorem exists_event_of_initiatesSome (h : s.InitiatesSome p time) :
    exists e, e ∈ s.store.events ∧ e.timestamp = time := by
  rcases h with ⟨fluent, hinitiates, _⟩
  rcases (initiates_iff_exists_event fluent time).mp hinitiates with ⟨e, he, htime, _⟩
  exact ⟨e, he, htime⟩

/-- The index of initiations by name and arity has every fluent of the pattern. -/
theorem everHeld_iff (hs : s.Indexed) (p : Compound) :
    s.everHeld p = true ↔ exists time, s.InitiatesSome p time := by
  unfold everHeld
  rw [List.any_eq_true]
  constructor
  · intro h
    rcases h with ⟨i, hi, hmatch⟩
    rcases (exists_mem_initiations_iff hs p.functor.text p.arity none i.fluent i.timestamp).mp
      ⟨i, hi, rfl, rfl⟩ with ⟨hinitiates, _⟩
    exact ⟨i.timestamp, i.fluent, hinitiates, hmatch⟩
  · intro h
    rcases h with ⟨time, fluent, hinitiates, hmatch⟩
    rcases Option.isSome_iff_exists.mp hmatch with ⟨b, hb⟩
    have hfunctor : fluent.functor.text = p.functor.text := by
      rw [Compound.functor_eq_of_matchCompound? hb]
    have harity : fluent.arity = p.arity := (Compound.arity_eq_of_matchCompound? hb).symm
    rcases (exists_mem_initiations_iff hs p.functor.text p.arity none fluent time).mpr
      ⟨hinitiates, (by intro t h; cases h), hfunctor, harity⟩ with ⟨i, hi, heq, _⟩
    exact ⟨i, hi, heq ▸ hmatch⟩

/-!
# Queries
-/

/-- No clipping lies after a start and not after the same start. -/
theorem holdsFrom_start {fluent : Compound} (h : s.Initiates fluent time) :
    s.HoldsFrom fluent time time := by
  refine ⟨h, le_refl time, ?_⟩
  intro clip hafter hbefore
  exact absurd hbefore (not_le.mpr hafter)

theorem query_ne_nil_of_initiatesSome (hs : s.Indexed) (h : s.InitiatesSome p time) :
    s.query p time ≠ [] := by
  rcases h with ⟨fluent, hinitiates, hmatch⟩
  rcases Option.isSome_iff_exists.mp hmatch with ⟨b, hb⟩
  exact (query_ne_nil_iff_exists_answer hs).mpr
    ⟨b, fluent, time, holdsFrom_start hinitiates, hb⟩

theorem exists_initiatesSome_of_query_ne_nil (hs : s.Indexed) (h : s.query p time ≠ []) :
    exists start, s.InitiatesSome p start ∧ start ≤ time := by
  rcases (query_ne_nil_iff_exists_answer hs).mp h with ⟨b, fluent, start, hholds, hb⟩
  rcases hholds with ⟨hinitiates, hle, _⟩
  exact ⟨start, ⟨fluent, hinitiates, Option.isSome_iff_exists.mpr ⟨b, hb⟩⟩, hle⟩

/-!
# Timelines
-/

theorem mem_timeline_iff (s : Scenario) (p : Compound) (i : Interval) :
    i ∈ s.timeline p ↔ exists fluent, fluent ∈ s.fluentsOf p ∧ i ∈ s.intervals fluent := by
  unfold timeline
  rw [(List.mergeSort_perm _ _).mem_iff, List.mem_flatMap]

/-- The form under which a fluent is listed holds when the fluent is initiated. -/
theorem timeline_ne_nil_of_initiatesSome (hs : s.Indexed) (h : s.InitiatesSome p time) :
    s.timeline p ≠ [] := by
  rcases h with ⟨fluent, hinitiates, hmatch⟩
  have hsame : s.InitiatesSame fluent time := ⟨fluent, Compound.same_refl fluent, hinitiates⟩
  rcases exists_mem_fluentsOf_of_initiatesSame hs hmatch hsame with ⟨form, hform, hforms⟩
  have hground : form.isGround = true := by
    rw [Compound.isGround_eq_of_same hforms]
    exact isGround_of_initiates hinitiates
  have hholds : s.Holds form time :=
    holds_of_same (Compound.same_symm hforms) (holds_of_initiatesSame hsame)
  rcases exists_interval_of_holds hs hground hholds with ⟨i, hi, _⟩
  exact List.ne_nil_of_mem ((s.mem_timeline_iff p i).mpr ⟨form, hform, hi⟩)

theorem exists_initiatesSome_of_timeline_ne_nil (hs : s.Indexed) (h : s.timeline p ≠ []) :
    exists time, s.InitiatesSome p time := by
  rcases List.exists_mem_of_ne_nil _ h with ⟨i, hi⟩
  rcases (s.mem_timeline_iff p i).mp hi with ⟨fluent, hfluent, _⟩
  rcases exists_initiates_of_mem_fluentsOf hs hfluent with ⟨time, hinitiates⟩
  exact ⟨time, fluent, hinitiates, isSome_matchCompound?_of_mem_fluentsOf hfluent⟩

/-!
# Agreement
-/

/-- A fluent of the pattern was ever held if and only if one was initiated, if and only if there is
an interval, and if and only if a query finds one, at some time or at the time of some event. -/
structure HeldAsShown (s : Scenario) (p : Compound) : Prop where
  accepted : checkPattern (.term p.toTerm) = .ok p
  initiated : s.everHeld p = true ↔ exists time, s.InitiatesSome p time
  timeline : s.everHeld p = true ↔ s.timeline p ≠ []
  query : s.everHeld p = true ↔ exists time, s.query p time ≠ []
  queryAtEvent : s.everHeld p = true ↔
    exists e, e ∈ s.store.events ∧ s.query p e.timestamp ≠ []

end Scenario
end EventCalculus

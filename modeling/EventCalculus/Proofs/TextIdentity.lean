import EventCalculus.Proofs.ArchiveLoading
import EventCalculus.Proofs.HoldingForms
import EventCalculus.Proofs.OrderIndependence

/-!
# Terms told apart by their texts

Without infinite numbers a text belongs to one term only.  Whatever is ordered by texts has no two
entries in one place, and an archive, which knows descriptions by their texts, has a row for each
of them.
-/

namespace EventCalculus
namespace Scenario

/-- No infinite number stands in an event or in the fluent of a rule. -/
structure IsFinite (s : Scenario) : Prop where
  events : forall e, e ∈ s.store.events -> e.description.isFinite = true
  rules : forall r, r ∈ s.rules.all -> r.fluent.isFinite = true

/-- What stands in the same place of an order is the same: candidates of a query, initiations and
intervals of a timeline, and fluents that hold. -/
structure TiesAgree (s : Scenario) : Prop where
  query : forall p time c d, c ∈ s.candidates p time -> d ∈ s.candidates p time ->
    c.notAfter d = true -> d.notAfter c = true -> c = d
  initiations : forall p : Compound, forall i j,
    i ∈ s.initiations p.functor.text p.arity none -> j ∈ s.initiations p.functor.text p.arity none ->
      i.notAfter j = true -> j.notAfter i = true ->
        i.timestamp = j.timestamp ∧ i.fluent = j.fluent
  timeline : forall p i j, i ∈ s.timeline p -> j ∈ s.timeline p -> i.notAfter j = true ->
    j.notAfter i = true -> i = j
  holdings : forall time h k, h ∈ s.unsortedHoldings time -> k ∈ s.unsortedHoldings time ->
    h.notAfter k = true -> k.notAfter h = true -> h = k

variable {s : Scenario}

/-- An interval of a fluent is known by its start. -/
theorem eq_of_start_eq {fluent : Compound} {i j : Interval} (hi : i ∈ s.intervals fluent)
    (hj : j ∈ s.intervals fluent) (hstart : i.start = j.start) : i = j := by
  have happart : forall {x y : Interval}, x ∈ s.intervals fluent -> x.start = y.start ->
      ¬ exists stop, x.stop = some stop ∧ stop < y.start := by
    rintro x y hx hsame ⟨stop, hstop, hlt⟩
    have hpositive := (stop_of_mem_intervals hx hstop).left
    rw [hsame] at hpositive
    exact lt_asymm hpositive hlt
  have hpairwise : (s.intervals fluent).Pairwise fun x y =>
      exists stop, x.stop = some stop ∧ stop < y.start :=
    pairwise_intervalsFrom none (s.pairwise_changePoints fluent)
  rcases eq_or_of_pairwise hpairwise hi hj with heq | hbefore | hafter
  · exact heq
  · exact absurd hbefore (happart hi hstart)
  · exact absurd hafter (happart hj hstart.symm)

theorem initiation_eq_of_ties (hs : s.Indexed) (htexts : s.DistinctTexts) {p : Compound}
    {i j : Initiation} (hi : i ∈ s.initiations p.functor.text p.arity none)
    (hj : j ∈ s.initiations p.functor.text p.arity none) (hij : i.notAfter j = true)
    (hji : j.notAfter i = true) : i.timestamp = j.timestamp ∧ i.fluent = j.fluent := by
  have hkey := earlierOrEqual_antisymm _ _ hij hji
  have hstart := start_eq_of_key_eq hs htexts (List.mem_map_of_mem hi) (List.mem_map_of_mem hj) hkey
  exact Prod.mk.inj hstart

theorem interval_eq_of_ties (hs : s.Indexed) (htexts : s.DistinctTexts) {p : Compound}
    {i j : Interval} (hi : i ∈ s.timeline p) (hj : j ∈ s.timeline p) (hij : i.notAfter j = true)
    (hji : j.notAfter i = true) : i = j := by
  have hkey := Prod.mk.inj (earlierOrEqual_antisymm _ _ hij hji)
  rcases List.mem_flatMap.mp ((List.mergeSort_perm _ _).mem_iff.mp hi) with ⟨a, ha, hia⟩
  rcases List.mem_flatMap.mp ((List.mergeSort_perm _ _).mem_iff.mp hj) with ⟨b, hb, hjb⟩
  rcases exists_initiates_of_mem_fluentsOf hs ha with ⟨start, hinitiates⟩
  rcases exists_initiates_of_mem_fluentsOf hs hb with ⟨start', hinitiates'⟩
  have htext : a.render = b.render := by
    rw [← fluent_of_mem_intervals hia, ← fluent_of_mem_intervals hjb]
    exact hkey.right
  rw [← htexts a b start start' hinitiates hinitiates' htext] at hjb
  exact eq_of_start_eq hia hjb hkey.left

theorem tiesAgree (hs : s.Indexed) (htexts : s.DistinctTexts) : s.TiesAgree := by
  constructor
  case query =>
    intro p time c d hc hd hcd hdc
    exact candidate_eq_of_key_eq hs htexts hc hd (earlierOrEqual_antisymm _ _ hcd hdc)
  case initiations =>
    intro p i j hi hj hij hji
    exact initiation_eq_of_ties hs htexts hi hj hij hji
  case timeline =>
    intro p i j hi hj hij hji
    exact interval_eq_of_ties hs htexts hi hj hij hji
  case holdings =>
    intro time h k hh hk hhk hkh
    exact eq_of_precedes hs htexts hh hk ((Holding.notAfter_iff h k).mp hhk)
      ((Holding.notAfter_iff k h).mp hkh)

end Scenario

namespace Archive

/-- There is a row for each different description and time that was saved, and what is saved is
new unless the very same description was saved at that time. -/
structure KeepsApart (a : Archive) (saved : List (Compound × String)) : Prop where
  rows : a.rows.map ArchiveRow.texts = texts saved.eraseDups
  isNew_iff : forall c timestamp, c.isFinite = true ->
    ((a.save c timestamp).1 = true ↔ (c, timestamp) ∉ saved)

theorem eq_of_texts_eq {p q : Compound × String} (hp : p.1.isFinite = true)
    (hq : q.1.isFinite = true) (h : (p.1.render, p.2) = (q.1.render, q.2)) : p = q := by
  rcases Prod.mk.inj h with ⟨htext, htime⟩
  exact Prod.ext (Compound.eq_of_render_eq hp hq htext) htime

theorem Keeps.keepsApart {a : Archive} {saved : List (Compound × String)} (h : a.Keeps saved)
    (hfinite : forall p, p ∈ saved -> p.1.isFinite = true) : a.KeepsApart saved := by
  constructor
  case rows =>
    rw [h.rows]
    exact eraseDups_map_of_injective fun p q hp hq => eq_of_texts_eq (hfinite p hp) (hfinite q hq)
  case isNew_iff =>
    intro c timestamp hc
    rw [h.fst_save_iff, not_iff_not]
    constructor
    · intro hmem
      rcases List.mem_map.mp hmem with ⟨p, hp, htexts⟩
      rw [← eq_of_texts_eq (p := p) (q := (c, timestamp)) (hfinite p hp) hc htexts]
      exact hp
    · exact mem_texts

end Archive

/-- Without infinite numbers terms are told apart by their texts, and so are the entries of all
orders and the descriptions in an archive. -/
theorem told_apart_by_text :
    (forall a b : Term, a.isFinite = true -> b.isFinite = true -> a.render = b.render -> a = b) ∧
      (forall s : Scenario, s.Reachable -> s.IsFinite -> s.TiesAgree) ∧
      forall calls a, Archive.empty.performAll calls = .ok a ->
        (forall p, p ∈ Archive.saved calls -> p.1.isFinite = true) ->
          a.KeepsApart (Archive.saved calls) := by
  refine ⟨fun a b => Term.eq_of_render_eq, ?_, ?_⟩
  · intro s hs hfinite
    exact Scenario.tiesAgree hs.indexed
      (Scenario.distinctTexts_of_isFinite hfinite.events hfinite.rules)
  · intro calls a hcalls hfinite
    exact ((Archive.keeps_nil 0 OrderedMap.empty).performAll hcalls).keepsApart hfinite

theorem Residence.isFinite_scenario : scenario.IsFinite := by
  have hevents : scenario.store.events.all (fun e => e.description.isFinite) = true := by
    decide +kernel
  have hrules : scenario.rules.all.all (fun r => r.fluent.isFinite) = true := by
    decide +kernel
  exact ⟨List.all_eq_true.mp hevents, List.all_eq_true.mp hrules⟩

/-- A numeral is not taken for a text of digits, nor one of somebody's moves for another. -/
theorem told_apart_by_text_moves :
    (Term.number (.int 1)).render ≠ (Term.text "1").render ∧
      Residence.scenario.TiesAgree ∧
      Archive.empty.performAll Archive.moves = .ok Archive.movesArchive ∧
      Archive.movesArchive.KeepsApart (Archive.saved Archive.moves) := by
  rcases told_apart_by_text with ⟨hterms, hscenarios, harchives⟩
  have hcalls : Archive.empty.performAll Archive.moves = .ok Archive.movesArchive := by
    rfl
  have hsaved : (Archive.saved Archive.moves).all (fun p => p.1.isFinite) = true := by
    decide +kernel
  refine ⟨?_, ?_, hcalls, ?_⟩
  · intro h
    cases hterms _ _ rfl rfl h
  · exact hscenarios _ Residence.reachable_scenario Residence.isFinite_scenario
  · exact harchives _ _ hcalls (List.all_eq_true.mp hsaved)

end EventCalculus

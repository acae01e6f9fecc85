import EventCalculus.Proofs.TimelineIntervals

/-!
# What determines the answers

Two scenarios with the same initiations and clippings answer alike, to the order
of their answers, if no two initiated fluents have the same text: the text is
where the order of equal times comes from.
-/

namespace EventCalculus
namespace Scenario

/-- The scenarios have the same initiations and the same clippings. -/
structure SameFacts (s s' : Scenario) : Prop where
  initiates_iff : forall fluent time, s.Initiates fluent time ↔ s'.Initiates fluent time
  clips_iff : forall fluent time, s.Clips fluent time ↔ s'.Clips fluent time

/-- No two initiated fluents have the same text. -/
def DistinctTexts (s : Scenario) : Prop :=
  forall a b start start', s.Initiates a start -> s.Initiates b start' ->
    a.render = b.render -> a = b

variable {s s' : Scenario}

theorem SameFacts.symm (hfacts : s.SameFacts s') : s'.SameFacts s :=
  ⟨fun fluent time => (hfacts.initiates_iff fluent time).symm,
    fun fluent time => (hfacts.clips_iff fluent time).symm⟩

/-- What rules and events bring about decides together with the exclusive domains. -/
theorem sameFacts_of_fires_iff
    (hfires : forall effect fluent time, s.Fires effect fluent time ↔ s'.Fires effect fluent time)
    (hexclusive : forall domain, s.exclusive.contains domain = s'.exclusive.contains domain) :
    s.SameFacts s' := by
  have hinitiates : forall fluent time, s.Initiates fluent time ↔ s'.Initiates fluent time := by
    intro fluent time
    rw [initiates_iff_fires, initiates_iff_fires, hfires]
  constructor
  · exact hinitiates
  · intro fluent time
    simp only [Clips, Displaces, terminates_iff_fires, hfires, hinitiates, hexclusive]

theorem SameFacts.holdsFrom_iff (hfacts : s.SameFacts s') (fluent : Compound)
    (start time : String) : s.HoldsFrom fluent start time ↔ s'.HoldsFrom fluent start time := by
  simp only [HoldsFrom, hfacts.initiates_iff, hfacts.clips_iff]

theorem SameFacts.initiatesSame_iff (hfacts : s.SameFacts s') (fluent : Compound)
    (time : String) : s.InitiatesSame fluent time ↔ s'.InitiatesSame fluent time := by
  simp only [InitiatesSame, hfacts.initiates_iff]

theorem SameFacts.answers_iff (hfacts : s.SameFacts s') (p : Compound) (time : String)
    (b : Bindings) : s.Answers p time b ↔ s'.Answers p time b := by
  simp only [Answers, hfacts.holdsFrom_iff]

/-!
# Keys
-/

theorem candidate_eq_of_key_eq (hs : s.Indexed) (htexts : s.DistinctTexts) {p : Compound}
    {time : String} {c d : Candidate} (hc : c ∈ s.candidates p time)
    (hd : d ∈ s.candidates p time) (hkey : c.key = d.key) : c = d := by
  rcases (mem_candidates_iff hs c).mp hc with ⟨a, ha, hatext, hamatch⟩
  rcases (mem_candidates_iff hs d).mp hd with ⟨b, hb, hbtext, hbmatch⟩
  simp only [Candidate.key, Prod.mk.injEq] at hkey
  have hfluent : a = b := by
    apply htexts a b _ _ ha.left hb.left
    rw [← hatext, ← hbtext, hkey.right]
  have hbindings : c.bindings = d.bindings := by
    rw [hfluent, hbmatch] at hamatch
    exact (Option.some.inj hamatch).symm
  calc c = ⟨c.timestamp, c.text, c.bindings⟩ := rfl
    _ = ⟨d.timestamp, d.text, d.bindings⟩ := by rw [hkey.left, hkey.right, hbindings]
    _ = d := rfl

/-- The times and the fluents of the initiations for a pattern. -/
def starts (s : Scenario) (p : Compound) : List (String × Compound) :=
  (s.initiations p.functor.text p.arity none).map fun i => (i.timestamp, i.fluent)

/-- The pair by which they are sorted. -/
def startKey (start : String × Compound) : String × String :=
  (start.1, start.2.render)

theorem mem_starts_iff (hs : s.Indexed) (p : Compound) (start : String × Compound) :
    start ∈ s.starts p ↔ s.Initiates start.2 start.1 ∧
      start.2.functor.text = p.functor.text ∧ start.2.arity = p.arity := by
  have hmem := exists_mem_initiations_iff hs p.functor.text p.arity none start.2 start.1
  have hnone : forall t, none = some t -> start.1 ≤ t := by
    intro t h
    cases h
  constructor
  · intro h
    rcases List.mem_map.mp h with ⟨i, hi, rfl⟩
    rcases hmem.mp ⟨i, hi, rfl, rfl⟩ with ⟨hinitiates, _, hpattern⟩
    exact ⟨hinitiates, hpattern⟩
  · intro h
    rcases hmem.mpr ⟨h.left, hnone, h.right⟩ with ⟨i, hi, hfluent, htime⟩
    exact List.mem_map.mpr ⟨i, hi, Prod.ext htime hfluent⟩

theorem start_eq_of_key_eq (hs : s.Indexed) (htexts : s.DistinctTexts) {p : Compound}
    {a b : String × Compound} (ha : a ∈ s.starts p) (hb : b ∈ s.starts p)
    (hkey : startKey a = startKey b) : a = b := by
  have hinitiates := ((mem_starts_iff hs p a).mp ha).left
  have hinitiates' := ((mem_starts_iff hs p b).mp hb).left
  simp only [startKey, Prod.mk.injEq] at hkey
  exact Prod.ext hkey.left (htexts a.2 b.2 _ _ hinitiates hinitiates' hkey.right)

theorem everHeld_eq_any_starts (s : Scenario) (p : Compound) :
    s.everHeld p = (s.starts p).any fun start => (p.matchCompound? start.2).isSome := by
  simp only [everHeld, starts, List.any_map]
  rfl

/-- The starts in the order in which a timeline goes through them. -/
def sortedStarts (s : Scenario) (p : Compound) : List (String × Compound) :=
  (s.starts p).mergeSort fun a b => earlierOrEqual (startKey a) (startKey b)

theorem fluentsOf_eq_map_sortedStarts (s : Scenario) (p : Compound) :
    s.fluentsOf p = (((s.sortedStarts p).filter fun start =>
      (p.matchCompound? start.2).isSome).eraseDupsBy fun a b => a.2.same b.2).map Prod.snd := by
  have hsorted : s.sortedStarts p =
      ((s.initiations p.functor.text p.arity none).mergeSort Initiation.notAfter).map
        fun i => (i.timestamp, i.fluent) := by
    rw [List.map_mergeSort (s := fun a b => earlierOrEqual (startKey a) (startKey b))]
    · rfl
    · intro a _ b _
      rfl
  rw [fluentsOf, distinctFluents_eq_eraseDupsBy, ← eraseDupsBy_map, hsorted, List.filter_map,
    List.filter_map, List.map_map]
  rfl

/-- Change points stand in the order of time, so it is enough to know which ones there are. -/
theorem changePoints_eq_of_mem_iff {fluent form : Compound}
    (h : forall time, time ∈ s.changePoints fluent ↔ time ∈ s'.changePoints form) :
    s.changePoints fluent = s'.changePoints form := by
  have hsorted := pairwise_changePoints s fluent
  have hsorted' := pairwise_changePoints s' form
  have hnodup : (s.changePoints fluent).Nodup := hsorted.imp fun h => ne_of_lt h
  have hnodup' : (s'.changePoints form).Nodup := hsorted'.imp fun h => ne_of_lt h
  apply List.Perm.eq_of_pairwise _ hsorted hsorted'
  · exact (List.perm_ext_iff_of_nodup hnodup hnodup').mpr h
  · intro a b _ _ hab hba
    exact absurd hba (lt_asymm hab)

/-!
# Equal answers
-/

section
variable (hs : s.Indexed) (hs' : s'.Indexed) (hfacts : s.SameFacts s')
include hs hs' hfacts

theorem mem_candidates_iff_of_sameFacts (p : Compound) (time : String) (c : Candidate) :
    c ∈ s.candidates p time ↔ c ∈ s'.candidates p time := by
  simp only [mem_candidates_iff hs, mem_candidates_iff hs', hfacts.holdsFrom_iff]

theorem mem_starts_iff_of_sameFacts (p : Compound) (start : String × Compound) :
    start ∈ s.starts p ↔ start ∈ s'.starts p := by
  rw [mem_starts_iff hs, mem_starts_iff hs', hfacts.initiates_iff]

theorem changePoints_eq_of_sameFacts (fluent : Compound) :
    s.changePoints fluent = s'.changePoints fluent := by
  apply changePoints_eq_of_mem_iff
  intro time
  rw [mem_changePoints_iff hs, mem_changePoints_iff hs', hfacts.initiatesSame_iff,
    hfacts.clips_iff]

theorem everHeld_eq_of_sameFacts (p : Compound) : s.everHeld p = s'.everHeld p := by
  rw [everHeld_eq_any_starts, everHeld_eq_any_starts, Bool.eq_iff_iff, List.any_eq_true,
    List.any_eq_true]
  simp only [mem_starts_iff_of_sameFacts hs hs' hfacts]

theorem holdsAt_eq_of_sameFacts (p : Compound) (time : String) :
    s.holdsAt p time = s'.holdsAt p time := by
  rw [Bool.eq_iff_iff, holdsAt_iff_query_ne_nil, holdsAt_iff_query_ne_nil,
    query_ne_nil_iff_exists_answer hs, query_ne_nil_iff_exists_answer hs']
  simp only [hfacts.answers_iff]

theorem intervals_eq_of_sameFacts (fluent : Compound) :
    s.intervals fluent = s'.intervals fluent := by
  have hholds : s.holdsAt fluent = s'.holdsAt fluent :=
    funext (holdsAt_eq_of_sameFacts hs hs' hfacts fluent)
  rw [intervals, intervals, hholds, changePoints_eq_of_sameFacts hs hs' hfacts]

variable (htexts : s.DistinctTexts)
include htexts

theorem query_eq_of_sameFacts (p : Compound) (time : String) :
    s.query p time = s'.query p time := by
  have hsorted : (s.sortedCandidates p time).eraseDups = (s'.sortedCandidates p time).eraseDups :=
    eraseDups_mergeSort_by_key_eq Candidate.key
      (mem_candidates_iff_of_sameFacts hs hs' hfacts p time)
      (fun _ _ hc hd hkey => candidate_eq_of_key_eq hs htexts hc hd hkey)
  have hrefl : forall c : Candidate, c.bindings.same c.bindings = true :=
    fun c => Bindings.same_refl c.bindings
  rw [query_eq_map_firstCandidates, query_eq_map_firstCandidates]
  unfold firstCandidates
  rw [← eraseDupsBy_eraseDups hrefl, hsorted, eraseDupsBy_eraseDups hrefl]

theorem fluentsOf_eq_of_sameFacts (p : Compound) : s.fluentsOf p = s'.fluentsOf p := by
  have hsorted : (s.sortedStarts p).eraseDups = (s'.sortedStarts p).eraseDups :=
    eraseDups_mergeSort_by_key_eq startKey (mem_starts_iff_of_sameFacts hs hs' hfacts p)
      (fun _ _ ha hb hkey => start_eq_of_key_eq hs htexts ha hb hkey)
  have hrefl : forall a : String × Compound, a.2.same a.2 = true :=
    fun a => Compound.same_refl a.2
  rw [fluentsOf_eq_map_sortedStarts, fluentsOf_eq_map_sortedStarts, ← eraseDupsBy_eraseDups hrefl,
    ← filter_eraseDups, hsorted, filter_eraseDups, eraseDupsBy_eraseDups hrefl]

theorem timeline_eq_of_sameFacts (p : Compound) : s.timeline p = s'.timeline p := by
  have hintervals : s.intervals = s'.intervals :=
    funext (intervals_eq_of_sameFacts hs hs' hfacts)
  rw [timeline, timeline, hintervals, fluentsOf_eq_of_sameFacts hs hs' hfacts htexts]

end

end Scenario
end EventCalculus

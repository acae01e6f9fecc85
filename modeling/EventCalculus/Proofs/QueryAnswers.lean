import EventCalculus.Proofs.Chronology
import EventCalculus.Proofs.Distinct
import EventCalculus.Proofs.Semantics

/-!
# Answers of a query

A query gives exactly the bindings under which its pattern is a fluent that
holds.  No answer is given twice, and answers stand in the order of the earliest
initiation from which a fluent of theirs holds.
-/

namespace EventCalculus

theorem distinctBindings_eq_eraseDupsBy (bs : List Bindings) :
    distinctBindings bs = bs.eraseDupsBy Bindings.same :=
  foldl_distinct_eq_eraseDupsBy Bindings.same bs

/-- The pair by which candidates are sorted. -/
def Candidate.key (c : Candidate) : String × String :=
  (c.timestamp, c.text)

namespace Scenario

/-- The pattern has the bindings for a fluent that holds at the time. -/
def Answers (s : Scenario) (p : Compound) (time : String) (b : Bindings) : Prop :=
  exists fluent start, s.HoldsFrom fluent start time ∧ p.matchCompound? fluent = some b

/-- A fluent that answers with these bindings holds from the time of the key and has its text. -/
def AnswerKey (s : Scenario) (p : Compound) (time : String) (b : Bindings)
    (key : String × String) : Prop :=
  exists fluent start form, s.HoldsFrom fluent start time ∧
    p.matchCompound? fluent = some form ∧ form.same b = true ∧ key = (start, fluent.render)

/-- The least of the keys of an answer. -/
def IsLeastKey (s : Scenario) (p : Compound) (time : String) (b : Bindings)
    (key : String × String) : Prop :=
  s.AnswerKey p time b key ∧
    forall other, s.AnswerKey p time b other -> earlierOrEqual key other = true

variable {s : Scenario} {p : Compound} {time : String}

theorem mem_candidates_iff (hs : s.Indexed) (c : Candidate) :
    c ∈ s.candidates p time ↔
      exists fluent, s.HoldsFrom fluent c.timestamp time ∧ c.text = fluent.render ∧
        p.matchCompound? fluent = some c.bindings := by
  unfold candidates
  rw [List.mem_filterMap]
  constructor
  · intro h
    rcases h with ⟨i, hi, hcandidate⟩
    unfold candidate? at hcandidate
    cases hmatch : p.matchCompound? i.fluent with
    | none =>
        rw [hmatch] at hcandidate
        cases hcandidate
    | some b =>
        rw [hmatch] at hcandidate
        by_cases hpersists : s.persists i time = true
        · simp only [hpersists, ↓reduceIte, Option.some.injEq] at hcandidate
          rcases (exists_mem_initiations_iff hs p.functor.text p.arity (some time) i.fluent
            i.timestamp).mp ⟨i, hi, rfl, rfl⟩ with ⟨hinitiates, hlimit, _, _⟩
          rw [← hcandidate]
          exact ⟨i.fluent, ⟨hinitiates, hlimit time rfl, (persists_iff hs i time).mp hpersists⟩,
            rfl, hmatch⟩
        · simp [hpersists] at hcandidate
  · intro h
    rcases h with ⟨fluent, ⟨hinitiates, hbefore, hunclipped⟩, htext, hmatch⟩
    have hdomain : fluent.functor.text = p.functor.text := by
      rw [Compound.functor_eq_of_matchCompound? hmatch]
    have harity : fluent.arity = p.arity := (Compound.arity_eq_of_matchCompound? hmatch).symm
    have hlimit : forall t, some time = some t -> c.timestamp ≤ t := by
      intro t ht
      cases ht
      exact hbefore
    rcases (exists_mem_initiations_iff hs p.functor.text p.arity (some time) fluent
      c.timestamp).mpr ⟨hinitiates, hlimit, hdomain, harity⟩ with ⟨i, hi, hfluent, htime⟩
    refine ⟨i, hi, ?_⟩
    have hpersists : s.persists i time = true := by
      apply (persists_iff hs i time).mpr
      rw [hfluent, htime]
      exact hunclipped
    simp [candidate?, hfluent, hmatch, hpersists, htime, ← htext]

theorem exists_candidate_of_answerKey (hs : s.Indexed) {b : Bindings} {key : String × String}
    (h : s.AnswerKey p time b key) :
    exists c, c ∈ s.candidates p time ∧ c.bindings.same b = true ∧ c.key = key := by
  rcases h with ⟨fluent, start, form, hholds, hmatch, hsame, hkey⟩
  refine ⟨⟨start, fluent.render, form⟩, ?_, hsame, hkey.symm⟩
  exact (mem_candidates_iff hs _).mpr ⟨fluent, hholds, rfl, hmatch⟩

theorem answerKey_of_candidate (hs : s.Indexed) {c : Candidate} {b : Bindings}
    (hc : c ∈ s.candidates p time) (hsame : c.bindings.same b = true) :
    s.AnswerKey p time b c.key := by
  rcases (mem_candidates_iff hs c).mp hc with ⟨fluent, hholds, htext, hmatch⟩
  exact ⟨fluent, c.timestamp, c.bindings, hholds, hmatch, hsame, by rw [Candidate.key, htext]⟩

/-!
# The first candidates

The answers are the bindings of those candidates that come first, in the sorted
list, among the candidates with the same bindings.
-/

/-- The candidates in the order in which a query goes through them. -/
def sortedCandidates (s : Scenario) (p : Compound) (time : String) : List Candidate :=
  (s.candidates p time).mergeSort Candidate.notAfter

/-- The candidates whose bindings are given as answers. -/
def firstCandidates (s : Scenario) (p : Compound) (time : String) : List Candidate :=
  (s.sortedCandidates p time).eraseDupsBy fun c d => c.bindings.same d.bindings

theorem query_eq_map_firstCandidates (s : Scenario) (p : Compound) (time : String) :
    s.query p time = (s.firstCandidates p time).map Candidate.bindings := by
  rw [query, distinctBindings_eq_eraseDupsBy, eraseDupsBy_map]
  rfl

theorem mem_sortedCandidates_iff (c : Candidate) :
    c ∈ s.sortedCandidates p time ↔ c ∈ s.candidates p time :=
  (List.mergeSort_perm _ _).mem_iff

theorem pairwise_sortedCandidates :
    (s.sortedCandidates p time).Pairwise fun c d => earlierOrEqual c.key d.key = true :=
  pairwise_mergeSort_by_key Candidate.key _

theorem mem_candidates_of_mem_firstCandidates {c : Candidate}
    (hc : c ∈ s.firstCandidates p time) : c ∈ s.candidates p time :=
  mem_sortedCandidates_iff c |>.mp ((eraseDupsBy_sublist _ _).subset hc)

theorem pairwise_firstCandidates :
    (s.firstCandidates p time).Pairwise fun c d => earlierOrEqual c.key d.key = true :=
  pairwise_sortedCandidates.sublist (eraseDupsBy_sublist _ _)

theorem firstCandidate_key_le {c d : Candidate} (hc : c ∈ s.firstCandidates p time)
    (hd : d ∈ s.candidates p time) (hsame : d.bindings.same c.bindings = true) :
    earlierOrEqual c.key d.key = true := by
  apply eraseDupsBy_first (r := fun c d => c.bindings.same d.bindings)
    (fun _ _ => Bindings.same_symm) (fun _ _ _ => Bindings.same_trans)
    (fun c => earlierOrEqual_refl c.key) pairwise_sortedCandidates hc
  · exact (mem_sortedCandidates_iff d).mpr hd
  · exact hsame

theorem isLeastKey_of_mem_firstCandidates (hs : s.Indexed) {c : Candidate}
    (hc : c ∈ s.firstCandidates p time) : s.IsLeastKey p time c.bindings c.key := by
  constructor
  · exact answerKey_of_candidate hs (mem_candidates_of_mem_firstCandidates hc)
      (Bindings.same_refl c.bindings)
  · intro other hother
    rcases exists_candidate_of_answerKey hs hother with ⟨d, hd, hsame, rfl⟩
    exact firstCandidate_key_le hc hd hsame

/-!
# Soundness, completeness and order
-/

theorem answers_of_mem_query (hs : s.Indexed) {b : Bindings} (hb : b ∈ s.query p time) :
    s.Answers p time b := by
  rw [query_eq_map_firstCandidates] at hb
  rcases List.mem_map.mp hb with ⟨c, hc, rfl⟩
  rcases (mem_candidates_iff hs c).mp (mem_candidates_of_mem_firstCandidates hc) with
    ⟨fluent, hholds, _, hmatch⟩
  exact ⟨fluent, c.timestamp, hholds, hmatch⟩

theorem exists_mem_query_of_answers (hs : s.Indexed) {b : Bindings}
    (h : s.Answers p time b) : exists b', b' ∈ s.query p time ∧ b'.same b = true := by
  rcases h with ⟨fluent, start, hholds, hmatch⟩
  have hcandidate : (⟨start, fluent.render, b⟩ : Candidate) ∈ s.candidates p time :=
    (mem_candidates_iff hs _).mpr ⟨fluent, hholds, rfl, hmatch⟩
  rcases exists_mem_eraseDupsBy (r := fun c d => c.bindings.same d.bindings)
    (fun c => Bindings.same_refl c.bindings)
    ((mem_sortedCandidates_iff _).mpr hcandidate) with ⟨c, hc, hsame⟩
  refine ⟨c.bindings, ?_, Bindings.same_symm hsame⟩
  rw [query_eq_map_firstCandidates]
  exact List.mem_map_of_mem hc

theorem pairwise_query_distinct :
    (s.query p time).Pairwise fun b b' => b.same b' = false := by
  rw [query, distinctBindings_eq_eraseDupsBy]
  apply (pairwise_eraseDupsBy Bindings.same _).imp
  intro b b' h
  cases hsame : b.same b' with
  | false => rfl
  | true =>
      rw [Bindings.same_symm hsame] at h
      cases h

theorem pairwise_query_key (hs : s.Indexed) :
    (s.query p time).Pairwise fun b b' => forall key key', s.IsLeastKey p time b key ->
      s.IsLeastKey p time b' key' -> earlierOrEqual key key' = true := by
  rw [query_eq_map_firstCandidates, List.pairwise_map]
  apply List.Pairwise.imp_of_mem _ pairwise_firstCandidates
  intro c d hc hd hcd key key' hkey hkey'
  have hfirst : earlierOrEqual key c.key = true :=
    hkey.right c.key (isLeastKey_of_mem_firstCandidates hs hc).left
  have hlast : earlierOrEqual d.key key' = true :=
    (isLeastKey_of_mem_firstCandidates hs hd).right key' hkey'.left
  exact earlierOrEqual_trans _ _ _ hfirst (earlierOrEqual_trans _ _ _ hcd hlast)

/-!
# Ground fluents

A ground fluent has at most the empty answer, so asking for it is asking whether
one of the forms that are the same holds.
-/

/-- The fluent is initiated, in this or another form, and not clipped up to the time. -/
def Holds (s : Scenario) (fluent : Compound) (time : String) : Prop :=
  exists start, s.InitiatesSame fluent start ∧ start ≤ time ∧
    forall clip, start < clip -> clip ≤ time -> ¬ s.Clips fluent clip

theorem holdsAt_iff_query_ne_nil : s.holdsAt p time = true ↔ s.query p time ≠ [] := by
  simp only [holdsAt, Bool.not_eq_true', List.isEmpty_eq_false_iff]

theorem query_ne_nil_iff_exists_answer (hs : s.Indexed) :
    s.query p time ≠ [] ↔ exists b, s.Answers p time b := by
  constructor
  · intro h
    rcases List.exists_mem_of_ne_nil _ h with ⟨b, hb⟩
    exact ⟨b, answers_of_mem_query hs hb⟩
  · intro h
    rcases h with ⟨b, hb⟩
    rcases exists_mem_query_of_answers hs hb with ⟨b', hb', _⟩
    exact List.ne_nil_of_mem hb'

theorem holds_iff_exists_form (fluent : Compound) :
    s.Holds fluent time ↔
      exists form start, form.same fluent = true ∧ s.HoldsFrom form start time := by
  constructor
  · intro h
    rcases h with ⟨start, ⟨form, hsame, hinitiates⟩, hle, hunclipped⟩
    refine ⟨form, start, hsame, hinitiates, hle, ?_⟩
    intro clip hafter hbefore hclips
    exact hunclipped clip hafter hbefore (clips_of_same hsame hclips)
  · intro h
    rcases h with ⟨form, start, hsame, hinitiates, hle, hunclipped⟩
    refine ⟨start, ⟨form, hsame, hinitiates⟩, hle, ?_⟩
    intro clip hafter hbefore hclips
    exact hunclipped clip hafter hbefore (clips_of_same (Compound.same_symm hsame) hclips)

theorem query_ne_nil_iff_holds (hs : s.Indexed) {fluent : Compound}
    (hground : fluent.isGround = true) : s.query fluent time ≠ [] ↔ s.Holds fluent time := by
  rw [query_ne_nil_iff_exists_answer hs, holds_iff_exists_form]
  constructor
  · intro h
    rcases h with ⟨b, form, start, hholds, hmatch⟩
    rw [Compound.matchCompound?_of_isGround hground] at hmatch
    by_cases hsame : fluent.same form = true
    · exact ⟨form, start, Compound.same_symm hsame, hholds⟩
    · rw [if_neg hsame] at hmatch
      cases hmatch
  · intro h
    rcases h with ⟨form, start, hsame, hholds⟩
    refine ⟨OrderedMap.empty, form, start, hholds, ?_⟩
    rw [Compound.matchCompound?_of_isGround hground, if_pos (Compound.same_symm hsame)]

theorem holdsAt_iff_holds (hs : s.Indexed) {fluent : Compound}
    (hground : fluent.isGround = true) : s.holdsAt fluent time = true ↔ s.Holds fluent time :=
  holdsAt_iff_query_ne_nil.trans (query_ne_nil_iff_holds hs hground)

theorem initiatesSame_of_same {fluent form : Compound} (hsame : fluent.same form = true)
    {start : String} (h : s.InitiatesSame fluent start) : s.InitiatesSame form start := by
  rcases h with ⟨other, hother, hinitiates⟩
  exact ⟨other, Compound.same_trans hother hsame, hinitiates⟩

theorem holds_of_same {fluent form : Compound} (hsame : fluent.same form = true)
    (h : s.Holds fluent time) : s.Holds form time := by
  rcases (holds_iff_exists_form fluent).mp h with ⟨other, start, hother, hholds⟩
  exact (holds_iff_exists_form form).mpr ⟨other, start, Compound.same_trans hother hsame, hholds⟩

theorem holdsAt_eq_of_same (hs : s.Indexed) {fluent form : Compound}
    (hground : fluent.isGround = true) (hform : form.isGround = true)
    (hsame : fluent.same form = true) (time : String) :
    s.holdsAt fluent time = s.holdsAt form time := by
  rw [Bool.eq_iff_iff, holdsAt_iff_holds hs hground, holdsAt_iff_holds hs hform]
  constructor
  · exact holds_of_same hsame
  · exact holds_of_same (Compound.same_symm hsame)

/-!
# The query as a whole
-/

theorem checkPattern_toTerm (hp : 1 ≤ p.arity) : checkPattern (.term p.toTerm) = .ok p := by
  have hne : ¬ p.arity = 0 := by omega
  have hp' : Compound.ofTerm? p.toTerm = some p := rfl
  simp [checkPattern, Value.term?, hp', hne]

/-- The query gives the answers that there are, none of them twice, in the order of the least pair
of an initiation time and a fluent's text that each has. -/
structure AnswersExactly (s : Scenario) (p : Compound) (time : String) : Prop where
  accepted : checkPattern (.term p.toTerm) = .ok p
  sound : forall b, b ∈ s.query p time -> s.Answers p time b
  complete : forall b, s.Answers p time b -> exists b', b' ∈ s.query p time ∧ b'.same b = true
  distinct : (s.query p time).Pairwise fun b b' => b.same b' = false
  keyed : forall b, b ∈ s.query p time -> exists key, s.IsLeastKey p time b key
  ordered : (s.query p time).Pairwise fun b b' => forall key key',
    s.IsLeastKey p time b key -> s.IsLeastKey p time b' key' -> earlierOrEqual key key' = true

end Scenario
end EventCalculus

import EventCalculus.Proofs.AnswerSets
import EventCalculus.Proofs.EngineHistory

/-!
# The past after a later event

An event that is later than the time in question reaches the answers through one channel.  The
event itself comes too late, and the rules that its verb brings along find no earlier event: had
there been one, they would have been made for it.  But an exclusive rule among them makes its
domain exclusive at all times.  Whatever is asked about another domain is answered as before, and
in the domain itself nothing holds that did not hold before.
-/

namespace EventCalculus

/-!
# Holdings of a class of fluents
-/

section
variable {p : Compound -> Bool} {fluent : Compound} {since : String} {holdings : List Holding}

theorem sinceOf?_filter (hp : forall a b : Compound, a.same b = true -> p a = p b)
    (hfluent : p fluent = true) :
    sinceOf? (holdings.filter fun h => p h.fluent) fluent = sinceOf? holdings fluent := by
  have hsame : (fun h : Holding => decide (p h.fluent = true ∧ h.fluent.same fluent = true)) =
      fun h => h.fluent.same fluent := by
    funext h
    cases hh : h.fluent.same fluent with
    | false => simp
    | true => simp [hp _ _ hh, hfluent]
  rw [sinceOf?, sinceOf?, List.find?_filter, hsame]

theorem filter_setSince (hp : forall a b : Compound, a.same b = true -> p a = p b) :
    (setSince fluent since holdings).filter (fun h => p h.fluent) =
      if p fluent then setSince fluent since (holdings.filter fun h => p h.fluent)
      else holdings.filter fun h => p h.fluent := by
  induction holdings with
  | nil =>
      cases hfluent : p fluent with
      | false => simp [setSince, hfluent]
      | true => simp [setSince, hfluent]
  | cons first rest ih =>
      cases hsame : first.fluent.same fluent with
      | true =>
          have hfirst := hp _ _ hsame
          cases hfluent : p fluent with
          | false => simp [setSince, hsame, hfirst, hfluent]
          | true => simp [setSince, hsame, hfirst, hfluent]
      | false =>
          cases hfluent : p fluent with
          | false =>
              simp only [hfluent, Bool.false_eq_true, ↓reduceIte] at ih
              simp [setSince, hsame, List.filter_cons, ih]
          | true =>
              simp only [hfluent, ↓reduceIte] at ih
              cases hfirst : p first.fluent with
              | false => simp [setSince, hsame, hfirst, ih]
              | true => simp [setSince, hsame, hfirst, ih]

end

namespace Scenario

/-!
# Scenarios with the same past
-/

/-- Up to the time the scenarios initiate and terminate the same, in the same order. -/
structure SamePast (time : String) (s s' : Scenario) : Prop where
  initiations : forall domain arity,
    s'.initiations domain arity (some time) = s.initiations domain arity (some time)
  allInitiations : s'.allInitiations (some time) = s.allInitiations (some time)
  terminates_iff : forall fluent clip, clip ≤ time ->
    (s'.Terminates fluent clip ↔ s.Terminates fluent clip)

variable {s s' s'' : Scenario} {time : String}

theorem SamePast.trans (h : SamePast time s s') (h' : SamePast time s' s'') :
    SamePast time s s'' := by
  constructor
  case initiations =>
    intro domain arity
    rw [h'.initiations, h.initiations]
  case allInitiations =>
    rw [h'.allInitiations, h.allInitiations]
  case terminates_iff =>
    intro fluent clip hle
    rw [h'.terminates_iff fluent clip hle, h.terminates_iff fluent clip hle]

theorem samePast_withExclusive (s : Scenario) (exclusive : ExclusiveDomains) :
    SamePast time s { s with exclusive := exclusive } :=
  ⟨fun _ _ => rfl, rfl, fun _ _ _ => Iff.rfl⟩

theorem initiationsBy_push (s : Scenario) (c : Compound) {timestamp : String}
    (hlater : time < timestamp) (r : Rule) :
    initiationsBy { s with store := (s.store.push c timestamp).2 } r (some time) =
      s.initiationsBy r (some time) := by
  unfold initiationsBy EventStore.withVerb
  simp only [EventStore.push, OrderedMap.getD_push]
  split
  · have hlate : isWithin (some time) ⟨s.store.size + 1, c, timestamp⟩ = false :=
      decide_eq_false (not_le.mpr hlater)
    rw [List.filterMap_append, List.filterMap_cons, hlate]
    exact List.append_nil _
  · rfl

theorem samePast_push (s : Scenario) (c : Compound) {timestamp : String}
    (hlater : time < timestamp) :
    SamePast time s { s with store := (s.store.push c timestamp).2 } := by
  constructor
  case initiations =>
    intro domain arity
    exact List.flatMap_congr fun r _ => initiationsBy_push s c hlater r
  case allInitiations =>
    exact List.flatMap_congr fun r _ => initiationsBy_push s c hlater r
  case terminates_iff =>
    intro fluent clip hle
    constructor
    · intro h
      rcases h with ⟨r, x, b, hr, heffect, hx, htime, hmatch, hsome⟩
      cases List.mem_append.mp hx with
      | inl hold => exact ⟨r, x, b, hr, heffect, hold, htime, hmatch, hsome⟩
      | inr hnew =>
          rw [List.mem_singleton.mp hnew] at htime
          rw [← htime] at hle
          exact absurd hle (not_le.mpr hlater)
    · intro h
      rcases h with ⟨r, x, b, hr, heffect, hx, htime, hmatch, hsome⟩
      exact ⟨r, x, b, hr, heffect, List.mem_append_left _ hx, htime, hmatch, hsome⟩

/-- No event matches the rule. -/
def IsSilent (store : EventStore) (r : Rule) : Prop :=
  forall x, x ∈ store.events -> r.event.matchCompound? x.description = none

theorem initiationsBy_of_isSilent (hs : s.store.VerbIndexed) {r : Rule}
    (hr : IsSilent s.store r) (limit : Option String) : s.initiationsBy r limit = [] := by
  unfold initiationsBy
  rw [List.filterMap_eq_nil_iff]
  intro x hx
  have hmem := ((EventStore.mem_withVerb_iff hs x r.verb).mp hx).left
  rw [Rule.initiated?, Rule.fluentFor?, hr x hmem]
  exact ite_self none

theorem samePast_add (hs : s.store.VerbIndexed) {r : Rule} (hr : IsSilent s.store r) :
    SamePast time s { s with rules := (s.rules.add r).2 } := by
  have hnone := initiationsBy_of_isSilent hs hr (some time)
  by_cases hcontains : s.rules.contains r = true
  · rw [RuleSet.add_of_contains hcontains]
    exact ⟨fun _ _ => rfl, rfl, fun _ _ _ => Iff.rfl⟩
  · rw [RuleSet.add_of_not_contains hcontains]
    constructor
    case initiations =>
      intro domain arity
      show ((s.rules.push r).initiating domain arity).flatMap
        (fun r => s.initiationsBy r (some time)) = _
      unfold initiations RuleSet.initiating RuleSet.affecting
      simp only [RuleSet.push, OrderedMap.getD_push]
      split
      · rw [List.flatMap_append, List.flatMap_singleton, hnone, List.append_nil]
      · rfl
    case allInitiations =>
      show ((s.rules.push r).initiatingAll).flatMap (fun r => s.initiationsBy r (some time)) = _
      unfold allInitiations RuleSet.initiatingAll
      rw [List.flatMap_assoc, List.flatMap_assoc]
      apply OrderedMap.flatMap_entries_push
      · simp
      · intro list
        simp only
        split
        · rw [List.flatMap_append, List.flatMap_singleton, hnone, List.append_nil]
        · rfl
    case terminates_iff =>
      intro fluent clip _
      constructor
      · intro h
        rcases h with ⟨other, x, b, hother, heffect, hx, htime, hmatch, hsome⟩
        cases (RuleSet.mem_all_push_iff s.rules r other).mp hother with
        | inl hold => exact ⟨other, x, b, hold, heffect, hx, htime, hmatch, hsome⟩
        | inr heq =>
            rw [heq, hr x hx] at hmatch
            cases hmatch
      · intro h
        rcases h with ⟨other, x, b, hother, rest⟩
        exact ⟨other, x, b, (RuleSet.mem_all_push_iff s.rules r other).mpr (Or.inl hother), rest⟩

/-- A rulebook and a store make a scenario. -/
theorem samePast_register {store : EventStore} (hs : store.VerbIndexed) {b : Rulebook}
    {rules : List Rule} (hrules : forall r, r ∈ rules -> IsSilent store r) :
    SamePast time ⟨store, b.rules, b.exclusive⟩
      ⟨store, (b.register rules).2.rules, (b.register rules).2.exclusive⟩ := by
  induction rules generalizing b with
  | nil => exact samePast_withExclusive _ b.exclusive
  | cons r rest ih =>
      have hadd : SamePast time ⟨store, b.rules, b.exclusive⟩
          ⟨store, (b.rules.add r).2, b.exclusive⟩ :=
        samePast_add hs (hrules r List.mem_cons_self)
      have hfirst := hadd.trans (samePast_withExclusive _ (b.registerRule r).2.exclusive)
      exact hfirst.trans (ih (b := (b.registerRule r).2) fun x hx =>
        hrules x (List.mem_cons_of_mem r hx))

/-!
# What the past says
-/

theorem SamePast.initiates_iff (h : SamePast time s s') (hs : s.Indexed) (hs' : s'.Indexed)
    (fluent : Compound) {start : String} (hle : start ≤ time) :
    s'.Initiates fluent start ↔ s.Initiates fluent start := by
  have hlimit : forall t, some time = some t -> start ≤ t := by
    intro t ht
    cases ht
    exact hle
  have hfind := exists_mem_initiations_iff hs fluent.functor.text fluent.arity (some time) fluent
    start
  have hfind' := exists_mem_initiations_iff hs' fluent.functor.text fluent.arity (some time)
    fluent start
  rw [h.initiations, hfind] at hfind'
  constructor
  · intro hinitiates
    exact (hfind'.mpr ⟨hinitiates, hlimit, rfl, rfl⟩).left
  · intro hinitiates
    exact (hfind'.mp ⟨hinitiates, hlimit, rfl, rfl⟩).left

/-- Displacement is possible in both scenarios or in none. -/
def isSeenAlike (s s' : Scenario) (fluent : Compound) : Bool :=
  fluent.subject?.isNone ||
    s.exclusive.contains fluent.functor.text == s'.exclusive.contains fluent.functor.text

theorem isSeenAlike_of_same {a b : Compound} (hsame : a.same b = true) :
    isSeenAlike s s' a = isSeenAlike s s' b := by
  have hsubject : a.subject?.isNone = b.subject?.isNone := by
    have hcanonical : a.canonical.subject?.isNone = b.canonical.subject?.isNone := by
      rw [Compound.same_iff.mp hsame]
    simpa only [Compound.subject?_canonical, Option.isNone_map] using hcanonical
  rw [isSeenAlike, isSeenAlike, hsubject, Compound.functor_eq_of_same hsame]

theorem SamePast.displaces_iff (h : SamePast time s s') (hs : s.Indexed) (hs' : s'.Indexed)
    {fluent : Compound} (hfluent : isSeenAlike s s' fluent = true) {clip : String}
    (hle : clip ≤ time) : s'.Displaces fluent clip ↔ s.Displaces fluent clip := by
  unfold Displaces
  simp only [h.initiates_iff hs hs' _ hle]
  cases (Bool.or_eq_true _ _).mp hfluent with
  | inl hsubject =>
      have hnone : forall other : Compound, ¬ other.SameSubject fluent := by
        intro other hother
        rcases hother with ⟨_, t, _, ht, _⟩
        rw [ht] at hsubject
        cases hsubject
      simp only [hnone, false_and, and_false, exists_false]
  | inr hexclusive => rw [beq_iff_eq.mp hexclusive]

theorem SamePast.persists_eq (h : SamePast time s s') (hs : s.Indexed) (hs' : s'.Indexed)
    {i : Initiation} (hfluent : isSeenAlike s s' i.fluent = true) :
    s'.persists i time = s.persists i time := by
  rw [Bool.eq_iff_iff, persists_iff hs', persists_iff hs]
  apply forall_congr'
  intro clip
  apply forall_congr'
  intro _
  apply forall_congr'
  intro hle
  rw [Clips, Clips, h.terminates_iff i.fluent clip hle, h.displaces_iff hs hs' hfluent hle]

/-- A pattern of a domain that is exclusive in both scenarios or in none has the same answers. -/
theorem SamePast.query_eq (h : SamePast time s s') (hs : s.Indexed) (hs' : s'.Indexed)
    {p : Compound}
    (hp : s.exclusive.contains p.functor.text = s'.exclusive.contains p.functor.text) :
    s'.query p time = s.query p time := by
  have hcandidates : s'.candidates p time = s.candidates p time := by
    unfold candidates
    rw [h.initiations]
    apply List.filterMap_congr
    intro i hi
    rcases (mem_initiations_iff hs _ _ _ i).mp hi with ⟨_, _, hdomain, _⟩
    have hfluent : isSeenAlike s s' i.fluent = true := by
      rw [isSeenAlike, hdomain, hp, beq_self_eq_true, Bool.or_true]
    rw [candidate?, candidate?, h.persists_eq hs hs' hfluent]
  rw [query, query, hcandidates]

/-- The pass over the initiations goes the same way for fluents that are seen alike. -/
theorem SamePast.filter_foldl_addHolding (h : SamePast time s s') (hs : s.Indexed)
    (hs' : s'.Indexed) (is : List Initiation) {holdings holdings' : List Holding}
    (hstart : holdings'.filter (fun x => isSeenAlike s s' x.fluent) =
      holdings.filter fun x => isSeenAlike s s' x.fluent) :
    (is.foldl (s'.addHolding time) holdings').filter (fun x => isSeenAlike s s' x.fluent) =
      (is.foldl (s.addHolding time) holdings).filter fun x => isSeenAlike s s' x.fluent := by
  have hp : forall a b : Compound, a.same b = true -> isSeenAlike s s' a = isSeenAlike s s' b :=
    fun _ _ => isSeenAlike_of_same
  induction is generalizing holdings holdings' with
  | nil => exact hstart
  | cons i rest ih =>
      apply ih
      cases hfluent : isSeenAlike s s' i.fluent with
      | false =>
          have hskip : forall (t : Scenario) (listed : List Holding),
              (t.addHolding time listed i).filter (fun x => isSeenAlike s s' x.fluent) =
                listed.filter fun x => isSeenAlike s s' x.fluent := by
            intro t listed
            rw [addHolding_eq]
            split
            · rfl
            · rw [filter_setSince hp, hfluent]
              rfl
          rw [hskip, hskip, hstart]
      | true =>
          have hsince : forall listed : List Holding,
              sinceOf? (listed.filter fun x => isSeenAlike s s' x.fluent) i.fluent =
                sinceOf? listed i.fluent :=
            fun _ => sinceOf?_filter hp hfluent
          have hlisted : isListed holdings' i = isListed holdings i := by
            rw [isListed, isListed, ← hsince holdings', hstart, hsince holdings]
          rw [addHolding_eq, addHolding_eq, hlisted, h.persists_eq hs hs' hfluent]
          split
          · exact hstart
          · rw [filter_setSince hp, filter_setSince hp, hstart]

theorem SamePast.mem_unsortedHoldings_iff (h : SamePast time s s') (hs : s.Indexed)
    (hs' : s'.Indexed) {x : Holding} (hx : isSeenAlike s s' x.fluent = true) :
    x ∈ s'.unsortedHoldings time ↔ x ∈ s.unsortedHoldings time := by
  have hnil : ([] : List Holding).filter (fun x => isSeenAlike s s' x.fluent) =
      ([] : List Holding).filter fun x => isSeenAlike s s' x.fluent := rfl
  have hfilter := h.filter_foldl_addHolding hs hs' (s.allInitiations (some time)) hnil
  have hmem : x ∈ (s'.unsortedHoldings time).filter (fun x => isSeenAlike s s' x.fluent) ↔
      x ∈ (s.unsortedHoldings time).filter fun x => isSeenAlike s s' x.fluent := by
    rw [unsortedHoldings, h.allInitiations, hfilter]
    rfl
  simpa only [List.mem_filter, hx, and_true] using hmem

/-- A fluent without a subject is seen alike, so one list fails if the other does. -/
theorem SamePast.allHolding?_eq_none_iff (h : SamePast time s s') (hs : s.Indexed)
    (hs' : s'.Indexed) : s'.allHolding? time = none ↔ s.allHolding? time = none := by
  have hany : forall x : Holding, (x ∈ s'.unsortedHoldings time ∧ x.fluent.subject?.isNone = true) ↔
      (x ∈ s.unsortedHoldings time ∧ x.fluent.subject?.isNone = true) := by
    intro x
    apply and_congr_left
    intro hnone
    apply h.mem_unsortedHoldings_iff hs hs'
    rw [isSeenAlike, hnone, Bool.true_or]
  simp only [allHolding?_eq, ite_eq_left_iff, reduceCtorEq, imp_false, not_not, List.any_eq_true,
    hany]

/-!
# More exclusive domains

Where the second scenario has more exclusive domains, less holds in it.
-/

section
variable (hmore : forall domain, s.exclusive.contains domain = true ->
  s'.exclusive.contains domain = true)
include hmore

theorem SamePast.narrows (h : SamePast time s s') (hs : s.Indexed) (hs' : s'.Indexed) :
    Narrows time s s' := by
  constructor
  case initiates =>
    intro fluent start hle
    exact (h.initiates_iff hs hs' fluent hle).mp
  case clips =>
    intro fluent clip hle hclips
    cases hclips with
    | inl hterminates => exact Or.inl ((h.terminates_iff fluent clip hle).mpr hterminates)
    | inr hdisplaces =>
        rcases hdisplaces with ⟨hexclusive, other, hinitiates, hother⟩
        exact Or.inr ⟨hmore _ hexclusive, other,
          (h.initiates_iff hs hs' other hle).mpr hinitiates, hother⟩

/-- Both lists are there or neither is.  What is seen alike is in both, and for the rest something
earlier or nothing was added. -/
theorem SamePast.holdings_or_none (h : SamePast time s s') (hs : s.Indexed) (hs' : s'.Indexed) :
    (s'.allHolding? time = none ∧ s.allHolding? time = none) ∨
      exists holdings' holdings, s'.allHolding? time = some holdings' ∧
        s.allHolding? time = some holdings ∧
        (forall x, isSeenAlike s s' x.fluent = true -> (x ∈ holdings' ↔ x ∈ holdings)) ∧
        Covers (fun x y : Holding => y.fluent.same x.fluent = true ∧ y.since ≤ x.since) holdings'
          holdings := by
  rcases allHolding?_none_or_some (h.allHolding?_eq_none_iff hs hs') with
    hnone | ⟨holdings', holdings, hafter, hbefore, hperm', hperm⟩
  · exact Or.inl hnone
  · refine Or.inr ⟨holdings', holdings, hafter, hbefore, ?_,
      ((h.narrows hmore hs hs').covers_unsortedHoldings hs hs').of_perm hperm' hperm⟩
    intro x hx
    rw [hperm'.mem_iff, hperm.mem_iff]
    exact h.mem_unsortedHoldings_iff hs hs' hx

end

end Scenario

/-!
# Rules of a verb that was not met
-/

namespace Taxonomy

theorem functor_of_slotCompound {name : String} {arity : Nat} {c : Compound}
    (h : slotCompound name arity = .ok c) : c.functor.text = name := by
  unfold slotCompound Functor.ofText? at h
  split at h
  · rename_i f hf
    split at hf
    · cases hf
      cases h
      rfl
    · cases hf
  · cases h

theorem IsSlotRule.signature {verb : String} {arity : Nat} {r : Rule}
    (h : IsSlotRule verb arity r) : (r.verb, r.event.arity) = (verb, arity) := by
  have hargs := h.args.left
  rcases h with ⟨effect, exclusive, domain, hrule⟩
  rcases exists_of_bind_eq_ok hrule with ⟨event, hevent, hrule⟩
  rcases exists_of_bind_eq_ok hrule with ⟨fluent, _, hrule⟩
  cases hrule
  rw [Rule.verb, functor_of_slotCompound hevent, Compound.arity, hargs, List.length_map,
    length_slotVariables]

/-- The built-in rules of a verb are about events of this verb and number of arguments only. -/
theorem signature_of_matchCompound? {taxonomy : Taxonomy} {key : String × Nat} {r : Rule}
    (hr : r ∈ taxonomy.builtinRules key) {x : Event} {b : Bindings}
    (h : r.event.matchCompound? x.description = some b) : x.signature = key := by
  have hrule := (isSlotRule_of_mem_builtinRules hr).left.signature
  rw [Event.signature, Rule.verb_eq_of_matchCompound? h,
    ← Compound.arity_eq_of_matchCompound? h, hrule]

end Taxonomy

/-!
# Engines
-/

namespace Engine

theorem currentDate_storeEvent (e : Engine) (c : Compound) (timestamp : String) :
    (e.storeEvent c timestamp).2.currentDate = e.currentDate := by
  rw [currentDate_eq_of_unlogged_eq (e.unlogged_storeEvent c timestamp)]

/-- The second engine has made the domain exclusive, and the first one has not. -/
def NewlyExclusive (e after : Engine) (domain : String) : Prop :=
  e.rulebook.exclusive.contains domain = false ∧ after.rulebook.exclusive.contains domain = true

/-- The second engine sees a moment as the first one does, except that in newly exclusive domains
less may hold, or hold since later. -/
structure KeepsPast (e after : Engine) (moment : Option Moment) : Prop where
  query : forall v,
    (forall c, (e.pattern v).1 = .ok c -> ¬ NewlyExclusive e after c.functor.text) ->
      (after.query v moment).1 = (e.query v moment).1
  query_covered : forall v, SameOutcome (Covers Bindings.Agree) (after.query v moment).1
    (e.query v moment).1
  allHolding : SameOutcome (fun holdings' holdings =>
      (forall h : Holding, ¬ NewlyExclusive e after h.domain -> (h ∈ holdings' ↔ h ∈ holdings)) ∧
        Covers (fun x y => y.fluent.same x.fluent = true ∧ y.since ≤ x.since) holdings' holdings)
    (after.allHolding moment) (e.allHolding moment)

theorem exclusive_eq_of_not_newlyExclusive {e after : Engine} {domain : String}
    (hmore : e.rulebook.exclusive.contains domain = true ->
      after.rulebook.exclusive.contains domain = true)
    (h : ¬ NewlyExclusive e after domain) :
    e.rulebook.exclusive.contains domain = after.rulebook.exclusive.contains domain := by
  cases hbefore : e.rulebook.exclusive.contains domain with
  | true => rw [hmore hbefore]
  | false =>
      cases hafter : after.rulebook.exclusive.contains domain with
      | false => rfl
      | true => exact absurd ⟨hbefore, hafter⟩ h

section
variable {start e : Engine} {c : Compound} {time timestamp : String}

theorem Descends.samePast_storeEvent (h : Descends start e) (hlater : time < timestamp) :
    Scenario.SamePast time e.scenario (e.storeEvent c timestamp).2.scenario := by
  have hscenario : (e.storeEvent c timestamp).2.scenario =
      ⟨(e.store.push c timestamp).2, (e.rulebook.compileVerb c.functor.text c.arity).2.rules,
        (e.rulebook.compileVerb c.functor.text c.arity).2.exclusive⟩ := by
    rw [scenario, store_storeEvent, rulebook_storeEvent]
  rw [hscenario]
  have hcompiled : Scenario.SamePast time e.scenario
      ⟨e.store, (e.rulebook.compileVerb c.functor.text c.arity).2.rules,
        (e.rulebook.compileVerb c.functor.text c.arity).2.exclusive⟩ := by
    by_cases hmet : (c.functor.text, c.arity) ∈ e.rulebook.compiled
    · rw [Rulebook.compileVerb_of_mem hmet]
      exact Scenario.samePast_withExclusive e.scenario e.rulebook.exclusive
    · rw [Rulebook.compileVerb_of_not_mem hmet]
      let met : Rulebook :=
        { e.rulebook with compiled := e.rulebook.compiled ++ [(c.functor.text, c.arity)] }
      apply Scenario.samePast_register (b := met) h.verbIndexed
      -- An event that one of the new rules matches would have brought them along.
      intro r hr x hx
      cases hmatch : r.event.matchCompound? x.description with
      | none => rfl
      | some b =>
          have hsignature := Taxonomy.signature_of_matchCompound? hr hmatch
          exact absurd ((h.compiled_iff _).mpr ⟨x, hx, hsignature⟩) hmet
  exact hcompiled.trans (Scenario.samePast_push _ c hlater)

theorem contains_register_iff (b : Rulebook) (rules : List Rule) (domain : String) :
    (b.register rules).2.exclusive.contains domain = true ↔
      b.exclusive.contains domain = true ∨ Rule.MakeExclusive rules domain := by
  induction rules generalizing b with
  | nil => simp [Rulebook.register, Rule.MakeExclusive]
  | cons r rest ih =>
      show ((b.registerRule r).2.register rest).2.exclusive.contains domain = true ↔ _
      rw [ih, Rulebook.contains_registerRule]
      simp only [Rule.MakeExclusive, List.mem_cons, or_and_right, exists_or, exists_eq_left,
        or_assoc]

/-- A domain becomes exclusive if the verb is met for the first time and has a built-in rule that
makes it so. -/
theorem contains_storeEvent_iff (e : Engine) (c : Compound) (timestamp domain : String) :
    (e.storeEvent c timestamp).2.rulebook.exclusive.contains domain = true ↔
      e.rulebook.exclusive.contains domain = true ∨
        ((c.functor.text, c.arity) ∉ e.rulebook.compiled ∧ Rule.MakeExclusive
          (e.rulebook.taxonomy.builtinRules (c.functor.text, c.arity)) domain) := by
  rw [rulebook_storeEvent]
  by_cases hmet : (c.functor.text, c.arity) ∈ e.rulebook.compiled
  · rw [Rulebook.compileVerb_of_mem hmet]
    simp only [hmet, not_true, false_and, or_false]
  · rw [Rulebook.compileVerb_of_not_mem hmet, contains_register_iff]
    simp only [hmet, not_false_eq_true, true_and]

theorem contains_storeEvent_of_contains {e : Engine} {domain : String}
    (h : e.rulebook.exclusive.contains domain = true) (c : Compound) (timestamp : String) :
    (e.storeEvent c timestamp).2.rulebook.exclusive.contains domain = true :=
  (contains_storeEvent_iff e c timestamp domain).mpr (Or.inl h)

theorem Descends.keepsPast_storeEvent (h : Descends start e) {moment : Option Moment}
    (htime : e.timeOf moment = .ok time) (hlater : time < timestamp) :
    KeepsPast e (e.storeEvent c timestamp).2 moment := by
  have hpast := h.samePast_storeEvent (c := c) hlater
  have hs := h.indexed
  have hs' := (h.storeEvent c timestamp).indexed
  have hmore : forall domain, e.scenario.exclusive.contains domain = true ->
      (e.storeEvent c timestamp).2.scenario.exclusive.contains domain = true :=
    fun _ hold => contains_storeEvent_of_contains hold c timestamp
  have halike : forall domain, ¬ NewlyExclusive e (e.storeEvent c timestamp).2 domain ->
      e.scenario.exclusive.contains domain =
        (e.storeEvent c timestamp).2.scenario.exclusive.contains domain :=
    fun domain hold => exclusive_eq_of_not_newlyExclusive (hmore domain) hold
  have htime' : (e.storeEvent c timestamp).2.timeOf moment = .ok time := by
    rw [timeOf_eq_of_currentDate (currentDate_storeEvent e c timestamp), htime]
  generalize (e.storeEvent c timestamp).2 = after at *
  constructor
  case query =>
    intro v hold
    rw [after.fst_query_eq_map htime', e.fst_query_eq_map htime, fst_pattern after e]
    apply map_eq_map_of_ok
    intro c hpattern
    exact hpast.query_eq hs hs' (halike _ (hold c hpattern))
  case query_covered =>
    intro v
    rw [after.fst_query_eq_map htime', e.fst_query_eq_map htime, fst_pattern after e]
    exact sameOutcome_map _ ((hpast.narrows hmore hs hs').covers_query hs hs')
  case allHolding =>
    rw [e.allHolding_eq htime, after.allHolding_eq htime']
    rcases hpast.holdings_or_none hmore hs hs' with
      ⟨hafter, hbefore⟩ | ⟨holdings', holdings, hafter, hbefore, hsame, hcovers⟩
    · rw [hafter, hbefore]
      exact .error Fault.noSubject
    · rw [hafter, hbefore]
      refine .ok ⟨?_, hcovers⟩
      intro x hold
      have hexclusive : e.scenario.exclusive.contains x.fluent.functor.text =
          after.scenario.exclusive.contains x.fluent.functor.text := halike x.domain hold
      apply hsame
      rw [Scenario.isSeenAlike, hexclusive, beq_self_eq_true, Bool.or_true]

/-- What is stored if an assertion succeeds. -/
theorem exists_of_assertEvent {description : Value} {happened : Moment} {id : Nat} {after : Engine}
    (h : e.assertEvent description happened = (.ok id, after))
    (hhappened : timestampOf happened = .ok timestamp) :
    exists c, after = (e.storeEvent c timestamp).2 := by
  cases hprepare : e.prepareEvent description happened with
  | error fault =>
      unfold assertEvent at h
      rw [hprepare] at h
      cases (Prod.mk.inj h).left
  | ok fact =>
      have htime := (exists_of_prepareEvent_eq_ok hprepare).left
      rw [hhappened, Except.ok.injEq] at htime
      rw [assertEvent_of_ok e hprepare, ← htime] at h
      exact ⟨fact.1, (congrArg Prod.snd h).symm⟩

end

end Engine

/-!
# Two jobs

Somebody starts two jobs, which nothing says to exclude each other.  Somebody else gets a job,
which replaces the job before.
-/

namespace Employment

open Residence (engine)

def twoJobs : List Engine.Call :=
  [.tell (.event (.text "started_job(alice, bakery)") (.text "2020-01-01")),
    .tell (.event (.text "started_job(alice, cinema)") (.text "2021-01-01"))]

def employed : Engine :=
  engine.performAll twoJobs

/-- The first verb that replaces a job. -/
def gettingJob : Value :=
  .text "got_job(bob, dairy)"

def gotJob : Moment :=
  .text "2025-01-01"

def asked : Moment :=
  .text "2022-01-01"

/-- The job that she started first. -/
def firstJob : Value :=
  .text "job(alice, bakery)"

/-- The engine after the second person got a job. -/
def replaced : Engine :=
  (employed.assertEvent gettingJob gotJob).2

theorem assertEvent_gettingJob : employed.assertEvent gettingJob gotJob = (.ok 3, replaced) := by
  have hid : (employed.assertEvent gettingJob gotJob).1.toOption = some 3 := by
    decide +kernel
  exact Prod.ext (toOption_eq_some_iff.mp hid) rfl

theorem timestampOf_gotJob : timestampOf gotJob = .ok "2025-01-01" := by
  have htime : (timestampOf gotJob).toOption = some "2025-01-01" := by
    decide +kernel
  exact toOption_eq_some_iff.mp htime

theorem timestampOf_asked : timestampOf asked = .ok "2022-01-01" := by
  have htime : (timestampOf asked).toOption = some "2022-01-01" := by
    decide +kernel
  exact toOption_eq_some_iff.mp htime

end Employment

namespace Engine

open Employment

end Engine
end EventCalculus

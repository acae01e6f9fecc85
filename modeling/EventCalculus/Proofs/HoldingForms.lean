import EventCalculus.Proofs.AnswerSets
import EventCalculus.Proofs.HoldingStart
import EventCalculus.Proofs.OrderIndependence

/-!
# Forms in the list of all that holds

A fluent can hold in several forms, which differ in the kinds of numbers of equal value.  The list
of all that holds shows one of them, the first that it meets, and is sorted by the texts of what it
shows.  So two engines that are told the same facts in different orders list the same fluents since
the same times, and those that hold in one form only in the same order.
-/

namespace EventCalculus

/-- The holding with its numbers in their common form. -/
def Holding.canonical (h : Holding) : Holding :=
  ⟨h.fluent.canonical, h.since⟩

theorem Holding.canonical_eq_iff {a b : Holding} : a.canonical = b.canonical ↔ a.Agree b := by
  constructor
  · intro h
    rcases (Holding.mk.injEq _ _ _ _).mp h with ⟨hfluent, hsince⟩
    exact ⟨Compound.same_iff.mpr hfluent, hsince⟩
  · intro h
    rw [canonical, canonical, Compound.same_iff.mp h.fluent, h.since]

theorem Holding.Distinct.nodup_canonical {holdings : List Holding}
    (h : Holding.Distinct holdings) : (holdings.map Holding.canonical).Nodup := by
  apply List.pairwise_map.mpr
  apply h.imp
  intro a b hab heq
  rw [(Holding.canonical_eq_iff.mp heq).fluent] at hab
  cases hab

theorem Holding.render_eq_of_precedes {a b : Holding} (hab : a.Precedes b)
    (hba : b.Precedes a) : a.fluent.render = b.fluent.render := by
  rw [← notAfter_iff, notAfter_iff_earlierOrEqual] at hab hba
  rcases hab with hlt | ⟨heq, hab⟩
  · rcases hba with hgt | ⟨heq, _⟩
    · exact absurd hgt (lt_asymm hlt)
    · exact absurd heq hlt.ne'
  · rcases hba with hgt | ⟨_, hba⟩
    · exact absurd heq hgt.ne'
    · exact congrArg Prod.snd (earlierOrEqual_antisymm _ _ hab hba)

theorem Holding.Distinct.nodup {holdings : List Holding} (h : Holding.Distinct holdings) :
    holdings.Nodup :=
  h.nodup_canonical.of_map _

namespace Scenario

variable {s s' : Scenario} {time : String}

/-!
# The form that is listed
-/

/-- An initiation lists its own form or none: a fluent that is listed keeps its form. -/
theorem fluent_of_mem_addHolding {holdings : List Holding} {i : Initiation} {h : Holding}
    (hh : h ∈ s.addHolding time holdings i) :
    (exists old, old ∈ holdings ∧ old.fluent = h.fluent) ∨
      (h.fluent = i.fluent ∧ s.persists i time = true) := by
  rcases s.addHolding_cases time holdings i with hkeep | ⟨hpersists, hset⟩
  · rw [hkeep] at hh
    exact Or.inl ⟨h, hh, rfl⟩
  · rw [hset] at hh
    have hfluent := List.mem_map_of_mem (f := Holding.fluent) hh
    rw [fluents_setSince] at hfluent
    split at hfluent
    · exact Or.inl (List.mem_map.mp hfluent)
    · rcases List.mem_append.mp hfluent with hold | hnew
      · exact Or.inl (List.mem_map.mp hold)
      · exact Or.inr ⟨List.mem_singleton.mp hnew, hpersists⟩

theorem fluent_of_mem_foldl_addHolding {seen : List Initiation} {holdings : List Holding}
    {h : Holding} (hh : h ∈ seen.foldl (s.addHolding time) holdings) :
    (exists old, old ∈ holdings ∧ old.fluent = h.fluent) ∨
      exists i, i ∈ seen ∧ h.fluent = i.fluent ∧ s.persists i time = true := by
  induction seen generalizing holdings with
  | nil => exact Or.inl ⟨h, hh, rfl⟩
  | cons first rest ih =>
      rcases ih hh with ⟨other, hother, hform⟩ | ⟨i, hi, hform⟩
      · rcases fluent_of_mem_addHolding hother with ⟨old, hold, hsame⟩ | ⟨hnew, hpersists⟩
        · exact Or.inl ⟨old, hold, hsame.trans hform⟩
        · exact Or.inr ⟨first, List.mem_cons_self, hform.symm.trans hnew, hpersists⟩
      · exact Or.inr ⟨i, List.mem_cons_of_mem first hi, hform⟩

/-- A fluent is listed in a form in which it holds. -/
theorem exists_holdsFrom_of_mem_unsortedHoldings (hs : s.Indexed) {h : Holding}
    (hh : h ∈ s.unsortedHoldings time) : exists start, s.HoldsFrom h.fluent start time := by
  rcases fluent_of_mem_foldl_addHolding hh with ⟨old, hold, _⟩ | ⟨i, hi, hfluent, hpersists⟩
  · cases hold
  · rcases (exists_mem_allInitiations_iff hs i.fluent i.timestamp).mp ⟨i, hi, rfl, rfl⟩ with
      ⟨hinitiates, hle⟩
    rw [hfluent]
    exact ⟨i.timestamp, hinitiates, hle, (persists_iff hs i time).mp hpersists⟩

/-- Every fluent of the class holds in one form at most. -/
def HoldsInOneForm (s : Scenario) (p : Compound -> Bool) (time : String) : Prop :=
  forall a b start start', p a = true -> s.HoldsFrom a start time -> s.HoldsFrom b start' time ->
    a.same b = true -> a = b

/-- The lists are of the same holdings, and show those that hold in one form in the same order. -/
structure SameHoldings (s : Scenario) (time : String) (xs ys : List Holding) : Prop where
  perm : (xs.map Holding.canonical).Perm (ys.map Holding.canonical)
  filter_eq : forall p : Compound -> Bool, s.HoldsInOneForm p time ->
    (xs.filter fun h => p h.fluent) = ys.filter fun h => p h.fluent
  eq : s.HoldsInOneForm (fun _ => true) time -> xs = ys

/-- What is listed in one form is listed in the other scenario as well. -/
theorem mem_unsortedHoldings_of_sameFacts (hs : s.Indexed) (hs' : s'.Indexed)
    (hfacts : s.SameFacts s') {p : Compound -> Bool} (hone : s.HoldsInOneForm p time)
    {h : Holding} (hh : h ∈ s.unsortedHoldings time) (hp : p h.fluent = true) :
    h ∈ s'.unsortedHoldings time := by
  rcases hfacts.agreeAbout.exists_mem_unsortedHoldings hs hs' hh trivial with ⟨other, hother, hagree⟩
  rcases exists_holdsFrom_of_mem_unsortedHoldings hs hh with ⟨start, hholds⟩
  rcases exists_holdsFrom_of_mem_unsortedHoldings hs' hother with ⟨start', hholds'⟩
  have hform : h.fluent = other.fluent :=
    hone _ _ start start' hp hholds ((hfacts.holdsFrom_iff _ _ _).mpr hholds') hagree.fluent
  have heq : h = other := (Holding.mk.injEq _ _ _ _).mpr ⟨hform, hagree.since⟩
  rw [heq]
  exact hother

theorem eq_of_precedes (hs : s.Indexed) (htexts : s.DistinctTexts) {a b : Holding}
    (ha : a ∈ s.unsortedHoldings time) (hb : b ∈ s.unsortedHoldings time) (hab : a.Precedes b)
    (hba : b.Precedes a) : a = b := by
  rcases exists_holdsFrom_of_mem_unsortedHoldings hs ha with ⟨start, hholds⟩
  rcases exists_holdsFrom_of_mem_unsortedHoldings hs hb with ⟨start', hholds'⟩
  have hfluent : a.fluent = b.fluent :=
    htexts _ _ start start' hholds.left hholds'.left (Holding.render_eq_of_precedes hab hba)
  have hleast := isLeastStart_of_mem_unsortedHoldings hs hb
  rw [← hfluent] at hleast
  exact (Holding.mk.injEq _ _ _ _).mpr
    ⟨hfluent, (isLeastStart_of_mem_unsortedHoldings hs ha).unique hleast⟩

/-!
# Two lists
-/

theorem perm_canonical_unsortedHoldings (hs : s.Indexed) (hs' : s'.Indexed)
    (hfacts : s.SameFacts s') (time : String) :
    ((s.unsortedHoldings time).map Holding.canonical).Perm
      ((s'.unsortedHoldings time).map Holding.canonical) := by
  apply (List.perm_ext_iff_of_nodup (s.lists_unsortedHoldings time).distinct.nodup_canonical
    (s'.lists_unsortedHoldings time).distinct.nodup_canonical).mpr
  intro x
  simp only [List.mem_map]
  constructor
  · rintro ⟨h, hh, rfl⟩
    rcases hfacts.agreeAbout.exists_mem_unsortedHoldings hs hs' hh trivial with ⟨h', hh', hagree⟩
    exact ⟨h', hh', (Holding.canonical_eq_iff.mpr hagree).symm⟩
  · rintro ⟨h, hh, rfl⟩
    rcases hfacts.symm.agreeAbout.exists_mem_unsortedHoldings hs' hs hh trivial with
      ⟨h', hh', hagree⟩
    exact ⟨h', hh', (Holding.canonical_eq_iff.mpr hagree).symm⟩

/-- Of what holds in one form both lists show the same, in the order of the texts. -/
theorem filter_holdings_eq (hs : s.Indexed) (hs' : s'.Indexed) (hfacts : s.SameFacts s')
    (htexts : s.DistinctTexts) {p : Compound -> Bool} (hone : s.HoldsInOneForm p time) :
    (((s.unsortedHoldings time).mergeSort Holding.notAfter).filter fun h => p h.fluent) =
      ((s'.unsortedHoldings time).mergeSort Holding.notAfter).filter fun h => p h.fluent := by
  have hone' : s'.HoldsInOneForm p time := by
    intro a b start start' hp ha hb
    exact hone a b start start' hp ((hfacts.holdsFrom_iff a start time).mpr ha)
      ((hfacts.holdsFrom_iff b start' time).mpr hb)
  have hsorted : forall t : Scenario, (((t.unsortedHoldings time).mergeSort
      Holding.notAfter).filter fun h => p h.fluent).Pairwise Holding.Precedes :=
    fun t => (Holding.pairwise_mergeSort_notAfter _).filter _
  have hperm : forall t : Scenario, (((t.unsortedHoldings time).mergeSort
      Holding.notAfter).filter fun h => p h.fluent).Perm
        ((t.unsortedHoldings time).filter fun h => p h.fluent) :=
    fun t => (List.mergeSort_perm _ _).filter _
  have hsame : ((s.unsortedHoldings time).filter fun h => p h.fluent).Perm
      ((s'.unsortedHoldings time).filter fun h => p h.fluent) := by
    apply (List.perm_ext_iff_of_nodup ((s.lists_unsortedHoldings time).distinct.nodup.filter _)
      ((s'.lists_unsortedHoldings time).distinct.nodup.filter _)).mpr
    intro h
    simp only [List.mem_filter]
    constructor
    · intro hh
      exact ⟨mem_unsortedHoldings_of_sameFacts hs hs' hfacts hone hh.left hh.right, hh.right⟩
    · intro hh
      exact ⟨mem_unsortedHoldings_of_sameFacts hs' hs hfacts.symm hone' hh.left hh.right,
        hh.right⟩
  -- the same members, in an order that tells them apart by their texts
  apply List.Perm.eq_of_pairwise _ (hsorted s) (hsorted s')
  · exact (hperm s).trans (hsame.trans (hperm s').symm)
  · intro a b ha hb
    have ha' := (List.mem_filter.mp ((hperm s).mem_iff.mp ha)).left
    have hb' := (List.mem_filter.mp (hsame.mem_iff.mpr ((hperm s').mem_iff.mp hb))).left
    exact eq_of_precedes hs htexts ha' hb'

theorem eq_of_allHolding?_eq_some {holdings : List Holding}
    (h : s.allHolding? time = some holdings) :
    holdings = (s.unsortedHoldings time).mergeSort Holding.notAfter := by
  rw [allHolding?_eq] at h
  split at h
  · cases h
  · exact (Option.some.inj h).symm

theorem sameHoldings_of_sameFacts (hs : s.Indexed) (hs' : s'.Indexed) (hfacts : s.SameFacts s')
    (htexts : s.DistinctTexts) (time : String) :
    s.SameHoldings time ((s.unsortedHoldings time).mergeSort Holding.notAfter)
      ((s'.unsortedHoldings time).mergeSort Holding.notAfter) := by
  constructor
  case perm =>
    apply ((List.mergeSort_perm _ _).map _).trans
    apply (perm_canonical_unsortedHoldings hs hs' hfacts time).trans
    exact ((List.mergeSort_perm _ _).map _).symm
  case filter_eq =>
    intro p hone
    exact filter_holdings_eq hs hs' hfacts htexts hone
  case eq =>
    intro hone
    have hall := filter_holdings_eq hs hs' hfacts htexts hone
    rw [List.filter_true, List.filter_true] at hall
    exact hall

theorem allHolding?_none_or_sameHoldings (hs : s.Indexed) (hs' : s'.Indexed)
    (hfacts : s.SameFacts s') (htexts : s.DistinctTexts) (time : String) :
    (s.allHolding? time = none ∧ s'.allHolding? time = none) ∨
      exists xs ys, s.allHolding? time = some xs ∧ s'.allHolding? time = some ys ∧
        s.SameHoldings time xs ys := by
  have hforth : s.allHolding? time = none -> s'.allHolding? time = none :=
    hfacts.agreeAbout.allHolding?_eq_none hs hs' fun _ _ => trivial
  have hback : s'.allHolding? time = none -> s.allHolding? time = none :=
    hfacts.symm.agreeAbout.allHolding?_eq_none hs' hs fun _ _ => trivial
  cases hfirst : s.allHolding? time with
  | none => exact Or.inl ⟨rfl, hforth hfirst⟩
  | some xs =>
      cases hsecond : s'.allHolding? time with
      | none =>
          rw [hback hsecond] at hfirst
          cases hfirst
      | some ys =>
          refine Or.inr ⟨xs, ys, rfl, rfl, ?_⟩
          rw [eq_of_allHolding?_eq_some hfirst, eq_of_allHolding?_eq_some hsecond]
          exact sameHoldings_of_sameFacts hs hs' hfacts htexts time

end Scenario

namespace Engine

/-- Engines that are told the same facts list the same fluents since the same times, whatever the
order and the repetition of the facts: those that hold in one form at that time in the same order,
and everything in the same order if all fluents do. -/
theorem allHolding_of_same_facts {date date' : Moment} {maxDepth maxDepth' : Int}
    {taxonomy : Taxonomy} {audit audit' : Option AuditLog} {start start' : Engine}
    {inputs inputs' : List Input} (hstart : create date maxDepth taxonomy audit = .ok start)
    (hstart' : create date' maxDepth' taxonomy audit' = .ok start')
    (hlessons : lessons inputs = lessons inputs')
    (hfacts : forall fact, fact ∈ start.facts inputs ↔ fact ∈ start'.facts inputs')
    (hfinite : forall fact, fact ∈ start.facts inputs -> fact.1.isFinite = true)
    (hrules : forall r, r ∈ learned inputs -> r.fluent.isFinite = true) (moment : Moment) :
    SameOutcome (fun xs ys => exists time, timestampOf moment = .ok time ∧
        (start.run inputs).scenario.SameHoldings time xs ys)
      ((start.run inputs).allHolding (some moment))
      ((start'.run inputs').allHolding (some moment)) := by
  have hfollows := (follows_create hstart).run inputs
  have hfollows' := (follows_create hstart').run inputs'
  rw [List.nil_append] at hfollows hfollows'
  have htaxonomy : start.rulebook.taxonomy = start'.rulebook.taxonomy := by
    rw [taxonomy_create hstart, taxonomy_create hstart']
  have hsame := (hfollows.sameSources hfollows' htaxonomy hlessons hfacts).sameFacts
  have htexts := hfollows.distinctTexts hfinite hrules
  cases htime : timestampOf moment with
  | error fault =>
      have hfails : forall e : Engine, e.allHolding (some moment) = .error fault := by
        intro e
        rw [allHolding, timeOf, htime]
        rfl
      rw [hfails, hfails]
      exact .error fault
  | ok time =>
      have htimeOf : forall e : Engine, e.timeOf (some moment) = .ok time := fun _ => htime
      rw [allHolding_eq _ (htimeOf _), allHolding_eq _ (htimeOf _)]
      rcases Scenario.allHolding?_none_or_sameHoldings hfollows.indexed hfollows'.indexed hsame
        htexts time with ⟨hnone, hnone'⟩ | ⟨xs, ys, hxs, hys, hlists⟩
      · rw [hnone, hnone']
        exact .error _
      · rw [hxs, hys]
        exact .ok ⟨time, rfl, hlists⟩

end Engine

/-!
# Numbers of equal value
-/

namespace Trade

def large : Number :=
  .int 10000000000000000

/-- The same number as a floating point number, which is shown with an exponent. -/
def largeFloat : Number :=
  .float (Binary64.ofQuotient false 10000000000000000 1)

def small : Number :=
  .int 11

def priced (f : Functor) (n : Number) : Compound :=
  ⟨f, [.atom ⟨"bob", by decide +kernel⟩, .number n]⟩

def buy (n : Number) : Engine.Input :=
  .event (.term (priced bought n).toTerm) (.date Residence.firstDay)

def purchases : List Engine.Input :=
  [buy large, buy largeFloat, buy small]

def asked : Moment :=
  .text "2024-06-01"

theorem mem_facts_reverse (e : Engine) (inputs : List Engine.Input) (fact : Compound × String) :
    fact ∈ e.facts inputs ↔ fact ∈ e.facts inputs.reverse := by
  rw [Engine.facts, Engine.facts, List.filterMap_reverse, List.mem_reverse]

theorem isFinite_of_mem_facts_purchases (fact : Compound × String)
    (h : fact ∈ Residence.engine.facts purchases) : fact.1.isFinite = true := by
  have hall : (Residence.engine.facts purchases).all (fun fact => fact.1.isFinite) = true := by
    decide +kernel
  exact List.all_eq_true.mp hall fact h

theorem timeOf_asked (e : Engine) : e.timeOf (some asked) = .ok "2024-06-01" := by
  have htime : (timestampOf asked).toOption = some "2024-06-01" := by decide +kernel
  exact toOption_eq_some_iff.mp htime

theorem allHolding_run {inputs : List Engine.Input} {holdings : List Holding}
    (hholdings : (Residence.engine.run inputs).scenario.unsortedHoldings "2024-06-01" = holdings)
    (hsubjects : (holdings.any fun h => h.fluent.subject?.isNone) = false)
    (hsorted : holdings.Pairwise fun a b => a.notAfter b = true) :
    (Residence.engine.run inputs).allHolding (some asked) = .ok holdings := by
  rw [Engine.allHolding_eq _ (timeOf_asked _), Scenario.allHolding?_eq, hholdings, hsubjects,
    List.mergeSort_of_pairwise hsorted]
  rfl

end Trade

namespace Engine

theorem allHolding_of_same_facts_purchases :
    create (.date Residence.firstDay) EventStore.defaultMaxDepth Taxonomy.standard none =
        .ok Residence.engine ∧
      SameOutcome (fun xs ys => exists time, timestampOf Trade.asked = .ok time ∧
          (Residence.engine.run Trade.purchases).scenario.SameHoldings time xs ys)
        ((Residence.engine.run Trade.purchases).allHolding (some Trade.asked))
        ((Residence.engine.run Trade.purchases.reverse).allHolding (some Trade.asked)) := by
  have hcreate : create (.date Residence.firstDay) EventStore.defaultMaxDepth Taxonomy.standard
      none = .ok Residence.engine := rfl
  refine ⟨hcreate, ?_⟩
  apply allHolding_of_same_facts hcreate hcreate
  · rfl
  · exact Trade.mem_facts_reverse _ _
  · exact Trade.isFinite_of_mem_facts_purchases
  · intro r hr
    cases hr

/-- A number that is told in two forms is listed in the form that was told first, and its place in
the list depends on the text of this form. -/
theorem allHolding_depends_on_order :
    create (.date Residence.firstDay) EventStore.defaultMaxDepth Taxonomy.standard none =
        .ok Residence.engine ∧
      (forall fact, fact ∈ Residence.engine.facts Trade.purchases -> fact.1.isFinite = true) ∧
      (Residence.engine.run Trade.purchases).allHolding (some Trade.asked) =
        .ok [⟨Trade.priced Trade.has Trade.large, "2024-01-01"⟩,
          ⟨Trade.priced Trade.has Trade.small, "2024-01-01"⟩] ∧
      (Residence.engine.run Trade.purchases.reverse).allHolding (some Trade.asked) =
        .ok [⟨Trade.priced Trade.has Trade.small, "2024-01-01"⟩,
          ⟨Trade.priced Trade.has Trade.largeFloat, "2024-01-01"⟩] ∧
      Trade.large.same Trade.largeFloat = true ∧ Trade.large.same Trade.small = false := by
  refine ⟨rfl, Trade.isFinite_of_mem_facts_purchases, ?_, ?_, by decide +kernel, by decide +kernel⟩
  · exact Trade.allHolding_run (by decide +kernel) (by decide +kernel) (by decide +kernel)
  · exact Trade.allHolding_run (by decide +kernel) (by decide +kernel) (by decide +kernel)

end Engine
end EventCalculus

import EventCalculus.Proofs.Distinct
import EventCalculus.Proofs.Reachability
import EventCalculus.Rule.Rulebook

/-!
# How a rulebook grows

A rulebook meets learned rules and built-in ones in any order.  Of the learned
rules that are the same it keeps the first.  A built-in rule has no numbers, so a
rule that is the same differs from it in the source alone, and it does not matter
which of the two was registered first.
-/

namespace EventCalculus

/-!
# Slots

The arguments of built-in rules are variables.
-/

namespace Compound

/-- All arguments are variables. -/
def IsSlots (c : Compound) : Prop :=
  exists vars : List VariableName, c.args = vars.map Term.var

theorem eq_var_of_canonical_eq {t : Term} {v : VariableName} (h : t.canonical = .var v) :
    t = .var v := by
  cases t with
  | var w => exact h
  | atom n => cases h
  | number n => cases h
  | text s => cases h
  | compound f args => cases h

theorem eq_vars_of_canonicalAll_eq {ts : List Term} {vars : List VariableName}
    (h : Term.canonicalAll ts = vars.map Term.var) : ts = vars.map Term.var := by
  induction ts generalizing vars with
  | nil =>
      cases vars with
      | nil => rfl
      | cons v vars => cases h
  | cons t ts ih =>
      cases vars with
      | nil => cases h
      | cons v vars =>
          rcases List.cons.inj h with ⟨hhead, htail⟩
          rw [eq_var_of_canonical_eq hhead, ih htail]
          rfl

theorem canonical_of_isSlots {c : Compound} (hc : c.IsSlots) : c.canonical = c := by
  rcases c with ⟨f, args⟩
  rcases hc with ⟨vars, hargs⟩
  simp only at hargs
  subst hargs
  rw [canonical, Term.canonicalAll_eq_map, List.map_map]
  rfl

theorem eq_of_canonical_eq {a b : Compound} (hb : b.IsSlots) (h : a.canonical = b.canonical) :
    a = b := by
  rw [canonical_of_isSlots hb] at h
  rcases hb with ⟨vars, hargs⟩
  rcases a with ⟨f, xs⟩
  rcases b with ⟨g, ys⟩
  simp only at hargs
  subst hargs
  simp only [canonical, mk.injEq] at h
  rw [h.left, eq_vars_of_canonicalAll_eq h.right]

end Compound

namespace Rule

/-- The rule as if it were built in. -/
def unsourced (r : Rule) : Rule :=
  { r with source := .builtin }

/-- Event and fluent have no arguments but variables. -/
def IsSlots (r : Rule) : Prop :=
  r.event.IsSlots ∧ r.fluent.IsSlots

theorem same_iff {a b : Rule} : a.same b = true ↔ a.canonical = b.canonical := by
  simp [same]

theorem same_of_unsourced_eq {a b : Rule} (h : a.unsourced = b.unsourced) : a.same b = true := by
  rw [same_iff]
  show a.unsourced.canonical = b.unsourced.canonical
  rw [h]

theorem same_symm {a b : Rule} (h : a.same b = true) : b.same a = true :=
  same_iff.mpr (same_iff.mp h).symm

theorem same_trans {a b c : Rule} (hab : a.same b = true) (hbc : b.same c = true) :
    a.same c = true :=
  same_iff.mpr ((same_iff.mp hab).trans (same_iff.mp hbc))

theorem unsourced_eq_of_same {a b : Rule} (hb : b.IsSlots) (h : a.same b = true) :
    a.unsourced = b.unsourced := by
  rw [same_iff] at h
  simp only [canonical, mk.injEq] at h
  rcases h with ⟨hevent, heffect, hfluent, hexclusive, _⟩
  rw [unsourced, unsourced, Compound.eq_of_canonical_eq hb.left hevent, heffect,
    Compound.eq_of_canonical_eq hb.right hfluent, hexclusive]

theorem verb_eq_of_same {a b : Rule} (h : a.same b = true) : a.verb = b.verb := by
  rw [same_iff] at h
  have hevent := congrArg (fun r => r.event.functor.text) h
  exact hevent

end Rule

namespace Taxonomy

/-- The built-in rules of a verb and a number of arguments, none if they cannot be made. -/
def builtinRules (taxonomy : Taxonomy) (key : String × Nat) : List Rule :=
  match taxonomy.classify key.1 key.2 with
  | .ok rules => rules
  | .error _ => []

theorem slots_of_slotCompound {name : String} {arity : Nat} {c : Compound}
    (h : slotCompound name arity = .ok c) : c.args = (slotVariables arity).map .var := by
  unfold slotCompound at h
  split at h
  · cases h
    rfl
  · cases h

theorem length_slotVariables (arity : Nat) : (slotVariables arity).length = arity := by
  unfold slotVariables
  split
  · rfl
  · rfl
  · rfl
  · simp

/-- The rule has an event of the verb with the number of arguments, and a fluent with as many. -/
def IsSlotRule (verb : String) (arity : Nat) (r : Rule) : Prop :=
  exists effect exclusive domain, slotRule effect exclusive verb domain arity = .ok r

section
variable {verb domain : String} {arity : Nat} {rules : List Rule} {r : Rule}

theorem IsSlotRule.args (h : IsSlotRule verb arity r) :
    r.event.args = (slotVariables arity).map .var ∧
      r.fluent.args = (slotVariables arity).map .var := by
  rcases h with ⟨effect, exclusive, domain, hrule⟩
  rcases exists_of_bind_eq_ok hrule with ⟨event, hevent, hrule⟩
  rcases exists_of_bind_eq_ok hrule with ⟨fluent, hfluent, hrule⟩
  cases hrule
  exact ⟨slots_of_slotCompound hevent, slots_of_slotCompound hfluent⟩

theorem isSlotRule_of_singleton {effect : Effect} {exclusive : Bool}
    (h : (do return [← slotRule effect exclusive verb domain arity]) = .ok rules)
    (hr : r ∈ rules) : IsSlotRule verb arity r := by
  rcases exists_of_bind_eq_ok h with ⟨made, hmade, h⟩
  cases h
  rw [List.mem_singleton.mp hr]
  exact ⟨effect, exclusive, domain, hmade⟩

theorem isSlotRule_of_templateRules {t : Template} (h : t.rules verb domain arity = .ok rules)
    (hr : r ∈ rules) : IsSlotRule verb arity r := by
  cases t with
  | accumulate => exact isSlotRule_of_singleton h hr
  | terminate => exact isSlotRule_of_singleton h hr
  | replace => exact isSlotRule_of_singleton h hr
  | complete =>
      unfold Template.rules at h
      simp only at h
      split at h
      · rcases exists_of_bind_eq_ok h with ⟨ended, hended, h⟩
        rcases exists_of_bind_eq_ok h with ⟨started, hstarted, h⟩
        cases h
        cases List.mem_cons.mp hr with
        | inl hfirst =>
            rw [hfirst]
            exact ⟨_, _, _, hended⟩
        | inr hrest =>
            rw [List.mem_singleton.mp hrest]
            exact ⟨_, _, _, hstarted⟩
      · cases h

theorem isSlotRule_of_rulesFor? {p : VerbPattern} (h : p.rulesFor? verb arity = .ok (some rules))
    (hr : r ∈ rules) : IsSlotRule verb arity r := by
  unfold VerbPattern.rulesFor? at h
  split at h
  · rcases exists_of_map_eq_ok h with ⟨made, hmade, hsome⟩
    cases hsome
    exact isSlotRule_of_templateRules hmade hr
  · cases h

/-- Without arguments there are no rules. -/
theorem isSlotRule_of_classify {taxonomy : Taxonomy} (h : taxonomy.classify verb arity = .ok rules)
    (hr : r ∈ rules) : IsSlotRule verb arity r ∧ arity ≠ 0 := by
  unfold classify at h
  split at h
  · cases h
    cases hr
  · rename_i hpos
    split at h
    · cases h
      cases hr
    · rcases exists_of_map_eq_ok h with ⟨made, hmade, hgetD⟩
      cases made with
      | none =>
          rw [← hgetD] at hr
          cases hr
      | some made =>
          rw [← hgetD] at hr
          exact ⟨isSlotRule_of_rulesFor? hmade hr, hpos⟩

theorem isSlotRule_of_mem_builtinRules {taxonomy : Taxonomy} {key : String × Nat}
    (hr : r ∈ taxonomy.builtinRules key) : IsSlotRule key.1 key.2 r ∧ key.2 ≠ 0 := by
  unfold builtinRules at hr
  split at hr
  · rename_i rules hclassify
    exact isSlotRule_of_classify hclassify hr
  · cases hr

theorem isSlots_of_mem_builtinRules {taxonomy : Taxonomy} {key : String × Nat}
    (hr : r ∈ taxonomy.builtinRules key) : r.IsSlots := by
  rcases (isSlotRule_of_mem_builtinRules hr).left.args with ⟨hevent, hfluent⟩
  exact ⟨⟨_, hevent⟩, ⟨_, hfluent⟩⟩

theorem one_le_arity_of_mem_builtinRules {taxonomy : Taxonomy} {key : String × Nat}
    (hr : r ∈ taxonomy.builtinRules key) : 1 ≤ r.fluent.arity := by
  rcases isSlotRule_of_mem_builtinRules hr with ⟨hrule, hpos⟩
  rw [Compound.arity, hrule.args.right, List.length_map, length_slotVariables]
  exact Nat.one_le_iff_ne_zero.mpr hpos

end

end Taxonomy

/-!
# Rule sets up to sources
-/

namespace Rule

/-- The rule is in the list, from whatever source. -/
def OccursIn (r : Rule) (rules : List Rule) : Prop :=
  exists other, other ∈ rules ∧ other.unsourced = r.unsourced

theorem occursIn_append (r : Rule) (xs ys : List Rule) :
    r.OccursIn (xs ++ ys) ↔ r.OccursIn xs ∨ r.OccursIn ys := by
  simp only [OccursIn, List.mem_append, or_and_right, exists_or]

theorem occursIn_singleton (r x : Rule) : r.OccursIn [x] ↔ x.unsourced = r.unsourced := by
  simp [OccursIn]

theorem occursIn_of_unsourced_eq {r x : Rule} {rules : List Rule}
    (heq : x.unsourced = r.unsourced) (h : r.OccursIn rules) : x.OccursIn rules := by
  rcases h with ⟨other, hmem, hsource⟩
  exact ⟨other, hmem, hsource.trans heq.symm⟩

end Rule

namespace RuleSet

theorem contains_iff {s : RuleSet} (hs : s.Indexed) (r : Rule) :
    s.contains r = true ↔ exists other, other ∈ s.all ∧ other.same r = true := by
  unfold contains
  rw [List.any_eq_true]
  constructor
  · intro h
    rcases h with ⟨other, hother, hsame⟩
    exact ⟨other, ((hs.mem_forVerb_iff other r.verb).mp hother).left, hsame⟩
  · intro h
    rcases h with ⟨other, hother, hsame⟩
    refine ⟨other, (hs.mem_forVerb_iff other r.verb).mpr ⟨hother, ?_⟩, hsame⟩
    exact Rule.verb_eq_of_same hsame

theorem occursIn_push_iff (s : RuleSet) (r x : Rule) :
    x.OccursIn (s.push r).all ↔ x.OccursIn s.all ∨ r.unsourced = x.unsourced := by
  simp only [Rule.OccursIn, mem_all_push_iff, or_and_right, exists_or, exists_eq_left]

end RuleSet
/-!
# Registration
-/

namespace ExclusiveDomains

theorem contains_insert (s : ExclusiveDomains) (domain other : String) :
    (s.insert domain).contains other = true ↔ s.contains other = true ∨ domain = other := by
  unfold contains insert
  simp only [List.contains_iff_mem]
  split
  · rename_i hmem
    constructor
    · intro h
      exact Or.inl h
    · intro h
      cases h with
      | inl hold => exact hold
      | inr heq => exact heq ▸ hmem
  · rw [List.mem_append, List.mem_singleton]
    constructor
    · intro h
      exact h.imp id Eq.symm
    · intro h
      exact h.imp id Eq.symm

end ExclusiveDomains

namespace Rulebook

/-- The rulebook has met the learned and the built-in rules, the learned ones in this order. -/
structure Knows (b : Rulebook) (learned builtin : List Rule) : Prop where
  indexed : b.rules.Indexed
  slots : forall r, r ∈ builtin -> r.IsSlots
  occursIn_iff : forall r : Rule, r.OccursIn b.rules.all ↔
    r.OccursIn (learned.eraseDupsBy Rule.same ++ builtin)
  exclusive_iff : forall domain, b.exclusive.contains domain = true ↔
    exists r, r ∈ learned ++ builtin ∧ r.exclusive = true ∧ r.domain = domain

theorem knows_ofTaxonomy (taxonomy : Taxonomy) : (ofTaxonomy taxonomy).Knows [] [] := by
  constructor
  case indexed =>
    exact RuleSet.indexed_empty
  case slots =>
    intro r hr
    cases hr
  case occursIn_iff =>
    intro r
    exact Iff.rfl
  case exclusive_iff =>
    intro domain
    simp [ofTaxonomy, ExclusiveDomains.empty, ExclusiveDomains.contains]

variable {b : Rulebook} {learned builtin : List Rule} {r : Rule}

theorem contains_registerRule (b : Rulebook) (r : Rule) (domain : String) :
    (b.registerRule r).2.exclusive.contains domain = true ↔
      b.exclusive.contains domain = true ∨ (r.exclusive = true ∧ r.domain = domain) := by
  unfold registerRule
  simp only
  split
  · rename_i hexclusive
    rw [ExclusiveDomains.contains_insert]
    simp [hexclusive]
  · rename_i hexclusive
    simp [hexclusive]

theorem occursIn_registerRule_of_contains (h : b.rules.contains r = true) (x : Rule) :
    x.OccursIn (b.registerRule r).2.rules.all ↔ x.OccursIn b.rules.all := by
  unfold registerRule
  simp only [RuleSet.add_of_contains h]

theorem occursIn_registerRule_of_not_contains (h : ¬ b.rules.contains r = true) (x : Rule) :
    x.OccursIn (b.registerRule r).2.rules.all ↔
      x.OccursIn b.rules.all ∨ r.unsourced = x.unsourced := by
  unfold registerRule
  simp only [RuleSet.add_of_not_contains h]
  exact RuleSet.occursIn_push_iff b.rules r x

/-- If the set has the rule and no earlier learned rule is the same, it has a built-in one that
differs in its source alone. -/
theorem Knows.occursIn_of_contains (hb : b.Knows learned builtin)
    (hcontains : b.rules.contains r = true)
    (hnew : ¬ ((learned.eraseDupsBy Rule.same).any r.same) = true) : r.OccursIn builtin := by
  rcases (RuleSet.contains_iff hb.indexed r).mp hcontains with ⟨other, hmem, hsame⟩
  have hoccurs := (hb.occursIn_iff other).mp ⟨other, hmem, rfl⟩
  cases (Rule.occursIn_append other _ _).mp hoccurs with
  | inl hlearned =>
      rcases hlearned with ⟨l, hl, hsource⟩
      apply absurd _ hnew
      apply List.any_eq_true.mpr
      exact ⟨l, hl, Rule.same_trans (Rule.same_symm hsame)
        (Rule.same_symm (Rule.same_of_unsourced_eq hsource))⟩
  | inr hbuiltin =>
      rcases hbuiltin with ⟨l, hl, hsource⟩
      refine ⟨l, hl, ?_⟩
      have hsame' : r.same l = true :=
        Rule.same_trans (Rule.same_symm hsame)
          (Rule.same_symm (Rule.same_of_unsourced_eq hsource))
      exact (Rule.unsourced_eq_of_same (hb.slots l hl) hsame').symm

theorem Knows.contains_of_same_learned (hb : b.Knows learned builtin)
    (hold : (learned.eraseDupsBy Rule.same).any r.same = true) : b.rules.contains r = true := by
  rcases List.any_eq_true.mp hold with ⟨l, hl, hsame⟩
  have hoccurs : l.OccursIn b.rules.all := by
    rw [hb.occursIn_iff, Rule.occursIn_append]
    exact Or.inl ⟨l, hl, rfl⟩
  rcases hoccurs with ⟨other, hmem, hsource⟩
  apply (RuleSet.contains_iff hb.indexed r).mpr
  exact ⟨other, hmem, Rule.same_trans (Rule.same_of_unsourced_eq hsource) (Rule.same_symm hsame)⟩

theorem exclusive_iff_registerRule {rules more : List Rule}
    (hb : forall domain, b.exclusive.contains domain = true ↔
      exists r, r ∈ rules ∧ r.exclusive = true ∧ r.domain = domain)
    (hmore : forall x, x ∈ more ↔ x ∈ rules ∨ x = r) (domain : String) :
    (b.registerRule r).2.exclusive.contains domain = true ↔
      exists x, x ∈ more ∧ x.exclusive = true ∧ x.domain = domain := by
  rw [contains_registerRule, hb]
  simp only [hmore, or_and_right, exists_or, exists_eq_left]

theorem Knows.registerRule_learned (hb : b.Knows learned builtin) (r : Rule) :
    (b.registerRule r).2.Knows (learned ++ [r]) builtin := by
  constructor
  case indexed =>
    exact hb.indexed.add r
  case slots =>
    exact hb.slots
  case exclusive_iff =>
    apply exclusive_iff_registerRule hb.exclusive_iff
    intro x
    simp only [List.mem_append, List.mem_singleton]
    rw [or_right_comm]
  case occursIn_iff =>
    intro x
    rw [eraseDupsBy_snoc]
    by_cases hcontains : b.rules.contains r = true
    · rw [occursIn_registerRule_of_contains hcontains, hb.occursIn_iff]
      split
      · exact Iff.rfl
      · rename_i hnew
        have hoccurs := hb.occursIn_of_contains hcontains hnew
        simp only [Rule.occursIn_append, Rule.occursIn_singleton]
        constructor
        · intro h
          exact h.imp Or.inl id
        · intro h
          rcases h with (hlearned | hsource) | hbuiltin
          · exact Or.inl hlearned
          · exact Or.inr (Rule.occursIn_of_unsourced_eq hsource.symm hoccurs)
          · exact Or.inr hbuiltin
    · rw [occursIn_registerRule_of_not_contains hcontains, hb.occursIn_iff]
      split
      · rename_i hold
        exact absurd (hb.contains_of_same_learned hold) hcontains
      · simp only [Rule.occursIn_append, Rule.occursIn_singleton]
        rw [or_right_comm]

theorem Knows.registerRule_builtin (hb : b.Knows learned builtin) (hr : r.IsSlots) :
    (b.registerRule r).2.Knows learned (builtin ++ [r]) := by
  constructor
  case indexed =>
    exact hb.indexed.add r
  case slots =>
    intro x hx
    cases List.mem_append.mp hx with
    | inl hold => exact hb.slots x hold
    | inr hnew => exact List.mem_singleton.mp hnew ▸ hr
  case exclusive_iff =>
    apply exclusive_iff_registerRule hb.exclusive_iff
    intro x
    simp only [List.mem_append, List.mem_singleton, or_assoc]
  case occursIn_iff =>
    intro x
    rw [← List.append_assoc, Rule.occursIn_append, Rule.occursIn_singleton, ← hb.occursIn_iff]
    by_cases hcontains : b.rules.contains r = true
    · rw [occursIn_registerRule_of_contains hcontains]
      constructor
      · intro h
        exact Or.inl h
      · intro h
        cases h with
        | inl hold => exact hold
        | inr hsource =>
            rcases (RuleSet.contains_iff hb.indexed r).mp hcontains with ⟨other, hmem, hsame⟩
            exact ⟨other, hmem, (Rule.unsourced_eq_of_same hr hsame).trans hsource⟩
    · exact occursIn_registerRule_of_not_contains hcontains x

theorem Knows.register_learned (hb : b.Knows learned builtin) (rules : List Rule) :
    (b.register rules).2.Knows (learned ++ rules) builtin := by
  induction rules generalizing b learned with
  | nil =>
      rw [List.append_nil]
      exact hb
  | cons r rest ih =>
      rw [List.append_cons]
      exact ih (hb.registerRule_learned r)

theorem Knows.register_builtin (hb : b.Knows learned builtin) {rules : List Rule}
    (hrules : forall r, r ∈ rules -> r.IsSlots) :
    (b.register rules).2.Knows learned (builtin ++ rules) := by
  induction rules generalizing b builtin with
  | nil =>
      rw [List.append_nil]
      exact hb
  | cons r rest ih =>
      rw [List.append_cons]
      apply ih (hb.registerRule_builtin (hrules r List.mem_cons_self))
      intro x hx
      exact hrules x (List.mem_cons_of_mem r hx)

/-!
# Compilation
-/

theorem taxonomy_register (b : Rulebook) (rules : List Rule) :
    (b.register rules).2.taxonomy = b.taxonomy := by
  induction rules generalizing b with
  | nil => rfl
  | cons r rest ih => exact ih (b.registerRule r).2

theorem compiled_register (b : Rulebook) (rules : List Rule) :
    (b.register rules).2.compiled = b.compiled := by
  induction rules generalizing b with
  | nil => rfl
  | cons r rest ih => exact ih (b.registerRule r).2

theorem compileVerb_of_mem {verb : String} {arity : Nat} (h : (verb, arity) ∈ b.compiled) :
    (b.compileVerb verb arity).2 = b := by
  unfold compileVerb
  rw [if_pos (List.contains_iff_mem.mpr h)]

/-- A failure leaves the same rulebook as a verb without rules. -/
theorem compileVerb_of_not_mem {verb : String} {arity : Nat}
    (h : (verb, arity) ∉ b.compiled) :
    (b.compileVerb verb arity).2 =
      ({ b with compiled := b.compiled ++ [(verb, arity)] }.register
        (b.taxonomy.builtinRules (verb, arity))).2 := by
  have hcontains : ¬ b.compiled.contains (verb, arity) = true :=
    fun hmem => h (List.contains_iff_mem.mp hmem)
  unfold compileVerb Taxonomy.builtinRules
  rw [if_neg hcontains]
  cases hclassify : b.taxonomy.classify verb arity with
  | error fault => simp only [hclassify, register]
  | ok rules => simp only [hclassify]

theorem taxonomy_compileVerb (b : Rulebook) (verb : String) (arity : Nat) :
    (b.compileVerb verb arity).2.taxonomy = b.taxonomy := by
  by_cases h : (verb, arity) ∈ b.compiled
  · rw [compileVerb_of_mem h]
  · rw [compileVerb_of_not_mem h, taxonomy_register]

theorem mem_compiled_compileVerb_iff (b : Rulebook) (verb : String) (arity : Nat)
    (key : String × Nat) :
    key ∈ (b.compileVerb verb arity).2.compiled ↔ key ∈ b.compiled ∨ key = (verb, arity) := by
  by_cases h : (verb, arity) ∈ b.compiled
  · rw [compileVerb_of_mem h]
    constructor
    · intro hmem
      exact Or.inl hmem
    · intro hmem
      cases hmem with
      | inl hold => exact hold
      | inr heq => exact heq ▸ h
  · rw [compileVerb_of_not_mem h, compiled_register, List.mem_append, List.mem_singleton]

theorem Knows.of_mem_iff (hb : b.Knows learned builtin) {others : List Rule}
    (hothers : forall r, r ∈ others ↔ r ∈ builtin) : b.Knows learned others := by
  constructor
  case indexed =>
    exact hb.indexed
  case slots =>
    intro r hr
    exact hb.slots r ((hothers r).mp hr)
  case occursIn_iff =>
    intro r
    rw [hb.occursIn_iff]
    simp only [Rule.OccursIn, List.mem_append, hothers]
  case exclusive_iff =>
    intro domain
    rw [hb.exclusive_iff]
    simp only [List.mem_append, hothers]

/-- The rulebook knows the rules of the verbs that it has compiled, whatever verb comes next. -/
theorem Knows.compileVerb {met : List (String × Nat)}
    (hb : b.Knows learned (met.flatMap b.taxonomy.builtinRules))
    (hmet : forall key, key ∈ b.compiled ↔ key ∈ met) (verb : String) (arity : Nat) :
    (b.compileVerb verb arity).2.Knows learned
      ((met ++ [(verb, arity)]).flatMap b.taxonomy.builtinRules) := by
  by_cases h : (verb, arity) ∈ b.compiled
  · rw [compileVerb_of_mem h]
    apply hb.of_mem_iff
    intro r
    simp only [List.mem_flatMap, List.mem_append, List.mem_singleton, or_and_right, exists_or,
      exists_eq_left]
    constructor
    · intro hr
      cases hr with
      | inl hold => exact hold
      | inr hnew => exact ⟨(verb, arity), (hmet _).mp h, hnew⟩
    · intro hr
      exact Or.inl hr
  · rw [compileVerb_of_not_mem h, List.flatMap_append, List.flatMap_singleton]
    have hcompiled : ({ b with compiled := b.compiled ++ [(verb, arity)] } : Rulebook).Knows learned
        (met.flatMap b.taxonomy.builtinRules) :=
      ⟨hb.indexed, hb.slots, hb.occursIn_iff, hb.exclusive_iff⟩
    apply hcompiled.register_builtin
    intro r hr
    exact Taxonomy.isSlots_of_mem_builtinRules hr

end Rulebook
end EventCalculus

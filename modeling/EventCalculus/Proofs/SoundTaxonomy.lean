import EventCalculus.Proofs.Lookup
import EventCalculus.Rule.Taxonomy

/-!
# Taxonomies that make rules for every verb

Making rules can fail in two ways: a table gives a verb a domain that cannot be
named, or an entry with the completing template recognises a verb that completes
nothing.  A taxonomy whose tables avoid both makes rules for every verb.
-/

namespace EventCalculus

section
variable {verb domain : String}

theorem isFunctorText_of_domainAfter? {beginning : String}
    (h : domainAfter? verb beginning = some domain) : isFunctorText domain = true := by
  unfold domainAfter? at h
  simp only at h
  split at h
  · split at h
    · rename_i htext
      cases h
      exact htext
    · cases h
  · cases h

theorem exists_slotCompound_eq_ok {name : String} (h : isFunctorText name = true) (arity : Nat) :
    exists c, slotCompound name arity = .ok c := by
  unfold slotCompound Functor.ofText?
  rw [dif_pos h]
  exact ⟨_, rfl⟩

theorem exists_slotRule_eq_ok (hverb : isFunctorText verb = true)
    (hdomain : isFunctorText domain = true) (effect : Effect) (exclusive : Bool) (arity : Nat) :
    exists r, slotRule effect exclusive verb domain arity = .ok r := by
  rcases exists_slotCompound_eq_ok hverb arity with ⟨event, hevent⟩
  rcases exists_slotCompound_eq_ok hdomain arity with ⟨fluent, hfluent⟩
  rw [slotRule, hevent, hfluent]
  exact ⟨_, rfl⟩

theorem exists_singleton_eq_ok (hverb : isFunctorText verb = true)
    (hdomain : isFunctorText domain = true) (effect : Effect) (exclusive : Bool) (arity : Nat) :
    exists rules,
      (do return [← slotRule effect exclusive verb domain arity]) = Except.ok rules := by
  rcases exists_slotRule_eq_ok hverb hdomain effect exclusive arity with ⟨r, hr⟩
  rw [hr]
  exact ⟨_, rfl⟩

theorem isFunctorText_of_mem_completionVerbs {ended started : String}
    (h : (verb, ended, started) ∈ completionVerbs) :
    isFunctorText ended = true ∧ isFunctorText started = true := by
  cases h with
  | head => decide +kernel
  | tail _ hrest => cases hrest

/-- The template can make rules of the verb for the domain. -/
def Template.CanMake (t : Template) (verb domain : String) : Prop :=
  if t = .complete then (findValue? verb completionVerbs).isSome = true
  else isFunctorText domain = true

instance (t : Template) (verb domain : String) : Decidable (t.CanMake verb domain) := by
  unfold Template.CanMake
  infer_instance

theorem Template.CanMake.exists_rules {t : Template} (h : t.CanMake verb domain)
    (hverb : isFunctorText verb = true) (arity : Nat) :
    exists rules, t.rules verb domain arity = .ok rules := by
  cases t with
  | accumulate => exact exists_singleton_eq_ok hverb h .initiates false arity
  | terminate => exact exists_singleton_eq_ok hverb h .terminates false arity
  | replace => exact exists_singleton_eq_ok hverb h .initiates true arity
  | complete =>
      rcases Option.isSome_iff_exists.mp h with ⟨⟨ended, started⟩, hfind⟩
      rcases isFunctorText_of_mem_completionVerbs (mem_of_findValue?_eq_some hfind) with
        ⟨hended, hstarted⟩
      rcases exists_slotRule_eq_ok hverb hended .terminates false arity with ⟨first, hfirst⟩
      rcases exists_slotRule_eq_ok hverb hstarted .initiates false arity with ⟨second, hsecond⟩
      rw [rules, hfind]
      simp only [hfirst, hsecond]
      exact ⟨_, rfl⟩

/-- The entry can make rules of whatever it recognises. -/
def VerbPattern.IsSound (p : VerbPattern) : Prop :=
  match p.matcher with
  | .exact domains => forall entry, entry ∈ domains -> p.template.CanMake entry.1 entry.2
  | .leading _ => p.template ≠ .complete

instance (p : VerbPattern) : Decidable p.IsSound := by
  unfold VerbPattern.IsSound
  split <;> infer_instance

theorem VerbPattern.IsSound.canMake {p : VerbPattern} (h : p.IsSound)
    (hdomain : p.matcher.domain? verb = some domain) : p.template.CanMake verb domain := by
  unfold IsSound at h
  unfold VerbMatcher.domain? at hdomain
  cases hmatcher : p.matcher with
  | exact domains =>
      simp only [hmatcher] at h hdomain
      exact h (verb, domain) (mem_of_findValue?_eq_some hdomain)
  | leading beginnings =>
      simp only [hmatcher] at h hdomain
      rcases List.exists_of_findSome?_eq_some hdomain with ⟨beginning, _, hafter⟩
      rw [Template.CanMake, if_neg h]
      exact isFunctorText_of_domainAfter? hafter

end

namespace Taxonomy

/-- A taxonomy of sound entries makes rules for every verb, if only none. -/
theorem exists_classify_eq_ok {taxonomy : Taxonomy} (h : forall p, p ∈ taxonomy -> p.IsSound)
    {verb : String} (hverb : isFunctorText verb = true) (arity : Nat) :
    exists rules, taxonomy.classify verb arity = .ok rules := by
  unfold classify
  split
  · exact ⟨[], rfl⟩
  · split
    · exact ⟨[], rfl⟩
    · rename_i p hfind
      have hsome := List.find?_some hfind
      rcases Option.isSome_iff_exists.mp hsome with ⟨domain, hdomain⟩
      have hmake := (h p (List.mem_of_find?_eq_some hfind)).canMake hdomain
      rcases hmake.exists_rules hverb arity with ⟨rules, hrules⟩
      simp only [VerbPattern.rulesFor?, hdomain, hrules]
      exact ⟨_, rfl⟩

theorem isSound_of_mem_standard : forall p, p ∈ standard -> p.IsSound := by
  decide +kernel

end Taxonomy
end EventCalculus

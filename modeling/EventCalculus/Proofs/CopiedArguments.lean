import EventCalculus.Proofs.LinearPatterns
import EventCalculus.Proofs.ResetAnswers
import EventCalculus.Proofs.SingleEvent

/-!
# Built-in rules copy arguments

A built-in rule has the same slots in its event and in its fluent.  The slots are distinct variables
for every number of arguments, so the rule meets every event of its verb with that number, no other
event, and brings about the fluent of its domain with the arguments of the event.
-/

namespace EventCalculus

/-!
# Slots
-/

theorem toList_numberedVariable (n : Nat) :
    (numberedVariable n).text.toList = 'V' :: 'a' :: 'l' :: 'u' :: 'e' :: Nat.toDigits 10 n := by
  simp [numberedVariable, String.toList_append]

theorem numberedVariable_injective {m n : Nat}
    (h : (numberedVariable m).text = (numberedVariable n).text) : m = n := by
  have hchars := congrArg String.toList h
  rw [toList_numberedVariable, toList_numberedVariable] at hchars
  have hdigits : Nat.toDigits 10 m = Nat.toDigits 10 n := by simpa using hchars
  have hread := congrArg (fun digits => Nat.ofDigitChars 10 digits 0) hdigits
  simpa using hread

/-- A text that does not begin like a numbered variable is not its name. -/
theorem text_numberedVariable_ne {s : String} (h : s.toList.head? ≠ some 'V') (n : Nat) :
    (numberedVariable n).text ≠ s := by
  intro hs
  rw [← hs, toList_numberedVariable] at h
  exact h rfl

theorem isAnonymous_numberedVariable (n : Nat) : (numberedVariable n).isAnonymous = false :=
  beq_eq_false_iff_ne.mpr (text_numberedVariable_ne (by simp) n)

theorem areDistinct_slotVariables (arity : Nat) : AreDistinct (slotVariables arity) := by
  unfold slotVariables
  split
  case h_1 => exact ⟨fun v hv => absurd hv List.not_mem_nil, List.nodup_nil⟩
  case h_2 => exact ⟨by decide, by decide⟩
  case h_3 => exact ⟨by decide, by decide⟩
  case h_4 n =>
    constructor
    case named =>
      intro v hv
      rcases List.mem_cons.mp hv with rfl | hv
      · rfl
      · rcases List.mem_map.mp hv with ⟨i, _, rfl⟩
        exact isAnonymous_numberedVariable (i + 1)
    case nodup =>
      rw [List.map_cons, List.nodup_cons, List.map_map]
      constructor
      · intro hmem
        rcases List.mem_map.mp hmem with ⟨i, _, hname⟩
        exact text_numberedVariable_ne (by simp [subjectVariable]) (i + 1) hname
      · apply List.Nodup.map _ List.nodup_range
        intro i j hname
        exact Nat.succ.inj (numberedVariable_injective hname)

/-!
# Rules
-/

namespace Rule
variable {r : Rule} {verb : Functor} {arity : Nat}

/-- The rule meets the events of the verb with the number of arguments and no others.  What it
brings about is the fluent of its domain with the arguments of the event: an initiating rule derives
this fluent once, and a terminating one ends it and nothing else. -/
structure Copies (r : Rule) (verb : Functor) (arity : Nat) : Prop where
  domain : isFunctorText r.domain = true
  matches_iff : forall c,
    (r.event.matchCompound? c).isSome = true ↔ c.functor = verb ∧ c.arity = arity
  brings : forall e, e.description.functor = verb -> e.description.arity = arity ->
    r.fluentFor? e = some ⟨r.fluent.functor, e.description.args⟩
  initiates : r.effect = .initiates -> forall (s : Scenario) (limit : Option String) (e : Event),
    s.store.Reachable -> e ∈ s.store.events -> Scenario.isWithin limit e = true ->
      e.description.functor = verb -> e.description.arity = arity ->
        s.initiationsAt r limit e = [⟨⟨r.fluent.functor, e.description.args⟩, e⟩]
  terminates : r.effect = .terminates -> forall (e : Event) (fluent : Compound),
    e.description.isGround = true ->
      e.description.functor = verb -> e.description.arity = arity ->
        (r.terminatesAt fluent e = true ↔
          (⟨r.fluent.functor, e.description.args⟩ : Compound).same fluent = true)

/-- It is enough that event and fluent have the same distinct variables. -/
theorem copies_of_args {vars : List VariableName} (hvars : AreDistinct vars)
    (hverb : r.event.functor = verb) (hevent : r.event.args = vars.map .var)
    (hfluent : r.fluent.args = vars.map .var) (harity : r.event.arity = arity) :
    r.Copies verb arity := by
  have hbrings : forall e : Event, e.description.functor = verb -> e.description.arity = arity ->
      r.fluentFor? e = some ⟨r.fluent.functor, e.description.args⟩ := by
    intro e hfunctor hlength
    rcases Compound.exists_matchCompound?_of_vars hvars hevent (hverb.trans hfunctor.symm)
      (harity.trans hlength.symm) with ⟨b, hmatch, hassign⟩
    rw [fluentFor?, hmatch, Option.map_some, Compound.substitute, hfluent,
      Term.substituteAll_vars hvars.named hassign]
  constructor
  case domain => exact r.fluent.functor.valid
  case matches_iff =>
    intro c
    rw [Compound.isSome_matchCompound?_vars_iff hvars hevent, hverb, harity]
  case brings => exact hbrings
  case initiates =>
    intro _ s limit e hs he hlimit hfunctor hlength
    have hground : (⟨r.fluent.functor, e.description.args⟩ : Compound).isGround = true :=
      hs.isGround he
    rw [Scenario.initiationsAt_eq hs he hlimit, initiated?, hbrings e hfunctor hlength,
      Option.filter_some, if_pos hground]
    rfl
  case terminates =>
    intro _ e fluent hground hfunctor hlength
    have hcopy : (⟨r.fluent.functor, e.description.args⟩ : Compound).isGround = true := hground
    rw [terminatesAt, hbrings e hfunctor hlength]
    show (Compound.matchCompound? _ fluent).isSome = true ↔ _
    rw [Compound.matchCompound?_of_isGround hcopy, Option.isSome_ite]

end Rule

namespace Taxonomy
variable {verb : Functor} {arity : Nat} {rules : List Rule}

theorem IsSlotRule.copies {r : Rule} (h : IsSlotRule verb.text arity r) :
    r.Copies verb arity := by
  rcases Prod.mk.inj h.signature with ⟨hverb, harity⟩
  exact Rule.copies_of_args (areDistinct_slotVariables arity) (Functor.eq_of_text_eq hverb)
    h.args.left h.args.right harity

/-- A verb that is recognised has rules for every number of arguments but none. -/
theorem exists_classify_of_find? {taxonomy : Taxonomy} (h : forall p, p ∈ taxonomy -> p.IsSound)
    (hknown : (taxonomy.find? verb.text).isSome = true) (harity : arity ≠ 0) :
    exists rules, taxonomy.classify verb.text arity = .ok rules ∧ rules ≠ [] := by
  rcases Option.isSome_iff_exists.mp hknown with ⟨p, hfind⟩
  have hsome := List.find?_some hfind
  rcases Option.isSome_iff_exists.mp hsome with ⟨domain, hdomain⟩
  have hmake := (h p (List.mem_of_find?_eq_some hfind)).canMake hdomain
  rcases hmake.exists_rules verb.valid arity with ⟨made, hmade⟩
  rcases exists_rules_of_rules hmade arity with ⟨rules, hrules, hne⟩
  refine ⟨rules, ?_, hne⟩
  rw [classify, if_neg harity, hfind]
  simp only [VerbPattern.rulesFor?, hdomain, hrules]
  rfl

/-- The standard taxonomy makes rules of every verb that it recognises, for every number of
arguments, and each of them copies the arguments of the event into its fluent. -/
theorem standard_rules_copy_arguments
    (hknown : (standard.find? verb.text).isSome = true) (harity : 1 ≤ arity) :
    exists rules, standard.classify verb.text arity = .ok rules ∧ rules ≠ [] ∧
      forall r, r ∈ rules -> r.Copies verb arity := by
  rcases exists_classify_of_find? isSound_of_mem_standard hknown
    (Nat.one_le_iff_ne_zero.mp harity) with ⟨rules, hclassify, hne⟩
  refine ⟨rules, hclassify, hne, ?_⟩
  intro r hr
  exact (isSlotRule_of_classify hclassify hr).left.copies

/-- The verb with two rules. -/
def finishedLearning : Functor :=
  ⟨"finished_learning", by decide +kernel⟩

theorem standard_rules_copy_arguments_finishedLearning :
    (standard.find? finishedLearning.text).isSome = true ∧ 1 ≤ 4 ∧
      exists rules, standard.classify finishedLearning.text 4 = .ok rules ∧ rules ≠ [] ∧
        forall r, r ∈ rules -> r.Copies finishedLearning 4 := by
  have hknown : (standard.find? finishedLearning.text).isSome = true := by decide +kernel
  exact ⟨hknown, by decide, standard_rules_copy_arguments hknown (by decide)⟩

end Taxonomy
end EventCalculus

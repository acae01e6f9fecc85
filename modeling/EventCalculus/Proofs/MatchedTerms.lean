import EventCalculus.Proofs.Lookup
import EventCalculus.Proofs.RulebookGrowth
import EventCalculus.Proofs.Sameness

/-!
# What matching binds

Matching keeps the bindings that it extends, so the variable of the first argument of a pattern
stands for the first argument of whatever the pattern matches.  Built-in rules begin their events
and their fluents with the same variable: a fluent has the subject of its event.
-/

namespace EventCalculus

/-- The second bindings have all that the first ones have. -/
def Bindings.IsKeptBy (given b : Bindings) : Prop :=
  forall name t, given.get? name = some t -> b.get? name = some t

theorem Bindings.isKeptBy_refl (b : Bindings) : b.IsKeptBy b :=
  fun _ _ h => h

theorem Bindings.IsKeptBy.trans {a b c : Bindings} (hab : a.IsKeptBy b) (hbc : b.IsKeptBy c) :
    a.IsKeptBy c :=
  fun name t h => hbc name t (hab name t h)

namespace Term

/-- Only a variable without a term is given one. -/
theorem isKeptBy_of_bindVariable {v : VariableName} {t : Term} {given b : Bindings}
    (h : bindVariable v t given = some b) : given.IsKeptBy b := by
  unfold bindVariable at h
  split at h
  · cases h
    exact given.isKeptBy_refl
  · split at h
    · rename_i hnone
      cases h
      intro name u hu
      rw [OrderedMap.get?_insert, if_neg]
      · exact hu
      · intro hname
        rw [← hname, hnone] at hu
        cases hu
    · split at h
      · cases h
        exact given.isKeptBy_refl
      · cases h

mutual

theorem isKeptBy_of_matchFrom : (p t : Term) -> (given b : Bindings) ->
    matchFrom p t given = some b -> given.IsKeptBy b
  | .var _, _, _, _, h => isKeptBy_of_bindVariable h
  | .compound f ps, .compound g ts, given, b, h => by
      unfold matchFrom at h
      split at h
      · exact isKeptBy_of_matchAllFrom ps ts given b h
      · cases h
  | .compound _ _, .atom _, _, _, h => by cases h
  | .compound _ _, .number _, _, _, h => by cases h
  | .compound _ _, .text _, _, _, h => by cases h
  | .compound _ _, .var _, _, _, h => by cases h
  | .atom _, _, given, _, h => by
      unfold matchFrom at h
      split at h
      · cases h
        exact given.isKeptBy_refl
      · cases h
  | .number _, _, given, _, h => by
      unfold matchFrom at h
      split at h
      · cases h
        exact given.isKeptBy_refl
      · cases h
  | .text _, _, given, _, h => by
      unfold matchFrom at h
      split at h
      · cases h
        exact given.isKeptBy_refl
      · cases h

theorem isKeptBy_of_matchAllFrom : (ps ts : List Term) -> (given b : Bindings) ->
    matchAllFrom ps ts given = some b -> given.IsKeptBy b
  | [], [], given, _, h => by
      cases h
      exact given.isKeptBy_refl
  | [], _ :: _, _, _, h => by cases h
  | _ :: _, [], _, _, h => by cases h
  | p :: ps, t :: ts, given, b, h => by
      unfold matchAllFrom at h
      cases hhead : matchFrom p t given with
      | none =>
          rw [hhead] at h
          cases h
      | some extended =>
          rw [hhead] at h
          exact (isKeptBy_of_matchFrom p t given extended hhead).trans
            (isKeptBy_of_matchAllFrom ps ts extended b h)

end

theorem get?_of_bindVariable {v : VariableName} (hv : v.isAnonymous = false) {t : Term}
    {b : Bindings} (h : bindVariable v t OrderedMap.empty = some b) : b.get? v.text = some t := by
  rw [bindVariable, if_neg (by simp [hv])] at h
  have hnone : OrderedMap.empty.get? v.text = (none : Option Term) := rfl
  rw [hnone, Option.some.injEq] at h
  rw [← h, OrderedMap.get?_insert, if_pos rfl]

theorem isGround_eq_of_same {a b : Term} (h : a.same b = true) : a.isGround = b.isGround := by
  rw [← isGround_canonical, same_iff.mp h, isGround_canonical]

end Term

namespace Compound

/-- Compounds that match are matched from the first argument on. -/
theorem exists_of_matchCompound? {p c : Compound} {b : Bindings}
    (h : p.matchCompound? c = some b) {t : Term} (hp : p.subject? = some t) :
    exists u extended, c.subject? = some u ∧
      Term.matchFrom t u OrderedMap.empty = some extended ∧ extended.IsKeptBy b := by
  have hfunctor := functor_eq_of_matchCompound? h
  rcases p with ⟨f, ps⟩
  rcases c with ⟨g, ts⟩
  cases ps with
  | nil => cases hp
  | cons p ps =>
      cases hp
      simp only [matchCompound?, Term.matchTerm?, toTerm, Term.matchFrom] at h
      rw [if_pos hfunctor] at h
      cases ts with
      | nil => cases h
      | cons u ts =>
          unfold Term.matchAllFrom at h
          cases hhead : Term.matchFrom t u OrderedMap.empty with
          | none =>
              rw [hhead] at h
              cases h
          | some extended =>
              rw [hhead] at h
              exact ⟨u, extended, rfl, hhead, Term.isKeptBy_of_matchAllFrom ps ts extended b h⟩

/-- A pattern with a ground subject matches only compounds with this subject. -/
theorem exists_subject_of_matchCompound? {p c : Compound} {b : Bindings}
    (h : p.matchCompound? c = some b) {t : Term} (hp : p.subject? = some t)
    (hground : t.isGround = true) : exists u, c.subject? = some u ∧ t.same u = true := by
  rcases exists_of_matchCompound? h hp with ⟨u, extended, hu, hmatch, _⟩
  refine ⟨u, hu, ?_⟩
  rw [Term.matchFrom_of_isGround t u _ hground] at hmatch
  split at hmatch
  · assumption
  · cases hmatch

theorem isGround_of_subject? {c : Compound} (h : c.isGround = true) {t : Term}
    (ht : c.subject? = some t) : t.isGround = true := by
  rcases c with ⟨f, args⟩
  cases args with
  | nil => cases ht
  | cons u us =>
      cases ht
      simp only [isGround, toTerm, Term.isGround, Term.isGroundAll, Bool.and_eq_true] at h
      exact h.left

theorem subject?_substitute (c : Compound) (b : Bindings) :
    (c.substitute b).subject? = c.subject?.map (Term.substitute b) := by
  rw [subject?, substitute, Term.substituteAll_eq_map, List.head?_map]
  rfl

end Compound

namespace Taxonomy

theorem head?_slotVariables {arity : Nat} (h : arity ≠ 0) :
    (slotVariables arity).head? = some subjectVariable := by
  unfold slotVariables
  split
  · exact absurd rfl h
  · rfl
  · rfl
  · rfl

/-- What a built-in rule brings about has the subject of the event. -/
theorem subject?_of_matchCompound? {taxonomy : Taxonomy} {key : String × Nat} {r : Rule}
    (hr : r ∈ taxonomy.builtinRules key) {c : Compound} {b : Bindings}
    (h : r.event.matchCompound? c = some b) :
    exists t, c.subject? = some t ∧ (r.fluent.substitute b).subject? = some t := by
  rcases isSlotRule_of_mem_builtinRules hr with ⟨hrule, harity⟩
  have hsubject : forall d : Compound, d.args = (slotVariables key.2).map .var ->
      d.subject? = some (.var subjectVariable) := by
    intro d hd
    rw [Compound.subject?, hd, List.head?_map, head?_slotVariables harity]
    rfl
  rcases Compound.exists_of_matchCompound? h (hsubject _ hrule.args.left) with
    ⟨t, extended, ht, hmatch, hkept⟩
  have hbound := hkept _ t (Term.get?_of_bindVariable rfl hmatch)
  refine ⟨t, ht, ?_⟩
  rw [Compound.subject?_substitute, hsubject _ hrule.args.right, Option.map_some, Term.substitute,
    hbound]
  rfl

end Taxonomy
end EventCalculus

import EventCalculus.Proofs.Lookup
import EventCalculus.Term.Match

/-!
# Terms without infinite numbers

Matching binds variables to parts of a term, and substitution puts bound terms
into a pattern.  Neither makes a number, so no infinite one can come up unless it
was there before.
-/

namespace EventCalculus

namespace Number

/-- The number is not infinite. -/
def isFinite : Number -> Bool
  | .int _ => true
  | .float x => x.isFinite

end Number

namespace Term

mutual

/-- No infinite number occurs. -/
def isFinite : Term -> Bool
  | .number n => n.isFinite
  | .compound _ args => isFiniteAll args
  | .atom _ | .text _ | .var _ => true

/-- No infinite number occurs in any of the terms. -/
def isFiniteAll : List Term -> Bool
  | [] => true
  | t :: ts => isFinite t && isFiniteAll ts

end

end Term

namespace Compound

/-- No infinite number occurs. -/
def isFinite (c : Compound) : Bool :=
  c.toTerm.isFinite

end Compound

namespace Bindings

/-- No infinite number occurs in any of the bound terms. -/
def IsFinite (b : Bindings) : Prop :=
  forall name t, b.get? name = some t -> t.isFinite = true

theorem isFinite_empty : IsFinite OrderedMap.empty := by
  intro name t h
  cases h

theorem IsFinite.insert {b : Bindings} (hb : b.IsFinite) (name : String) {t : Term}
    (ht : t.isFinite = true) : IsFinite (b.insert name t) := by
  intro other u h
  rw [OrderedMap.get?_insert] at h
  split at h
  · cases h
    exact ht
  · exact hb other u h

end Bindings

namespace Term

theorem isFinite_bindVariable {v : VariableName} {t : Term} {given b : Bindings}
    (ht : t.isFinite = true) (hgiven : given.IsFinite)
    (h : bindVariable v t given = some b) : b.IsFinite := by
  unfold bindVariable at h
  split at h
  · cases h
    exact hgiven
  · split at h
    · cases h
      exact hgiven.insert v.text ht
    · split at h
      · cases h
        exact hgiven
      · cases h

mutual

theorem isFinite_matchFrom : (p t : Term) -> (given b : Bindings) -> t.isFinite = true ->
    given.IsFinite -> matchFrom p t given = some b -> b.IsFinite
  | .var _, _, _, _, ht, hgiven, h => isFinite_bindVariable ht hgiven h
  | .compound f ps, .compound g ts, given, b, ht, hgiven, h => by
      unfold matchFrom at h
      split at h
      · exact isFinite_matchAllFrom ps ts given b ht hgiven h
      · cases h
  | .compound _ _, .atom _, _, _, _, _, h => by cases h
  | .compound _ _, .number _, _, _, _, _, h => by cases h
  | .compound _ _, .text _, _, _, _, _, h => by cases h
  | .compound _ _, .var _, _, _, _, _, h => by cases h
  | .atom _, _, _, _, _, hgiven, h => by
      unfold matchFrom at h
      split at h
      · cases h
        exact hgiven
      · cases h
  | .number _, _, _, _, _, hgiven, h => by
      unfold matchFrom at h
      split at h
      · cases h
        exact hgiven
      · cases h
  | .text _, _, _, _, _, hgiven, h => by
      unfold matchFrom at h
      split at h
      · cases h
        exact hgiven
      · cases h

theorem isFinite_matchAllFrom : (ps ts : List Term) -> (given b : Bindings) ->
    isFiniteAll ts = true -> given.IsFinite -> matchAllFrom ps ts given = some b -> b.IsFinite
  | [], [], _, _, _, hgiven, h => by
      cases h
      exact hgiven
  | [], _ :: _, _, _, _, _, h => by cases h
  | _ :: _, [], _, _, _, _, h => by cases h
  | p :: ps, t :: ts, given, b, hts, hgiven, h => by
      simp only [isFiniteAll, Bool.and_eq_true] at hts
      unfold matchAllFrom at h
      cases hhead : matchFrom p t given with
      | none =>
          rw [hhead] at h
          cases h
      | some extended =>
          rw [hhead] at h
          have hextended := isFinite_matchFrom p t given extended hts.left hgiven hhead
          exact isFinite_matchAllFrom ps ts extended b hts.right hextended h

end

mutual

theorem isFinite_substitute : (b : Bindings) -> (t : Term) -> b.IsFinite ->
    t.isFinite = true -> (substitute b t).isFinite = true
  | b, .var v, hb, _ => by
      unfold substitute
      split
      · rfl
      · cases hbound : b.get? v.text with
        | none => rfl
        | some t => exact hb v.text t hbound
  | b, .compound _ args, hb, ht => isFiniteAll_substituteAll b args hb ht
  | _, .atom _, _, _ => rfl
  | _, .number _, _, ht => ht
  | _, .text _, _, _ => rfl

theorem isFiniteAll_substituteAll : (b : Bindings) -> (ts : List Term) -> b.IsFinite ->
    isFiniteAll ts = true -> isFiniteAll (substituteAll b ts) = true
  | _, [], _, _ => rfl
  | b, t :: ts, hb, hts => by
      simp only [isFiniteAll, Bool.and_eq_true] at hts
      simp only [substituteAll, isFiniteAll, Bool.and_eq_true]
      constructor
      · exact isFinite_substitute b t hb hts.left
      · exact isFiniteAll_substituteAll b ts hb hts.right

end

end Term

namespace Compound

theorem isFinite_substitute_of_matchCompound? {p c fluent : Compound} {b : Bindings}
    (hc : c.isFinite = true) (hfluent : fluent.isFinite = true)
    (h : p.matchCompound? c = some b) : (fluent.substitute b).isFinite = true :=
  Term.isFinite_substitute b fluent.toTerm
    (Term.isFinite_matchFrom p.toTerm c.toTerm _ b hc Bindings.isFinite_empty h) hfluent

end Compound
end EventCalculus

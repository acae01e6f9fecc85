import EventCalculus.Proofs.MatchedTerms
import Mathlib.Data.List.Forall2

/-!
# Linear patterns

A pattern whose arguments are distinct named variables compares nothing: it matches every compound
of its name with as many arguments, and each variable stands for the argument in its place.  The
slots of built-in rules are such arguments, and so are the two of recorded verbs.
-/

namespace EventCalculus

/-- The variables have names, and no two have the same one. -/
structure AreDistinct (vars : List VariableName) : Prop where
  named : forall v, v ∈ vars -> v.isAnonymous = false
  nodup : (vars.map VariableName.text).Nodup

theorem AreDistinct.tail {v : VariableName} {vars : List VariableName}
    (h : AreDistinct (v :: vars)) : AreDistinct vars :=
  ⟨fun w hw => h.named w (List.mem_cons_of_mem v hw), (List.nodup_cons.mp h.nodup).right⟩

/-- Each variable is bound to the term in its place. -/
def Bindings.Assign (b : Bindings) (vars : List VariableName) (ts : List Term) : Prop :=
  List.Forall₂ (fun v t => b.get? v.text = some t) vars ts

namespace Term

theorem bindVariable_of_fresh {v : VariableName} (hv : v.isAnonymous = false) (t : Term)
    {given : Bindings} (hfresh : given.get? v.text = none) :
    bindVariable v t given = some (given.insert v.text t) := by
  rw [bindVariable, if_neg (by simp [hv]), hfresh]

/-- Distinct variables that are not bound yet match any terms. -/
theorem exists_matchAllFrom_vars {vars : List VariableName} (hvars : AreDistinct vars)
    {ts : List Term} (hlength : vars.length = ts.length) {given : Bindings}
    (hfresh : forall v, v ∈ vars -> given.get? v.text = none) :
    exists b, matchAllFrom (vars.map .var) ts given = some b ∧ b.Assign vars ts := by
  induction vars generalizing ts given with
  | nil =>
      cases ts with
      | nil => exact ⟨given, rfl, .nil⟩
      | cons t ts => cases hlength
  | cons v vars ih =>
      cases ts with
      | nil => cases hlength
      | cons t ts =>
          have hbind := bindVariable_of_fresh (hvars.named v List.mem_cons_self) t
            (hfresh v List.mem_cons_self)
          have hrest : forall w, w ∈ vars -> (given.insert v.text t).get? w.text = none := by
            intro w hw
            rw [OrderedMap.get?_insert, if_neg]
            · exact hfresh w (List.mem_cons_of_mem v hw)
            · intro hname
              apply (List.nodup_cons.mp hvars.nodup).left
              exact hname ▸ List.mem_map_of_mem hw
          rcases ih hvars.tail (Nat.succ.inj hlength) hrest with ⟨b, hmatch, hassign⟩
          refine ⟨b, ?_, .cons ?_ hassign⟩
          · simp only [List.map_cons, matchAllFrom, matchFrom, hbind]
            exact hmatch
          · -- The rest of the match keeps what the first variable was bound to.
            apply isKeptBy_of_matchAllFrom _ _ _ _ hmatch
            rw [OrderedMap.get?_insert, if_pos rfl]

theorem substituteAll_vars {b : Bindings} {vars : List VariableName} {ts : List Term}
    (hnamed : forall v, v ∈ vars -> v.isAnonymous = false) (h : b.Assign vars ts) :
    substituteAll b (vars.map .var) = ts := by
  induction h with
  | nil => rfl
  | @cons v t vars ts hbound _ ih =>
      have hv := hnamed v List.mem_cons_self
      have hhead : substitute b (.var v) = t := by
        rw [substitute, if_neg (by simp [hv]), hbound]
        rfl
      have htail := ih fun w hw => hnamed w (List.mem_cons_of_mem v hw)
      rw [List.map_cons, substituteAll, hhead, htail]

end Term

namespace Compound
variable {p c : Compound} {vars : List VariableName}

theorem exists_matchCompound?_of_vars (hvars : AreDistinct vars) (hargs : p.args = vars.map .var)
    (hfunctor : p.functor = c.functor) (harity : p.arity = c.arity) :
    exists b, p.matchCompound? c = some b ∧ b.Assign vars c.args := by
  have hlength : vars.length = c.args.length := by
    have hargs' := congrArg List.length hargs
    rw [List.length_map] at hargs'
    exact hargs'.symm.trans harity
  have hfresh : forall v, v ∈ vars -> OrderedMap.empty.get? v.text = (none : Option Term) :=
    fun _ _ => rfl
  rcases Term.exists_matchAllFrom_vars hvars hlength hfresh with ⟨b, hmatch, hassign⟩
  refine ⟨b, ?_, hassign⟩
  rw [matchCompound?, Term.matchTerm?, toTerm, toTerm, Term.matchFrom, if_pos hfunctor, hargs]
  exact hmatch

theorem isSome_matchCompound?_vars_iff (hvars : AreDistinct vars)
    (hargs : p.args = vars.map .var) :
    (p.matchCompound? c).isSome = true ↔ c.functor = p.functor ∧ c.arity = p.arity := by
  constructor
  · intro h
    rcases Option.isSome_iff_exists.mp h with ⟨b, hb⟩
    exact ⟨(functor_eq_of_matchCompound? hb).symm, (arity_eq_of_matchCompound? hb).symm⟩
  · intro h
    rcases exists_matchCompound?_of_vars hvars hargs h.left.symm h.right.symm with ⟨b, hb, _⟩
    rw [hb]
    rfl

end Compound
end EventCalculus

import EventCalculus.Proofs.Lookup
import EventCalculus.Term.Match

/-!
# Terms up to numeric value

Two terms are the same when they have one canonical form.  Matching and
substitution commute with canonical forms, so everything that is decided by them
is decided alike for the same terms.
-/

namespace EventCalculus

theorem AtomName.eq_of_text_eq {m n : AtomName} (h : m.text = n.text) : m = n := by
  cases m
  cases n
  cases h
  rfl

theorem VariableName.eq_of_text_eq {v w : VariableName} (h : v.text = w.text) : v = w := by
  cases v
  cases w
  cases h
  rfl

theorem Functor.eq_of_text_eq {f g : Functor} (h : f.text = g.text) : f = g := by
  cases f
  cases g
  cases h
  rfl

theorem Number.canonical_canonical (n : Number) : n.canonical.canonical = n.canonical := by
  cases n with
  | int n => rfl
  | float x =>
      cases h : x.toInt? with
      | none => simp [Number.canonical, h]
      | some n => simp [Number.canonical, h]

namespace Term

mutual

theorem canonical_canonical : (t : Term) -> t.canonical.canonical = t.canonical
  | .atom _ | .text _ | .var _ => rfl
  | .number n => by
      simp only [canonical, Number.canonical_canonical]
  | .compound f args => by
      simp only [canonical, canonicalAll_canonicalAll args]

theorem canonicalAll_canonicalAll :
    (ts : List Term) -> canonicalAll (canonicalAll ts) = canonicalAll ts
  | [] => rfl
  | t :: ts => by
      simp only [canonicalAll, canonical_canonical t, canonicalAll_canonicalAll ts]

end

theorem same_iff {a b : Term} : a.same b = true ↔ a.canonical = b.canonical := by
  simp [same]

theorem same_canonical (a b : Term) : a.canonical.same b.canonical = a.same b := by
  simp [same, canonical_canonical]

mutual

theorem isGround_canonical : (t : Term) -> t.canonical.isGround = t.isGround
  | .atom _ | .number _ | .text _ | .var _ => rfl
  | .compound f args => by
      simp only [canonical, isGround, isGroundAll_canonicalAll args]

theorem isGroundAll_canonicalAll :
    (ts : List Term) -> isGroundAll (canonicalAll ts) = isGroundAll ts
  | [] => rfl
  | t :: ts => by
      simp only [canonicalAll, isGroundAll, isGround_canonical t, isGroundAll_canonicalAll ts]

end

end Term

/-!
# Bindings
-/

namespace Bindings

/-- The bindings with every term in canonical form, as bindings. -/
def canonical (b : Bindings) : Bindings :=
  ⟨b.canonicalEntries, by
    have hkeys : b.canonicalEntries.map Prod.fst = b.entries.map Prod.fst := by
      simp [canonicalEntries]
    rw [hkeys]
    exact b.nodup_keys⟩

theorem findValue?_canonicalEntries (name : String) (entries : List (String × Term)) :
    findValue? name (entries.map fun entry => (entry.1, entry.2.canonical)) =
      (findValue? name entries).map Term.canonical := by
  induction entries with
  | nil => rfl
  | cons entry rest ih =>
      by_cases h : entry.1 = name <;> simp [findValue?, h, ih]

theorem get?_canonical (b : Bindings) (name : String) :
    b.canonical.get? name = (b.get? name).map Term.canonical :=
  findValue?_canonicalEntries name b.entries

theorem insertEntry_canonicalEntries (name : String) (t : Term)
    (entries : List (String × Term)) :
    (insertEntry name t entries).map (fun entry => (entry.1, entry.2.canonical)) =
      insertEntry name t.canonical
        (entries.map fun entry => (entry.1, entry.2.canonical)) := by
  induction entries with
  | nil => rfl
  | cons entry rest ih =>
      by_cases h : entry.1 = name <;> simp [insertEntry, h, ih]

theorem canonical_insert (b : Bindings) (name : String) (t : Term) :
    canonical (b.insert name t) = b.canonical.insert name t.canonical := by
  simp only [canonical, canonicalEntries, OrderedMap.insert, OrderedMap.mk.injEq]
  exact insertEntry_canonicalEntries name t b.entries

theorem same_iff {a b : Bindings} :
    a.same b = true ↔ forall entry, entry ∈ a.canonicalEntries ↔ entry ∈ b.canonicalEntries := by
  unfold same
  simp only [Bool.and_eq_true, List.all_eq_true, List.contains_iff_mem]
  constructor
  · intro h entry
    rcases h with ⟨hab, hba⟩
    exact ⟨hab entry, hba entry⟩
  · intro h
    exact ⟨fun entry => (h entry).mp, fun entry => (h entry).mpr⟩

theorem same_refl (b : Bindings) : b.same b = true :=
  same_iff.mpr fun _ => Iff.rfl

theorem same_symm {a b : Bindings} (h : a.same b = true) : b.same a = true :=
  same_iff.mpr fun entry => (same_iff.mp h entry).symm

theorem same_trans {a b c : Bindings} (hab : a.same b = true) (hbc : b.same c = true) :
    a.same c = true :=
  same_iff.mpr fun entry => (same_iff.mp hab entry).trans (same_iff.mp hbc entry)

theorem same_of_canonical_eq {a b : Bindings} (h : a.canonical = b.canonical) :
    a.same b = true := by
  have hentries : a.canonicalEntries = b.canonicalEntries := congrArg OrderedMap.entries h
  rw [same_iff, hentries]
  intro entry
  exact Iff.rfl

end Bindings

/-!
# Matching and substitution
-/

namespace Term

theorem bindVariable_canonical (v : VariableName) (t : Term) (given : Bindings) :
    bindVariable v t.canonical given.canonical =
      (bindVariable v t given).map Bindings.canonical := by
  unfold bindVariable
  by_cases hv : v.isAnonymous
  · simp [hv]
  · rw [Bindings.get?_canonical]
    cases hbound : given.get? v.text with
    | none =>
        simp [hv, Bindings.canonical_insert]
    | some bound =>
        by_cases hsame : bound.same t <;> simp [hv, same_canonical, hsame]

mutual

theorem matchFrom_canonical : (p t : Term) -> (given : Bindings) ->
    matchFrom p.canonical t.canonical given.canonical =
      (matchFrom p t given).map Bindings.canonical
  | .var v, t, given => by
      simp only [canonical, matchFrom, bindVariable_canonical]
  | .compound f ps, t, given => by
      cases t with
      | compound g ts =>
          by_cases hfg : f = g
          · simp [canonical, matchFrom, hfg, matchAllFrom_canonical ps ts given]
          · simp [canonical, matchFrom, hfg]
      | atom n => rfl
      | number n => rfl
      | text s => rfl
      | var v => rfl
  | .atom n, t, given => by
      have hsame := same_canonical (.atom n) t
      simp only [canonical] at hsame
      simp only [canonical, matchFrom, hsame]
      split <;> rfl
  | .number n, t, given => by
      have hsame := same_canonical (.number n) t
      simp only [canonical] at hsame
      simp only [canonical, matchFrom, hsame]
      split <;> rfl
  | .text s, t, given => by
      have hsame := same_canonical (.text s) t
      simp only [canonical] at hsame
      simp only [canonical, matchFrom, hsame]
      split <;> rfl

theorem matchAllFrom_canonical : (ps ts : List Term) -> (given : Bindings) ->
    matchAllFrom (canonicalAll ps) (canonicalAll ts) given.canonical =
      (matchAllFrom ps ts given).map Bindings.canonical
  | [], [], _ => rfl
  | [], _ :: _, _ => rfl
  | _ :: _, [], _ => rfl
  | p :: ps, t :: ts, given => by
      have hhead := matchFrom_canonical p t given
      simp only [canonicalAll, matchAllFrom, hhead]
      cases matchFrom p t given with
      | none => rfl
      | some extended => exact matchAllFrom_canonical ps ts extended

end

mutual

theorem substitute_canonical (b : Bindings) : (t : Term) ->
    substitute b.canonical t.canonical = (substitute b t).canonical
  | .atom _ | .number _ | .text _ => rfl
  | .var v => by
      simp only [canonical, substitute, Bindings.get?_canonical]
      by_cases hv : v.isAnonymous
      · simp [hv, canonical]
      · cases hbound : b.get? v.text with
        | none => simp [hv, canonical]
        | some bound => simp [hv]
  | .compound f args => by
      simp only [canonical, substitute, substituteAll_canonicalAll b args]

theorem substituteAll_canonicalAll (b : Bindings) : (ts : List Term) ->
    substituteAll b.canonical (canonicalAll ts) = canonicalAll (substituteAll b ts)
  | [] => rfl
  | t :: ts => by
      simp only [canonicalAll, substituteAll, substitute_canonical b t,
        substituteAll_canonicalAll b ts]

end

/-!
A pattern without variables binds nothing: it meets exactly the terms that are
the same.
-/

mutual

theorem matchFrom_of_isGround : (p t : Term) -> (given : Bindings) -> p.isGround = true ->
    matchFrom p t given = if p.same t then some given else none
  | .var _, _, _, h => by
      simp [isGround] at h
  | .atom _, _, _, _ => rfl
  | .number _, _, _, _ => rfl
  | .text _, _, _, _ => rfl
  | .compound f ps, t, given, h => by
      cases t with
      | compound g ts =>
          have hargs := matchAllFrom_of_isGround ps ts given (by simpa [isGround] using h)
          by_cases hfg : f = g
          · simp [matchFrom, hfg, hargs, same, canonical]
          · simp [matchFrom, hfg, same, canonical]
      | atom n => simp [matchFrom, same, canonical]
      | number n => simp [matchFrom, same, canonical]
      | text s => simp [matchFrom, same, canonical]
      | var v => simp [matchFrom, same, canonical]

theorem matchAllFrom_of_isGround : (ps ts : List Term) -> (given : Bindings) ->
    isGroundAll ps = true ->
    matchAllFrom ps ts given =
      if canonicalAll ps = canonicalAll ts then some given else none
  | [], [], _, _ => rfl
  | [], _ :: _, _, _ => by
      simp [matchAllFrom, canonicalAll]
  | _ :: _, [], _, _ => by
      simp [matchAllFrom, canonicalAll]
  | p :: ps, t :: ts, given, h => by
      have hsplit : p.isGround = true ∧ isGroundAll ps = true := by
        simpa [isGroundAll] using h
      have hhead := matchFrom_of_isGround p t given hsplit.left
      by_cases hsame : p.same t
      · have htail := matchAllFrom_of_isGround ps ts given hsplit.right
        simp [matchAllFrom, hhead, hsame, htail, canonicalAll, same_iff.mp hsame]
      · have hne : ¬ p.canonical = t.canonical := fun heq => hsame (same_iff.mpr heq)
        simp [matchAllFrom, hhead, hsame, canonicalAll, hne]

end

end Term

/-!
# Compounds
-/

namespace Compound

@[simp] theorem arity_canonical (c : Compound) : c.canonical.arity = c.arity := by
  simp [arity, canonical, Term.canonicalAll_eq_map]

theorem toTerm_same (a b : Compound) : a.toTerm.same b.toTerm = a.same b := by
  rcases a with ⟨f, xs⟩
  rcases b with ⟨g, ys⟩
  simp [same, canonical, Term.same, toTerm, Term.canonical]

theorem same_iff {a b : Compound} : a.same b = true ↔ a.canonical = b.canonical := by
  simp [same]

theorem same_refl (a : Compound) : a.same a = true :=
  same_iff.mpr rfl

theorem same_symm {a b : Compound} (h : a.same b = true) : b.same a = true :=
  same_iff.mpr (same_iff.mp h).symm

theorem same_trans {a b c : Compound} (hab : a.same b = true) (hbc : b.same c = true) :
    a.same c = true :=
  same_iff.mpr ((same_iff.mp hab).trans (same_iff.mp hbc))

theorem functor_eq_of_same {a b : Compound} (h : a.same b = true) : a.functor = b.functor := by
  have hcanonical : a.canonical.functor = b.canonical.functor := by
    rw [same_iff.mp h]
  exact hcanonical

theorem arity_eq_of_same {a b : Compound} (h : a.same b = true) : a.arity = b.arity := by
  rw [← arity_canonical, same_iff.mp h, arity_canonical]

@[simp] theorem isGround_canonical (c : Compound) : c.canonical.isGround = c.isGround :=
  Term.isGround_canonical c.toTerm

theorem isGround_eq_of_same {a b : Compound} (h : a.same b = true) :
    a.isGround = b.isGround := by
  rw [← isGround_canonical, same_iff.mp h, isGround_canonical]

theorem matchCompound?_canonical (p c : Compound) :
    p.canonical.matchCompound? c.canonical = (p.matchCompound? c).map Bindings.canonical :=
  Term.matchFrom_canonical p.toTerm c.toTerm OrderedMap.empty

theorem substitute_canonical (b : Bindings) (c : Compound) :
    c.canonical.substitute b.canonical = (c.substitute b).canonical := by
  simp only [substitute, canonical, Term.substituteAll_canonicalAll]

/-- Patterns that are the same meet terms that are the same alike. -/
theorem map_canonical_matchCompound?_of_same {p q c d : Compound} (hpq : p.same q = true)
    (hcd : c.same d = true) :
    (p.matchCompound? c).map Bindings.canonical =
      (q.matchCompound? d).map Bindings.canonical := by
  rw [← matchCompound?_canonical, ← matchCompound?_canonical, same_iff.mp hpq, same_iff.mp hcd]

theorem isSome_matchCompound?_of_same {p q c d : Compound} (hpq : p.same q = true)
    (hcd : c.same d = true) :
    (p.matchCompound? c).isSome = (q.matchCompound? d).isSome := by
  have h := congrArg Option.isSome (map_canonical_matchCompound?_of_same hpq hcd)
  simpa using h

theorem matchCompound?_of_isGround {p : Compound} (h : p.isGround = true) (c : Compound) :
    p.matchCompound? c = if p.same c then some OrderedMap.empty else none := by
  have hmatch := Term.matchFrom_of_isGround p.toTerm c.toTerm OrderedMap.empty h
  rw [toTerm_same] at hmatch
  exact hmatch

theorem functor_eq_of_matchCompound? {p c : Compound} {b : Bindings}
    (h : p.matchCompound? c = some b) : p.functor = c.functor := by
  by_cases heq : p.functor = c.functor
  · exact heq
  · simp [matchCompound?, Term.matchTerm?, toTerm, Term.matchFrom, heq] at h

theorem length_eq_of_matchAllFrom {ps ts : List Term} {given b : Bindings}
    (h : Term.matchAllFrom ps ts given = some b) : ps.length = ts.length := by
  induction ps generalizing ts given with
  | nil =>
      cases ts with
      | nil => rfl
      | cons t ts => simp [Term.matchAllFrom] at h
  | cons p ps ih =>
      cases ts with
      | nil => simp [Term.matchAllFrom] at h
      | cons t ts =>
          rw [Term.matchAllFrom] at h
          cases hhead : Term.matchFrom p t given with
          | none => simp [hhead] at h
          | some extended =>
              rw [hhead] at h
              rw [List.length_cons, List.length_cons, ih h]

theorem arity_eq_of_matchCompound? {p c : Compound} {b : Bindings}
    (h : p.matchCompound? c = some b) : p.arity = c.arity := by
  have hfunctor := functor_eq_of_matchCompound? h
  simp [matchCompound?, Term.matchTerm?, toTerm, Term.matchFrom, hfunctor] at h
  exact length_eq_of_matchAllFrom h

@[simp] theorem functor_substitute (b : Bindings) (c : Compound) :
    (c.substitute b).functor = c.functor := rfl

@[simp] theorem arity_substitute (b : Bindings) (c : Compound) :
    (c.substitute b).arity = c.arity := by
  simp [arity, substitute, Term.substituteAll_eq_map]

end Compound
end EventCalculus

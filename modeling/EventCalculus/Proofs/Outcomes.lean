/-!
# Outcomes of steps that can fail

A sequence of steps succeeds only if each step does, so a success is taken apart
step by step.
-/

namespace EventCalculus

variable {ε α β : Type}

theorem exists_of_bind_eq_ok {x : Except ε α} {f : α -> Except ε β} {b : β}
    (h : x >>= f = .ok b) : exists a, x = .ok a ∧ f a = .ok b := by
  cases x with
  | error fault => cases h
  | ok a => exact ⟨a, rfl, h⟩

/-- A sequence of steps fails at its first step or behind it. -/
theorem exists_of_bind_eq_error {x : Except ε α} {f : α -> Except ε β} {fault : ε}
    (h : x >>= f = .error fault) :
    x = .error fault ∨ exists a, x = .ok a ∧ f a = .error fault := by
  cases x with
  | error first => exact Or.inl (congrArg Except.error (Except.error.inj h))
  | ok a => exact Or.inr ⟨a, rfl, h⟩

theorem exists_of_map_eq_ok {x : Except ε α} {f : α -> β} {b : β} (h : x.map f = .ok b) :
    exists a, x = .ok a ∧ f a = b := by
  cases x with
  | error fault => cases h
  | ok a => exact ⟨a, rfl, Except.ok.inj h⟩

theorem eq_error_of_map_eq_error {x : Except ε α} {f : α -> β} {fault : ε}
    (h : x.map f = .error fault) : x = .error fault := by
  cases x with
  | error first => exact congrArg Except.error (Except.error.inj h)
  | ok a => cases h

theorem exists_of_mapError_eq_ok {ε' : Type} {x : Except ε α} {f : ε -> ε'} {a : α}
    (h : x.mapError f = .ok a) : x = .ok a := by
  cases x with
  | error fault => cases h
  | ok b => exact congrArg Except.ok (Except.ok.inj h)

theorem exists_of_mapError_eq_error {ε' : Type} {x : Except ε α} {f : ε -> ε'} {fault : ε'}
    (h : x.mapError f = .error fault) : exists cause, x = .error cause ∧ f cause = fault := by
  cases x with
  | error cause => exact ⟨cause, rfl, Except.error.inj h⟩
  | ok a => cases h

theorem toOption_eq_some_iff {x : Except ε α} {a : α} : x.toOption = some a ↔ x = .ok a := by
  cases x with
  | error fault => simp [Except.toOption]
  | ok b => simp [Except.toOption]

/-- Both steps succeed with results that agree, or both fail alike. -/
inductive SameOutcome (agree : α -> β -> Prop) : Except ε α -> Except ε β -> Prop where
  | error (fault : ε) : SameOutcome agree (.error fault) (.error fault)
  | ok {a : α} {b : β} : agree a b -> SameOutcome agree (.ok a) (.ok b)

theorem sameOutcome_map_of_ok {γ : Type} {agree : α -> β -> Prop} {x : Except ε γ} {f : γ -> α}
    {g : γ -> β} (h : forall c, x = .ok c -> agree (f c) (g c)) :
    SameOutcome agree (x.map f) (x.map g) := by
  cases x with
  | error fault => exact .error fault
  | ok c => exact .ok (h c rfl)

theorem sameOutcome_map {γ : Type} {agree : α -> β -> Prop} (x : Except ε γ) {f : γ -> α}
    {g : γ -> β} (h : forall c, agree (f c) (g c)) : SameOutcome agree (x.map f) (x.map g) :=
  sameOutcome_map_of_ok fun c _ => h c

theorem map_eq_map_of_ok {γ : Type} {x : Except ε γ} {f g : γ -> α}
    (h : forall c, x = .ok c -> f c = g c) : x.map f = x.map g := by
  cases x with
  | error fault => rfl
  | ok c => exact congrArg Except.ok (h c rfl)

/-!
# Steps over a list
-/

section
variable {f : α -> Except ε β} {as : List α}

theorem exists_of_mapM_cons_eq_ok {a : α} {bs : List β} (h : (a :: as).mapM f = .ok bs) :
    exists b rest, f a = .ok b ∧ as.mapM f = .ok rest ∧ bs = b :: rest := by
  rw [List.mapM_cons] at h
  rcases exists_of_bind_eq_ok h with ⟨b, hb, hmore⟩
  rcases exists_of_bind_eq_ok hmore with ⟨rest, hrest, hbs⟩
  exact ⟨b, rest, hb, hrest, (Except.ok.inj hbs).symm⟩

theorem exists_of_mem_of_mapM_eq_ok {bs : List β} (h : as.mapM f = .ok bs) {b : β}
    (hb : b ∈ bs) : exists a, a ∈ as ∧ f a = .ok b := by
  induction as generalizing bs with
  | nil =>
      cases h
      cases hb
  | cons a rest ih =>
      rcases exists_of_mapM_cons_eq_ok h with ⟨first, others, hfirst, hothers, rfl⟩
      cases List.mem_cons.mp hb with
      | inl heq =>
          rw [heq]
          exact ⟨a, List.mem_cons_self, hfirst⟩
      | inr htail =>
          rcases ih hothers htail with ⟨a', ha', hread⟩
          exact ⟨a', List.mem_cons_of_mem a ha', hread⟩

theorem exists_of_mapM_eq_error {fault : ε} (h : as.mapM f = .error fault) :
    exists a, a ∈ as ∧ f a = .error fault := by
  induction as with
  | nil => cases h
  | cons a rest ih =>
      rw [List.mapM_cons] at h
      rcases exists_of_bind_eq_error h with hfirst | ⟨b, _, hmore⟩
      · exact ⟨a, List.mem_cons_self, hfirst⟩
      rcases exists_of_bind_eq_error hmore with hrest | ⟨others, _, hdone⟩
      · rcases ih hrest with ⟨a', ha', hfault⟩
        exact ⟨a', List.mem_cons_of_mem a ha', hfault⟩
      · cases hdone

theorem exists_of_mapM_eq_ok {bs : List β} (h : as.mapM f = .ok bs) {a : α} (ha : a ∈ as) :
    exists b, f a = .ok b := by
  induction as generalizing bs with
  | nil =>
      cases ha
  | cons first rest ih =>
      rcases exists_of_mapM_cons_eq_ok h with ⟨b, others, hfirst, hothers, _⟩
      cases List.mem_cons.mp ha with
      | inl heq =>
          rw [heq]
          exact ⟨b, hfirst⟩
      | inr htail => exact ih hothers htail

/-- What the results show is what the entries show, if it is so for each step. -/
theorem map_eq_map_of_mapM_eq_ok {γ : Type} {k : β -> γ} {g : α -> γ} {bs : List β}
    (h : as.mapM f = .ok bs) (hk : forall a b, f a = .ok b -> k b = g a) :
    bs.map k = as.map g := by
  induction as generalizing bs with
  | nil =>
      cases h
      rfl
  | cons a rest ih =>
      rcases exists_of_mapM_cons_eq_ok h with ⟨b, others, hb, hothers, rfl⟩
      rw [List.map_cons, List.map_cons, hk a b hb, ih hothers]

theorem mem_iff_of_mapM_eq_ok {bs : List β} (h : as.mapM f = .ok bs) (b : β) :
    b ∈ bs ↔ exists a, a ∈ as ∧ f a = .ok b := by
  constructor
  · intro hb
    exact exists_of_mem_of_mapM_eq_ok h hb
  · intro hmade
    rcases hmade with ⟨a, ha, hb⟩
    have himages : bs.map Except.ok = as.map f :=
      map_eq_map_of_mapM_eq_ok h fun _ _ hread => hread.symm
    have hmem : f a ∈ bs.map Except.ok := himages ▸ List.mem_map_of_mem ha
    rcases List.mem_map.mp hmem with ⟨other, hother, heq⟩
    rw [hb, Except.ok.injEq] at heq
    rw [← heq]
    exact hother

/-- Steps that undo what was done to each entry give the entries back. -/
theorem mapM_map_eq_ok {g : β -> α} {bs : List β} (h : forall b, b ∈ bs -> f (g b) = .ok b) :
    (bs.map g).mapM f = .ok bs := by
  induction bs with
  | nil => rfl
  | cons b rest ih =>
      rw [List.map_cons, List.mapM_cons, h b List.mem_cons_self,
        ih fun b' hb' => h b' (List.mem_cons_of_mem b hb')]
      rfl

/-- If every step succeeds, all of them do. -/
theorem mapM_eq_ok_filterMap (h : forall a, a ∈ as -> exists b, f a = .ok b) :
    as.mapM f = .ok (as.filterMap fun a => (f a).toOption) := by
  induction as with
  | nil => rfl
  | cons a rest ih =>
      rcases h a List.mem_cons_self with ⟨b, hb⟩
      have hrest := ih fun a' ha' => h a' (List.mem_cons_of_mem a ha')
      have hsome : (f a).toOption = some b := by
        rw [hb]
        rfl
      rw [List.mapM_cons, hb, hrest]
      simp only [List.filterMap_cons, hsome]
      rfl

end

end EventCalculus

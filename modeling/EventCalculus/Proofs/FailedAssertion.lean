import EventCalculus.Proofs.EngineHistory
import EventCalculus.Proofs.SnapshotRestore

/-!
# Assertions that fail

An assertion is refused before anything is changed, with one exception: the event is stored and its
verb counts as met before the rules of the verb are made.  If they cannot be made, the assertion
fails and both stay behind.  A taxonomy of sound entries makes rules for every verb, so there the
exception does not occur.
-/

namespace EventCalculus

/-- Rules are not made only on the first meeting, and the meeting counts. -/
theorem Rulebook.compileVerb_eq_error {b after : Rulebook} {verb : String} {arity : Nat}
    {cause : TaxonomyFault} (h : b.compileVerb verb arity = (.error cause, after)) :
    (verb, arity) ∉ b.compiled ∧ b.taxonomy.classify verb arity = .error cause ∧
      after = { b with compiled := b.compiled ++ [(verb, arity)] } := by
  unfold compileVerb at h
  split at h
  · cases (Prod.mk.inj h).left
  · rename_i hmet
    cases hclassify : b.taxonomy.classify verb arity with
    | error fault =>
        simp only [hclassify, Prod.mk.injEq, Except.error.injEq] at h
        rw [h.left]
        exact ⟨fun hmem => hmet (List.contains_iff_mem.mpr hmem), rfl, h.right.symm⟩
    | ok rules =>
        simp only [hclassify] at h
        cases (Prod.mk.inj h).left

namespace Engine

/-!
# Engines without a log
-/

section
variable {e : Engine}

theorem note_of_audit_eq_none (h : e.audit = none) (write : AuditLog -> AuditLog) :
    e.note write = e := by
  rcases e with ⟨store, rulebook, records, currentDate, audit⟩
  simp only at h
  subst h
  rfl

theorem noteFault_of_audit_eq_none (h : e.audit = none) (operation : String) (fault : Fault) :
    e.noteFault operation fault = e := by
  unfold noteFault
  split
  · exact note_of_audit_eq_none h _
  · rfl

theorem noteRules_of_audit_eq_none (h : e.audit = none) (rules added : List Rule) :
    e.noteRules rules added = e := by
  unfold noteRules
  induction rules with
  | nil => rfl
  | cons r rest ih =>
      rw [List.foldl_cons, note_of_audit_eq_none h]
      exact ih

theorem audit_storeEvent (h : e.audit = none) (c : Compound) (timestamp : String) :
    (e.storeEvent c timestamp).2.audit = none := by
  unfold storeEvent
  simp only
  split
  · exact h
  · rw [note_of_audit_eq_none]
    · exact h
    · exact h

theorem audit_assertEvent (h : e.audit = none) (description : Value) (moment : Moment) :
    (e.assertEvent description moment).2.audit = none := by
  unfold assertEvent
  split
  · rw [noteFault_of_audit_eq_none h]
    exact h
  · exact audit_storeEvent h _ _

theorem audit_keepRecord (h : e.audit = none) (record : Option RuleRecord) :
    (e.keepRecord record).audit = none := by
  cases record with
  | none => exact h
  | some r => exact h

theorem audit_learn (h : e.audit = none) (input : RuleInput) : (e.learn input).2.audit = none := by
  unfold learn
  split
  · rw [noteFault_of_audit_eq_none h]
    exact h
  · rename_i rules record _
    have hkept : (keepRecord { e with rulebook := (e.rulebook.register rules).2 } record).audit =
        none :=
      audit_keepRecord (e := { e with rulebook := (e.rulebook.register rules).2 }) h record
    simp only
    rw [noteRules_of_audit_eq_none hkept]
    exact hkept

theorem audit_reset (h : e.audit = none) : e.reset.audit = none := by
  show e.audit.map _ = none
  rw [h]
  rfl

theorem audit_perform (h : e.audit = none) (call : Call) : (e.perform call).audit = none := by
  cases call with
  | tell input =>
      cases input with
      | event description moment => exact audit_assertEvent h description moment
      | rules input => exact audit_learn h input
  | reset => exact audit_reset h

theorem audit_performAll (h : e.audit = none) (calls : List Call) :
    (e.performAll calls).audit = none := by
  induction calls generalizing e with
  | nil => exact h
  | cons call rest ih => exact ih (audit_perform h call)

/-!
# What a failure leaves
-/

/-- The engine with an event whose rules were not made. -/
def withoutRules (e : Engine) (c : Compound) (timestamp : String) : Engine :=
  { e with
    store := (e.store.push c timestamp).2
    rulebook :=
      { e.rulebook with compiled := e.rulebook.compiled ++ [(c.functor.text, c.arity)] } }

/-- No step of the preparation asks the taxonomy. -/
theorem prepareEvent_ne_taxonomy (e : Engine) (description : Value) (moment : Moment)
    (cause : TaxonomyFault) : e.prepareEvent description moment ≠ .error (.taxonomy cause) := by
  intro h
  rcases exists_of_bind_eq_error h with h | ⟨v, _, h⟩
  · rcases exists_of_mapError_eq_error h with ⟨_, _, hfault⟩
    cases hfault
  rcases exists_of_bind_eq_error h with h | ⟨timestamp, _, h⟩
  · rcases exists_of_mapError_eq_error h with ⟨_, _, hfault⟩
    cases hfault
  rcases exists_of_bind_eq_error h with h | ⟨t, _, h⟩
  · rcases exists_of_mapError_eq_error h with ⟨_, _, hfault⟩
    cases hfault
  rcases exists_of_bind_eq_error h with h | ⟨c, _, h⟩
  · rcases exists_of_mapError_eq_error h with ⟨_, _, hfault⟩
    cases hfault
  · cases h

/-- Storing an event fails only if the rules of its verb cannot be made on the first meeting. -/
theorem storeEvent_eq_error {c : Compound} {timestamp : String} {fault : Fault} {after : Engine}
    (h : e.storeEvent c timestamp = (.error fault, after)) :
    exists cause, fault = .taxonomy cause ∧ (c.functor.text, c.arity) ∉ e.rulebook.compiled ∧
      e.rulebook.taxonomy.classify c.functor.text c.arity = .error cause ∧
      after = e.withoutRules c timestamp := by
  unfold storeEvent at h
  have hverb : (e.store.push c timestamp).1.verb = c.functor.text := rfl
  simp only [hverb] at h
  cases hcompile : e.rulebook.compileVerb c.functor.text c.arity with
  | mk outcome rulebook =>
      cases outcome with
      | ok rules =>
          rw [hcompile] at h
          cases (Prod.mk.inj h).left
      | error cause =>
          rw [hcompile] at h
          simp only [Prod.mk.injEq, Except.error.injEq] at h
          rcases Rulebook.compileVerb_eq_error hcompile with ⟨hmet, hclassify, hrulebook⟩
          refine ⟨cause, h.left.symm, hmet, hclassify, ?_⟩
          rw [← h.right, hrulebook]
          rfl

/-- An assertion fails when it is prepared and changes nothing, or the rules of its verb cannot be
made on the first meeting. -/
theorem assertEvent_eq_error (haudit : e.audit = none) {description : Value} {moment : Moment}
    {fault : Fault} {after : Engine}
    (h : e.assertEvent description moment = (.error fault, after)) :
    (e.prepareEvent description moment = .error fault ∧ after = e) ∨
      exists c timestamp cause, fault = .taxonomy cause ∧
        e.prepareEvent description moment = .ok (c, timestamp) ∧
        (c.functor.text, c.arity) ∉ e.rulebook.compiled ∧
        e.rulebook.taxonomy.classify c.functor.text c.arity = .error cause ∧
        after = e.withoutRules c timestamp := by
  cases hprepare : e.prepareEvent description moment with
  | error reason =>
      unfold assertEvent at h
      rw [hprepare] at h
      simp only [noteFault_of_audit_eq_none haudit, Prod.mk.injEq, Except.error.injEq] at h
      rw [h.left]
      exact Or.inl ⟨rfl, h.right.symm⟩
  | ok fact =>
      rcases fact with ⟨c, timestamp⟩
      rw [assertEvent_of_ok e hprepare] at h
      rcases storeEvent_eq_error h with ⟨cause, hfault, hmet, hclassify, hafter⟩
      exact Or.inr ⟨c, timestamp, cause, hfault, rfl, hmet, hclassify, hafter⟩

end

/-- An assertion that fails leaves no trace, unless it fails because the rules of its verb cannot
be made.  Then the event is stored, and its verb counts as met with this number of arguments; a
taxonomy of sound entries never does that. -/
theorem failed_assertion_leaves_no_trace {date : Moment} {maxDepth : Int} {taxonomy : Taxonomy}
    {start : Engine} (hstart : create date maxDepth taxonomy none = .ok start) (calls : List Call)
    {description : Value} {moment : Moment} {fault : Fault} {after : Engine}
    (h : (start.performAll calls).assertEvent description moment = (.error fault, after)) :
    ((forall cause, fault ≠ .taxonomy cause) -> after = start.performAll calls) ∧
    (forall cause, fault = .taxonomy cause -> exists c timestamp,
      (start.performAll calls).prepareEvent description moment = .ok (c, timestamp) ∧
      (c.functor.text, c.arity) ∉ (start.performAll calls).rulebook.compiled ∧
      taxonomy.classify c.functor.text c.arity = .error cause ∧
      after = (start.performAll calls).withoutRules c timestamp) ∧
    ((forall p, p ∈ taxonomy -> p.IsSound) -> after = start.performAll calls) := by
  have haudit : (start.performAll calls).audit = none := by
    apply audit_performAll
    rcases exists_of_map_eq_ok hstart with ⟨currentDate, _, rfl⟩
    rfl
  have htaxonomy : (start.performAll calls).rulebook.taxonomy = taxonomy := by
    rw [((descends_create hstart).performAll calls).taxonomy, taxonomy_create hstart]
  rcases assertEvent_eq_error haudit h with
    ⟨hprepare, hafter⟩ | ⟨c, timestamp, cause, hfault, hprepare, hmet, hclassify, hafter⟩
  · refine ⟨fun _ => hafter, ?_, fun _ => hafter⟩
    intro cause hcause
    rw [hcause] at hprepare
    exact absurd hprepare (prepareEvent_ne_taxonomy _ _ _ cause)
  · rw [htaxonomy] at hclassify
    refine ⟨fun hother => absurd hfault (hother cause), ?_, ?_⟩
    · intro other hother
      rw [hfault, Fault.taxonomy.injEq] at hother
      rw [← hother]
      exact ⟨c, timestamp, hprepare, hmet, hclassify, hafter⟩
    · intro hsound
      rcases Taxonomy.exists_classify_eq_ok hsound c.functor.valid c.arity with ⟨rules, hrules⟩
      rw [hclassify] at hrules
      cases hrules

end Engine

namespace Residence

/-- A move to a place that is not said. -/
def moveSomewhere : Value :=
  .term (Compound.toTerm ⟨movedTo, [alice, .var recordObject]⟩)

end Residence

namespace Engine

theorem failed_assertion_leaves_no_trace_residence :
    create (.date Residence.firstDay) EventStore.defaultMaxDepth Taxonomy.standard none =
        .ok Residence.engine ∧
      (forall p, p ∈ Taxonomy.standard -> p.IsSound) ∧
      exists fault after,
        (Residence.engine.performAll Residence.relearning).assertEvent Residence.moveSomewhere
          (.date Residence.firstDay) = (.error fault, after) ∧
        after = Residence.engine.performAll Residence.relearning := by
  have hcreate : create (.date Residence.firstDay) EventStore.defaultMaxDepth Taxonomy.standard
      none = .ok Residence.engine := rfl
  have hfails : ((Residence.engine.performAll Residence.relearning).assertEvent
      Residence.moveSomewhere (.date Residence.firstDay)).1.toOption = none := by
    decide +kernel
  refine ⟨hcreate, Taxonomy.isSound_of_mem_standard, ?_⟩
  cases hassert : (Residence.engine.performAll Residence.relearning).assertEvent
      Residence.moveSomewhere (.date Residence.firstDay) with
  | mk outcome after =>
      cases outcome with
      | ok id =>
          rw [hassert] at hfails
          cases hfails
      | error fault =>
          rcases failed_assertion_leaves_no_trace hcreate Residence.relearning hassert with
            ⟨_, _, hsound⟩
          exact ⟨fault, after, rfl, hsound Taxonomy.isSound_of_mem_standard⟩

/-- The domain of the verb cannot be named.  The assertion fails, the event stays, and the same
assertion succeeds the second time. -/
theorem failed_assertion_leaves_event :
    create (.date Residence.firstDay) EventStore.defaultMaxDepth Archive.unnamedTaxonomy none =
        .ok Archive.unnamedEngine ∧
      exists fault after,
        Archive.unnamedEngine.assertEvent (.text "seen(alice)") (.text "2024-01-01") =
            (.error fault, after) ∧
          Archive.unnamedEngine.store.size = 0 ∧ after.store.size = 1 ∧
          after.rulebook.compiled = [("seen", 1)] ∧
          (after.assertEvent (.text "seen(alice)") (.text "2024-01-01")).1 = .ok 2 := by
  have hfails : (Archive.unnamedEngine.assertEvent (.text "seen(alice)")
      (.text "2024-01-01")).1.toOption = none := by
    decide +kernel
  have hafter : (Archive.unnamedEngine.assertEvent (.text "seen(alice)")
      (.text "2024-01-01")).2.store.size = 1 := by
    decide +kernel
  have hcompiled : (Archive.unnamedEngine.assertEvent (.text "seen(alice)")
      (.text "2024-01-01")).2.rulebook.compiled = [("seen", 1)] := by
    decide +kernel
  have hagain : ((Archive.unnamedEngine.assertEvent (.text "seen(alice)")
      (.text "2024-01-01")).2.assertEvent (.text "seen(alice)") (.text "2024-01-01")).1.toOption =
        some 2 := by
    decide +kernel
  refine ⟨rfl, ?_⟩
  generalize hassert : Archive.unnamedEngine.assertEvent (.text "seen(alice)")
    (.text "2024-01-01") = result at hfails hafter hcompiled hagain
  rcases result with ⟨outcome, after⟩
  cases outcome with
  | ok id => cases hfails
  | error fault =>
      exact ⟨fault, after, rfl, rfl, hafter, hcompiled, toOption_eq_some_iff.mp hagain⟩

end Engine
end EventCalculus

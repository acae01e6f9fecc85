import EventCalculus.Proofs.EngineHistory

/-!
# One register for three readers

The engine, the compiler and the evaluator each refer to a register of exclusive domains.  The
compiler writes to the one that it refers to, and a reset makes a new register, fills it from the
rules that survive and hands it to the other two.  Here the references are explicit.  Every run
leaves them at one register, which shows the exclusive rules in force whatever rules a taxonomy
makes, and the rulebook of an engine is what this register and the rules come to.
-/

namespace EventCalculus

/-!
# Registers by reference
-/

namespace ExclusiveDomains

/-- The register that a reference stands for. -/
def read (registers : List ExclusiveDomains) (reference : Nat) : ExclusiveDomains :=
  (registers[reference]?).getD empty

/-- Makes the domain of an exclusive rule exclusive in the register of a reference. -/
def enter (reference : Nat) (registers : List ExclusiveDomains) (r : Rule) :
    List ExclusiveDomains :=
  if r.exclusive then registers.modify reference fun s => s.insert r.domain else registers

variable {registers : List ExclusiveDomains} {reference : Nat}

theorem length_enter (r : Rule) : (enter reference registers r).length = registers.length := by
  unfold enter
  split
  · exact List.length_modify _ _ _
  · rfl

theorem read_enter (h : reference < registers.length) (r : Rule) :
    read (enter reference registers r) reference =
      if r.exclusive then (read registers reference).insert r.domain
      else read registers reference := by
  unfold enter read
  split
  · rw [List.getElem?_modify_eq, List.getElem?_eq_getElem h]
    rfl
  · rfl

theorem length_foldl_enter (rules : List Rule) :
    (rules.foldl (enter reference) registers).length = registers.length := by
  induction rules generalizing registers with
  | nil => rfl
  | cons r rest ih => rw [List.foldl_cons, ih, length_enter]

theorem read_foldl_enter (h : reference < registers.length) (rules : List Rule) :
    read (rules.foldl (enter reference) registers) reference =
      rules.foldl (fun s r => if r.exclusive then s.insert r.domain else s)
        (read registers reference) := by
  induction rules generalizing registers with
  | nil => rfl
  | cons r rest ih =>
      have hlength : reference < (enter reference registers r).length := by
        rw [length_enter]
        exact h
      rw [List.foldl_cons, List.foldl_cons, ih hlength, read_enter h]

theorem read_append_empty : read (registers ++ [empty]) registers.length = empty := by
  rw [read, List.getElem?_concat_length]
  rfl

end ExclusiveDomains

/-- The rules in force, the verbs met, all registers made so far, and the references that the
engine, the compiler and the evaluator hold. -/
structure SharedRulebook where
  rules : RuleSet
  compiled : List (String × Nat)
  registers : List ExclusiveDomains
  engine : Nat
  compiler : Nat
  evaluator : Nat

namespace SharedRulebook

open ExclusiveDomains (read enter)

/-- No rules, and one register for all. -/
def fresh : SharedRulebook :=
  ⟨RuleSet.empty, [], [ExclusiveDomains.empty], 0, 0, 0⟩

/-- The compiler registers a rule, and its domain in the register that the compiler refers to. -/
def registerRule (w : SharedRulebook) (r : Rule) : SharedRulebook :=
  { w with
    rules := (w.rules.add r).2
    registers := enter w.compiler w.registers r }

def register (w : SharedRulebook) (rules : List Rule) : SharedRulebook :=
  rules.foldl registerRule w

/-- Registers the rules that are made of a verb when it is met for the first time. -/
def meet (w : SharedRulebook) (key : String × Nat) (made : List Rule) : SharedRulebook :=
  if w.compiled.contains key then
    w
  else
    { w with compiled := w.compiled ++ [key] }.register made

/-- Drops learned rules and all meetings, and moves everybody to a new register. -/
def reset (w : SharedRulebook) : SharedRulebook :=
  let rules := w.rules.discardLearned.2
  let reference := w.registers.length
  { rules := rules
    compiled := []
    registers := rules.all.foldl (enter reference) (w.registers ++ [ExclusiveDomains.empty])
    engine := reference
    compiler := reference
    evaluator := reference }

/-- Something that changes the rules in force.  The rules of a verb are whatever was made of it. -/
inductive Step where
  | meet (key : String × Nat) (made : List Rule)
  | register (rules : List Rule)
  | reset

def perform (w : SharedRulebook) : Step -> SharedRulebook
  | .meet key made => w.meet key made
  | .register rules => w.register rules
  | .reset => w.reset

def performAll (w : SharedRulebook) (steps : List Step) : SharedRulebook :=
  steps.foldl perform w

/-- The register of the engine shows the exclusive rules, and the others refer to equal ones. -/
structure Mirrors (w : SharedRulebook) : Prop where
  exclusive_iff : forall domain, (read w.registers w.engine).contains domain = true ↔
    Rule.MakeExclusive w.rules.all domain
  compiler : read w.registers w.compiler = read w.registers w.engine
  evaluator : read w.registers w.evaluator = read w.registers w.engine

/-!
# What the references come to
-/

/-- The references lead to one register, and with it to the rulebook. -/
structure Shows (w : SharedRulebook) (b : Rulebook) : Prop where
  rules : w.rules = b.rules
  compiled : w.compiled = b.compiled
  exclusive : read w.registers w.engine = b.exclusive
  engine : w.engine < w.registers.length
  compiler : w.compiler = w.engine
  evaluator : w.evaluator = w.engine

variable {w : SharedRulebook} {b : Rulebook}

theorem shows_fresh (taxonomy : Taxonomy) : fresh.Shows (Rulebook.ofTaxonomy taxonomy) := by
  constructor
  case engine => exact Nat.zero_lt_one
  all_goals rfl

theorem Shows.registerRule (h : w.Shows b) (r : Rule) :
    (w.registerRule r).Shows (b.registerRule r).2 := by
  constructor
  case rules =>
    show (w.rules.add r).2 = (b.rules.add r).2
    rw [h.rules]
  case compiled => exact h.compiled
  case exclusive =>
    show read (enter w.compiler w.registers r) w.engine = _
    rw [h.compiler, ExclusiveDomains.read_enter h.engine, h.exclusive]
    rfl
  case engine =>
    show w.engine < (enter w.compiler w.registers r).length
    rw [ExclusiveDomains.length_enter]
    exact h.engine
  case compiler => exact h.compiler
  case evaluator => exact h.evaluator

theorem Shows.register (h : w.Shows b) (rules : List Rule) :
    (w.register rules).Shows (b.register rules).2 := by
  induction rules generalizing w b with
  | nil => exact h
  | cons r rest ih => exact ih (h.registerRule r)

theorem Shows.of_met (h : w.Shows b) (key : String × Nat) :
    Shows { w with compiled := w.compiled ++ [key] } { b with compiled := b.compiled ++ [key] } :=
  ⟨h.rules, congrArg (· ++ [key]) h.compiled, h.exclusive, h.engine, h.compiler, h.evaluator⟩

theorem Shows.compileVerb (h : w.Shows b) (verb : String) (arity : Nat) :
    (w.meet (verb, arity) (b.taxonomy.builtinRules (verb, arity))).Shows
      (b.compileVerb verb arity).2 := by
  unfold meet
  rw [h.compiled]
  split
  · rename_i hmem
    rw [Rulebook.compileVerb_of_mem (List.contains_iff_mem.mp hmem)]
    exact h
  · rename_i hmem
    rw [Rulebook.compileVerb_of_not_mem fun hmet => hmem (List.contains_iff_mem.mpr hmet)]
    have hmet := h.of_met (verb, arity)
    rw [h.compiled] at hmet
    exact hmet.register _

theorem Shows.reset (h : w.Shows b) : w.reset.Shows b.reset.2 := by
  have hlength : w.registers.length < (w.registers ++ [ExclusiveDomains.empty]).length := by
    rw [List.length_append]
    exact Nat.lt_succ_self _
  constructor
  case rules =>
    show w.rules.discardLearned.2 = b.rules.discardLearned.2
    rw [h.rules]
  case compiled => rfl
  case exclusive =>
    show read (w.rules.discardLearned.2.all.foldl (enter w.registers.length)
        (w.registers ++ [ExclusiveDomains.empty])) w.registers.length =
      Rulebook.exclusiveDomains b.rules.discardLearned.2
    rw [ExclusiveDomains.read_foldl_enter hlength, ExclusiveDomains.read_append_empty, h.rules]
    rfl
  case engine =>
    show w.registers.length < (w.rules.discardLearned.2.all.foldl (enter w.registers.length)
      (w.registers ++ [ExclusiveDomains.empty])).length
    rw [ExclusiveDomains.length_foldl_enter]
    exact hlength
  case compiler => rfl
  case evaluator => rfl

theorem Shows.mirrors (h : w.Shows b) (hb : b.Mirrors) : w.Mirrors := by
  constructor
  · intro domain
    rw [h.exclusive, h.rules]
    exact hb.exclusive_iff domain
  · rw [h.compiler]
  · rw [h.evaluator]

/-- Rules of any making keep some rulebook in view whose register mirrors its rules. -/
theorem exists_shows_perform (h : exists b, w.Shows b ∧ b.Mirrors) (step : Step) :
    exists b, (w.perform step).Shows b ∧ b.Mirrors := by
  rcases h with ⟨b, hshows, hmirrors⟩
  cases step with
  | meet key made =>
      show exists b, (w.meet key made).Shows b ∧ b.Mirrors
      unfold meet
      split
      · exact ⟨b, hshows, hmirrors⟩
      · have hmet : ({ b with compiled := b.compiled ++ [key] } : Rulebook).Mirrors :=
          ⟨hmirrors.indexed, hmirrors.exclusive_iff⟩
        exact ⟨_, (hshows.of_met key).register made, hmet.register made⟩
  | register rules =>
      exact ⟨_, hshows.register rules, hmirrors.register rules⟩
  | reset =>
      exact ⟨_, hshows.reset, (Rulebook.complete_reset b).toMirrors⟩

theorem mirrors_performAll (steps : List Step) : (fresh.performAll steps).Mirrors := by
  have hrun : forall (w : SharedRulebook), (exists b, w.Shows b ∧ b.Mirrors) ->
      exists b, (w.performAll steps).Shows b ∧ b.Mirrors := by
    induction steps with
    | nil =>
        intro w h
        exact h
    | cons step rest ih =>
        intro w h
        exact ih (w.perform step) (exists_shows_perform h step)
  rcases hrun fresh ⟨_, shows_fresh [], Rulebook.mirrors_ofTaxonomy []⟩ with ⟨b, hshows, hmirrors⟩
  exact hshows.mirrors hmirrors

end SharedRulebook

/-!
# Engines
-/

namespace Engine

open ExclusiveDomains (read)

/-- What a call to an engine of this start does to the rules in force, if anything. -/
def step? (start : Engine) : Call -> Option SharedRulebook.Step
  | .tell (.event description moment) =>
      match start.prepareEvent description moment with
      | .ok (c, _) => some (.meet (c.functor.text, c.arity)
          (start.rulebook.taxonomy.builtinRules (c.functor.text, c.arity)))
      | .error _ => none
  | .tell (.rules input) => some (.register (lessonRules input))
  | .reset => some .reset

def steps (start : Engine) (calls : List Call) : List SharedRulebook.Step :=
  calls.filterMap start.step?

variable {start e : Engine} {w : SharedRulebook}

theorem Descends.shows_perform (h : Descends start e) (hw : w.Shows e.rulebook) (call : Call) :
    (w.performAll (start.step? call).toList).Shows (e.perform call).rulebook := by
  cases call with
  | tell input =>
      cases input with
      | event description moment =>
          have hprepare := prepareEvent_eq_of_maxDepth h.maxDepth description moment
          show SharedRulebook.Shows _ (e.assertEvent description moment).2.rulebook
          unfold step?
          cases hfact : start.prepareEvent description moment with
          | error fault =>
              have hunlogged := e.unlogged_assertEvent_of_error (hprepare.trans hfact)
              rw [rulebook_eq_of_unlogged_eq hunlogged]
              simp only [hfact]
              exact hw
          | ok fact =>
              rw [assertEvent_of_ok e (hprepare.trans hfact), rulebook_storeEvent,
                ← h.taxonomy]
              simp only [hfact]
              exact hw.compileVerb fact.1.functor.text fact.1.arity
      | rules input =>
          show SharedRulebook.Shows _ (e.learn input).2.rulebook
          rw [rulebook_learn]
          exact hw.register (lessonRules input)
  | reset =>
      show SharedRulebook.Shows _ e.reset.rulebook
      rw [rulebook_reset]
      exact hw.reset

theorem Descends.shows_performAll (h : Descends start e) (hw : w.Shows e.rulebook)
    (calls : List Call) :
    (w.performAll (start.steps calls)).Shows (e.performAll calls).rulebook := by
  induction calls generalizing e w with
  | nil => exact hw
  | cons call rest ih =>
      have hsteps : w.performAll (start.steps (call :: rest)) =
          (w.performAll (start.step? call).toList).performAll (start.steps rest) := by
        rw [steps, List.filterMap_cons]
        cases start.step? call with
        | none => rfl
        | some step => rfl
      rw [hsteps]
      exact ih (h.perform call) (h.shows_perform hw call)

/-- The register of exclusive domains shows the exclusive rules in force.  The references of the
engine, the compiler and the evaluator lead to this one register, and to one that shows the rules
also where the rules of a verb are not made by a table of verbs. -/
theorem exclusive_mirrors_rules {date : Moment} {maxDepth : Int} {taxonomy : Taxonomy}
    {audit : Option AuditLog} (hstart : create date maxDepth taxonomy audit = .ok start)
    (calls : List Call) :
    (forall domain, (start.performAll calls).rulebook.exclusive.contains domain = true ↔
      Rule.MakeExclusive (start.performAll calls).rulebook.rules.all domain) ∧
    (SharedRulebook.fresh.performAll (start.steps calls)).Shows
      (start.performAll calls).rulebook ∧
    forall steps, (SharedRulebook.fresh.performAll steps).Mirrors := by
  have h := descends_create hstart
  have hfresh : SharedRulebook.fresh.Shows start.rulebook := by
    rcases exists_of_map_eq_ok hstart with ⟨currentDate, _, rfl⟩
    exact SharedRulebook.shows_fresh taxonomy
  constructor
  · exact (h.performAll calls).complete.exclusive_iff
  constructor
  · exact h.shows_performAll hfresh calls
  · exact SharedRulebook.mirrors_performAll

end Engine

namespace Residence

/-- A learned rule and a built-in one make the same domain exclusive; the reset drops one. -/
def relocating : List Engine.Call :=
  [.tell tellRule, .tell tellParis, .reset, .tell tellRome]

end Residence

namespace Engine

theorem exclusive_mirrors_rules_relocating :
    create (.date Residence.firstDay) EventStore.defaultMaxDepth Taxonomy.standard none =
        .ok Residence.engine ∧
      (forall domain,
        (Residence.engine.performAll Residence.relocating).rulebook.exclusive.contains domain =
            true ↔
          Rule.MakeExclusive
            (Residence.engine.performAll Residence.relocating).rulebook.rules.all domain) ∧
      (SharedRulebook.fresh.performAll (Residence.engine.steps Residence.relocating)).Shows
        (Residence.engine.performAll Residence.relocating).rulebook ∧
      forall steps, (SharedRulebook.fresh.performAll steps).Mirrors := by
  have hcreate : create (.date Residence.firstDay) EventStore.defaultMaxDepth Taxonomy.standard
      none = .ok Residence.engine := rfl
  exact ⟨hcreate, exclusive_mirrors_rules hcreate Residence.relocating⟩

end Engine
end EventCalculus

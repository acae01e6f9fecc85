import EventCalculus.Proofs.Chronology

/-!
# Intervals of a sampled status

`intervalsFrom` opens and closes intervals along ascending times at which a
status is sampled.  If the status is constant between neighbouring times, a time
lies in exactly one interval when the status is true there and in none when it is
false.
-/

namespace EventCalculus

/-- The status at a time as the last sample tells it; `before` is the status ahead of all. -/
def sampled (holds : String -> Bool) (before : Bool) : List String -> String -> Bool
  | [], _ => before
  | point :: rest, time =>
      if time < point then before else sampled holds (holds point) rest time

/-- The status changes only at the points, and is false before the first of them. -/
structure ChangesOnlyAt (holds : String -> Bool) (points : List String) : Prop where
  before : forall time, (forall point, point ∈ points -> time < point) -> holds time = false
  between : forall time point, point ∈ points -> point ≤ time ->
    (forall other, other ∈ points -> other ≤ time -> other ≤ point) -> holds time = holds point

theorem sampled_eq_of_constant (holds : String -> Bool) (time : String) (before : Bool)
    {points : List String} (hsorted : points.Pairwise (· < ·))
    (hbefore : (forall point, point ∈ points -> time < point) -> holds time = before)
    (hbetween : forall point, point ∈ points -> point ≤ time ->
      (forall other, other ∈ points -> other ≤ time -> other ≤ point) ->
        holds time = holds point) :
    sampled holds before points time = holds time := by
  induction points generalizing before with
  | nil =>
      exact (hbefore fun _ h => absurd h List.not_mem_nil).symm
  | cons point rest ih =>
      rw [List.pairwise_cons] at hsorted
      unfold sampled
      by_cases hlt : time < point
      · rw [if_pos hlt]
        symm
        apply hbefore
        intro other hother
        rcases List.mem_cons.mp hother with rfl | hrest
        · exact hlt
        · exact lt_trans hlt (hsorted.left other hrest)
      · have hle : point ≤ time := not_lt.mp hlt
        rw [if_neg hlt]
        apply ih (holds point) hsorted.right
        · intro hafter
          apply hbetween point List.mem_cons_self hle
          intro other hother hotherle
          rcases List.mem_cons.mp hother with rfl | hrest
          · exact le_refl other
          · exact absurd (hafter other hrest) (not_lt.mpr hotherle)
        · intro last hlast hlastle hgreatest
          apply hbetween last (List.mem_cons_of_mem point hlast) hlastle
          intro other hother hotherle
          rcases List.mem_cons.mp hother with rfl | hrest
          · exact le_of_lt (hsorted.left last hlast)
          · exact hgreatest other hrest hotherle

theorem ChangesOnlyAt.sampled_eq {holds : String -> Bool} {points : List String}
    (h : ChangesOnlyAt holds points) (hsorted : points.Pairwise (· < ·)) (time : String) :
    sampled holds false points time = holds time :=
  sampled_eq_of_constant holds time false hsorted (h.before time)
    fun point hpoint hle hgreatest => h.between time point hpoint hle hgreatest

theorem sampled_of_lt (holds : String -> Bool) (before : Bool) {points : List String}
    {time : String} (h : forall point, point ∈ points -> time < point) :
    sampled holds before points time = before := by
  cases points with
  | nil => rfl
  | cons point rest =>
      rw [sampled, if_pos (h point List.mem_cons_self)]

/-- A point at which the status stays as it was tells nothing new. -/
theorem sampled_cons_of_eq {holds : String -> Bool} {before : Bool} {point time : String}
    {rest : List String} (hafter : forall other, other ∈ rest -> point < other)
    (h : holds point = before) :
    sampled holds before (point :: rest) time = sampled holds before rest time := by
  rw [sampled, h]
  by_cases hlt : time < point
  · rw [if_pos hlt, sampled_of_lt]
    intro other hother
    exact lt_trans hlt (hafter other hother)
  · rw [if_neg hlt]

/-!
# Counting the intervals around a time
-/

theorem Interval.contains_iff (i : Interval) (time : String) :
    i.contains time = true ↔ i.start ≤ time ∧ forall stop, i.stop = some stop -> time < stop := by
  rcases i with ⟨fluent, start, stop⟩
  cases stop with
  | none =>
      simp only [contains, Bool.and_true, decide_eq_true_eq, reduceCtorEq, false_implies,
        implies_true, and_true]
  | some stop =>
      simp only [contains, Bool.and_eq_true, decide_eq_true_eq, Option.some.injEq, forall_eq']

variable {fluent : Compound} {holds : String -> Bool}

theorem start_mem_of_mem_intervalsFrom {i : Interval} {points : List String}
    {start : Option String} (hi : i ∈ intervalsFrom fluent holds start points) :
    start = some i.start ∨ i.start ∈ points := by
  fun_induction intervalsFrom fluent holds start points with
  | case1 =>
      cases hi
  | case2 begun =>
      rw [List.mem_singleton.mp hi]
      exact Or.inl rfl
  | case3 point rest hpoint ih =>
      rcases ih hi with heq | hmem
      · cases heq
        exact Or.inr List.mem_cons_self
      · exact Or.inr (List.mem_cons_of_mem point hmem)
  | case4 point rest hpoint ih =>
      rcases ih hi with heq | hmem
      · cases heq
      · exact Or.inr (List.mem_cons_of_mem point hmem)
  | case5 point rest begun hpoint ih =>
      rcases ih hi with heq | hmem
      · exact Or.inl heq
      · exact Or.inr (List.mem_cons_of_mem point hmem)
  | case6 point rest begun hpoint ih =>
      rcases List.mem_cons.mp hi with rfl | hi
      · exact Or.inl rfl
      · rcases ih hi with heq | hmem
        · cases heq
        · exact Or.inr (List.mem_cons_of_mem point hmem)

theorem countP_contains_of_lt {time : String} {points : List String} {start : Option String}
    (hstart : forall begun, start = some begun -> time < begun)
    (hpoints : forall point, point ∈ points -> time < point) :
    (intervalsFrom fluent holds start points).countP (fun i => i.contains time) = 0 := by
  apply List.countP_eq_zero.mpr
  intro i hi hcontains
  have hle : i.start ≤ time := ((i.contains_iff time).mp hcontains).left
  rcases start_mem_of_mem_intervalsFrom hi with heq | hmem
  · exact absurd (hstart i.start heq) (not_lt.mpr hle)
  · exact absurd (hpoints i.start hmem) (not_lt.mpr hle)

/-- A closed interval around the time is the only one if the points that remain come later. -/
theorem countP_contains_closed {time begun point : String} {rest : List String}
    (hbegun : begun ≤ time) (hrest : forall other, other ∈ rest -> point < other) :
    (⟨fluent, begun, some point⟩ :: intervalsFrom fluent holds none rest).countP
        (fun i => i.contains time) =
      if time < point then 1
      else (intervalsFrom fluent holds none rest).countP fun i => i.contains time := by
  rw [List.countP_cons]
  have hcontains : (⟨fluent, begun, some point⟩ : Interval).contains time = true ↔
      time < point := by
    rw [Interval.contains_iff]
    constructor
    · intro h
      exact h.right point rfl
    · intro hlt
      refine ⟨hbegun, ?_⟩
      intro stop hstop
      cases hstop
      exact hlt
  by_cases hlt : time < point
  · rw [if_pos (hcontains.mpr hlt), if_pos hlt, countP_contains_of_lt]
    · intro begun h
      cases h
    · intro other hother
      exact lt_trans hlt (hrest other hother)
  · rw [if_neg (fun h => hlt (hcontains.mp h)), if_neg hlt]
    rfl

theorem countP_contains_intervalsFrom {time : String} {points : List String}
    {start : Option String} (hsorted : points.Pairwise (· < ·))
    (hstart : forall begun, start = some begun -> begun ≤ time) :
    (intervalsFrom fluent holds start points).countP (fun i => i.contains time) =
      (sampled holds start.isSome points time).toNat := by
  fun_induction intervalsFrom fluent holds start points with
  | case1 =>
      rfl
  | case2 begun =>
      have hcontains : (⟨fluent, begun, none⟩ : Interval).contains time = true :=
        (Interval.contains_iff _ time).mpr ⟨hstart begun rfl, by intro stop h; cases h⟩
      rw [List.countP_singleton, hcontains]
      rfl
  | case3 point rest hpoint ih =>
      rw [List.pairwise_cons] at hsorted
      rw [sampled, hpoint]
      by_cases hlt : time < point
      · -- The interval that opens here and all later ones start after the time.
        rw [if_pos hlt, countP_contains_of_lt]
        · rfl
        · intro begun hbegun
          cases hbegun
          exact hlt
        · intro other hother
          exact lt_trans hlt (hsorted.left other hother)
      · rw [if_neg hlt]
        apply ih hsorted.right
        intro begun hbegun
        cases hbegun
        exact not_lt.mp hlt
  | case4 point rest hpoint ih =>
      rw [List.pairwise_cons] at hsorted
      have hfalse : holds point = false := by simpa using hpoint
      rw [ih hsorted.right hstart]
      exact congrArg Bool.toNat (sampled_cons_of_eq hsorted.left hfalse).symm
  | case5 point rest begun hpoint ih =>
      rw [List.pairwise_cons] at hsorted
      rw [ih hsorted.right hstart]
      exact congrArg Bool.toNat (sampled_cons_of_eq hsorted.left hpoint).symm
  | case6 point rest begun hpoint ih =>
      rw [List.pairwise_cons] at hsorted
      rw [countP_contains_closed (hstart begun rfl) hsorted.left, sampled, hpoint]
      by_cases hlt : time < point
      · rw [if_pos hlt, if_pos hlt]
        rfl
      · rw [if_neg hlt, if_neg hlt]
        exact ih hsorted.right (by intro begun h; cases h)

/-- A time lies in one interval if the status is true there, and else in none. -/
theorem ChangesOnlyAt.countP_contains {points : List String} (h : ChangesOnlyAt holds points)
    (hsorted : points.Pairwise (· < ·)) (time : String) :
    (intervalsFrom fluent holds none points).countP (fun i => i.contains time) =
      (holds time).toNat := by
  rw [countP_contains_intervalsFrom hsorted (by intro begun h; cases h)]
  exact congrArg Bool.toNat (h.sampled_eq hsorted time)

/-!
# The shape of the intervals
-/

theorem fluent_of_mem_intervalsFrom {i : Interval} {points : List String}
    {start : Option String} (hi : i ∈ intervalsFrom fluent holds start points) :
    i.fluent = fluent := by
  fun_induction intervalsFrom fluent holds start points with
  | case1 => cases hi
  | case2 begun => rw [List.mem_singleton.mp hi]
  | case3 point rest hpoint ih => exact ih hi
  | case4 point rest hpoint ih => exact ih hi
  | case5 point rest begun hpoint ih => exact ih hi
  | case6 point rest begun hpoint ih =>
      rcases List.mem_cons.mp hi with rfl | hi
      · rfl
      · exact ih hi

/-- An interval ends after its start, at a point where the status is false. -/
theorem stop_of_mem_intervalsFrom {i : Interval} {points : List String} {start : Option String}
    (hsorted : points.Pairwise (· < ·))
    (hstart : forall begun, start = some begun -> forall point, point ∈ points -> begun < point)
    (hi : i ∈ intervalsFrom fluent holds start points) {stop : String}
    (hstop : i.stop = some stop) : i.start < stop ∧ stop ∈ points ∧ holds stop = false := by
  fun_induction intervalsFrom fluent holds start points with
  | case1 =>
      cases hi
  | case2 begun =>
      rw [List.mem_singleton.mp hi] at hstop
      cases hstop
  | case3 point rest hpoint ih =>
      rw [List.pairwise_cons] at hsorted
      have hopen : forall begun, some point = some begun -> forall other, other ∈ rest ->
          begun < other := by
        intro begun hbegun
        cases hbegun
        exact hsorted.left
      rcases ih hsorted.right hopen hi with ⟨hlt, hmem, hfalse⟩
      exact ⟨hlt, List.mem_cons_of_mem point hmem, hfalse⟩
  | case4 point rest hpoint ih =>
      rw [List.pairwise_cons] at hsorted
      rcases ih hsorted.right (by intro begun h; cases h) hi with ⟨hlt, hmem, hfalse⟩
      exact ⟨hlt, List.mem_cons_of_mem point hmem, hfalse⟩
  | case5 point rest begun hpoint ih =>
      rw [List.pairwise_cons] at hsorted
      have hopen : forall other, some begun = some other -> forall next, next ∈ rest ->
          other < next :=
        fun other hother next hnext => hstart other hother next (List.mem_cons_of_mem point hnext)
      rcases ih hsorted.right hopen hi with ⟨hlt, hmem, hfalse⟩
      exact ⟨hlt, List.mem_cons_of_mem point hmem, hfalse⟩
  | case6 point rest begun hpoint ih =>
      rw [List.pairwise_cons] at hsorted
      rcases List.mem_cons.mp hi with rfl | hi
      · cases hstop
        exact ⟨hstart begun rfl stop List.mem_cons_self, List.mem_cons_self, hpoint⟩
      · rcases ih hsorted.right (by intro begun h; cases h) hi with ⟨hlt, hmem, hfalse⟩
        exact ⟨hlt, List.mem_cons_of_mem point hmem, hfalse⟩

/-- Every interval but the last ends before the next one starts. -/
theorem pairwise_intervalsFrom {points : List String} (start : Option String)
    (hsorted : points.Pairwise (· < ·)) :
    (intervalsFrom fluent holds start points).Pairwise fun i j =>
      exists stop, i.stop = some stop ∧ stop < j.start := by
  fun_induction intervalsFrom fluent holds start points with
  | case1 => exact List.Pairwise.nil
  | case2 begun => exact List.pairwise_singleton _ _
  | case3 point rest hpoint ih => exact ih hsorted.of_cons
  | case4 point rest hpoint ih => exact ih hsorted.of_cons
  | case5 point rest begun hpoint ih => exact ih hsorted.of_cons
  | case6 point rest begun hpoint ih =>
      rw [List.pairwise_cons] at hsorted ⊢
      refine ⟨?_, ih hsorted.right⟩
      intro j hj
      refine ⟨point, rfl, ?_⟩
      rcases start_mem_of_mem_intervalsFrom hj with heq | hmem
      · cases heq
      · exact hsorted.left j.start hmem

end EventCalculus

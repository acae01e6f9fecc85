/-!
# Lists without repeats

Queries and timelines drop what repeats an earlier entry, where repeating is some
comparison of entries.  This is `List.eraseDupsBy`; the lemmas below say which
entries stay, and that the first one of its kind stays.
-/

namespace EventCalculus

variable {α β : Type}

theorem foldl_distinct_eq_loop (r : α -> α -> Bool) (xs seen : List α) :
    xs.foldl (fun seen x => if seen.any (r x) then seen else seen ++ [x]) seen =
      List.eraseDupsBy.loop r xs seen.reverse := by
  induction xs generalizing seen with
  | nil =>
      simp [List.eraseDupsBy.loop]
  | cons x rest ih =>
      rw [List.foldl_cons, ih, List.eraseDupsBy.loop, List.any_reverse]
      cases seen.any (r x) <;> simp

theorem foldl_distinct_eq_eraseDupsBy (r : α -> α -> Bool) (xs : List α) :
    xs.foldl (fun seen x => if seen.any (r x) then seen else seen ++ [x]) [] =
      xs.eraseDupsBy r :=
  foldl_distinct_eq_loop r xs []

theorem eraseDupsBy_snoc (r : α -> α -> Bool) (xs : List α) (x : α) :
    (xs ++ [x]).eraseDupsBy r =
      if (xs.eraseDupsBy r).any (r x) then xs.eraseDupsBy r else xs.eraseDupsBy r ++ [x] := by
  rw [← foldl_distinct_eq_eraseDupsBy, ← foldl_distinct_eq_eraseDupsBy, List.foldl_append]
  rfl

/-- Induction along the removal of repeats: every filtered tail may be used. -/
theorem filterInduction {motive : List α -> Prop} (nil : motive [])
    (cons : forall x rest, (forall p, motive (rest.filter p)) -> motive (x :: rest))
    (xs : List α) : motive xs := by
  have hbounded : forall n, forall xs : List α, xs.length ≤ n -> motive xs := by
    intro n
    induction n with
    | zero =>
        intro xs hlength
        rw [List.length_eq_zero_iff.mp (Nat.le_zero.mp hlength)]
        exact nil
    | succ n ih =>
        intro xs hlength
        cases xs with
        | nil => exact nil
        | cons x rest =>
            apply cons
            intro p
            apply ih
            exact Nat.le_trans (List.length_filter_le p rest) (Nat.le_of_succ_le_succ hlength)
  exact hbounded xs.length xs (Nat.le_refl _)

/-!
# Which entries stay
-/

theorem eraseDupsBy_sublist (r : α -> α -> Bool) (xs : List α) :
    (xs.eraseDupsBy r).Sublist xs := by
  induction xs using filterInduction with
  | nil =>
      exact List.Sublist.refl []
  | cons x rest ih =>
      rw [List.eraseDupsBy_cons]
      exact ((ih _).trans List.filter_sublist).cons_cons x

theorem exists_mem_eraseDupsBy {r : α -> α -> Bool} (hrefl : forall x, r x x = true)
    {xs : List α} {x : α} (hx : x ∈ xs) : exists y, y ∈ xs.eraseDupsBy r ∧ r x y = true := by
  induction xs using filterInduction with
  | nil =>
      cases hx
  | cons first rest ih =>
      rw [List.eraseDupsBy_cons]
      by_cases hsame : r x first = true
      · exact ⟨first, List.mem_cons_self, hsame⟩
      · have hrest : x ∈ rest.filter fun y => r y first = false := by
          rcases List.mem_cons.mp hx with rfl | hmem
          · exact absurd (hrefl x) hsame
          · exact List.mem_filter.mpr ⟨hmem, by simpa using hsame⟩
        rcases ih _ hrest with ⟨y, hy, hxy⟩
        exact ⟨y, List.mem_cons_of_mem first hy, hxy⟩

theorem pairwise_eraseDupsBy (r : α -> α -> Bool) (xs : List α) :
    (xs.eraseDupsBy r).Pairwise fun x y => r y x = false := by
  induction xs using filterInduction with
  | nil =>
      exact List.Pairwise.nil
  | cons x rest ih =>
      rw [List.eraseDupsBy_cons, List.pairwise_cons]
      constructor
      · intro y hy
        have hmem := (eraseDupsBy_sublist r _).subset hy
        simpa using (List.mem_filter.mp hmem).right
      · exact ih _

/-- An entry that stays comes no later, in any order that the list ascends in, than all that
repeat it. -/
theorem eraseDupsBy_first {r : α -> α -> Bool} {le : α -> α -> Prop}
    (hsymm : forall x y, r x y = true -> r y x = true)
    (htrans : forall x y z, r x y = true -> r y z = true -> r x z = true)
    (hle : forall x, le x x) {xs : List α} (hsorted : xs.Pairwise le) {x y : α}
    (hx : x ∈ xs.eraseDupsBy r) (hy : y ∈ xs) (hsame : r y x = true) : le x y := by
  induction xs using filterInduction with
  | nil =>
      cases hy
  | cons first rest ih =>
      rw [List.eraseDupsBy_cons] at hx
      rw [List.pairwise_cons] at hsorted
      rcases List.mem_cons.mp hx with rfl | hx
      · rcases List.mem_cons.mp hy with rfl | hy
        · exact hle y
        · exact hsorted.left y hy
      · have hdiffer : r x first = false := by
          have hmem := (eraseDupsBy_sublist r _).subset hx
          simpa using (List.mem_filter.mp hmem).right
        have hyfirst : r y first = false := by
          cases hr : r y first with
          | false => rfl
          | true =>
              have hxfirst := htrans x y first (hsymm y x hsame) hr
              rw [hdiffer] at hxfirst
              cases hxfirst
        have hyrest : y ∈ rest.filter fun z => r z first = false := by
          rcases List.mem_cons.mp hy with rfl | hmem
          · rw [hsymm y x hsame] at hdiffer
            cases hdiffer
          · exact List.mem_filter.mpr ⟨hmem, by simpa using hyfirst⟩
        exact ih _ (hsorted.right.filter _) hx hyrest

section
variable {r : α -> α -> Bool} (hrefl : forall x, r x x = true)
  (htrans : forall x y z, r x y = true -> r y z = true -> r x z = true)
include hrefl htrans

/-- Entries that repeat what came before have no influence. -/
theorem eraseDupsBy_append_of_covered {xs ys : List α}
    (h : forall y, y ∈ ys -> exists x, x ∈ xs ∧ r y x = true) :
    (xs ++ ys).eraseDupsBy r = xs.eraseDupsBy r := by
  induction ys generalizing xs with
  | nil =>
      rw [List.append_nil]
  | cons y rest ih =>
      rcases h y List.mem_cons_self with ⟨x, hx, hyx⟩
      rcases exists_mem_eraseDupsBy hrefl hx with ⟨kept, hkept, hxkept⟩
      have hany : (xs.eraseDupsBy r).any (r y) = true :=
        List.any_eq_true.mpr ⟨kept, hkept, htrans y x kept hyx hxkept⟩
      rw [List.append_cons, ih, eraseDupsBy_snoc, if_pos hany]
      intro z hz
      rcases h z (List.mem_cons_of_mem y hz) with ⟨x', hx', hzx'⟩
      exact ⟨x', List.mem_append_left [y] hx', hzx'⟩

/-- The same block again and again counts as one. -/
theorem eraseDupsBy_flatMap_of_eq {f : β -> List α} {bs : List β} {b : β} (hb : b ∈ bs)
    (hall : forall b', b' ∈ bs -> b' = b) :
    (bs.flatMap f).eraseDupsBy r = (f b).eraseDupsBy r := by
  cases bs with
  | nil =>
      cases hb
  | cons first rest =>
      rw [hall first List.mem_cons_self, List.flatMap_cons]
      apply eraseDupsBy_append_of_covered hrefl htrans
      intro y hy
      rcases List.mem_flatMap.mp hy with ⟨b', hb', hy'⟩
      rw [hall b' (List.mem_cons_of_mem first hb')] at hy'
      exact ⟨y, hy', hrefl y⟩

end

/-!
# Repeats under a function
-/

theorem eraseDupsBy_map (r : β -> β -> Bool) (f : α -> β) (xs : List α) :
    (xs.map f).eraseDupsBy r = (xs.eraseDupsBy fun x y => r (f x) (f y)).map f := by
  induction xs using filterInduction with
  | nil =>
      rfl
  | cons x rest ih =>
      have hfilter : (rest.map f).filter (fun y => r y (f x) = false) =
          (rest.filter fun y => r (f y) (f x) = false).map f := by
        rw [List.filter_map]
        rfl
      rw [List.map_cons, List.eraseDupsBy_cons, List.eraseDupsBy_cons, List.map_cons, hfilter,
        ih _]

/-- A filter that does not tell repeats apart may come first. -/
theorem filter_eraseDupsBy {r : α -> α -> Bool} {p : α -> Bool}
    (hp : forall x y, r x y = true -> p x = p y) (xs : List α) :
    (xs.eraseDupsBy r).filter p = (xs.filter p).eraseDupsBy r := by
  induction xs using filterInduction with
  | nil =>
      rfl
  | cons x rest ih =>
      have hswap : (rest.filter fun y => r y x = false).filter p =
          (rest.filter p).filter fun y => r y x = false := by
        rw [List.filter_filter, List.filter_filter]
        congr 1
        funext y
        exact Bool.and_comm _ _
      rw [List.eraseDupsBy_cons]
      by_cases hpx : p x = true
      · rw [List.filter_cons_of_pos hpx, List.filter_cons_of_pos hpx, List.eraseDupsBy_cons,
          ih, hswap]
      · have hkept : (rest.filter p).filter (fun y => r y x = false) = rest.filter p := by
          apply List.filter_eq_self.mpr
          intro y hy
          cases hsame : r y x with
          | false => rfl
          | true =>
              rw [← hp y x hsame] at hpx
              exact absurd (List.mem_filter.mp hy).right hpx
        rw [List.filter_cons_of_neg hpx, List.filter_cons_of_neg hpx, ih, hswap, hkept]

theorem filter_eraseDups [BEq α] [LawfulBEq α] (p : α -> Bool) (xs : List α) :
    xs.eraseDups.filter p = (xs.filter p).eraseDups := by
  apply filter_eraseDupsBy
  intro x y hxy
  rw [eq_of_beq hxy]

/-- A function that tells the entries apart keeps which of them repeat. -/
theorem eraseDups_map_of_injective [BEq α] [LawfulBEq α] [BEq β] [LawfulBEq β] {f : α -> β}
    {xs : List α} (h : forall x y, x ∈ xs -> y ∈ xs -> f x = f y -> x = y) :
    (xs.map f).eraseDups = xs.eraseDups.map f := by
  induction xs using filterInduction with
  | nil =>
      rfl
  | cons x rest ih =>
      have hkept : forall y, y ∈ rest -> (!f y == f x) = !y == x := by
        intro y hy
        rw [Bool.not_inj_iff, Bool.eq_iff_iff, beq_iff_eq, beq_iff_eq]
        constructor
        · exact h y x (List.mem_cons_of_mem x hy) List.mem_cons_self
        · exact congrArg f
      have hfilter : (rest.map f).filter (fun y => !y == f x) =
          (rest.filter fun y => !y == x).map f := by
        rw [List.filter_map]
        exact congrArg (List.map f) (List.filter_congr hkept)
      rw [List.map_cons, List.eraseDups_cons, List.eraseDups_cons, List.map_cons, hfilter]
      congr 1
      apply ih
      intro y z hy hz
      have hy' := List.mem_cons_of_mem x (List.mem_filter.mp hy).left
      have hz' := List.mem_cons_of_mem x (List.mem_filter.mp hz).left
      exact h y z hy' hz'

/-- Exact repeats have no influence on which entries stay. -/
theorem eraseDupsBy_eraseDups [BEq α] [LawfulBEq α] {r : α -> α -> Bool}
    (hrefl : forall x, r x x = true) (xs : List α) :
    xs.eraseDups.eraseDupsBy r = xs.eraseDupsBy r := by
  induction xs using filterInduction with
  | nil =>
      rfl
  | cons x rest ih =>
      have habsorb : (rest.filter fun y => !y == x).filter (fun y => r y x = false) =
          rest.filter fun y => r y x = false := by
        rw [List.filter_filter]
        congr 1
        funext y
        by_cases heq : y = x
        · subst heq
          simp [hrefl]
        · simp [heq]
      rw [List.eraseDups_cons, List.eraseDupsBy_cons, List.eraseDupsBy_cons, filter_eraseDups,
        habsorb, ih]

theorem nodup_eraseDups [BEq α] [LawfulBEq α] (xs : List α) : xs.eraseDups.Nodup := by
  have hpairwise := pairwise_eraseDupsBy (fun x y : α => x == y) xs
  apply hpairwise.imp
  intro x y hxy heq
  subst heq
  simp at hxy

theorem eraseDups_snoc [BEq α] [LawfulBEq α] (xs : List α) (x : α) :
    (xs ++ [x]).eraseDups = if x ∈ xs then xs.eraseDups else xs.eraseDups ++ [x] := by
  have hany : (xs.eraseDupsBy fun y z => y == z).any (fun y => x == y) = decide (x ∈ xs) := by
    rw [Bool.eq_iff_iff, List.any_beq, decide_eq_true_eq, List.contains_iff_mem]
    exact List.mem_eraseDups (a := x) (l := xs)
  unfold List.eraseDups
  rw [eraseDupsBy_snoc, hany]
  simp only [decide_eq_true_eq]

/-- Members of an ordered list are equal or stand in the order one way or the other. -/
theorem eq_or_of_pairwise {le : α -> α -> Prop} {xs : List α} (h : xs.Pairwise le) {x y : α}
    (hx : x ∈ xs) (hy : y ∈ xs) : x = y ∨ le x y ∨ le y x := by
  induction xs with
  | nil => cases hx
  | cons first rest ih =>
      rcases List.pairwise_cons.mp h with ⟨hfirst, hrest⟩
      rcases List.mem_cons.mp hx with rfl | hxrest
      · rcases List.mem_cons.mp hy with rfl | hyrest
        · exact Or.inl rfl
        · exact Or.inr (Or.inl (hfirst y hyrest))
      · rcases List.mem_cons.mp hy with rfl | hyrest
        · exact Or.inr (Or.inr (hfirst x hxrest))
        · exact ih hrest hxrest hyrest

/-!
# New entries
-/

/-- The entries of a list that repeat neither a given one nor an earlier one. -/
def newEntries (r : α -> α -> Bool) (given xs : List α) : List α :=
  (xs.filter fun x => !given.any (r x)).eraseDupsBy r

section
variable {r : α -> α -> Bool} {given : List α} {x : α}

theorem newEntries_cons_of_any (h : given.any (r x) = true) (rest : List α) :
    newEntries r given (x :: rest) = newEntries r given rest := by
  unfold newEntries
  rw [List.filter_cons_of_neg]
  simp [h]

/-- An entry that is new counts as given from then on. -/
theorem newEntries_cons (h : ¬ given.any (r x) = true) (rest : List α) :
    newEntries r given (x :: rest) = x :: newEntries r (given ++ [x]) rest := by
  unfold newEntries
  rw [List.filter_cons_of_pos (by simpa using h), List.eraseDupsBy_cons, List.filter_filter]
  congr 2
  apply List.filter_congr
  intro y _
  rw [List.any_append, Bool.not_or, Bool.and_comm]
  simp

theorem newEntries_of_perm {others : List α} (h : given.Perm others) (xs : List α) :
    newEntries r given xs = newEntries r others xs := by
  unfold newEntries
  congr 1
  apply List.filter_congr
  intro y _
  rw [h.any_eq]

end

theorem newEntries_beq [BEq α] (given xs : List α) :
    newEntries (fun x y => x == y) given xs =
      (xs.filter fun x => !given.contains x).eraseDups := by
  simp only [newEntries, List.any_beq]
  rfl

theorem mem_append_newEntries_iff [BEq α] [LawfulBEq α] (given xs : List α) (x : α) :
    x ∈ given ++ newEntries (fun y z => y == z) given xs ↔ x ∈ given ∨ x ∈ xs := by
  rw [newEntries_beq, List.mem_append, List.mem_eraseDups, List.mem_filter, Bool.not_eq_true',
    ← Bool.not_eq_true, List.contains_iff_mem]
  by_cases hgiven : x ∈ given
  · simp only [hgiven, true_or]
  · simp only [hgiven, false_or, not_false_eq_true, and_true]

end EventCalculus

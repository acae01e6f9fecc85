import EventCalculus.Store.Basic
import Mathlib.Data.List.Infix
import Mathlib.Data.List.TakeWhile
import Mathlib.Data.Prod.Lex
import Mathlib.Data.String.Basic

/-!
# Search in the index by time

A binary search halves a list until one place is left.  In a list where a condition only ever
stops to hold, it finds the place where it does.  The index by time is such a list for every
bound, so searches keep it and find its parts.
-/

namespace EventCalculus

/-!
# Binary search
-/

section
variable {α : Type}

/-- The place from `low` to `high` where a condition begins to fail. -/
def searchFrom (p : α -> Bool) (xs : List α) (low high : Nat) : Nat :=
  if low < high then
    if xs[(low + high) / 2]?.any p then
      searchFrom p xs ((low + high) / 2 + 1) high
    else
      searchFrom p xs low ((low + high) / 2)
  else
    low
termination_by high - low

/-- The place in a list where a condition begins to fail. -/
def search (p : α -> Bool) (xs : List α) : Nat :=
  searchFrom p xs 0 xs.length

theorem searchFrom_append {p : α -> Bool} {xs ys : List α} (hxs : forall x, x ∈ xs -> p x = true)
    (hys : forall y, y ∈ ys -> p y = false) {low high : Nat} (hlow : low ≤ xs.length)
    (hhigh : xs.length ≤ high) (hbound : high ≤ (xs ++ ys).length) :
    searchFrom p (xs ++ ys) low high = xs.length := by
  -- the place stays between the bounds: the middle shows in which of the two lists it lies
  fun_induction searchFrom p (xs ++ ys) low high with
  | case1 low high hlt hmiddle ih =>
      apply ih _ hhigh hbound
      by_contra hover
      have hle : xs.length ≤ (low + high) / 2 := by omega
      rw [List.getElem?_append_right hle, Option.any_eq_true] at hmiddle
      rcases hmiddle with ⟨y, hy, hp⟩
      rw [hys y (List.mem_of_getElem? hy)] at hp
      cases hp
  | case2 low high hlt hmiddle ih =>
      apply ih hlow _ (by omega)
      by_contra hover
      have hin : (low + high) / 2 < xs.length := by omega
      apply hmiddle
      rw [List.getElem?_append_left hin, List.getElem?_eq_getElem hin]
      exact hxs _ (List.getElem_mem hin)
  | case3 low high hlt => omega

/-- What meets a condition stands in front of what does not. -/
def FailsFrom (p : α -> Bool) (xs : List α) : Prop :=
  xs.Pairwise fun a b => p b = true -> p a = true

theorem takeWhile_eq_filter {p : α -> Bool} {xs : List α} (h : FailsFrom p xs) :
    xs.takeWhile p = xs.filter p := by
  induction xs with
  | nil => rfl
  | cons x rest ih =>
      rcases List.pairwise_cons.mp h with ⟨hfirst, hrest⟩
      cases hx : p x with
      | true => rw [List.takeWhile_cons_of_pos hx, List.filter_cons_of_pos hx, ih hrest]
      | false =>
          have hnone : forall y, y ∈ x :: rest -> ¬ p y = true := by
            intro y hy hp
            rcases List.mem_cons.mp hy with rfl | hmem
            · rw [hx] at hp
              cases hp
            · rw [hfirst y hmem hp] at hx
              cases hx
          rw [List.filter_eq_nil_iff.mpr hnone, List.takeWhile_cons_of_neg (by rw [hx]; decide)]

theorem dropWhile_eq_filter {p : α -> Bool} {xs : List α} (h : FailsFrom p xs) :
    xs.dropWhile p = xs.filter fun x => !p x := by
  induction xs with
  | nil => rfl
  | cons x rest ih =>
      rcases List.pairwise_cons.mp h with ⟨hfirst, hrest⟩
      cases hx : p x with
      | true =>
          rw [List.dropWhile_cons_of_pos hx, List.filter_cons_of_neg (by rw [hx]; decide), ih hrest]
      | false =>
          have hall : forall y, y ∈ x :: rest -> (!p y) = true := by
            intro y hy
            rcases List.mem_cons.mp hy with rfl | hmem
            · rw [hx]
              rfl
            · cases hp : p y with
              | false => rfl
              | true =>
                  rw [hfirst y hmem hp] at hx
                  cases hx
          rw [List.filter_eq_self.mpr hall, List.dropWhile_cons_of_neg (by rw [hx]; decide)]

theorem search_eq_length_takeWhile {p : α -> Bool} {xs : List α} (h : FailsFrom p xs) :
    search p xs = (xs.takeWhile p).length := by
  have hfront : forall x, x ∈ xs.takeWhile p -> p x = true := fun x hx =>
    List.mem_takeWhile_imp hx
  have hback : forall x, x ∈ xs.dropWhile p -> p x = false := by
    intro x hx
    rw [dropWhile_eq_filter h] at hx
    simpa using (List.mem_filter.mp hx).right
  have hwhole : (xs.takeWhile p ++ xs.dropWhile p).length = xs.length := by
    rw [List.takeWhile_append_dropWhile]
  have hfits : (xs.takeWhile p).length ≤ xs.length :=
    (List.takeWhile_prefix p).length_le
  have hfound := searchFrom_append hfront hback (Nat.zero_le _) hfits (le_of_eq hwhole.symm)
  rw [List.takeWhile_append_dropWhile] at hfound
  exact hfound

theorem take_length_takeWhile (p : α -> Bool) (xs : List α) :
    xs.take (xs.takeWhile p).length = xs.takeWhile p :=
  (List.prefix_iff_eq_take.mp (List.takeWhile_prefix p)).symm

theorem drop_length_takeWhile (p : α -> Bool) (xs : List α) :
    xs.drop (xs.takeWhile p).length = xs.dropWhile p := by
  calc
    xs.drop (xs.takeWhile p).length
        = (xs.takeWhile p ++ xs.dropWhile p).drop (xs.takeWhile p).length := by
          rw [List.takeWhile_append_dropWhile]
    _ = xs.dropWhile p := List.drop_left

theorem drop_takeWhile {p q : α -> Bool} {xs : List α} (hq : FailsFrom q xs) :
    (xs.takeWhile q).drop (xs.takeWhile p).length = (xs.dropWhile p).takeWhile q := by
  induction xs with
  | nil => rfl
  | cons x rest ih =>
      rcases List.pairwise_cons.mp hq with ⟨hfirst, hrest⟩
      cases hp : p x with
      | false =>
          have hne : ¬ p x = true := by simp [hp]
          rw [List.takeWhile_cons_of_neg (l := rest) hne, List.dropWhile_cons_of_neg hne]
          rfl
      | true =>
          rw [List.takeWhile_cons_of_pos (l := rest) hp, List.dropWhile_cons_of_pos hp]
          cases hx : q x with
          | true =>
              rw [List.takeWhile_cons_of_pos hx]
              exact ih hrest
          | false =>
              have hnone : forall y, y ∈ rest -> ¬ q y = true := by
                intro y hy hqy
                rw [hfirst y hy hqy] at hx
                cases hx
              rw [List.takeWhile_cons_of_neg (by simp [hx]), List.drop_nil,
                takeWhile_eq_filter (hrest.sublist (List.dropWhile_sublist p)), eq_comm,
                List.filter_eq_nil_iff]
              intro y hy
              exact hnone y ((List.dropWhile_sublist p).subset hy)

end

/-!
# The index by time
-/

/-- One entry is less than another by time and then by identifier. -/
def isLess (a b : String × Nat) : Bool :=
  decide (toLex a < toLex b)

theorem isLess_iff (a b : String × Nat) :
    isLess a b = true ↔ a.1 < b.1 ∨ (a.1 = b.1 ∧ a.2 < b.2) := by
  rw [isLess, decide_eq_true_eq, Prod.Lex.toLex_lt_toLex]

/-- No entry is greater than a later one. -/
def InOrder (entries : List (String × Nat)) : Prop :=
  entries.Pairwise fun a b => toLex a ≤ toLex b

/-- Insertion behind all entries that are not greater, at the place that binary search finds. -/
def insertBySearch (entry : String × Nat) (entries : List (String × Nat)) :
    List (String × Nat) :=
  let place := search (fun other => !isLess entry other) entries
  entries.take place ++ entry :: entries.drop place

namespace InOrder

variable {entries : List (String × Nat)}

theorem failsFrom_isLess (h : InOrder entries) (bound : String × Nat) :
    FailsFrom (fun entry => isLess entry bound) entries := by
  apply h.imp
  intro a b hab hb
  exact decide_eq_true (lt_of_le_of_lt hab (of_decide_eq_true hb))

theorem failsFrom_not_isLess (h : InOrder entries) (bound : String × Nat) :
    FailsFrom (fun entry => !isLess bound entry) entries := by
  apply h.imp
  intro a b hab hb
  rw [Bool.not_eq_true', isLess, decide_eq_false_iff_not, not_lt] at hb ⊢
  exact le_trans hab hb

theorem fst_le (a b : String × Nat) (h : toLex a ≤ toLex b) : a.1 ≤ b.1 := by
  rcases Prod.Lex.toLex_le_toLex.mp h with hlt | ⟨heq, _⟩
  · exact le_of_lt hlt
  · exact le_of_eq heq

theorem failsFrom_isUntil (h : InOrder entries) (stop : Option String) :
    FailsFrom (EventStore.isUntil stop) entries := by
  apply h.imp
  intro a b hab hb
  cases stop with
  | none => rfl
  | some t => exact decide_eq_true (le_trans (fst_le a b hab) (of_decide_eq_true hb))

theorem failsFrom_not_isFrom (h : InOrder entries) (start : Option String) :
    FailsFrom (fun entry => !EventStore.isFrom start entry) entries := by
  apply h.imp
  intro a b hab hb
  cases start with
  | none => cases hb
  | some t =>
      simp only [EventStore.isFrom, Bool.not_eq_true', decide_eq_false_iff_not, not_le] at hb ⊢
      exact lt_of_le_of_lt (fst_le a b hab) hb

end InOrder

theorem insertByTime_eq_append (timestamp : String) (id : Nat) (entries : List (String × Nat)) :
    insertByTime timestamp id entries =
      entries.takeWhile (EventStore.isUntil (some timestamp)) ++
        (timestamp, id) :: entries.dropWhile (EventStore.isUntil (some timestamp)) := by
  induction entries with
  | nil => rfl
  | cons entry rest ih =>
      by_cases hlt : timestamp < entry.1
      · have huntil : ¬ EventStore.isUntil (some timestamp) entry = true := by
          intro h
          exact absurd hlt (not_lt.mpr (of_decide_eq_true h))
        rw [insertByTime, if_pos hlt, List.takeWhile_cons_of_neg huntil,
          List.dropWhile_cons_of_neg huntil]
        rfl
      · have huntil : EventStore.isUntil (some timestamp) entry = true :=
          decide_eq_true (not_lt.mp hlt)
        rw [insertByTime, if_neg hlt, List.takeWhile_cons_of_pos huntil,
          List.dropWhile_cons_of_pos huntil, ih]
        rfl

/-- A new entry goes behind the entries of its time, since its identifier is the greatest. -/
theorem InOrder.insertByTime {entries : List (String × Nat)} (h : InOrder entries)
    (timestamp : String) {id : Nat} (hid : forall entry, entry ∈ entries -> entry.2 ≤ id) :
    InOrder (insertByTime timestamp id entries) := by
  have hfails := h.failsFrom_isUntil (some timestamp)
  rw [insertByTime_eq_append, takeWhile_eq_filter hfails, dropWhile_eq_filter hfails]
  apply List.pairwise_append.mpr
  have hfront : forall a, a ∈ entries.filter (EventStore.isUntil (some timestamp)) ->
      toLex a ≤ toLex (timestamp, id) := by
    intro a ha
    rcases List.mem_filter.mp ha with ⟨hmem, huntil⟩
    rcases lt_or_eq_of_le (of_decide_eq_true huntil : a.1 ≤ timestamp) with hlt | heq
    · exact Prod.Lex.toLex_le_toLex.mpr (Or.inl hlt)
    · exact Prod.Lex.toLex_le_toLex.mpr (Or.inr ⟨heq, hid a hmem⟩)
  have hback : forall b, b ∈ entries.filter (fun b => !EventStore.isUntil (some timestamp) b) ->
      toLex (timestamp, id) ≤ toLex b := by
    intro b hb
    have hlate := (List.mem_filter.mp hb).right
    simp only [EventStore.isUntil, Bool.not_eq_true', decide_eq_false_iff_not, not_le] at hlate
    exact Prod.Lex.toLex_le_toLex.mpr (Or.inl hlate)
  refine ⟨h.filter _, List.pairwise_cons.mpr ⟨hback, h.filter _⟩, ?_⟩
  intro a ha b hb
  rcases List.mem_cons.mp hb with rfl | hmem
  · exact hfront a ha
  · exact le_trans (hfront a ha) (hback b hmem)

/-- The greatest identifier stands behind all entries of its time. -/
theorem isUntil_eq_not_isLess {entry : String × Nat} {timestamp : String} {id : Nat}
    (hid : entry.2 ≤ id) :
    EventStore.isUntil (some timestamp) entry = !isLess (timestamp, id) entry := by
  rw [Bool.eq_iff_iff, Bool.not_eq_true', ← Bool.not_eq_true, isLess_iff]
  simp only [EventStore.isUntil, decide_eq_true_eq]
  constructor
  · rintro huntil (hlt | ⟨_, hlt⟩)
    · exact absurd huntil (not_le.mpr hlt)
    · exact absurd hid (not_le.mpr hlt)
  · intro hnot
    exact not_lt.mp fun hlt => hnot (Or.inl hlt)

/-- The index is the one that binary search keeps. -/
theorem InOrder.insertByTime_eq_insertBySearch {entries : List (String × Nat)}
    (h : InOrder entries) (timestamp : String) {id : Nat}
    (hid : forall entry, entry ∈ entries -> entry.2 ≤ id) :
    EventCalculus.insertByTime timestamp id entries = insertBySearch (timestamp, id) entries := by
  have hfails := h.failsFrom_not_isLess (timestamp, id)
  have hfront : entries.takeWhile (EventStore.isUntil (some timestamp)) =
      entries.takeWhile fun entry => !isLess (timestamp, id) entry := by
    rw [takeWhile_eq_filter (h.failsFrom_isUntil _), takeWhile_eq_filter hfails]
    exact List.filter_congr fun entry hentry => isUntil_eq_not_isLess (hid entry hentry)
  rw [insertBySearch, search_eq_length_takeWhile hfails, take_length_takeWhile, ← hfront,
    insertByTime_eq_append, drop_length_takeWhile]

end EventCalculus

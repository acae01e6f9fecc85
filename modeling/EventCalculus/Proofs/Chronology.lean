import EventCalculus.Fluent.Timeline
import EventCalculus.Proofs.Distinct
import Mathlib.Data.List.Sort
import Mathlib.Data.String.Basic

/-!
# The order by time and text

Candidates, initiations and intervals are sorted by a timestamp and, among equal
ones, by the text of a fluent.  The order is linear on such pairs, so sorting by
it leaves no freedom except between entries with equal pairs.
-/

namespace EventCalculus

theorem earlierOrEqual_iff (a b : String × String) :
    earlierOrEqual a b = true ↔ a.1 < b.1 ∨ (a.1 = b.1 ∧ a.2 ≤ b.2) := by
  simp only [earlierOrEqual, Bool.or_eq_true, Bool.and_eq_true, decide_eq_true_eq, beq_iff_eq]

theorem earlierOrEqual_refl (a : String × String) : earlierOrEqual a a = true :=
  (earlierOrEqual_iff a a).mpr (Or.inr ⟨rfl, le_refl a.2⟩)

theorem earlierOrEqual_trans (a b c : String × String) (hab : earlierOrEqual a b = true)
    (hbc : earlierOrEqual b c = true) : earlierOrEqual a c = true := by
  rw [earlierOrEqual_iff] at hab hbc ⊢
  rcases hab with hab | ⟨hab, htext⟩
  · rcases hbc with hbc | ⟨hbc, _⟩
    · exact Or.inl (lt_trans hab hbc)
    · exact Or.inl (hbc ▸ hab)
  · rcases hbc with hbc | ⟨hbc, htext'⟩
    · exact Or.inl (hab ▸ hbc)
    · exact Or.inr ⟨hab.trans hbc, le_trans htext htext'⟩

theorem earlierOrEqual_total (a b : String × String) :
    (earlierOrEqual a b || earlierOrEqual b a) = true := by
  rw [Bool.or_eq_true, earlierOrEqual_iff, earlierOrEqual_iff]
  rcases lt_trichotomy a.1 b.1 with hlt | heq | hgt
  · exact Or.inl (Or.inl hlt)
  · rcases le_total a.2 b.2 with hle | hle
    · exact Or.inl (Or.inr ⟨heq, hle⟩)
    · exact Or.inr (Or.inr ⟨heq.symm, hle⟩)
  · exact Or.inr (Or.inl hgt)

theorem earlierOrEqual_antisymm (a b : String × String) (hab : earlierOrEqual a b = true)
    (hba : earlierOrEqual b a = true) : a = b := by
  rw [earlierOrEqual_iff] at hab hba
  rcases hab with hab | ⟨hab, htext⟩
  · rcases hba with hba | ⟨hba, _⟩
    · exact absurd hba (lt_asymm hab)
    · exact absurd hba hab.ne'
  · rcases hba with hba | ⟨_, htext'⟩
    · exact absurd hab hba.ne'
    · exact Prod.ext hab (le_antisymm htext htext')

theorem earlierOrEqual_fst_le {a b : String × String} (h : earlierOrEqual a b = true) :
    a.1 ≤ b.1 := by
  rcases (earlierOrEqual_iff a b).mp h with hlt | ⟨heq, _⟩
  · exact le_of_lt hlt
  · exact le_of_eq heq

section LinearKeys

variable {α β : Type} [LinearOrder β] [DecidableLE β] (key : α -> β)

theorem pairwise_mergeSort_lt {xs : List α} (hnodup : (xs.map key).Nodup) :
    (xs.mergeSort fun a b => decide (key a ≤ key b)).Pairwise fun a b => key a < key b := by
  have hsorted : ((xs.mergeSort fun a b => decide (key a ≤ key b)).map key).Nodup :=
    ((List.mergeSort_perm _ _).map key).nodup_iff.mpr hnodup
  have hle := List.pairwise_mergeSort' (fun a b => key a ≤ key b) xs
  apply (hle.and (List.pairwise_map.mp hsorted)).imp
  intro a b h
  exact lt_of_le_of_ne h.left h.right

end LinearKeys

section Sorting

variable {α : Type} (key : α -> String × String)

/-- Sorting by a key leaves a list in the order of the keys. -/
theorem pairwise_mergeSort_by_key (xs : List α) :
    (xs.mergeSort fun a b => earlierOrEqual (key a) (key b)).Pairwise
      fun a b => earlierOrEqual (key a) (key b) = true := by
  apply List.pairwise_mergeSort
  · intro a b c
    exact earlierOrEqual_trans (key a) (key b) (key c)
  · intro a b
    exact earlierOrEqual_total (key a) (key b)

/-- Lists of the same members are sorted to the same list, apart from repeats, when the key
determines the member. -/
theorem eraseDups_mergeSort_by_key_eq [BEq α] [LawfulBEq α] {xs ys : List α}
    (hmem : forall x, x ∈ xs ↔ x ∈ ys)
    (hkey : forall x y, x ∈ xs -> y ∈ xs -> key x = key y -> x = y) :
    (xs.mergeSort fun a b => earlierOrEqual (key a) (key b)).eraseDups =
      (ys.mergeSort fun a b => earlierOrEqual (key a) (key b)).eraseDups := by
  have hsorted : forall zs : List α,
      ((zs.mergeSort fun a b => earlierOrEqual (key a) (key b)).eraseDups).Pairwise
        fun a b => earlierOrEqual (key a) (key b) = true :=
    fun zs => (pairwise_mergeSort_by_key key zs).sublist (eraseDupsBy_sublist _ _)
  have hmember : forall (zs : List α) x,
      x ∈ (zs.mergeSort fun a b => earlierOrEqual (key a) (key b)).eraseDups ↔ x ∈ zs := by
    intro zs x
    rw [List.mem_eraseDups, (List.mergeSort_perm _ _).mem_iff]
  apply List.Perm.eq_of_pairwise _ (hsorted xs) (hsorted ys)
  · apply (List.perm_ext_iff_of_nodup (nodup_eraseDups _) (nodup_eraseDups _)).mpr
    intro x
    rw [hmember xs, hmember ys, hmem]
  · intro x y hx hy hxy hyx
    apply hkey x y ((hmember xs x).mp hx) ((hmem y).mpr ((hmember ys y).mp hy))
    exact earlierOrEqual_antisymm (key x) (key y) hxy hyx

end Sorting

end EventCalculus

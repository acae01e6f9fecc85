import EventCalculus.OrderedMap
import Mathlib.Data.List.Induction

/-!
# Lookups in insertion-ordered maps

What is found in a map after a key was written, and how the values of a map are
the values found at its keys.  An index is a map of lists that grows by `push`;
its lists are looked up with the empty list for a key that is absent.
-/

namespace EventCalculus

/-!
# Lists of entries
-/

theorem findValue?_insertEntry [DecidableEq κ] (key other : κ) (value : α)
    (entries : List (κ × α)) :
    findValue? other (insertEntry key value entries) =
      if key = other then some value else findValue? other entries := by
  induction entries with
  | nil =>
      simp [insertEntry, findValue?]
  | cons entry rest ih =>
      rcases entry with ⟨k, v⟩
      by_cases hk : k = key
      · subst hk
        by_cases ho : k = other <;> simp [insertEntry, findValue?, ho]
      · by_cases ho : key = other
        · subst ho
          simp [insertEntry, findValue?, hk, ih]
        · simp [insertEntry, findValue?, hk, ho, ih]

theorem mem_of_mem_insertEntry [DecidableEq κ] {entry : κ × α} {key : κ} {value : α}
    {entries : List (κ × α)} (h : entry ∈ insertEntry key value entries) :
    entry = (key, value) ∨ entry ∈ entries := by
  induction entries with
  | nil => exact Or.inl (List.mem_singleton.mp h)
  | cons first rest ih =>
      rcases first with ⟨k, v⟩
      rw [insertEntry] at h
      split at h
      · rcases List.mem_cons.mp h with hnew | hold
        · exact Or.inl hnew
        · exact Or.inr (List.mem_cons_of_mem _ hold)
      · rcases List.mem_cons.mp h with hfirst | hrest
        · exact Or.inr (hfirst ▸ List.mem_cons_self)
        · rcases ih hrest with hnew | hold
          · exact Or.inl hnew
          · exact Or.inr (List.mem_cons_of_mem _ hold)

theorem mem_of_findValue?_eq_some [DecidableEq κ] {entries : List (κ × α)} {key : κ} {value : α}
    (h : findValue? key entries = some value) : (key, value) ∈ entries := by
  induction entries with
  | nil => cases h
  | cons entry rest ih =>
      unfold findValue? at h
      split at h
      · rename_i hkey
        cases h
        rw [← hkey]
        exact List.mem_cons_self
      · exact List.mem_cons_of_mem entry (ih h)

theorem findValue?_eq_some_iff_mem [DecidableEq κ] {entries : List (κ × α)}
    (hnodup : (entries.map Prod.fst).Nodup) (key : κ) (value : α) :
    findValue? key entries = some value ↔ (key, value) ∈ entries := by
  induction entries with
  | nil =>
      simp [findValue?]
  | cons entry rest ih =>
      rcases entry with ⟨k, v⟩
      rw [List.map_cons, List.nodup_cons] at hnodup
      by_cases hk : k = key
      · subst hk
        have habsent : (k, value) ∉ rest := by
          intro hmem
          exact hnodup.left (List.mem_map.mpr ⟨(k, value), hmem, rfl⟩)
        simp [findValue?, habsent, eq_comm]
      · have hne : ¬ key = k := fun h => hk h.symm
        simp [findValue?, hk, hne, ih hnodup.right]

namespace OrderedMap

variable {κ α : Type}

/-!
# Values
-/

theorem get?_insert [DecidableEq κ] (m : OrderedMap κ α) (key other : κ) (value : α) :
    (m.insert key value).get? other =
      if key = other then some value else m.get? other :=
  findValue?_insertEntry key other value m.entries

theorem contains_insert [DecidableEq κ] (m : OrderedMap κ α) (key other : κ) (value : α) :
    (m.insert key value).contains other = true ↔ m.contains other = true ∨ key = other := by
  unfold contains
  rw [get?_insert]
  by_cases h : key = other <;> simp [h]

theorem get?_eq_some_iff_mem [DecidableEq κ] (m : OrderedMap κ α) (key : κ) (value : α) :
    m.get? key = some value ↔ (key, value) ∈ m.entries :=
  findValue?_eq_some_iff_mem m.nodup_keys key value

theorem mem_values_iff [DecidableEq κ] (m : OrderedMap κ α) (value : α) :
    value ∈ m.values ↔ exists key, m.get? key = some value := by
  unfold values
  rw [List.mem_map]
  constructor
  · intro h
    rcases h with ⟨⟨key, v⟩, hmem, rfl⟩
    exists key
    exact (m.get?_eq_some_iff_mem key v).mpr hmem
  · intro h
    rcases h with ⟨key, hfound⟩
    exact ⟨(key, value), (m.get?_eq_some_iff_mem key value).mp hfound, rfl⟩

/-!
# Maps of lists
-/

theorem ofList_snoc [DecidableEq κ] (entries : List (κ × α)) (entry : κ × α) :
    ofList (entries ++ [entry]) = (ofList entries).insert entry.1 entry.2 := by
  rw [ofList, List.foldl_append]
  rfl

/-- The map has the last value of each key. -/
theorem get?_ofList [DecidableEq κ] (entries : List (κ × α)) (key : κ) :
    (ofList entries).get? key =
      ((entries.filter fun entry => entry.1 = key).getLast?).map Prod.snd := by
  induction entries using List.reverseRecOn with
  | nil => rfl
  | append_singleton rest last ih =>
      rw [ofList_snoc, get?_insert, List.filter_append]
      by_cases hkey : last.1 = key
      · simp [hkey]
      · simp [hkey, ih]

theorem mem_of_mem_entries_ofList [DecidableEq κ] {entries : List (κ × α)} {entry : κ × α}
    (h : entry ∈ (ofList entries).entries) : entry ∈ entries := by
  have hlast := ((ofList entries).get?_eq_some_iff_mem entry.1 entry.2).mpr h
  rw [get?_ofList, Option.map_eq_some_iff] at hlast
  rcases hlast with ⟨other, hother, hvalue⟩
  rcases List.mem_filter.mp (List.mem_of_getLast? hother) with ⟨hmem, hkey⟩
  rw [← Prod.ext (of_decide_eq_true hkey) hvalue]
  exact hmem

/-- If every key comes with one value only, the map has the entries of the list. -/
theorem mem_entries_ofList_iff [DecidableEq κ] {entries : List (κ × α)}
    (honce : forall p q, p ∈ entries -> q ∈ entries -> p.1 = q.1 -> p = q) (entry : κ × α) :
    entry ∈ (ofList entries).entries ↔ entry ∈ entries := by
  induction entries using List.reverseRecOn with
  | nil => exact Iff.rfl
  | append_singleton rest last ih =>
      have hrest : forall p q, p ∈ rest -> q ∈ rest -> p.1 = q.1 -> p = q :=
        fun p q hp hq => honce p q (List.mem_append_left _ hp) (List.mem_append_left _ hq)
      have hlast : last ∈ rest ++ [last] := List.mem_append_right rest List.mem_cons_self
      rw [← get?_eq_some_iff_mem, ofList_snoc, get?_insert]
      by_cases hkey : last.1 = entry.1
      · rw [if_pos hkey]
        constructor
        · intro h
          rw [← Prod.ext hkey (Option.some.inj h)]
          exact hlast
        · intro h
          rw [honce last entry hlast h hkey]
      · have hne : entry ≠ last := fun heq => hkey (congrArg Prod.fst heq.symm)
        rw [if_neg hkey, get?_eq_some_iff_mem, Prod.eta, ih hrest, List.mem_append,
          List.mem_singleton]
        simp only [hne, or_false]

theorem insertEntry_of_not_mem [DecidableEq κ] {entries : List (κ × α)} {key : κ} (value : α)
    (h : key ∉ entries.map Prod.fst) :
    insertEntry key value entries = entries ++ [(key, value)] := by
  induction entries with
  | nil => rfl
  | cons entry rest ih =>
      rcases entry with ⟨k, v⟩
      rw [List.map_cons, List.mem_cons, not_or] at h
      rw [insertEntry, if_neg fun hk => h.left hk.symm, ih h.right]
      rfl

theorem entries_ofList_of_nodup [DecidableEq κ] {entries : List (κ × α)}
    (hnodup : (entries.map Prod.fst).Nodup) : (ofList entries).entries = entries := by
  induction entries using List.reverseRecOn with
  | nil => rfl
  | append_singleton rest last ih =>
      rw [List.map_append, List.nodup_append] at hnodup
      rcases hnodup with ⟨hrest, _, hdisjoint⟩
      have hnew : last.1 ∉ rest.map Prod.fst :=
        fun hmem => hdisjoint last.1 hmem last.1 List.mem_cons_self rfl
      rw [ofList_snoc]
      show insertEntry last.1 last.2 (ofList rest).entries = rest ++ [last]
      rw [ih hrest, insertEntry_of_not_mem last.2 hnew]

/-!
# Indices
-/

theorem getD_push [DecidableEq κ] (m : OrderedMap κ (List α)) (key other : κ) (value : α) :
    ((m.push key value).get? other).getD [] =
      if key = other then (m.get? other).getD [] ++ [value] else (m.get? other).getD [] := by
  unfold push
  rw [get?_insert]
  by_cases h : key = other
  · subst h
    simp
  · simp [h]

/-- A value that a reading of the entries passes over changes nothing, wherever its list is. -/
theorem flatMap_entries_push {β : Type} [DecidableEq κ] (m : OrderedMap κ (List α)) (key : κ)
    (value : α) {f : κ × List α -> List β} (hnil : f (key, []) = [])
    (hsnoc : forall list, f (key, list ++ [value]) = f (key, list)) :
    (m.push key value).entries.flatMap f = m.entries.flatMap f := by
  show (insertEntry key (((findValue? key m.entries).getD []) ++ [value]) m.entries).flatMap f = _
  induction m.entries with
  | nil =>
      rw [insertEntry, findValue?, List.flatMap_cons, hsnoc]
      exact congrArg (· ++ []) hnil
  | cons entry rest ih =>
      rcases entry with ⟨k, list⟩
      by_cases hk : k = key
      · subst hk
        simp [insertEntry, findValue?, hsnoc]
      · simp only [insertEntry, findValue?, hk, ↓reduceIte, List.flatMap_cons, ih]

/-- A value that a reading of the entries shows is shown once more. -/
theorem flatMap_entries_push_perm {β : Type} [DecidableEq κ] (m : OrderedMap κ (List α)) (key : κ)
    (value : α) {f : κ × List α -> List β} {shown : β} (hnil : f (key, []) = [])
    (hsnoc : forall list, f (key, list ++ [value]) = f (key, list) ++ [shown]) :
    ((m.push key value).entries.flatMap f).Perm (m.entries.flatMap f ++ [shown]) := by
  show List.Perm
    ((insertEntry key (((findValue? key m.entries).getD []) ++ [value]) m.entries).flatMap f) _
  induction m.entries with
  | nil =>
      rw [insertEntry, findValue?, List.flatMap_cons, hsnoc, Option.getD_none, hnil]
      exact List.Perm.refl _
  | cons entry rest ih =>
      rcases entry with ⟨k, list⟩
      by_cases hk : k = key
      · subst hk
        simp only [insertEntry, findValue?, ↓reduceIte, Option.getD_some, List.flatMap_cons, hsnoc,
          List.append_assoc]
        exact List.perm_append_comm.append_left _
      · simp only [insertEntry, findValue?, hk, ↓reduceIte, List.flatMap_cons, List.append_assoc]
        exact ih.append_left _

/-- If every value is in the list of its own key, the values of a key are the list there. -/
theorem filter_flatten_values [DecidableEq κ] (m : OrderedMap κ (List α)) {keyOf : α -> κ}
    (hkeys : forall key value, value ∈ (m.get? key).getD [] -> keyOf value = key) (key : κ) :
    m.values.flatten.filter (fun value => keyOf value = key) = (m.get? key).getD [] := by
  rcases m with ⟨entries, hnodup⟩
  have hlisted : forall entry, entry ∈ entries -> forall value, value ∈ entry.2 ->
      keyOf value = entry.1 := by
    intro entry hentry value hvalue
    apply hkeys entry.1 value
    show value ∈ (findValue? entry.1 entries).getD []
    rw [(findValue?_eq_some_iff_mem hnodup entry.1 entry.2).mpr hentry]
    exact hvalue
  clear hkeys
  show (entries.map Prod.snd).flatten.filter _ = (findValue? key entries).getD []
  induction entries with
  | nil => rfl
  | cons entry rest ih =>
      rw [List.map_cons, List.nodup_cons] at hnodup
      have hrest := ih hnodup.right fun e he => hlisted e (List.mem_cons_of_mem entry he)
      have hentry := hlisted entry List.mem_cons_self
      rw [List.map_cons, List.flatten_cons, List.filter_append, hrest]
      by_cases hk : entry.1 = key
      · have habsent : findValue? key rest = none := by
          cases hfound : findValue? key rest with
          | none => rfl
          | some list =>
              have hmem := List.mem_map_of_mem (f := Prod.fst) (mem_of_findValue?_eq_some hfound)
              exact absurd (hk ▸ hmem) hnodup.left
        have hall : entry.2.filter (fun value => keyOf value = key) = entry.2 :=
          List.filter_eq_self.mpr fun value hvalue => by simp [hentry value hvalue, hk]
        rw [hall, habsent, findValue?, if_pos hk, Option.getD_none, List.append_nil,
          Option.getD_some]
      · have hnone : entry.2.filter (fun value => keyOf value = key) = [] :=
          List.filter_eq_nil_iff.mpr fun value hvalue => by simp [hentry value hvalue, hk]
        rw [hnone, findValue?, if_neg hk, List.nil_append]

theorem mem_flatten_values_iff [DecidableEq κ] (m : OrderedMap κ (List α)) (value : α) :
    value ∈ m.values.flatten ↔ exists key, value ∈ (m.get? key).getD [] := by
  rw [List.mem_flatten]
  constructor
  · intro h
    rcases h with ⟨values, hvalues, hmem⟩
    rcases (m.mem_values_iff values).mp hvalues with ⟨key, hfound⟩
    exists key
    simpa [hfound] using hmem
  · intro h
    rcases h with ⟨key, hmem⟩
    cases hfound : m.get? key with
    | none =>
        simp [hfound] at hmem
    | some values =>
        exact ⟨values, (m.mem_values_iff values).mpr ⟨key, hfound⟩, by simpa [hfound] using hmem⟩

end OrderedMap
end EventCalculus

/-!
# Insertion-ordered maps

A finite map that remembers the order in which its keys first came.  Writing to
a key that is present replaces the value and keeps the place.
-/

namespace EventCalculus

/-- Writes to a list of entries: in place if the key is present, else at the end. -/
def insertEntry [DecidableEq κ] (key : κ) (value : α) : List (κ × α) -> List (κ × α)
  | [] => [(key, value)]
  | (k, v) :: rest =>
      if k = key then
        (key, value) :: rest
      else
        (k, v) :: insertEntry key value rest

/-- The value of the first entry with a key. -/
def findValue? [DecidableEq κ] (key : κ) : List (κ × α) -> Option α
  | [] => none
  | (k, v) :: rest => if k = key then some v else findValue? key rest

theorem keys_insertEntry [DecidableEq κ] (key : κ) (value : α)
    (entries : List (κ × α)) :
    (insertEntry key value entries).map Prod.fst =
      if key ∈ entries.map Prod.fst then
        entries.map Prod.fst
      else
        entries.map Prod.fst ++ [key] := by
  induction entries with
  | nil => simp [insertEntry]
  | cons entry rest ih =>
      rcases entry with ⟨k, v⟩
      by_cases hk : k = key
      · simp [insertEntry, hk]
      · have hk' : ¬ key = k := fun h => hk h.symm
        simp only [insertEntry, hk, ↓reduceIte, List.map_cons, ih,
          List.mem_cons, hk', false_or]
        split <;> simp

theorem nodup_keys_insertEntry [DecidableEq κ] (key : κ) (value : α)
    {entries : List (κ × α)} (h : (entries.map Prod.fst).Nodup) :
    ((insertEntry key value entries).map Prod.fst).Nodup := by
  rw [keys_insertEntry]
  split
  · exact h
  · rename_i hkey
    rw [List.nodup_append]
    refine ⟨h, by simp, ?_⟩
    intro a ha b hb hab
    simp only [List.mem_singleton] at hb
    exact hkey (hb ▸ hab ▸ ha)

/-- A finite map whose keys are listed in the order of their first insertion. -/
structure OrderedMap (κ : Type) (α : Type) where
  entries : List (κ × α)
  nodup_keys : (entries.map Prod.fst).Nodup

namespace OrderedMap

variable {κ α β : Type}

instance [DecidableEq κ] [DecidableEq α] : DecidableEq (OrderedMap κ α) := fun a b =>
  decidable_of_iff (a.entries = b.entries) (by cases a; cases b; simp)

/-- The map without keys. -/
def empty : OrderedMap κ α :=
  ⟨[], List.nodup_nil⟩

instance : Inhabited (OrderedMap κ α) := ⟨empty⟩

/-- The keys in order of first insertion. -/
def keys (m : OrderedMap κ α) : List κ :=
  m.entries.map Prod.fst

/-- The values in the order of their keys. -/
def values (m : OrderedMap κ α) : List α :=
  m.entries.map Prod.snd

/-- A map without keys. -/
def isEmpty (m : OrderedMap κ α) : Bool :=
  m.entries.isEmpty

/-- The number of keys. -/
def size (m : OrderedMap κ α) : Nat :=
  m.entries.length

section
variable [DecidableEq κ]

/-- The value at a key. -/
def get? (m : OrderedMap κ α) (key : κ) : Option α :=
  findValue? key m.entries

/-- The key is present. -/
def contains (m : OrderedMap κ α) (key : κ) : Bool :=
  (m.get? key).isSome

/-- Writes a value; a key that is present keeps its place. -/
def insert (m : OrderedMap κ α) (key : κ) (value : α) : OrderedMap κ α :=
  ⟨insertEntry key value m.entries, nodup_keys_insertEntry key value m.nodup_keys⟩

/-- The map of a list of entries; a later entry of a key wins. -/
def ofList (entries : List (κ × α)) : OrderedMap κ α :=
  entries.foldl (fun m entry => m.insert entry.1 entry.2) empty

/-- Appends to the list at a key, which is empty if the key is absent. -/
def push (m : OrderedMap κ (List α)) (key : κ) (value : α) : OrderedMap κ (List α) :=
  m.insert key (((m.get? key).getD []) ++ [value])

end

end OrderedMap
end EventCalculus

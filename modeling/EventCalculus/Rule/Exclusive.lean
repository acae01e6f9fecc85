/-!
# Exclusive domains

The domains whose fluents hold one value per subject at a time.  A domain can be
registered but never withdrawn.
-/

namespace EventCalculus

/-- A set of domains in the order of registration. -/
structure ExclusiveDomains where
  domains : List String
  nodup : domains.Nodup
deriving DecidableEq

namespace ExclusiveDomains

/-- The set without domains. -/
def empty : ExclusiveDomains :=
  ⟨[], List.nodup_nil⟩

instance : Inhabited ExclusiveDomains := ⟨empty⟩

/-- The domain is exclusive. -/
def contains (s : ExclusiveDomains) (domain : String) : Bool :=
  s.domains.contains domain

/-- Makes a domain exclusive. -/
def insert (s : ExclusiveDomains) (domain : String) : ExclusiveDomains :=
  if h : domain ∈ s.domains then
    s
  else
    ⟨s.domains ++ [domain], by
      rw [List.nodup_append]
      refine ⟨s.nodup, by simp, ?_⟩
      intro a ha b hb hab
      rw [List.mem_singleton] at hb
      exact h (hb ▸ hab ▸ ha)⟩

/-- Makes a domain exclusive; tells whether it was not before. -/
def register (s : ExclusiveDomains) (domain : String) : Bool × ExclusiveDomains :=
  (!s.contains domain, s.insert domain)

/-- The domains in the order of their characters. -/
def sorted (s : ExclusiveDomains) : List String :=
  s.domains.mergeSort fun a b => decide (a ≤ b)

/-- The number of domains. -/
def size (s : ExclusiveDomains) : Nat :=
  s.domains.length

end ExclusiveDomains
end EventCalculus

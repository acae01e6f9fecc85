import EventCalculus.Proofs.NumeralText

/-!
# Patterns of characters

A pattern is matched at the front of a text.  The ways to match it are tried in an order: of two
alternatives the first one comes first, and of repetitions the longest.  A way that fails later on
is given up for the next one, and the first way that does not fail is the match.
-/

namespace EventCalculus

/-- A pattern of characters. -/
inductive Pattern where
  | char (accepts : Char -> Bool)
  | empty
  | seq (first second : Pattern)
  | either (first second : Pattern)
  | many (repeated : Pattern)
  | notBefore (accepts : Char -> Bool)

namespace Pattern

/-- A pattern that may be left out. -/
def optional (p : Pattern) : Pattern :=
  either p empty

def oneOrMore (p : Pattern) : Pattern :=
  seq p (many p)

/-- What is cut off a text, and the rest of it. -/
abbrev Cut := List Char × List Char

/-- Cuts at the front of what other cuts leave. -/
def andThen (found : List Cut) (next : List Char -> List Cut) : List Cut :=
  found.flatMap fun cut => (next cut.2).map fun more => (cut.1 ++ more.1, more.2)

/-- At most so many repetitions, more of them before fewer. -/
def rounds (cuts : List Char -> List Cut) : Nat -> List Char -> List Cut
  | 0, cs => [([], cs)]
  | n + 1, cs => andThen (cuts cs) (rounds cuts n) ++ [([], cs)]

/-- The ways to cut a match off a text, in the order in which they are tried.  What is repeated
takes a character at least, so there are no more repetitions than characters. -/
def cuts : Pattern -> List Char -> List Cut
  | char _, [] => []
  | char accepts, c :: rest => if accepts c then [([c], rest)] else []
  | empty, cs => [([], cs)]
  | seq p q, cs => andThen (p.cuts cs) q.cuts
  | either p q, cs => p.cuts cs ++ q.cuts cs
  | many p, cs => rounds p.cuts cs.length cs
  | notBefore accepts, cs => if cs.head?.any accepts then [] else [([], cs)]

/-- The match at the front of a text, and the rest behind it. -/
def match? (p : Pattern) (cs : List Char) : Option Cut :=
  (p.cuts cs).head?

variable {p q : Pattern} {accepts : Char -> Bool}

/-!
# Sequences
-/

theorem mem_andThen_iff (found : List Cut) (next : List Char -> List Cut) (x : Cut) :
    x ∈ andThen found next ↔
      exists cut, cut ∈ found ∧ exists more, more ∈ next cut.2 ∧ (cut.1 ++ more.1, more.2) = x := by
  simp only [andThen, List.mem_flatMap, List.mem_map]

theorem andThen_append (found others : List Cut) (next : List Char -> List Cut) :
    andThen (found ++ others) next = andThen found next ++ andThen others next :=
  List.flatMap_append

theorem andThen_singleton (cut : Cut) (next : List Char -> List Cut) :
    andThen [cut] next = (next cut.2).map fun more => (cut.1 ++ more.1, more.2) := by
  rw [andThen, List.flatMap_singleton]

theorem andThen_here (cs : List Char) (next : List Char -> List Cut) :
    andThen [([], cs)] next = next cs := by
  rw [andThen_singleton]
  exact List.map_id _

theorem andThen_assoc (found : List Cut) (next last : List Char -> List Cut) :
    andThen (andThen found next) last = andThen found fun cs => andThen (next cs) last := by
  simp only [andThen, List.flatMap_assoc, List.flatMap_map, List.map_flatMap, List.map_map,
    Function.comp_def, List.append_assoc]

/-- What follows repetitions follows one more of them, or else none. -/
theorem andThen_rounds_succ (f next : List Char -> List Cut) (n : Nat) (cs : List Char) :
    andThen (rounds f (n + 1) cs) next =
      andThen (f cs) (fun rest => andThen (rounds f n rest) next) ++ next cs := by
  rw [rounds, andThen_append, andThen_here, andThen_assoc]

theorem head?_andThen {found : List Cut} {next : List Char -> List Cut} {front rest more after :
    List Char} (hfound : found.head? = some (front, rest))
    (hnext : (next rest).head? = some (more, after)) :
    (andThen found next).head? = some (front ++ more, after) := by
  cases found with
  | nil => cases hfound
  | cons cut others =>
      cases hfound
      rw [andThen, List.flatMap_cons, List.head?_append, List.head?_map, hnext]
      rfl

theorem match?_seq {cs front rest more after : List Char} (hp : p.match? cs = some (front, rest))
    (hq : q.match? rest = some (more, after)) :
    (seq p q).match? cs = some (front ++ more, after) :=
  head?_andThen hp hq

theorem match?_eq_none {cs : List Char} (h : p.cuts cs = []) : p.match? cs = none := by
  rw [match?, h]
  rfl

theorem cuts_seq_eq_nil {cs : List Char} (h : p.cuts cs = []) (q : Pattern) :
    (seq p q).cuts cs = [] := by
  rw [cuts, h]
  rfl

theorem match?_optional {cs : List Char} {cut : Cut} (h : p.match? cs = some cut) :
    (optional p).match? cs = some cut := by
  rw [match?, optional, cuts, List.head?_append, ← match?, h]
  rfl

theorem cuts_optional_of_nil {cs : List Char} (h : p.cuts cs = []) :
    (optional p).cuts cs = [([], cs)] := by
  rw [optional, cuts, cuts, h]
  rfl

/-!
# Runs of characters
-/

theorem cuts_char_cons (c : Char) (rest : List Char) :
    (char accepts).cuts (c :: rest) = if accepts c then [([c], rest)] else [] := rfl

theorem cuts_char_eq_nil {cs : List Char} (h : forall c, cs.head? = some c -> accepts c = false) :
    (char accepts).cuts cs = [] := by
  cases cs with
  | nil => rfl
  | cons c rest => rw [cuts_char_cons, h c rfl, if_neg Bool.false_ne_true]

theorem head?_rounds_char (n : Nat) {cs : List Char} (hn : cs.length ≤ n) :
    (rounds (char accepts).cuts n cs).head? =
      some (cs.takeWhile accepts, cs.dropWhile accepts) := by
  induction n generalizing cs with
  | zero =>
      rw [List.length_eq_zero_iff.mp (Nat.le_zero.mp hn)]
      rfl
  | succ n ih =>
      cases cs with
      | nil => rfl
      | cons c rest =>
          rw [rounds, cuts_char_cons]
          cases hc : accepts c with
          | true =>
              have hone : [([c], rest)].head? = some ([c], rest) := rfl
              have hmore := head?_andThen hone (ih (Nat.le_of_succ_le_succ hn))
              rw [if_pos rfl, List.head?_append, hmore, List.takeWhile_cons_of_pos hc,
                List.dropWhile_cons_of_pos hc]
              rfl
          | false =>
              rw [if_neg Bool.false_ne_true, List.takeWhile_cons_of_neg (by simp [hc]),
                List.dropWhile_cons_of_neg (by simp [hc])]
              rfl

/-- The longest run of characters is tried first. -/
theorem match?_many_char (cs : List Char) :
    (many (char accepts)).match? cs = some (cs.takeWhile accepts, cs.dropWhile accepts) :=
  head?_rounds_char cs.length (Nat.le_refl _)

theorem match?_char {c : Char} (hc : accepts c = true) (rest : List Char) :
    (char accepts).match? (c :: rest) = some ([c], rest) := by
  rw [match?, cuts_char_cons, if_pos hc]
  rfl

theorem match?_oneOrMore_char {cs : List Char} (h : cs.takeWhile accepts ≠ []) :
    (oneOrMore (char accepts)).match? cs =
      some (cs.takeWhile accepts, cs.dropWhile accepts) := by
  cases cs with
  | nil => exact absurd rfl h
  | cons c rest =>
      cases hc : accepts c with
      | false => exact absurd (List.takeWhile_cons_of_neg (by simp [hc])) h
      | true =>
          rw [List.takeWhile_cons_of_pos hc, List.dropWhile_cons_of_pos hc]
          exact match?_seq (match?_char hc rest) (match?_many_char rest)

theorem cuts_oneOrMore_char_eq_nil {cs : List Char} (h : cs.takeWhile accepts = []) :
    (oneOrMore (char accepts)).cuts cs = [] := by
  apply cuts_seq_eq_nil
  apply cuts_char_eq_nil
  intro c hc
  cases haccepts : accepts c with
  | false => rfl
  | true =>
      rcases List.head?_eq_some_iff.mp hc with ⟨rest, rfl⟩
      rw [List.takeWhile_cons_of_pos haccepts] at h
      cases h

theorem mem_cuts_char {cs : List Char} {cut : Cut} (h : cut ∈ (char accepts).cuts cs) :
    exists c, accepts c = true ∧ cut.1 = [c] ∧ cs = c :: cut.2 := by
  cases cs with
  | nil => cases h
  | cons c rest =>
      rw [cuts_char_cons] at h
      split at h
      · rename_i hc
        rw [List.mem_singleton.mp h]
        exact ⟨c, hc, rfl, rfl⟩
      · cases h

theorem mem_rounds_char (n : Nat) {cs : List Char} {cut : Cut}
    (h : cut ∈ rounds (char accepts).cuts n cs) :
    (forall c, c ∈ cut.1 -> accepts c = true) ∧ cs = cut.1 ++ cut.2 := by
  induction n generalizing cs cut with
  | zero =>
      rw [List.mem_singleton.mp h]
      exact ⟨fun _ hc => absurd hc List.not_mem_nil, rfl⟩
  | succ n ih =>
      cases List.mem_append.mp h with
      | inl hmore =>
          rcases (mem_andThen_iff _ _ _).mp hmore with ⟨front, hfront, more, hmem, rfl⟩
          rcases mem_cuts_char hfront with ⟨c, hc, hone, hcs⟩
          rcases ih hmem with ⟨hrun, hrest⟩
          refine ⟨?_, ?_⟩
          · intro d hd
            rw [hone] at hd
            cases List.mem_cons.mp hd with
            | inl heq => rw [heq, hc]
            | inr hmem => exact hrun d hmem
          · rw [hcs, hrest, hone]
            rfl
      | inr hlast =>
          rw [List.mem_singleton.mp hlast]
          exact ⟨fun _ hc => absurd hc List.not_mem_nil, rfl⟩

/-- Any way to match a run takes characters that are accepted. -/
theorem mem_cuts_oneOrMore_char {cs : List Char} {cut : Cut}
    (h : cut ∈ (oneOrMore (char accepts)).cuts cs) :
    cut.1 ≠ [] ∧ (forall c, c ∈ cut.1 -> accepts c = true) ∧ cs = cut.1 ++ cut.2 := by
  rcases (mem_andThen_iff _ _ _).mp h with ⟨front, hfront, more, hmem, rfl⟩
  rcases mem_cuts_char hfront with ⟨c, hc, hone, hcs⟩
  rcases mem_rounds_char _ hmem with ⟨hrun, hrest⟩
  rw [hone]
  refine ⟨List.cons_ne_nil c _, ?_, ?_⟩
  · intro d hd
    cases List.mem_cons.mp hd with
    | inl heq => rw [heq, hc]
    | inr hmem => exact hrun d hmem
  · rw [hcs, hrest]
    rfl

end Pattern
end EventCalculus

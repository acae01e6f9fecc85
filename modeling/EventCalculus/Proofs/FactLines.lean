import EventCalculus.Proofs.ArchiveHistory
import EventCalculus.Proofs.TimestampText

/-!
# Facts on lines

A fact is written on a line of its own, and the line is read as this fact if no
character of it ends a line and the description can be read back.
-/

namespace EventCalculus

/-!
# Lines
-/

namespace Text

/-- No character ends a line. -/
def OnOneLine (cs : List Char) : Prop :=
  forall c, c ∈ cs -> isLineBreak c = false

instance (cs : List Char) : Decidable (OnOneLine cs) :=
  List.decidableBAll (fun c => isLineBreak c = false) cs

section
variable {cs ds : List Char}

theorem onOneLine_append : OnOneLine (cs ++ ds) ↔ OnOneLine cs ∧ OnOneLine ds := by
  simp only [OnOneLine, List.mem_append, or_imp, forall_and]

theorem onOneLine_cons {c : Char} :
    OnOneLine (c :: cs) ↔ isLineBreak c = false ∧ OnOneLine cs := by
  simp only [OnOneLine, List.mem_cons, forall_eq_or_imp]

end

theorem linesFrom_cons {c : Char} (h : isLineBreak c = false) (current rest : List Char) :
    linesFrom current (c :: rest) = linesFrom (c :: current) rest := by
  have hreturn : c ≠ '\r' := by
    intro heq
    rw [heq] at h
    exact absurd h (by decide)
  rw [linesFrom.eq_def]
  split
  · rename_i hnil
    cases hnil
  · rename_i hcons
    exact absurd (List.cons.inj hcons).left hreturn
  · rename_i hcons
    cases hcons
    rw [h, if_neg Bool.false_ne_true]

theorem linesFrom_append {cs : List Char} (h : OnOneLine cs) (current rest : List Char) :
    linesFrom current (cs ++ rest) = linesFrom (cs.reverse ++ current) rest := by
  induction cs generalizing current with
  | nil => rfl
  | cons c more ih =>
      rcases onOneLine_cons.mp h with ⟨hc, hmore⟩
      rw [List.cons_append, linesFrom_cons hc, ih hmore, List.reverse_cons, List.append_assoc]
      rfl

theorem linesFrom_lineFeed (current rest : List Char) :
    linesFrom current ('\n' :: rest) = current.reverse :: lines rest := by
  rw [linesFrom.eq_def]
  split
  · rename_i hnil
    cases hnil
  · rename_i hcons
    cases hcons
  · rename_i hcons
    cases hcons
    rfl

theorem exists_linesFrom_eq_cons {c : Char} (h : isLineBreak c = true)
    (current rest : List Char) :
    exists more, linesFrom current (c :: rest) = current.reverse :: more := by
  rw [linesFrom.eq_def]
  split
  · rename_i hnil
    cases hnil
  · exact ⟨_, rfl⟩
  · rename_i hcons
    cases hcons
    rw [h, if_pos rfl]
    exact ⟨_, rfl⟩

theorem lines_append_lineFeed {cs : List Char} (h : OnOneLine cs) (rest : List Char) :
    lines (cs ++ '\n' :: rest) = cs :: lines rest := by
  rw [lines, linesFrom_append h, List.append_nil, linesFrom_lineFeed, List.reverse_reverse]

/-- Lines that are written one below the other are found again. -/
theorem lines_flatMap {written : List (List Char)}
    (h : forall cs, cs ∈ written -> OnOneLine cs) :
    lines (written.flatMap (· ++ ['\n'])) = written := by
  induction written with
  | nil => rfl
  | cons cs others ih =>
      have hothers := ih fun ds hds => h ds (List.mem_cons_of_mem cs hds)
      rw [List.flatMap_cons, List.append_assoc, List.singleton_append,
        lines_append_lineFeed (h cs List.mem_cons_self), hothers]

/-- What stands in front of a character that ends lines is a line, whatever follows it. -/
theorem exists_lines_eq_cons {cs : List Char} (hcs : OnOneLine cs) {c : Char}
    (hc : isLineBreak c = true) (rest : List Char) :
    exists more, lines (cs ++ c :: rest) = cs :: more := by
  rw [lines, linesFrom_append hcs, List.append_nil]
  rcases exists_linesFrom_eq_cons hc cs.reverse rest with ⟨more, hmore⟩
  rw [List.reverse_reverse] at hmore
  exact ⟨more, hmore⟩

theorem isBlank_of_isLineBreak {c : Char} (h : isLineBreak c = true) : isBlank c = true := by
  simp only [isLineBreak, lineBreakCodePoints, List.contains_eq_mem, List.mem_cons,
    List.not_mem_nil, or_false, decide_eq_true_eq] at h
  rcases h with h | h | h | h | h | h | h | h | h | h <;> simp [isBlank, blankCodePoints, h]

theorem isLineBreak_eq_false {c : Char} (h : isBlank c = false) : isLineBreak c = false := by
  cases hbreak : isLineBreak c with
  | false => rfl
  | true =>
      rw [isBlank_of_isLineBreak hbreak] at h
      cases h

section
variable {p : Char -> Bool}

theorem dropEndWhile_append_cons {c : Char} (hc : p c = false) (cs rest : List Char) :
    dropEndWhile p (cs ++ c :: rest) = cs ++ c :: dropEndWhile p rest := by
  have hkept : (c :: cs.reverse).dropWhile p = c :: cs.reverse := by
    rw [List.dropWhile_cons, hc, if_neg Bool.false_ne_true]
  have hreverse : (cs ++ c :: rest).reverse = rest.reverse ++ c :: cs.reverse := by
    simp
  rw [dropEndWhile, hreverse, List.dropWhile_append, hkept]
  split
  · rename_i hempty
    rw [dropEndWhile, List.isEmpty_iff.mp hempty]
    simp
  · simp [dropEndWhile]

theorem exists_eq_dropEndWhile_append (p : Char -> Bool) (cs : List Char) :
    exists ds, cs = dropEndWhile p cs ++ ds ∧ forall d, d ∈ ds -> p d = true := by
  refine ⟨(cs.reverse.takeWhile p).reverse, ?_, ?_⟩
  · rw [dropEndWhile, ← List.reverse_append, List.takeWhile_append_dropWhile, List.reverse_reverse]
  · intro d hd
    exact List.mem_takeWhile_imp (List.mem_reverse.mp hd)

end

theorem trimChars_cons {c : Char} (hc : isBlank c = false) (rest : List Char) :
    trimChars (c :: rest) = c :: dropEndWhile isBlank rest := by
  have hdrop : (c :: rest).dropWhile isBlank = c :: rest := by
    rw [List.dropWhile_cons, hc, if_neg Bool.false_ne_true]
  rw [trimChars, hdrop]
  exact dropEndWhile_append_cons hc [] rest

theorem trimChars_of_ends {first last : Char} (hfirst : isBlank first = false)
    (hlast : isBlank last = false) (cs : List Char) :
    trimChars (first :: cs ++ [last]) = first :: cs ++ [last] := by
  rw [List.cons_append, trimChars_cons hfirst, dropEndWhile_append_cons hlast]
  rfl

end Text

/-!
# Facts
-/

def Compound.OnOneLine (c : Compound) : Prop :=
  Text.OnOneLine c.render.toList

def happens : Functor :=
  ⟨"happens", by decide +kernel⟩

def factTerm (c : Compound) (timestamp : String) : Term :=
  .compound happens [c.toTerm, .text timestamp]

/-- The characters of a fact with a point at the end. -/
def factLine (fact : Compound × String) : List Char :=
  (factTerm fact.1 fact.2).renderChars ++ ['.']

/-- The text is in the normal form of timestamps. -/
def IsTimestamp (timestamp : String) : Prop :=
  timestampOf (.text timestamp) = .ok timestamp

theorem IsTimestamp.allPlain {timestamp : String} (h : IsTimestamp timestamp) :
    Instant.AllPlain timestamp.toList := by
  rcases exists_of_map_eq_ok (exists_of_mapError_eq_ok h) with ⟨i, _, htext⟩
  rw [← htext, Instant.text, String.toList_ofList]
  exact Instant.allPlain_chars i

section
variable {cs : List Char}

theorem Instant.AllPlain.onOneLine (h : AllPlain cs) : Text.OnOneLine cs := by
  intro c hc
  have hbounds := h c hc
  exact Text.isLineBreak_eq_false (isBlank_eq_false (by omega) (by omega))

/-- Nothing in a timestamp has to be escaped. -/
theorem Instant.AllPlain.flatMap_escapeChar (h : AllPlain cs) :
    cs.flatMap (Term.escapeChar '"') = cs := by
  have hescape : forall c, c ∈ cs -> Term.escapeChar '"' c = [c] := by
    intro c hc
    have hbounds := h c hc
    have hne : forall d : Char, (d.toNat < 0x2D ∨ 0x54 < d.toNat) -> c ≠ d := by
      intro d hd heq
      rw [← heq] at hd
      omega
    rw [Term.escapeChar, if_neg (hne '\\' (by decide)), if_neg (hne '"' (by decide)),
      if_neg (hne '\n' (by decide)), if_neg (hne '\t' (by decide))]
  rw [List.flatMap_congr hescape, List.flatMap_singleton']

end

section
variable {c : Compound} {timestamp : String} (htime : IsTimestamp timestamp)
include htime

theorem toList_occurrenceText :
    (Event.occurrenceText c timestamp).toList = (factTerm c timestamp).renderChars := by
  have hrender : c.render.toList = c.toTerm.renderChars := String.toList_ofList
  have htimestamp : (Term.text timestamp).renderChars = '"' :: timestamp.toList ++ ['"'] := by
    rw [Term.renderChars, Term.enclose, htime.allPlain.flatMap_escapeChar]
  simp only [Event.occurrenceText, factTerm, Term.renderChars.eq_5, Term.renderAll, htimestamp,
    String.toList_append, hrender, happens]
  simp

theorem toList_factText :
    (Event.occurrenceText c timestamp ++ ".\n").toList = factLine (c, timestamp) ++ ['\n'] := by
  rw [String.toList_append, toList_occurrenceText htime, factLine, List.append_assoc]
  rfl

end

theorem dropFinalPoint_snoc (cs : List Char) : dropFinalPoint (cs ++ ['.']) = cs := by
  rw [dropFinalPoint, List.getLast?_concat, if_pos rfl, List.dropLast_concat]

theorem exists_factLine_eq_cons (fact : Compound × String) :
    exists cs, factLine fact = 'h' :: cs ++ ['.'] :=
  ⟨_, rfl⟩

theorem trimChars_factLine (fact : Compound × String) :
    Text.trimChars (factLine fact) = factLine fact := by
  rcases exists_factLine_eq_cons fact with ⟨cs, hcs⟩
  rw [hcs]
  exact Text.trimChars_of_ends rfl rfl cs

theorem isSkipped_factLine (fact : Compound × String) : isSkipped (factLine fact) = false := by
  rcases exists_factLine_eq_cons fact with ⟨cs, hcs⟩
  rw [hcs]
  rfl

/-- What a fact needs to be read as itself. -/
structure IsFact (fact : Compound × String) : Prop where
  readsBack : fact.1.ReadsBack
  ground : fact.1.isGround = true
  timestamp : IsTimestamp fact.2

section
variable {fact : Compound × String} (h : IsFact fact)
include h

theorem IsFact.reading?_factTerm :
    (factTerm fact.1 fact.2).reading? = some (factTerm fact.1 fact.2) := by
  have hdescription := (Term.parse_render_eq_ok_iff _ _).mp h.readsBack.parse_render
  have hstem : happens.stem = happens := by
    rw [happens.stem_eq_iff, EndsInLineFeed]
    decide
  simp only [factTerm, Term.reading?.eq_5, Term.readingAll?, hdescription, Term.reading?.eq_3,
    hstem, Option.map_some, Option.bind_some]

theorem IsFact.readFact_factLine (number : Nat) : readFact number (factLine fact) = .ok fact := by
  have hparse : Term.parse (String.ofList (factTerm fact.1 fact.2).renderChars) =
      .ok (factTerm fact.1 fact.2) :=
    (Term.parse_render_eq_ok_iff _ _).mpr h.reading?_factTerm
  have hparts : factParts? (factTerm fact.1 fact.2) = some (fact.1.toTerm, fact.2) := rfl
  have hcompound : Compound.ofTerm? fact.1.toTerm = some fact.1 := rfl
  have htime : timestampOf (.text fact.2) = .ok fact.2 := h.timestamp
  simp only [readFact, factLine, dropFinalPoint_snoc, hparse, hparts, hcompound, Option.filter_some,
    h.ground, ↓reduceIte, htime, Except.map]

theorem IsFact.readFacts_cons (number : Nat) (rest : List (List Char)) :
    readFacts number (factLine fact :: rest) =
      (readFacts (number + 1) rest).map (fact :: ·) := by
  rw [readFacts]
  simp only [trimChars_factLine, isSkipped_factLine, Bool.false_eq_true, ↓reduceIte,
    h.readFact_factLine number]
  cases readFacts (number + 1) rest with
  | error fault => rfl
  | ok facts => rfl

theorem IsFact.onOneLine_factLine_iff :
    Text.OnOneLine (factLine fact) ↔ fact.1.OnOneLine := by
  have htime := h.timestamp.allPlain.onOneLine
  rw [factLine, ← toList_occurrenceText h.timestamp, Event.occurrenceText]
  have hopen : Text.OnOneLine "happens(".toList := by decide
  have hbetween : Text.OnOneLine ", \"".toList := by decide
  have hclose : Text.OnOneLine "\")".toList := by decide
  have hpoint : Text.OnOneLine ['.'] := by decide
  simp only [String.toList_append, Text.onOneLine_append, htime, hopen, hbetween, hclose, hpoint,
    true_and, and_true]
  rfl

end

theorem readFacts_map_factLine {facts : List (Compound × String)}
    (h : forall fact, fact ∈ facts -> IsFact fact) (number : Nat) :
    readFacts number (facts.map factLine) = .ok facts := by
  induction facts generalizing number with
  | nil => rfl
  | cons fact others ih =>
      have hothers := ih (fun f hf => h f (List.mem_cons_of_mem fact hf)) (number + 1)
      rw [List.map_cons, (h fact List.mem_cons_self).readFacts_cons, hothers]
      rfl

end EventCalculus

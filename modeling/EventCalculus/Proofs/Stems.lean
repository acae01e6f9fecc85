import EventCalculus.Proofs.TermText
import EventCalculus.Term.Parser

/-!
# Stems of names

A line feed may end a name, but it separates tokens of the surface form, so it is
lost when the name is read.  What is read is the stem, which is the name itself
unless it ends in a line feed.
-/

namespace EventCalculus

/-- The last character of the text is a line feed. -/
def EndsInLineFeed (s : String) : Prop :=
  s.toList.getLast? = some '\n'

/-- The text is a small letter and word characters in front of one line feed. -/
def IsWordWithLineFeed (s : String) : Prop :=
  exists c rest, s.toList = c :: rest ++ ['\n'] ∧ c.isLower = true ∧
    forall d, d ∈ rest -> isWordChar d = true

/-- The characters of an identifier without the line feed that may end it. -/
def stemChars : List Char -> List Char
  | [] => []
  | c :: rest => c :: rest.takeWhile isWordChar

theorem isWordChar_lineFeed : isWordChar '\n' = false := by
  decide

theorem isWordChar_of_isWordStart {c : Char} (h : isWordStart c = true) : isWordChar c = true := by
  simp only [isWordStart, isWordChar, Char.isAlphanum, Bool.or_eq_true] at h ⊢
  exact h.imp Or.inl id

theorem isWordStart_of_isLower {c : Char} (h : c.isLower = true) : isWordStart c = true := by
  simp [isWordStart_eq, h]

theorem isWordStart_of_isVariableStart {c : Char} (h : isVariableStart c = true) :
    isWordStart c = true := by
  simp only [isVariableStart, isWordStart_eq, Bool.or_eq_true] at h ⊢
  exact h.imp Or.inl id

section
variable {start : Char -> Bool} {cs : List Char}

/-- An identifier is its stem or its stem in front of a line feed. -/
theorem eq_stemChars_or (h : isIdentifier start cs = true) :
    cs = stemChars cs ∨ cs = stemChars cs ++ ['\n'] := by
  cases cs with
  | nil =>
      cases h
  | cons c rest =>
      simp only [isIdentifier, Bool.and_eq_true] at h
      have hsplit := List.takeWhile_append_dropWhile (p := isWordChar) (l := rest)
      have hend := h.right
      cases hdrop : rest.dropWhile isWordChar with
      | nil =>
          rw [hdrop, List.append_nil] at hsplit
          exact Or.inl (congrArg (c :: ·) hsplit.symm)
      | cons d more =>
          rw [hdrop] at hend hsplit
          cases more with
          | nil =>
              rw [eq_of_beq hend] at hsplit
              exact Or.inr (congrArg (c :: ·) hsplit.symm)
          | cons _ _ =>
              cases hend

theorem isIdentifier_of_isWordChar {c : Char} {rest : List Char} (hc : start c = true)
    (hrest : forall d, d ∈ rest -> isWordChar d = true) :
    isIdentifier start (c :: rest) = true := by
  have hdrop : rest.dropWhile isWordChar = [] := List.dropWhile_eq_nil_iff.mpr hrest
  simp [isIdentifier, hc, hdrop, isIdentifierEnd]

theorem isIdentifier_stemChars (h : isIdentifier start cs = true) :
    isIdentifier start (stemChars cs) = true := by
  cases cs with
  | nil =>
      cases h
  | cons c rest =>
      simp only [isIdentifier, Bool.and_eq_true] at h
      exact isIdentifier_of_isWordChar h.left fun _ hd => List.mem_takeWhile_imp hd

theorem isWordChar_of_mem_stemChars (hword : forall c, start c = true -> isWordStart c = true)
    (h : isIdentifier start cs = true) {d : Char} (hd : d ∈ stemChars cs) :
    isWordChar d = true := by
  cases cs with
  | nil =>
      cases h
  | cons c rest =>
      simp only [isIdentifier, Bool.and_eq_true] at h
      cases List.mem_cons.mp hd with
      | inl hfirst =>
          rw [hfirst]
          exact isWordChar_of_isWordStart (hword c h.left)
      | inr hrest => exact List.mem_takeWhile_imp hrest

/-- An identifier is its stem unless it ends in a line feed. -/
theorem stemChars_eq_iff (hword : forall c, start c = true -> isWordStart c = true)
    (h : isIdentifier start cs = true) : stemChars cs = cs ↔ cs.getLast? ≠ some '\n' := by
  constructor
  · intro heq hlast
    rw [← heq] at hlast
    have hchar := isWordChar_of_mem_stemChars hword h (List.mem_of_getLast? hlast)
    rw [isWordChar_lineFeed] at hchar
    cases hchar
  · intro hlast
    cases eq_stemChars_or h with
    | inl heq => exact heq.symm
    | inr hline =>
        rw [hline, List.getLast?_concat] at hlast
        exact absurd rfl hlast

end

/-!
# Names
-/

namespace Functor

/-- The functor that is read for this one. -/
def stem (f : Functor) : Functor where
  text := String.ofList (stemChars f.text.toList)
  valid := by
    rw [isFunctorText, String.toList_ofList]
    exact isIdentifier_stemChars f.valid

@[simp] theorem toList_text_stem (f : Functor) :
    f.stem.text.toList = stemChars f.text.toList :=
  String.toList_ofList

theorem stem_eq_iff (f : Functor) : f.stem = f ↔ ¬ EndsInLineFeed f.text := by
  rw [EndsInLineFeed, ← ne_eq, ← stemChars_eq_iff (fun _ => isWordStart_of_isLower) f.valid]
  constructor
  · intro h
    rw [← toList_text_stem, h]
  · intro h
    apply eq_of_text_eq
    apply String.toList_injective
    rw [toList_text_stem, h]

end Functor

namespace VariableName

/-- The variable that is read for this one. -/
def stem (v : VariableName) : VariableName where
  text := String.ofList (stemChars v.text.toList)
  valid := by
    rw [isVariableText, String.toList_ofList]
    exact isIdentifier_stemChars v.valid

@[simp] theorem toList_text_stem (v : VariableName) :
    v.stem.text.toList = stemChars v.text.toList :=
  String.toList_ofList

theorem stem_eq_iff (v : VariableName) : v.stem = v ↔ ¬ EndsInLineFeed v.text := by
  rw [EndsInLineFeed, ← ne_eq,
    ← stemChars_eq_iff (fun _ => isWordStart_of_isVariableStart) v.valid]
  constructor
  · intro h
    rw [← toList_text_stem, h]
  · intro h
    apply eq_of_text_eq
    apply String.toList_injective
    rw [toList_text_stem, h]

end VariableName

namespace AtomName

/-- The functor with the name of a plain atom. -/
def toFunctor (n : AtomName) (h : n.isPlain = true) : Functor :=
  ⟨n.text, h⟩

/-- Only plain atoms may lose a line feed, and those that do are words in front of one. -/
theorem endsInLineFeed_iff {n : AtomName} (h : n.isPlain = true) :
    EndsInLineFeed n.text ↔ IsWordWithLineFeed n.text := by
  constructor
  · intro hlast
    have hstem := mt (stemChars_eq_iff (fun _ => isWordStart_of_isLower) h).mp (not_not.mpr hlast)
    have hword : forall d, d ∈ stemChars n.text.toList -> isWordChar d = true :=
      fun _ => isWordChar_of_mem_stemChars (fun _ => isWordStart_of_isLower) h
    cases eq_stemChars_or h with
    | inl heq => exact absurd heq.symm hstem
    | inr hline =>
        rcases exists_start_of_isIdentifier (isIdentifier_stemChars h) with
          ⟨c, rest, hcons, hlower⟩
        rw [hcons] at hline hword
        exact ⟨c, rest, hline, hlower, fun d hd => hword d (List.mem_cons_of_mem c hd)⟩
  · intro hword
    rcases hword with ⟨c, rest, hchars, _⟩
    rw [EndsInLineFeed, hchars, List.getLast?_concat]

theorem isPlain_of_isWordWithLineFeed {n : AtomName} (h : IsWordWithLineFeed n.text) :
    n.isPlain = true := by
  rcases h with ⟨c, rest, hchars, hlower, hword⟩
  have hdrop : (rest ++ ['\n']).dropWhile isWordChar = ['\n'] := by
    rw [List.dropWhile_append_of_pos hword]
    rfl
  simp only [isPlain, isFunctorText, hchars, List.cons_append, isIdentifier, hlower, hdrop]
  rfl

/-- A plain atom is read as itself unless it is a word in front of a line feed. -/
theorem stem_eq_iff {n : AtomName} (h : n.isPlain = true) :
    (n.toFunctor h).stem.toAtomName = n ↔ ¬ IsWordWithLineFeed n.text := by
  have hstem : (n.toFunctor h).stem = n.toFunctor h ↔ ¬ EndsInLineFeed n.text :=
    (n.toFunctor h).stem_eq_iff
  rw [← endsInLineFeed_iff h, ← hstem]
  constructor
  · intro heq
    exact Functor.eq_of_text_eq (congrArg AtomName.text heq)
  · intro heq
    exact eq_of_text_eq (congrArg Functor.text heq)

end AtomName
end EventCalculus

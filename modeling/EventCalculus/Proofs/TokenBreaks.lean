import EventCalculus.Json.Parser
import EventCalculus.Proofs.NumeralText

/-!
# Tokens on both sides of a break

No token of JSON holds a line feed or ends in a blank.  So the tokens of a text are those in front
of a line feed, or of blanks at the end, and then those behind.  The parser reads the tokens and not
their places.
-/

namespace EventCalculus
namespace Json

/-!
# Readers in front of a break
-/

/-- Blanks up to the end, or a line feed with anything behind it. -/
def IsBreak (ds : List Char) : Prop :=
  (forall d, d ∈ ds -> Text.isBlank d = true) ∨ exists more, ds = '\n' :: more

section
variable {ds : List Char}

theorem IsBreak.isBlank {d : Char} {more : List Char} (h : IsBreak (d :: more)) :
    Text.isBlank d = true := by
  rcases h with hblank | ⟨_, heq⟩
  · exact hblank d List.mem_cons_self
  · cases heq
    rfl

theorem IsBreak.ne {d c : Char} {more : List Char} (h : IsBreak (d :: more))
    (hc : Text.isBlank c = false) : d ≠ c := by
  rintro rfl
  cases hc.symm.trans h.isBlank

theorem IsBreak.isDigit {d : Char} {more : List Char} (h : IsBreak (d :: more)) :
    d.isDigit = false := by
  cases hdigit : d.isDigit with
  | false => rfl
  | true => cases (isBlank_of_isDigit hdigit).symm.trans h.isBlank

theorem takeWhile_isDigit_append (h : IsBreak ds) (cs : List Char) :
    (cs ++ ds).takeWhile Char.isDigit = cs.takeWhile Char.isDigit := by
  induction cs with
  | nil =>
      cases ds with
      | nil => rfl
      | cons d more => exact List.takeWhile_cons_of_neg (Bool.eq_false_iff.mp h.isDigit)
  | cons c cs ih => rw [List.cons_append, List.takeWhile_cons, List.takeWhile_cons, ih]

theorem dropWhile_isDigit_append (h : IsBreak ds) (cs : List Char) :
    (cs ++ ds).dropWhile Char.isDigit = cs.dropWhile Char.isDigit ++ ds := by
  induction cs with
  | nil =>
      cases ds with
      | nil => rfl
      | cons d more => exact List.dropWhile_cons_of_neg (Bool.eq_false_iff.mp h.isDigit)
  | cons c cs ih =>
      rw [List.cons_append, List.dropWhile_cons, List.dropWhile_cons, ih]
      split
      · rfl
      · rfl

theorem takeSign_append (h : IsBreak ds) (cs : List Char) :
    takeSign (cs ++ ds) = ((takeSign cs).1, (takeSign cs).2 ++ ds) := by
  cases cs with
  | nil =>
      cases ds with
      | nil => rfl
      | cons d more =>
          unfold takeSign
          split
          · rename_i heq
            exact absurd (List.head_eq_of_cons_eq heq) (h.ne rfl)
          · rename_i heq
            exact absurd (List.head_eq_of_cons_eq heq) (h.ne rfl)
          · rfl
  | cons c cs =>
      rw [List.cons_append]
      unfold takeSign
      split
      · rename_i heq
        cases heq
        rfl
      · rename_i heq
        cases heq
        rfl
      · rename_i hminus hplus
        split
        · rename_i heq
          cases heq
          exact absurd rfl (hminus _)
        · rename_i heq
          cases heq
          exact absurd rfl (hplus _)
        · rfl

theorem readExponent?_append (h : IsBreak ds) (cs : List Char) :
    readExponent? (cs ++ ds) = (readExponent? cs).map fun read => (read.1, read.2 ++ ds) := by
  cases cs with
  | nil =>
      cases ds with
      | nil => rfl
      | cons d more =>
          have hlower : d ≠ 'e' := h.ne rfl
          have hupper : d ≠ 'E' := h.ne rfl
          simp [readExponent?, hlower, hupper]
  | cons e cs =>
      simp only [List.cons_append, readExponent?, takeSign_append h,
        takeWhile_isDigit_append h, dropWhile_isDigit_append h]
      split
      · rfl
      · rfl

theorem readFraction_append (h : IsBreak ds) (cs : List Char) :
    readFraction (cs ++ ds) = ((readFraction cs).1, (readFraction cs).2 ++ ds) := by
  cases cs with
  | nil =>
      cases ds with
      | nil => rfl
      | cons d more =>
          have hpoint : d ≠ '.' := h.ne rfl
          simp [readFraction, hpoint]
  | cons c cs =>
      simp only [List.cons_append, readFraction, List.head?_cons, List.drop_one, List.tail_cons,
        takeWhile_isDigit_append h, dropWhile_isDigit_append h]
      split
      · split
        · rfl
        · rfl
      · rfl

theorem readWhole_append (h : IsBreak ds) (cs : List Char) :
    readWhole (cs ++ ds) = ((readWhole cs).1, (readWhole cs).2 ++ ds) := by
  cases cs with
  | nil =>
      cases ds with
      | nil => rfl
      | cons d more =>
          have hzero : d ≠ '0' := h.ne rfl
          simp [readWhole, hzero, h.isDigit]
  | cons c cs =>
      have htake := takeWhile_isDigit_append h (c :: cs)
      have hdrop := dropWhile_isDigit_append h (c :: cs)
      rw [List.cons_append] at htake hdrop
      simp only [List.cons_append, readWhole, htake, hdrop]
      split
      · rfl
      · rfl

theorem readNumber?_append (h : IsBreak ds) (negative : Bool) (cs : List Char) :
    readNumber? negative (cs ++ ds) =
      (readNumber? negative cs).map fun read => (read.1, read.2 ++ ds) := by
  simp only [readNumber?, readWhole_append h, readFraction_append h, readExponent?_append h]
  split
  · rfl
  · cases readExponent? (readFraction (readWhole cs).2).2 with
    | some read => rfl
    | none =>
        simp only [Option.map_none]
        split
        · split
          · rfl
          · rfl
        · rfl

/-- What has no blank stands in front of a break, or not at all. -/
theorem isPrefixOf_append (h : IsBreak ds) {word : List Char}
    (hword : forall c, c ∈ word -> Text.isBlank c = false) (cs : List Char) :
    word.isPrefixOf (cs ++ ds) = word.isPrefixOf cs := by
  induction word generalizing cs with
  | nil => rw [List.isPrefixOf_nil_left, List.isPrefixOf_nil_left]
  | cons a word ih =>
      rcases List.forall_mem_cons.mp hword with ⟨ha, hrest⟩
      cases cs with
      | nil =>
          cases ds with
          | nil => rfl
          | cons d more =>
              have hne : (a == d) = false := beq_eq_false_iff_ne.mpr (h.ne ha).symm
              rw [List.nil_append, List.isPrefixOf_cons_cons, hne]
              rfl
      | cons c cs =>
          rw [List.cons_append, List.isPrefixOf_cons_cons, List.isPrefixOf_cons_cons, ih hrest]

theorem words_not_blank {entry : List Char × Value} (h : entry ∈ words) {c : Char}
    (hc : c ∈ entry.1) : Text.isBlank c = false := by
  have hall : words.all (fun entry => entry.1.all fun c => !Text.isBlank c) = true := by decide
  have hentry := List.all_eq_true.mp (List.all_eq_true.mp hall entry h) c hc
  exact Bool.not_eq_true' _ ▸ hentry

/-- A token that the parser can take; after others nothing is read. -/
def Token.IsSound : Token -> Prop
  | .broken _ _ | .junk => False
  | _ => True

theorem readScalar_append (h : IsBreak ds) {c : Char} {rest : List Char}
    (hsound : (readScalar (c :: rest ++ ds)).1.IsSound) : readScalar (c :: rest ++ ds) =
      ((readScalar (c :: rest)).1, (readScalar (c :: rest)).2 ++ ds) := by
  have hwords : (words.find? fun entry => entry.1.isPrefixOf (c :: rest ++ ds)) =
      words.find? fun entry => entry.1.isPrefixOf (c :: rest) := by
    rw [← List.head?_filter, ← List.head?_filter]
    exact congrArg List.head? (List.filter_congr fun entry hentry =>
      isPrefixOf_append h (fun _ => words_not_blank hentry) _)
  unfold readScalar at hsound ⊢
  rw [hwords] at hsound ⊢
  cases hfind : words.find? fun entry => entry.1.isPrefixOf (c :: rest) with
  | some entry =>
      have hfound : entry.1.isPrefixOf (c :: rest) = true :=
        List.find?_some (p := fun e : List Char × Value => e.1.isPrefixOf (c :: rest)) hfind
      have hprefixed : entry.1 <+: c :: rest := List.isPrefixOf_iff_prefix.mp hfound
      simp only [List.drop_append_of_le_length hprefixed.length_le]
  | none =>
      have hsign : (if c = '-' then (c :: rest ++ ds).drop 1 else c :: rest ++ ds) =
          (if c = '-' then (c :: rest).drop 1 else c :: rest) ++ ds := by
        split
        · rfl
        · rfl
      simp only [hfind, List.cons_append, List.head?_cons, Option.some.injEq] at hsound ⊢
      rw [List.cons_append] at hsign
      rw [hsign, readNumber?_append h] at hsound ⊢
      cases hread : readNumber? (c = '-') (if c = '-' then (c :: rest).drop 1 else c :: rest) with
      | some read => rfl
      | none =>
          rw [hread] at hsound
          exact absurd hsound id

/-!
# Texts in front of a break
-/

theorem quote_mem_of_readPieces {opening : Nat} {cs after : List Char} {pieces : List Piece}
    (h : readPieces opening cs = .ok (pieces, after)) : '"' ∈ cs := by
  fun_induction readPieces opening cs generalizing pieces after with
  | case2 rest => exact List.mem_cons_self
  | case4 a b c d n head tail _ ih =>
      rcases map_eq_ok h with ⟨⟨read, left⟩, hread, _⟩
      exact List.mem_append_right ['\\', 'u', a, b, c, d] (ih hread)
  | case7 c rest _ _ _ _ ih =>
      rcases map_eq_ok h with ⟨⟨read, left⟩, hread, _⟩
      exact List.mem_append_right ['\\', c] (ih hread)
  | case10 c rest _ _ _ _ _ ih =>
      rcases map_eq_ok h with ⟨⟨read, left⟩, hread, _⟩
      exact List.mem_cons_of_mem c (ih hread)
  | case1 | case3 | case5 | case6 | case8 | case9 => cases h

theorem readPieces_lineFeed (opening : Nat) (more : List Char) :
    readPieces opening ('\n' :: more) = .error (.control, more.length + 1) := by
  rw [readPieces.eq_def]
  rfl

theorem readPieces_ne_ok (h : IsBreak ds) (opening : Nat) (read : List Piece × List Char) :
    readPieces opening ds ≠ .ok read := by
  intro hread
  rcases h with hblank | ⟨more, rfl⟩
  · cases hblank '"' (quote_mem_of_readPieces hread)
  · cases (readPieces_lineFeed opening more).symm.trans hread

/-- What has no blank stands in front of a break as a whole. -/
theorem exists_of_append_eq (h : IsBreak ds) {word : List Char}
    (hword : forall c, c ∈ word -> Text.isBlank c = false) {cs rest : List Char}
    (heq : cs ++ ds = word ++ rest) : exists front, cs = word ++ front ∧ front ++ ds = rest := by
  induction word generalizing cs with
  | nil => exact ⟨cs, rfl, heq⟩
  | cons a word ih =>
      rcases List.forall_mem_cons.mp hword with ⟨ha, hmore⟩
      cases cs with
      | nil =>
          cases ds with
          | nil => cases heq
          | cons d more => exact absurd (List.head_eq_of_cons_eq heq) (h.ne ha)
      | cons c cs =>
          rcases List.cons_eq_cons.mp heq with ⟨rfl, htail⟩
          rcases ih hmore htail with ⟨front, rfl, hrest⟩
          exact ⟨front, rfl, hrest⟩

theorem isBlank_of_hexDigit? {c : Char} {n : Nat} (h : hexDigit? c = some n) :
    Text.isBlank c = false := by
  unfold hexDigit? at h
  split at h
  · rename_i hdigit
    exact isBlank_of_isDigit hdigit
  · split at h
    · rename_i hrange
      simp only [Bool.and_eq_true, decide_eq_true_eq] at hrange
      have hlow : 0x61 ≤ c.toNat := hrange.left
      have hhigh : c.toNat ≤ 0x66 := hrange.right
      exact isBlank_eq_false (by omega) (by omega)
    · split at h
      · rename_i hrange
        simp only [Bool.and_eq_true, decide_eq_true_eq] at hrange
        have hlow : 0x41 ≤ c.toNat := hrange.left
        have hhigh : c.toNat ≤ 0x46 := hrange.right
        exact isBlank_eq_false (by omega) (by omega)
      · cases h

theorem isBlank_of_unescape? {c e : Char} (h : unescape? c = some e) :
    Text.isBlank c = false := by
  unfold unescape? at h
  split at h
  all_goals first | rfl | cases h

theorem isBlank_of_hexValue? {digits : List Char} {start n : Nat}
    (h : digits.foldlM (fun n c => (hexDigit? c).map (16 * n + ·)) start = some n) {digit : Char}
    (hdigit : digit ∈ digits) : Text.isBlank digit = false := by
  induction digits generalizing start with
  | nil => cases hdigit
  | cons c digits ih =>
      rcases Option.bind_eq_some_iff.mp h with ⟨next, hfirst, hrest⟩
      rcases List.mem_cons.mp hdigit with rfl | hlater
      · rcases Option.map_eq_some_iff.mp hfirst with ⟨value, hvalue, _⟩
        exact isBlank_of_hexDigit? hvalue
      · exact ih hrest hlater

theorem readPieces_append (h : IsBreak ds) {opening : Nat} {cs after : List Char}
    {pieces : List Piece} (hread : readPieces opening (cs ++ ds) = .ok (pieces, after)) :
    exists left, after = left ++ ds ∧ forall place, readPieces place cs = .ok (pieces, left) := by
  generalize hchars : cs ++ ds = chars at hread
  fun_induction readPieces opening chars generalizing cs pieces after with
  | case2 rest =>
      cases hread
      have hword : forall c, c ∈ ['"'] -> Text.isBlank c = false :=
        List.forall_mem_singleton.mpr rfl
      rcases exists_of_append_eq h hword hchars with ⟨front, rfl, hrest⟩
      exact ⟨front, hrest.symm, fun place => by simp only [List.singleton_append, readPieces]⟩
  | case4 a b c d first others n hvalue ih =>
      rcases map_eq_ok hread with ⟨⟨read, left⟩, hmore, hresult⟩
      cases hresult
      have hword : forall x, x ∈ ['\\', 'u', a, b, c, d] -> Text.isBlank x = false :=
        List.forall_mem_cons.mpr ⟨rfl, List.forall_mem_cons.mpr
          ⟨rfl, fun _ => isBlank_of_hexValue? hvalue⟩⟩
      rcases exists_of_append_eq h hword hchars with ⟨front, rfl, hrest⟩
      rcases ih hrest hmore with ⟨left, hleft, hfront⟩
      refine ⟨left, hleft, fun place => ?_⟩
      cases front with
      | nil => cases hfront place
      | cons x xs => simp [readPieces, hvalue, hfront place, Except.map]
  | case7 c rest _ hne e hescape ih =>
      rcases map_eq_ok hread with ⟨⟨read, left⟩, hmore, hresult⟩
      cases hresult
      have hword : forall x, x ∈ ['\\', c] -> Text.isBlank x = false :=
        List.forall_mem_cons.mpr ⟨rfl, List.forall_mem_singleton.mpr
          (isBlank_of_unescape? hescape)⟩
      rcases exists_of_append_eq h hword hchars with ⟨front, rfl, hrest⟩
      rcases ih hrest hmore with ⟨left, hleft, hfront⟩
      refine ⟨left, hleft, fun place => ?_⟩
      simp [readPieces, hne, hescape, hfront place, Except.map]
  | case10 c rest _ hlast _ hescape hcontrol ih =>
      rcases map_eq_ok hread with ⟨⟨read, left⟩, hmore, hresult⟩
      cases hresult
      have hslash : c ≠ '\\' := by
        intro hc
        cases rest with
        | nil => exact hlast hc rfl
        | cons e others => exact hescape e others hc rfl
      cases cs with
      | nil =>
          rw [List.nil_append] at hchars
          rcases h with hblank | ⟨more, rfl⟩
          · -- no quote is left to end the text
            rw [hchars] at hblank
            exact absurd hmore
              (readPieces_ne_ok (Or.inl (List.forall_mem_cons.mp hblank).right) _ _)
          · cases hchars
            exact absurd (by decide) hcontrol
      | cons x front =>
          cases hchars
          rcases ih rfl hmore with ⟨left, hleft, hfront⟩
          refine ⟨left, hleft, fun place => ?_⟩
          simp [readPieces, hslash, hcontrol, hfront place, Except.map]
  | case1 | case3 | case5 | case6 | case8 | case9 => cases hread

theorem readText_append (h : IsBreak ds) {rest : List Char}
    (hsound : (readText (rest ++ ds)).1.IsSound) :
    readText (rest ++ ds) = ((readText rest).1, (readText rest).2 ++ ds) := by
  unfold readText at hsound ⊢
  cases hread : readPieces ((rest ++ ds).length + 1) (rest ++ ds) with
  | ok read =>
      rcases readPieces_append h hread with ⟨left, hleft, hrest⟩
      rw [hrest]
      exact congrArg (Prod.mk _) hleft
  | error fault =>
      rw [hread] at hsound
      exact absurd hsound id

theorem readFirst_append (h : IsBreak ds) {c : Char} {rest after : List Char} {token : Token}
    (hread : readFirst c (rest ++ ds) = (some token, after)) (hsound : token.IsSound) :
    exists left, after = left ++ ds ∧ readFirst c rest = (some token, left) := by
  unfold readFirst at hread ⊢
  split at hread
  · cases hread
  · rename_i hspace
    rw [if_neg hspace]
    simp only [Prod.mk.injEq, Option.some.injEq] at hread ⊢
    rcases hread with ⟨rfl, rfl⟩
    split at hsound
    case h_7 =>
      rw [readText_append h hsound]
      exact ⟨_, rfl, rfl, rfl⟩
    case h_8 =>
      have hscalar := readScalar_append h hsound
      rw [List.cons_append] at hscalar
      rw [hscalar]
      exact ⟨_, rfl, rfl, rfl⟩
    all_goals exact ⟨_, rfl, rfl, rfl⟩

end

/-!
# Tokens
-/

/-- The tokens of a text without their places. -/
def tokensOf (cs : List Char) : List Token :=
  (readAll cs).map Placed.token

/-- All tokens of a text can be taken by the parser. -/
def IsSoundText (cs : List Char) : Prop :=
  forall token, token ∈ tokensOf cs -> token.IsSound

section
variable {c : Char} {rest after : List Char}

theorem readAll_of_none (h : readFirst c rest = (none, after)) :
    readAll (c :: rest) = readAll after := by
  rw [readAll]
  split
  · rename_i hread
    cases h.symm.trans hread
    rfl
  · rename_i hread
    cases h.symm.trans hread

theorem readAll_of_some {token : Token} (h : readFirst c rest = (some token, after)) :
    readAll (c :: rest) = ⟨token, rest.length + 1⟩ :: readAll after := by
  rw [readAll]
  split
  · rename_i hread
    cases h.symm.trans hread
  · rename_i hread
    cases h.symm.trans hread
    rfl

theorem readFirst_of_isSpace (hc : isSpace c = true) (rest : List Char) :
    readFirst c rest = (none, rest.dropWhile isSpace) := by
  unfold readFirst
  rw [if_pos hc]

theorem exists_readFirst_eq_some (hc : isSpace c = false) (rest : List Char) :
    exists token after, readFirst c rest = (some token, after) := by
  unfold readFirst
  rw [hc, if_neg Bool.false_ne_true]
  exact ⟨_, _, rfl⟩

theorem tokensOf_of_none (h : readFirst c rest = (none, after)) :
    tokensOf (c :: rest) = tokensOf after :=
  congrArg (List.map Placed.token) (readAll_of_none h)

theorem tokensOf_of_some {token : Token} (h : readFirst c rest = (some token, after)) :
    tokensOf (c :: rest) = token :: tokensOf after :=
  congrArg (List.map Placed.token) (readAll_of_some h)

theorem tokensOf_cons_of_isSpace (hc : isSpace c = true) (rest : List Char) :
    tokensOf (c :: rest) = tokensOf rest := by
  rw [tokensOf_of_none (readFirst_of_isSpace hc rest)]
  cases rest with
  | nil => rfl
  | cons d more =>
      rw [List.dropWhile_cons]
      split
      · rename_i hd
        exact (tokensOf_of_none (readFirst_of_isSpace hd more)).symm
      · rfl

end

theorem tokensOf_dropWhile_append (cs ds : List Char) :
    tokensOf (cs.dropWhile isSpace ++ ds) = tokensOf (cs ++ ds) := by
  induction cs with
  | nil => rfl
  | cons c cs ih =>
      rw [List.dropWhile_cons]
      split
      · rename_i hc
        exact ih.trans (tokensOf_cons_of_isSpace hc (cs ++ ds)).symm
      · rfl

/-- The tokens of a text are those in front of a break and those behind it. -/
theorem tokensOf_append {cs ds : List Char} (h : IsBreak ds) (hsound : IsSoundText (cs ++ ds)) :
    tokensOf (cs ++ ds) = tokensOf cs ++ tokensOf ds := by
  fun_induction readAll cs with
  | case1 => simp [tokensOf, readAll]
  | case2 c rest after hread ih =>
      cases hc : isSpace c with
      | false =>
          rcases exists_readFirst_eq_some hc rest with ⟨token, left, hsome⟩
          cases hread.symm.trans hsome
      | true =>
          cases hread.symm.trans (readFirst_of_isSpace hc rest)
          have hwhole : tokensOf (c :: rest ++ ds) = tokensOf (rest.dropWhile isSpace ++ ds) := by
            rw [List.cons_append, tokensOf_cons_of_isSpace hc, tokensOf_dropWhile_append]
          rw [IsSoundText, hwhole] at hsound
          rw [hwhole, ih hsound, tokensOf_of_none hread]
  | case3 c rest token after hread ih =>
      cases hc : isSpace c with
      | true => cases hread.symm.trans (readFirst_of_isSpace hc rest)
      | false =>
          rcases exists_readFirst_eq_some hc (rest ++ ds) with ⟨first, left, hfirst⟩
          have hwhole : tokensOf (c :: rest ++ ds) = first :: tokensOf left :=
            tokensOf_of_some hfirst
          rw [IsSoundText, hwhole] at hsound
          rcases List.forall_mem_cons.mp hsound with ⟨hfirstSound, hleft⟩
          rcases readFirst_append h hfirst hfirstSound with ⟨front, rfl, hfront⟩
          cases hread.symm.trans hfront
          rw [hwhole, ih hleft, tokensOf_of_some hread, List.cons_append]

/-!
# Ends of a text
-/

/-- The characters, other than digits, that tokens start with. -/
def starts : List Char :=
  ['\x7b', '\x7d', '[', ']', ':', ',', '"', '-', 'n', 't', 'f', 'N', 'I']

/-- A token can start with this character. -/
def startsToken (c : Char) : Bool :=
  c.isDigit || starts.contains c

theorem isBlank_of_startsToken {c : Char} (h : startsToken c = true) : Text.isBlank c = false := by
  simp only [startsToken, Bool.or_eq_true, List.contains_iff_mem] at h
  rcases h with hdigit | hmem
  · exact isBlank_of_isDigit hdigit
  · have hall : starts.all (fun c => !Text.isBlank c) = true := by decide
    exact Bool.not_eq_true' _ ▸ List.all_eq_true.mp hall c hmem

theorem exists_start_of_mem_words {word : List Char} {value : Value} (h : (word, value) ∈ words) :
    exists first more, word = first :: more ∧ first ∈ starts := by
  simp only [words, List.mem_cons, Prod.mk.injEq, List.not_mem_nil, or_false] at h
  rcases h with ⟨rfl, _⟩ | ⟨rfl, _⟩ | ⟨rfl, _⟩ | ⟨rfl, _⟩ | ⟨rfl, _⟩ | ⟨rfl, _⟩
  all_goals exact ⟨_, _, rfl, by decide⟩

theorem readScalar_of_ne {c : Char} (hdigit : c.isDigit = false)
    (hne : forall first, first ∈ starts -> c ≠ first) (rest : List Char) :
    readScalar (c :: rest) = (.junk, []) := by
  have hwords : (words.find? fun entry => entry.1.isPrefixOf (c :: rest)) = none := by
    apply List.find?_eq_none.mpr
    rintro ⟨word, value⟩ hentry hfound
    rcases exists_start_of_mem_words hentry with ⟨first, more, rfl, hfirst⟩
    rw [List.isPrefixOf_cons_cons, Bool.and_eq_true, beq_iff_eq] at hfound
    exact hne first hfirst hfound.left.symm
  have hsign : c ≠ '-' := hne '-' (by decide)
  have hzero : c ≠ '0' := by
    rintro rfl
    cases hdigit
  simp only [readScalar, hwords, List.head?_cons, Option.some.injEq, hsign, decide_false,
    ↓reduceIte]
  simp [readNumber?, readWhole, hzero, hdigit]

theorem readFirst_of_not_startsToken {c : Char} (hspace : isSpace c = false)
    (h : startsToken c = false) (rest : List Char) : readFirst c rest = (some .junk, []) := by
  rcases Bool.or_eq_false_iff.mp h with ⟨hdigit, hmem⟩
  have hne : forall first, first ∈ starts -> c ≠ first := by
    rintro first hfirst rfl
    cases (List.contains_iff_mem.mpr hfirst).symm.trans hmem
  unfold readFirst
  rw [hspace, if_neg Bool.false_ne_true]
  simp only
  split
  case h_8 => rw [readScalar_of_ne hdigit hne]
  all_goals exact absurd rfl (hne _ (by decide))

/-- What the parser can take is empty or starts with a space or a token. -/
theorem IsSoundText.head {c : Char} {rest : List Char} (h : IsSoundText (c :: rest)) :
    isSpace c = true ∨ startsToken c = true := by
  cases hspace : isSpace c with
  | true => exact Or.inl rfl
  | false =>
      cases hstart : startsToken c with
      | true => exact Or.inr rfl
      | false =>
          have htokens := tokensOf_of_some (readFirst_of_not_startsToken hspace hstart rest)
          exact absurd (h .junk (htokens ▸ List.mem_cons_self)) id

/-- Blanks in front of a text do not matter. -/
theorem tokensOf_blanks_append {ds cs : List Char}
    (hds : forall d, d ∈ ds -> Text.isBlank d = true) (h : IsSoundText (ds ++ cs)) :
    tokensOf (ds ++ cs) = tokensOf cs := by
  induction ds with
  | nil => rfl
  | cons d ds ih =>
      rcases List.forall_mem_cons.mp hds with ⟨hd, hmore⟩
      have hspace : isSpace d = true :=
        h.head.resolve_right fun hstart => by
          cases hd.symm.trans (isBlank_of_startsToken hstart)
      have hwhole : tokensOf (d :: ds ++ cs) = tokensOf (ds ++ cs) :=
        tokensOf_cons_of_isSpace hspace (ds ++ cs)
      rw [IsSoundText, hwhole] at h
      rw [hwhole, ih hmore h]

/-- Blanks behind a text do not matter. -/
theorem tokensOf_append_blanks {ds cs : List Char}
    (hds : forall d, d ∈ ds -> Text.isBlank d = true) (h : IsSoundText (cs ++ ds)) :
    tokensOf (cs ++ ds) = tokensOf cs := by
  have hsplit := tokensOf_append (Or.inl hds) h
  have hsound : IsSoundText (ds ++ []) := by
    intro token htoken
    rw [List.append_nil] at htoken
    exact h token (hsplit ▸ List.mem_append_right _ htoken)
  have hnone : tokensOf (ds ++ []) = [] := by
    rw [tokensOf_blanks_append hds hsound, tokensOf, readAll]
    rfl
  rw [List.append_nil] at hnone
  rw [hsplit, hnone, List.append_nil]

end Json
end EventCalculus

import EventCalculus.Proofs.FactLines
import EventCalculus.Proofs.LongNumerals
import EventCalculus.Proofs.PhraseNames
import EventCalculus.Statement.Reply

/-!
# Runs of digits

The numeral at which reading JSON meets the limit on digits stands in the source, digit by digit.
So it stands in the reply or in the file from which the source was taken, because only blanks
around it and whole lines are dropped there.
-/

namespace EventCalculus

/-- Somewhere among the characters there are this many digits in a row, and they are more than a
numeral may have. -/
structure HasLongRun (count : Nat) (cs : List Char) : Prop where
  run : exists run, run <:+: cs ∧ AllDigits run ∧ run.length = count
  long : Numeral.digitLimit < count

theorem HasLongRun.mono {count : Nat} {cs ds : List Char} (h : HasLongRun count cs)
    (hcs : cs <:+: ds) : HasLongRun count ds := by
  rcases h.run with ⟨run, hrun, hdigits, hlength⟩
  exact ⟨⟨run, hrun.trans hcs, hdigits, hlength⟩, h.long⟩

namespace Json

/-!
# What is left of a source

Every reader leaves a suffix of what was there.
-/

theorem readPieces_suffix {opening : Nat} {cs after : List Char} {pieces : List Piece}
    (h : readPieces opening cs = .ok (pieces, after)) : after <:+ cs := by
  fun_induction readPieces opening cs generalizing pieces after with
  | case2 rest =>
      cases h
      exact List.suffix_cons _ rest
  | case4 a b c d n head tail _ ih =>
      rcases map_eq_ok h with ⟨⟨read, left⟩, hread, hresult⟩
      cases hresult
      exact (ih hread).trans (List.suffix_append ['\\', 'u', a, b, c, d] _)
  | case7 c rest _ _ _ _ ih =>
      rcases map_eq_ok h with ⟨⟨read, left⟩, hread, hresult⟩
      cases hresult
      exact (ih hread).trans (List.suffix_append ['\\', c] rest)
  | case10 c rest _ _ _ _ _ ih =>
      rcases map_eq_ok h with ⟨⟨read, left⟩, hread, hresult⟩
      cases hresult
      exact (ih hread).trans (List.suffix_cons c rest)
  | case1 | case3 | case5 | case6 | case8 | case9 => cases h

theorem readText_suffix (rest : List Char) : (readText rest).2 <:+ rest := by
  unfold readText
  split
  · rename_i hread
    exact readPieces_suffix hread
  · exact List.nil_suffix

theorem takeSign_suffix (cs : List Char) : (takeSign cs).2 <:+ cs := by
  unfold takeSign
  split
  · exact List.suffix_cons _ _
  · exact List.suffix_cons _ _
  · exact List.suffix_refl _

theorem readExponent?_suffix {cs rest : List Char} {size : Int}
    (h : readExponent? cs = some (size, rest)) : rest <:+ cs := by
  cases cs with
  | nil => cases h
  | cons e tail =>
      simp only [readExponent?] at h
      split at h
      · cases h
        exact (List.dropWhile_suffix _).trans
          ((takeSign_suffix tail).trans (List.suffix_cons e tail))
      · cases h

theorem readFraction_suffix (cs : List Char) : (readFraction cs).2 <:+ cs := by
  unfold readFraction
  split
  · simp only
    split
    · exact List.suffix_refl _
    · exact (List.dropWhile_suffix _).trans (List.drop_suffix 1 cs)
  · exact List.suffix_refl _

theorem readWhole_suffix (cs : List Char) : (readWhole cs).2 <:+ cs := by
  cases cs with
  | nil => exact List.suffix_refl _
  | cons c rest =>
      rw [readWhole]
      split
      · exact List.suffix_cons c rest
      · exact List.dropWhile_suffix _

theorem readNumber?_suffix {negative : Bool} {cs rest : List Char} {value : Except Nat Number}
    (h : readNumber? negative cs = some (value, rest)) : rest <:+ cs := by
  have hfraction : (readFraction (readWhole cs).2).2 <:+ cs :=
    (readFraction_suffix _).trans (readWhole_suffix cs)
  simp only [readNumber?] at h
  split at h
  · cases h
  · split at h
    · rename_i hexponent
      cases h
      exact (readExponent?_suffix hexponent).trans hfraction
    · split at h
      · split at h
        · cases h
          exact hfraction
        · cases h
          exact hfraction
      · cases h
        exact hfraction

theorem readScalar_suffix (cs : List Char) : (readScalar cs).2 <:+ cs := by
  unfold readScalar
  split
  · exact List.drop_suffix _ _
  · simp only
    split
    · rename_i hread
      refine (readNumber?_suffix hread).trans ?_
      split
      · exact List.drop_suffix 1 cs
      · exact List.suffix_refl _
    · exact List.nil_suffix

theorem readFirst_suffix (c : Char) (rest : List Char) : (readFirst c rest).2 <:+ c :: rest := by
  unfold readFirst
  split
  · exact (List.dropWhile_suffix _).trans (List.suffix_cons c rest)
  · simp only
    split
    case h_7 => exact (readText_suffix rest).trans (List.suffix_cons _ rest)
    case h_8 => exact readScalar_suffix (c :: rest)
    all_goals exact List.suffix_cons _ rest

/-!
# The numeral of a fault
-/

theorem readWhole_isPrefix (cs : List Char) : (readWhole cs).1 <+: cs := by
  cases cs with
  | nil => exact List.prefix_refl _
  | cons c rest =>
      rw [readWhole]
      split
      · rename_i hzero
        exact hzero ▸ List.prefix_append ['0'] rest
      · exact List.takeWhile_prefix _

theorem allDigits_readWhole (cs : List Char) : AllDigits (readWhole cs).1 := by
  cases cs with
  | nil => exact fun c hc => by cases hc
  | cons c rest =>
      rw [readWhole]
      split
      · intro d hd
        rw [List.mem_singleton.mp hd]
        rfl
      · exact fun d hd => List.mem_takeWhile_imp hd

theorem hasLongRun_of_readNumber? {negative : Bool} {cs rest : List Char} {count : Nat}
    (h : readNumber? negative cs = some (.error count, rest)) : HasLongRun count cs := by
  simp only [readNumber?] at h
  split at h
  · cases h
  · split at h
    · cases h
    · split at h
      · split at h
        · rename_i hlong
          cases h
          exact ⟨⟨_, (readWhole_isPrefix cs).isInfix, allDigits_readWhole cs, rfl⟩, hlong⟩
        · cases h
      · cases h

theorem hasLongRun_of_readScalar {cs : List Char} {count : Nat}
    (h : (readScalar cs).1 = .number (.error count)) : HasLongRun count cs := by
  unfold readScalar at h
  split at h
  · cases h
  · simp only at h
    split at h
    · rename_i hread
      cases h
      refine (hasLongRun_of_readNumber? hread).mono ?_
      split
      · exact (List.drop_suffix 1 cs).isInfix
      · exact List.infix_refl _
    · cases h

theorem hasLongRun_of_readFirst {c : Char} {rest : List Char} {count : Nat}
    (h : (readFirst c rest).1 = some (.number (.error count))) : HasLongRun count (c :: rest) := by
  unfold readFirst at h
  split at h
  · cases h
  · simp only [Option.some.injEq] at h
    split at h
    case h_7 =>
      unfold readText at h
      split at h
      · cases h
      · cases h
    case h_8 => exact hasLongRun_of_readScalar h
    all_goals cases h

theorem hasLongRun_of_mem_readAll {cs : List Char} {t : Placed} (ht : t ∈ readAll cs)
    {count : Nat} (hcount : t.token = .number (.error count)) : HasLongRun count cs := by
  fun_induction readAll cs with
  | case1 => cases ht
  | case2 c rest after hread ih =>
      have hsuffix := readFirst_suffix c rest
      rw [hread] at hsuffix
      exact (ih ht).mono hsuffix.isInfix
  | case3 c rest token after hread ih =>
      rcases List.mem_cons.mp ht with rfl | hrest
      · exact hasLongRun_of_readFirst ((congrArg Prod.fst hread).trans (congrArg some hcount))
      · have hsuffix := readFirst_suffix c rest
        rw [hread] at hsuffix
        exact (ih hrest).mono hsuffix.isInfix

theorem valueFault_ne_tooManyDigits (t : Placed) (count : Nat) :
    valueFault t ≠ .tooManyDigits count := by
  unfold valueFault
  split
  · exact fun h => by cases h
  · exact fun h => by cases h

theorem keyFault_ne_tooManyDigits (t : Placed) (count : Nat) :
    keyFault t ≠ .tooManyDigits count := by
  unfold keyFault
  split
  · exact fun h => by cases h
  · exact fun h => by cases h

section
variable {count : Nat}

mutual

/-- The parser meets the limit at a token that is an integer beyond it. -/
theorem exists_token_of_readValue {frames : List Frame} {tokens : List Placed}
    (h : readValue frames tokens = .error (.tooManyDigits count)) :
    exists t, t ∈ tokens ∧ t.token = .number (.error count) := by
  rw [readValue.eq_def] at h
  split at h
  · cases h
  · exact (exists_token_of_afterValue h).imp fun t => And.imp_left (List.mem_cons_of_mem _)
  · exact (exists_token_of_afterValue h).imp fun t => And.imp_left (List.mem_cons_of_mem _)
  · exact (exists_token_of_afterValue h).imp fun t => And.imp_left (List.mem_cons_of_mem _)
  · cases h
    exact ⟨_, List.mem_cons_self, rfl⟩
  · exact (exists_token_of_afterValue h).imp fun t => And.imp_left fun ht =>
      List.mem_cons_of_mem _ (List.mem_cons_of_mem _ ht)
  · exact (exists_token_of_readValue h).imp fun t => And.imp_left (List.mem_cons_of_mem _)
  · exact (exists_token_of_afterValue h).imp fun t => And.imp_left fun ht =>
      List.mem_cons_of_mem _ (List.mem_cons_of_mem _ ht)
  · exact (exists_token_of_readKey h).imp fun t => And.imp_left (List.mem_cons_of_mem _)
  · exact absurd (Except.error.inj h) (valueFault_ne_tooManyDigits _ count)
termination_by tokens.length

theorem exists_token_of_readKey {fields : List (String × Value)} {frames : List Frame}
    {tokens : List Placed} (h : readKey fields frames tokens = .error (.tooManyDigits count)) :
    exists t, t ∈ tokens ∧ t.token = .number (.error count) := by
  rw [readKey.eq_def] at h
  split at h
  · cases h
  · exact (exists_token_of_readValue h).imp fun t => And.imp_left fun ht =>
      List.mem_cons_of_mem _ (List.mem_cons_of_mem _ ht)
  · cases h
  · exact absurd (Except.error.inj h) (keyFault_ne_tooManyDigits _ count)
termination_by tokens.length

theorem exists_token_of_afterValue {v : Value} {frames : List Frame} {tokens : List Placed}
    (h : afterValue v frames tokens = .error (.tooManyDigits count)) :
    exists t, t ∈ tokens ∧ t.token = .number (.error count) := by
  rw [afterValue.eq_def] at h
  split at h
  · split at h
    · cases h
    · cases h
  · split at h
    · cases h
    · exact (exists_token_of_afterValue h).imp fun t => And.imp_left (List.mem_cons_of_mem _)
    · exact (exists_token_of_readValue h).imp fun t => And.imp_left (List.mem_cons_of_mem _)
    · exact (exists_token_of_afterValue h).imp fun t => And.imp_left (List.mem_cons_of_mem _)
    · exact (exists_token_of_readKey h).imp fun t => And.imp_left (List.mem_cons_of_mem _)
    · cases h
termination_by tokens.length

end

end

theorem hasLongRun_of_parse {source : String} {count : Nat}
    (h : parse source = .error (.tooManyDigits count)) : HasLongRun count source.toList := by
  unfold parse at h
  simp only at h
  split at h
  · cases h
  · split at h
    · cases h
    · cases h
    · rename_i number hvalue
      cases h
      rcases exists_token_of_readValue hvalue with ⟨t, ht, hcount⟩
      exact hasLongRun_of_mem_readAll ht hcount

end Json

/-!
# Replies

The source in a reply is the reply without blanks at its ends and without some of its lines.
-/

namespace Text

variable {separator : Char}

theorem dropEndWhile_isPrefix (p : Char -> Bool) (cs : List Char) : dropEndWhile p cs <+: cs := by
  rcases exists_eq_dropEndWhile_append p cs with ⟨ds, hsplit, _⟩
  exact ⟨ds, hsplit.symm⟩

theorem trimChars_isInfix (cs : List Char) : trimChars cs <:+: cs :=
  (dropEndWhile_isPrefix isBlank _).isInfix.trans (List.dropWhile_suffix isBlank).isInfix

theorem infix_joinPieces {words : List (List Char)} {word : List Char} (h : word ∈ words) :
    word <:+: joinPieces separator words := by
  fun_induction joinPieces separator words with
  | case1 => cases h
  | case2 piece =>
      rcases List.mem_singleton.mp h with rfl
      exact List.infix_refl _
  | case3 piece others hne ih =>
      rcases List.mem_cons.mp h with rfl | hrest
      · exact (List.prefix_append word _).isInfix
      · exact (ih hrest).trans
          ((List.suffix_cons separator _).trans (List.suffix_append piece _)).isInfix

/-- What stands on both sides of a separator has it inside, unless it stands on one side only. -/
theorem infix_of_infix_append {run xs ys : List Char} (hne : run ≠ []) (hrun : separator ∉ run)
    (h : run <:+: xs ++ separator :: ys) : run <:+: xs ∨ run <:+: ys := by
  have hempty : forall part, part <+: separator :: ys -> separator ∉ part -> part = [] := by
    intro part hpart hmem
    rcases List.prefix_cons_iff.mp hpart with hnil | ⟨more, rfl, _⟩
    · exact hnil
    · exact absurd List.mem_cons_self hmem
  rcases List.infix_append_iff.mp h with hleft | hright | ⟨first, second, rfl, hfirst, hsecond⟩
  · exact Or.inl hleft
  · rcases List.infix_cons_iff.mp hright with hstart | hlater
    · exact absurd (hempty run hstart hrun) hne
    · exact Or.inr hlater
  · rw [hempty second hsecond fun hmem => hrun (List.mem_append_right first hmem),
      List.append_nil]
    exact Or.inl hfirst.isInfix

/-- What has no separator and stands in joined pieces stands in one of them. -/
theorem exists_infix_of_infix_joinPieces {run : List Char} (hne : run ≠ [])
    (hrun : separator ∉ run) {words : List (List Char)}
    (h : run <:+: joinPieces separator words) : exists word, word ∈ words ∧ run <:+: word := by
  fun_induction joinPieces separator words with
  | case1 => exact absurd (List.infix_nil.mp h) hne
  | case2 piece => exact ⟨piece, List.mem_cons_self, h⟩
  | case3 piece others _ ih =>
      rcases infix_of_infix_append hne hrun h with hpiece | hothers
      · exact ⟨piece, List.mem_cons_self, hpiece⟩
      · exact (ih hothers).imp fun word => And.imp_left (List.mem_cons_of_mem piece)

end Text

theorem infix_of_infix_dropFences {run cs : List Char} (hne : run ≠ []) (hrun : '\n' ∉ run)
    (h : run <:+: dropFences cs) : run <:+: cs := by
  rcases Text.exists_infix_of_infix_joinPieces hne hrun h with ⟨line, hline, hinfix⟩
  have hlines : line <:+: Text.joinPieces '\n' (Text.pieces '\n' cs) :=
    Text.infix_joinPieces (List.mem_filter.mp hline).left
  rw [Text.joinPieces_pieces] at hlines
  exact hinfix.trans hlines

theorem HasLongRun.of_jsonSource {count : Nat} {reply : String}
    (h : HasLongRun count (jsonSource reply).toList) : HasLongRun count reply.toList := by
  rw [jsonSource, String.toList_ofList] at h
  split at h
  · rcases h.run with ⟨run, hinfix, hdigits, hlength⟩
    have hne : run ≠ [] := by
      rintro rfl
      rw [← hlength] at h
      exact absurd h.long (by decide)
    have hbreak : '\n' ∉ run := fun hmem => absurd (hdigits '\n' hmem) (by decide)
    have hlong : HasLongRun count (Text.trimChars reply.toList) :=
      ⟨⟨run, infix_of_infix_dropFences hne hbreak hinfix, hdigits, hlength⟩, h.long⟩
    exact hlong.mono (Text.trimChars_isInfix _)
  · exact h.mono (Text.trimChars_isInfix _)

theorem hasLongRun_of_readReply {reply : String} {count : Nat}
    (h : readReply reply = .error (.tooManyDigits count)) : HasLongRun count reply.toList :=
  (Json.hasLongRun_of_parse h).of_jsonSource

/-!
# Sources of digits only

An integer beyond the limit may stand alone.
-/

namespace Json

section
variable {c : Char} {rest : List Char}

theorem readNumber?_of_allDigits (h : AllDigits (c :: rest)) (hzero : c ≠ '0')
    (hlong : Numeral.digitLimit < (c :: rest).length) (negative : Bool) :
    readNumber? negative (c :: rest) = some (.error (c :: rest).length, []) := by
  have hwhole : readWhole (c :: rest) = (c :: rest, []) := by
    rw [readWhole, if_neg hzero, List.takeWhile_eq_self_iff.mpr h,
      List.dropWhile_eq_nil_iff.mpr h]
  have hlimit : 4300 < (c :: rest).length := hlong
  simp only [readNumber?, hwhole, List.isEmpty_cons, Bool.false_eq_true, ↓reduceIte, readFraction,
    List.head?_nil, reduceCtorEq, readExponent?, List.isEmpty_nil, hlimit]

theorem readScalar_of_allDigits (h : AllDigits (c :: rest)) (hzero : c ≠ '0')
    (hlong : Numeral.digitLimit < (c :: rest).length) :
    readScalar (c :: rest) = (.number (.error (c :: rest).length), []) := by
  have hdigit : c.isDigit = true := h c List.mem_cons_self
  have hstart : forall (first : Char) (more : List Char), first.isDigit = false ->
      ¬ (first :: more).isPrefixOf (c :: rest) = true := by
    intro first more hfirst hp
    rw [List.isPrefixOf_cons_cons, Bool.and_eq_true, beq_iff_eq] at hp
    rw [hp.left, hdigit] at hfirst
    cases hfirst
  have hwords : (words.find? fun entry => entry.1.isPrefixOf (c :: rest)) = none := by
    apply List.find?_eq_none.mpr
    intro entry hentry
    simp only [words, List.mem_cons, List.not_mem_nil, or_false] at hentry
    rcases hentry with rfl | rfl | rfl | rfl | rfl | rfl
    all_goals exact hstart _ _ rfl
  have hsign : c ≠ '-' := by
    rintro rfl
    cases hdigit
  simp only [readScalar, hwords, List.head?_cons, Option.some.injEq, hsign, decide_false,
    ↓reduceIte, readNumber?_of_allDigits h hzero hlong]

theorem readFirst_of_allDigits (h : AllDigits (c :: rest)) (hzero : c ≠ '0')
    (hlong : Numeral.digitLimit < (c :: rest).length) :
    readFirst c rest = (some (.number (.error (c :: rest).length)), []) := by
  have hdigit : c.isDigit = true := h c List.mem_cons_self
  have hspace : isSpace c = false := by
    simp only [isSpace, Bool.or_eq_false_iff, beq_eq_false_iff_ne]
    refine ⟨⟨⟨?_, ?_⟩, ?_⟩, ?_⟩
    all_goals
      rintro rfl
      cases hdigit
  unfold readFirst
  rw [hspace, if_neg Bool.false_ne_true]
  simp only
  split
  case h_8 => rw [readScalar_of_allDigits h hzero hlong]
  all_goals cases hdigit

theorem readAll_of_allDigits (h : AllDigits (c :: rest)) (hzero : c ≠ '0')
    (hlong : Numeral.digitLimit < (c :: rest).length) :
    readAll (c :: rest) = [⟨.number (.error (c :: rest).length), (c :: rest).length⟩] := by
  have hread := readFirst_of_allDigits h hzero hlong
  rw [readAll]
  split
  · rename_i after heq
    cases hread.symm.trans heq
  · rename_i token after heq
    cases hread.symm.trans heq
    rw [readAll]
    rfl

theorem parse_of_allDigits (h : AllDigits (c :: rest)) (hzero : c ≠ '0')
    (hlong : Numeral.digitLimit < (c :: rest).length) :
    parse (String.ofList (c :: rest)) = .error (.tooManyDigits (c :: rest).length) := by
  have hmark : c ≠ Char.ofNat 0xFEFF := by
    rintro rfl
    exact absurd (h _ List.mem_cons_self) (by decide)
  have hvalue : readValue [] [⟨.number (.error (c :: rest).length), (c :: rest).length⟩] =
      .error (.tooManyDigits (c :: rest).length) := by
    rw [readValue.eq_def]
  simp only [parse, String.toList_ofList, List.head?_cons, Option.some.injEq, hmark, ↓reduceIte,
    readAll_of_allDigits h hzero hlong, hvalue]

end

end Json

theorem eq_of_startsWithFence {c : Char} {rest : List Char}
    (h : startsWithFence (c :: rest) = true) : c = Char.ofNat 0x60 := by
  rw [startsWithFence, fence, List.replicate_succ, List.isPrefixOf_cons_cons, Bool.and_eq_true,
    beq_iff_eq] at h
  exact h.left.symm

/-- A reply that is an integer beyond the limit meets it. -/
theorem readReply_of_allDigits {c : Char} {rest : List Char} (h : AllDigits (c :: rest))
    (hzero : c ≠ '0') (hlong : Numeral.digitLimit < (c :: rest).length) :
    readReply (String.ofList (c :: rest)) = .error (.tooManyDigits (c :: rest).length) := by
  have htrim : Text.trimChars (c :: rest) = c :: rest :=
    Text.trimChars_of_not_blank fun d hd => isBlank_of_isDigit (h d hd)
  have hfence : startsWithFence (c :: rest) = false := by
    apply Bool.eq_false_iff.mpr
    intro hstart
    exact absurd (eq_of_startsWithFence hstart ▸ h c List.mem_cons_self) (by decide)
  have hsource : jsonSource (String.ofList (c :: rest)) = String.ofList (c :: rest) := by
    simp only [jsonSource, String.toList_ofList, htrim, hfence, Bool.false_eq_true, ↓reduceIte]
  rw [readReply, hsource, Json.parse_of_allDigits h hzero hlong]

end EventCalculus

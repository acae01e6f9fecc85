import EventCalculus.Proofs.FactLines

/-!
# Texts that are cut inside a body

The text of a term that reads back has most characters, those that end lines among
them, only inside quoted bodies.  So what stands in front of such a character stops
inside a body, and neither this nor anything shorter that has the quote can be cut
into tokens.
-/

namespace EventCalculus

/-!
# Cuts in front of a character
-/

section
variable {α : Type} {xs ys before after : List α} {x : α}

theorem append_eq_append_cons_cases (h : xs ++ ys = before ++ x :: after) :
    (exists more, before = xs ++ more ∧ ys = more ++ x :: after) ∨
      exists more, xs = before ++ x :: more ∧ after = more ++ ys := by
  rcases List.append_eq_append_iff.mp h with ⟨more, hbefore, hys⟩ | ⟨more, hxs, hmore⟩
  · exact Or.inl ⟨more, hbefore, hys⟩
  · cases more with
    | nil => exact Or.inl ⟨[], by rw [hxs, List.append_nil, List.append_nil], hmore.symm⟩
    | cons first rest =>
        rcases List.cons.inj hmore with ⟨rfl, hafter⟩
        exact Or.inr ⟨rest, hxs, hafter⟩

theorem exists_eq_append_right (h : xs ++ ys = before ++ x :: after) (hx : x ∉ xs) :
    exists more, before = xs ++ more ∧ ys = more ++ x :: after := by
  rcases append_eq_append_cons_cases h with hright | ⟨more, hxs, _⟩
  · exact hright
  · exact absurd (hxs ▸ List.mem_append_right before List.mem_cons_self) hx

theorem exists_eq_append_left (h : xs ++ ys = before ++ x :: after) (hx : x ∉ ys) :
    exists more, xs = before ++ x :: more ∧ after = more ++ ys := by
  rcases append_eq_append_cons_cases h with ⟨more, _, hys⟩ | hleft
  · exact absurd (hys ▸ List.mem_append_right more List.mem_cons_self) hx
  · exact hleft

end

/-!
# First lines
-/

namespace Text

/-- What stands in front of the first character that ends lines. -/
def firstLine (cs : List Char) : List Char :=
  cs.takeWhile fun c => !isLineBreak c

section
variable {cs : List Char}

theorem firstLine_append_of_not_onOneLine (h : ¬ OnOneLine cs) (ds : List Char) :
    firstLine (cs ++ ds) = firstLine cs := by
  induction cs with
  | nil =>
      refine absurd ?_ h
      intro c hc
      cases hc
  | cons c rest ih =>
      cases hc : isLineBreak c with
      | true => simp [firstLine, hc]
      | false =>
          have hrest : ¬ OnOneLine rest := fun hline => h (onOneLine_cons.mpr ⟨hc, hline⟩)
          have hmore := ih hrest
          simp only [firstLine] at hmore
          simp [firstLine, hc, hmore]

theorem exists_eq_firstLine_append (h : ¬ OnOneLine cs) :
    exists c rest, cs = firstLine cs ++ c :: rest ∧ isLineBreak c = true := by
  have hsplit := List.takeWhile_append_dropWhile (p := fun c => !isLineBreak c) (l := cs)
  cases hdrop : cs.dropWhile (fun c => !isLineBreak c) with
  | nil =>
      refine absurd ?_ h
      intro c hc
      have hall := List.dropWhile_eq_nil_iff.mp hdrop c hc
      simpa using hall
  | cons c rest =>
      have hhead := List.head?_dropWhile_not (fun c => !isLineBreak c) cs
      rw [hdrop] at hsplit hhead
      refine ⟨c, rest, hsplit.symm, ?_⟩
      simpa using hhead

theorem onOneLine_firstLine (cs : List Char) : OnOneLine (firstLine cs) := by
  intro c hc
  have hkept := List.mem_takeWhile_imp hc
  simpa using hkept

end

end Text

/-!
# Bodies without their closing quotes
-/

namespace Token

variable {quote : Char}

theorem readBody?_pair_eq_none {c : Char} {rest : List Char} (h : readBody? quote rest = none) :
    readBody? quote ('\\' :: c :: rest) = none := by
  simp [readBody?, h]

theorem readBody?_of_front_pair (hescape : quote ≠ '\\') {c : Char} {ds p : List Char}
    (hds : forall q, q <+: ds -> readBody? quote q = none) (hp : p <+: '\\' :: c :: ds) :
    readBody? quote p = none := by
  rcases List.prefix_cons_iff.mp hp with rfl | ⟨more, rfl, hmore⟩
  · rfl
  · rcases List.prefix_cons_iff.mp hmore with rfl | ⟨rest, rfl, hrest⟩
    · simp [readBody?, hescape.symm]
    · exact readBody?_pair_eq_none (hds rest hrest)

theorem readBody?_of_front_escapeChar (hescape : quote ≠ '\\') {c : Char} {ds p : List Char}
    (hds : forall q, q <+: ds -> readBody? quote q = none)
    (hp : p <+: Term.escapeChar quote c ++ ds) : readBody? quote p = none := by
  unfold Term.escapeChar at hp
  split at hp
  · exact readBody?_of_front_pair hescape hds hp
  · split at hp
    · exact readBody?_of_front_pair hescape hds hp
    · split at hp
      · exact readBody?_of_front_pair hescape hds hp
      · split at hp
        · exact readBody?_of_front_pair hescape hds hp
        · rename_i hbackslash hquote _ _
          rcases List.prefix_cons_iff.mp hp with rfl | ⟨more, rfl, hmore⟩
          · rfl
          · rw [readBody?_cons hquote hbackslash, hds more hmore, Option.map_none]

/-- A body that stops in front of its closing quote is not read. -/
theorem readBody?_of_front (hescape : quote ≠ '\\') (body : List Char) {p : List Char}
    (hp : p <+: body.flatMap (Term.escapeChar quote)) : readBody? quote p = none := by
  induction body generalizing p with
  | nil =>
      rw [List.prefix_nil.mp hp]
      rfl
  | cons c rest ih =>
      rw [List.flatMap_cons] at hp
      exact readBody?_of_front_escapeChar hescape (fun _ hq => ih hq) hp

def IsQuote (c : Char) : Prop :=
  c = '"' ∨ c = '\''

theorem scan?_of_readBody?_eq_none (hquote : IsQuote quote) {cs : List Char}
    (h : readBody? quote cs = none) : scan? (quote :: cs) = none := by
  have hread : readFirst quote cs = .error (quote :: cs) := by
    rcases hquote with rfl | rfl
    · rw [readFirst_text, h]
    · rw [readFirst_quoted, h]
  exact scan?_of_readFirst_error hread

/-!
# Texts that stop inside a body
-/

/-- The characters stop behind a quote such that no tokens are read, however much of what stands
behind the quote is left out. -/
def StopsInBody (cs : List Char) : Prop :=
  exists front quote body, cs = front ++ quote :: body ∧ IsQuote quote ∧
    forall p, p <+: body -> scan? (front ++ quote :: p) = none

section
variable {cs : List Char}

theorem StopsInBody.scan?_eq_none (h : StopsInBody cs) : scan? cs = none := by
  rcases h with ⟨front, quote, body, rfl, _, hnone⟩
  exact hnone body (List.prefix_refl body)

theorem StopsInBody.ne_nil (h : StopsInBody cs) : cs ≠ [] := by
  rcases h with ⟨front, quote, body, rfl, _⟩
  simp

theorem StopsInBody.prepend (h : StopsInBody cs) {lead : List Char}
    (hlead : forall ds, scan? ds = none -> scan? (lead ++ ds) = none) :
    StopsInBody (lead ++ cs) := by
  rcases h with ⟨front, quote, body, rfl, hquote, hnone⟩
  refine ⟨lead ++ front, quote, body, by rw [List.append_assoc], hquote, ?_⟩
  intro p hp
  rw [List.append_assoc]
  exact hlead _ (hnone p hp)

/-- The characters still stop inside the body if something without quotes is left out at the
end. -/
theorem StopsInBody.of_append {ds : List Char} (h : StopsInBody (cs ++ ds))
    (hds : forall c, c ∈ ds -> ¬ IsQuote c) : StopsInBody cs := by
  rcases h with ⟨front, quote, body, heq, hquote, hnone⟩
  rcases List.append_eq_append_iff.mp heq with ⟨more, _, hmore⟩ | ⟨more, hcs, hmore⟩
  · refine absurd hquote (hds quote ?_)
    rw [hmore]
    exact List.mem_append_right more List.mem_cons_self
  · cases more with
    | nil =>
        refine absurd hquote (hds quote ?_)
        rw [List.nil_append] at hmore
        rw [← hmore]
        exact List.mem_cons_self
    | cons c p =>
        rw [List.cons_append, List.cons.injEq] at hmore
        rcases hmore with ⟨rfl, hbody⟩
        refine ⟨front, quote, p, hcs, hquote, ?_⟩
        intro q hq
        apply hnone
        rw [hbody]
        exact hq.trans (List.prefix_append p ds)

theorem stopsInBody_enclose (hquote : IsQuote quote) (body : List Char) {before after : List Char}
    {c : Char} (hc : ¬ IsQuote c) (h : Term.enclose quote body = before ++ c :: after) :
    StopsInBody before := by
  have hescape : quote ≠ '\\' := by
    rcases hquote with rfl | rfl
    · decide
    · decide
  cases before with
  | nil =>
      rw [← (List.cons.inj h).left] at hc
      exact absurd hquote hc
  | cons q p =>
      rcases List.cons.inj h with ⟨rfl, hmore⟩
      have hclose : c ∉ [quote] := by
        intro hmem
        rw [List.mem_singleton.mp hmem] at hc
        exact hc hquote
      rcases exists_eq_append_left hmore hclose with ⟨rest, hbody, _⟩
      have hp : p <+: body.flatMap (Term.escapeChar quote) := ⟨c :: rest, hbody.symm⟩
      refine ⟨[], quote, p, rfl, hquote, ?_⟩
      intro front hfront
      exact scan?_of_readBody?_eq_none hquote (readBody?_of_front hescape body (hfront.trans hp))

end

theorem before?_of_scan?_eq_none (first : Option (List Token)) {rest : List Char}
    (h : scan? rest = none) : before? first rest = none := by
  rw [before?, h]
  cases first with
  | none => rfl
  | some tokens => rfl

end Token

/-!
# Terms

Names and numbers of a term that reads back have none of these characters.
-/

theorem isBlank_of_isWordChar {c : Char} (h : isWordChar c = true) : Text.isBlank c = false := by
  simp only [isWordChar, Char.isAlphanum, Bool.or_eq_true] at h
  rcases h with (hletter | hdigit) | hunderscore
  · exact isBlank_of_isWordStart (Bool.or_eq_true_iff.mpr (Or.inl hletter))
  · exact isBlank_of_isDigit hdigit
  · rw [eq_of_beq hunderscore]
    rfl

theorem isBlank_of_isNumberChar {c : Char} (h : isNumberChar c = true) :
    Text.isBlank c = false := by
  simp only [isNumberChar, Bool.or_eq_true, beq_iff_eq] at h
  rcases h with (((hdigit | rfl) | rfl) | rfl) | rfl
  · exact isBlank_of_isDigit hdigit
  · rfl
  · rfl
  · rfl
  · rfl

theorem isWordChar_of_isIdentifier {start : Char -> Bool} {cs : List Char}
    (hstart : forall c, start c = true -> isWordStart c = true) (h : isIdentifier start cs = true)
    (hlast : cs.getLast? ≠ some '\n') {c : Char} (hc : c ∈ cs) : isWordChar c = true := by
  rw [← (stemChars_eq_iff hstart h).mpr hlast] at hc
  exact isWordChar_of_mem_stemChars hstart h hc

theorem Functor.isWordChar_of_stem_eq {f : Functor} (h : f.stem = f) {c : Char}
    (hc : c ∈ f.text.toList) : isWordChar c = true :=
  isWordChar_of_isIdentifier (fun _ => isWordStart_of_isLower) f.valid (f.stem_eq_iff.mp h) hc

theorem VariableName.isWordChar_of_stem_eq {v : VariableName} (h : v.stem = v) {c : Char}
    (hc : c ∈ v.text.toList) : isWordChar c = true :=
  isWordChar_of_isIdentifier (fun _ => isWordStart_of_isVariableStart) v.valid
    (v.stem_eq_iff.mp h) hc

/-- A character that the text of a term can have only inside bodies. -/
structure Token.IsBodyChar (c : Char) : Prop where
  not_word : isWordChar c = false
  not_number : isNumberChar c = false
  not_quote : ¬ IsQuote c
  not_punctuation : c ∉ ['(', ')', ',', ' ']

theorem Token.isBodyChar_of_isLineBreak {c : Char} (h : Text.isLineBreak c = true) :
    IsBodyChar c := by
  constructor
  case not_word =>
    cases hword : isWordChar c with
    | false => rfl
    | true =>
        rw [Text.isLineBreak_eq_false (isBlank_of_isWordChar hword)] at h
        cases h
  case not_number =>
    cases hnumber : isNumberChar c with
    | false => rfl
    | true =>
        rw [Text.isLineBreak_eq_false (isBlank_of_isNumberChar hnumber)] at h
        cases h
  case not_quote =>
    rintro (rfl | rfl)
    · cases h
    · cases h
  case not_punctuation =>
    intro hmem
    simp only [List.mem_cons, List.not_mem_nil, or_false] at hmem
    rcases hmem with rfl | rfl | rfl | rfl
    all_goals cases h

namespace Term

open Token

theorem isFinite_of_numberReading? {n : Number}
    (h : numberReading? n = some (.number n)) : n.isFinite = true := by
  cases n with
  | int n => rfl
  | float x =>
      cases hfinite : x.isFinite with
      | true => exact hfinite
      | false =>
          simp only [numberReading?, hfinite, Bool.false_eq_true, ↓reduceIte] at h
          split at h
          · cases h
          · cases h

theorem stopsInBody_atom {n : AtomName} (hreading : (Term.atom n).reading? = some (.atom n))
    {before after : List Char} {c : Char} (hc : IsBodyChar c)
    (h : (Term.atom n).renderChars = before ++ c :: after) : StopsInBody before := by
  cases hplain : n.isPlain with
  | true =>
      simp only [renderChars, hplain, ↓reduceIte] at h
      simp only [reading?, atomReading, hplain, ↓reduceDIte, Option.some.injEq, Term.atom.injEq]
        at hreading
      have hstem : (n.toFunctor hplain).stem = n.toFunctor hplain :=
        Functor.eq_of_text_eq (congrArg AtomName.text hreading)
      have hmem : c ∈ (n.toFunctor hplain).text.toList := by
        show c ∈ n.text.toList
        simp [h]
      have hword := Functor.isWordChar_of_stem_eq hstem hmem
      rw [hc.not_word] at hword
      cases hword
  | false =>
      simp only [renderChars, hplain, Bool.false_eq_true, ↓reduceIte] at h
      exact stopsInBody_enclose (Or.inr rfl) n.text.toList hc.not_quote h

theorem scan?_open_eq_none (f : Functor) {ds : List Char} (h : scan? ds = none) :
    scan? (f.text.toList ++ ['('] ++ ds) = none := by
  have hopen : scan? ('(' :: ds) = none := by
    rw [scan?_open, before?_of_scan?_eq_none _ h]
  rw [List.append_assoc, List.singleton_append, scan?_functor f (endsWord_open ds)]
  exact before?_of_scan?_eq_none _ hopen

theorem scan?_comma_eq_none (t : Term) {ds : List Char} (h : scan? ds = none) :
    scan? (t.renderChars ++ [',', ' '] ++ ds) = none := by
  have hends : EndsTerm (',' :: ' ' :: ds) := by
    intro c hc
    cases hc
    exact Or.inr rfl
  have hcomma : scan? (',' :: ' ' :: ds) = none := by
    rw [scan?_comma]
    apply before?_of_scan?_eq_none
    rw [scan?_blank rfl, h]
  rw [List.append_assoc]
  show scan? (t.renderChars ++ ',' :: ' ' :: ds) = none
  rw [scan?_renderChars t _ hends]
  exact before?_of_scan?_eq_none _ hcomma

mutual

-- The arguments in front of the cut are whole, so their tokens are read up to the open body.
theorem stopsInBody_renderChars {c : Char} (hc : IsBodyChar c) : (t : Term) ->
    t.reading? = some t -> {before after : List Char} ->
    t.renderChars = before ++ c :: after -> StopsInBody before
  | .atom _, hreading, _, _, h => stopsInBody_atom hreading hc h
  | .text s, _, _, _, h => stopsInBody_enclose (Or.inl rfl) s.toList hc.not_quote h
  | .var v, hreading, _, _, h => by
      have hstem : v.stem = v := Term.var.inj (Option.some.inj hreading)
      have hmem : c ∈ v.text.toList := by
        rw [renderChars] at h
        simp [h]
      have hword := VariableName.isWordChar_of_stem_eq hstem hmem
      rw [hc.not_word] at hword
      cases hword
  | .number n, hreading, _, _, h => by
      have hmem : c ∈ n.chars := by
        rw [renderChars] at h
        simp [h]
      have hnumber := Number.isNumberChar_of_mem_chars (isFinite_of_numberReading? hreading) hmem
      rw [hc.not_number] at hnumber
      cases hnumber
  | .compound f args, hreading, before, after, h => by
      rcases Option.map_eq_some_iff.mp hreading with ⟨us, hargs, hsame⟩
      rcases Term.compound.inj hsame with ⟨hstem, rfl⟩
      have hchars : (Term.compound f us).renderChars =
          (f.text.toList ++ ['(']) ++ (renderAll us ++ [')']) := by
        simp [renderChars]
      have hname : c ∉ f.text.toList ++ ['('] := by
        intro hmem
        rcases List.mem_append.mp hmem with hword | hopen
        · have hfalse := Functor.isWordChar_of_stem_eq hstem hword
          rw [hc.not_word] at hfalse
          cases hfalse
        · rw [List.mem_singleton.mp hopen] at hc
          exact hc.not_punctuation (by decide)
      have hclose : c ∉ [')'] := by
        intro hmem
        rw [List.mem_singleton.mp hmem] at hc
        exact hc.not_punctuation (by decide)
      rw [hchars] at h
      rcases exists_eq_append_right h hname with ⟨more, rfl, hmore⟩
      rcases exists_eq_append_left hmore hclose with ⟨rest, hall, _⟩
      exact (stopsInBody_renderAll hc us hargs hall).prepend fun _ => scan?_open_eq_none f

theorem stopsInBody_renderAll {c : Char} (hc : IsBodyChar c) : (ts : List Term) ->
    readingAll? ts = some ts -> {before after : List Char} ->
    renderAll ts = before ++ c :: after -> StopsInBody before
  | [], _, _, _, h => by simp [renderAll] at h
  | [t], hreading, _, _, h => by
      rcases Option.bind_eq_some_iff.mp hreading with ⟨u, hhead, hmap⟩
      rcases Option.map_eq_some_iff.mp hmap with ⟨us, _, hsame⟩
      rcases List.cons.inj hsame with ⟨rfl, _⟩
      exact stopsInBody_renderChars hc u hhead h
  | t :: u :: us, hreading, before, after, h => by
      rcases Option.bind_eq_some_iff.mp hreading with ⟨v, hhead, hmap⟩
      rcases Option.map_eq_some_iff.mp hmap with ⟨vs, htail, hsame⟩
      rcases List.cons.inj hsame with ⟨rfl, rfl⟩
      have hchars : renderAll (v :: u :: us) =
          (v.renderChars ++ [',', ' ']) ++ renderAll (u :: us) := by
        simp [renderAll]
      have hcomma : c ∉ [',', ' '] :=
        fun hmem => hc.not_punctuation (List.mem_cons_of_mem _ (List.mem_cons_of_mem _ hmem))
      rw [hchars] at h
      rcases append_eq_append_cons_cases h with ⟨more, rfl, hmore⟩ | ⟨more, hfirst, _⟩
      · exact (stopsInBody_renderAll hc (u :: us) htail hmore).prepend
          fun _ => scan?_comma_eq_none v
      · rcases exists_eq_append_left hfirst hcomma with ⟨rest, hv, _⟩
        exact stopsInBody_renderChars hc v hhead hv

end

/-- What stands in front of the first end of a line stops inside a body. -/
theorem stopsInBody_firstLine {t : Term} (hreading : t.reading? = some t)
    (hbreak : ¬ Text.OnOneLine t.renderChars) : StopsInBody (Text.firstLine t.renderChars) := by
  rcases Text.exists_eq_firstLine_append hbreak with ⟨c, rest, hsplit, hc⟩
  exact stopsInBody_renderChars (isBodyChar_of_isLineBreak hc) t hreading hsplit

theorem parse_ne_ok_of_scan?_eq_none {source : String} (h : scan? source.toList = none)
    (t : Term) : parse source ≠ .ok t := by
  intro hparse
  cases hblank : Text.isBlankText source with
  | true =>
      rw [parse, hblank, if_pos rfl] at hparse
      cases hparse
  | false =>
      have hnone := toOption_parse source hblank
      rw [h, hparse] at hnone
      cases hnone

end Term

/-!
# Facts

The first line of a fact that is cut is trimmed and may lose a point, but it never
loses the quote.
-/

theorem Text.exists_eq_trimChars_append {c : Char} (hc : isBlank c = false) (rest : List Char) :
    exists ds, c :: rest = trimChars (c :: rest) ++ ds ∧ forall d, d ∈ ds -> isBlank d = true := by
  rcases exists_eq_dropEndWhile_append isBlank rest with ⟨ds, hrest, hds⟩
  refine ⟨ds, ?_, hds⟩
  rw [trimChars_cons hc, List.cons_append, ← hrest]

theorem exists_eq_dropFinalPoint_append (cs : List Char) :
    exists ds, cs = dropFinalPoint cs ++ ds ∧ forall d, d ∈ ds -> d = '.' := by
  unfold dropFinalPoint
  split
  · rename_i hlast
    refine ⟨['.'], (List.dropLast_append_getLast? '.' hlast).symm, ?_⟩
    intro d hd
    exact List.mem_singleton.mp hd
  · refine ⟨[], (List.append_nil cs).symm, ?_⟩
    intro d hd
    cases hd

theorem Token.IsQuote.not_isBlank {c : Char} (h : IsQuote c) : Text.isBlank c = false := by
  rcases h with rfl | rfl
  · rfl
  · rfl

theorem Token.StopsInBody.trimChars {c : Char} {rest : List Char} (h : StopsInBody (c :: rest))
    (hc : Text.isBlank c = false) : StopsInBody (Text.trimChars (c :: rest)) := by
  rcases Text.exists_eq_trimChars_append hc rest with ⟨ds, hsplit, hds⟩
  rw [hsplit] at h
  apply h.of_append
  intro d hd hquote
  have hblank := hds d hd
  rw [hquote.not_isBlank] at hblank
  cases hblank

theorem readFact_ne_ok_of_stopsInBody {cs : List Char} (h : Token.StopsInBody cs) (number : Nat)
    (fact : Compound × String) : readFact number cs ≠ .ok fact := by
  rcases exists_eq_dropFinalPoint_append cs with ⟨ds, hcs, hds⟩
  have hpoint : forall d, d ∈ ds -> ¬ Token.IsQuote d := by
    intro d hd hquote
    rw [hds d hd] at hquote
    exact absurd hquote (by simp [Token.IsQuote])
  rw [hcs] at h
  have hscan : Token.scan? (String.ofList (dropFinalPoint cs)).toList = none := by
    rw [String.toList_ofList]
    exact (h.of_append hpoint).scan?_eq_none
  intro hread
  unfold readFact at hread
  split at hread
  · cases hread
  · rename_i t hparse
    exact Term.parse_ne_ok_of_scan?_eq_none hscan t hparse

section
variable {fact : Compound × String} (h : IsFact fact) (hbreak : ¬ fact.1.OnOneLine)
include h hbreak

theorem IsFact.stopsInBody_firstLine : Token.StopsInBody (Text.firstLine (factLine fact)) := by
  have hterm : ¬ Text.OnOneLine (factTerm fact.1 fact.2).renderChars := by
    intro hline
    apply hbreak
    exact h.onOneLine_factLine_iff.mp (Text.onOneLine_append.mpr ⟨hline, by decide⟩)
  rw [factLine, Text.firstLine_append_of_not_onOneLine hterm]
  exact Term.stopsInBody_firstLine h.reading?_factTerm hterm

theorem IsFact.readFacts_firstLine_ne_ok (number : Nat) (rest : List (List Char))
    (facts : List (Compound × String)) :
    readFacts number (Text.firstLine (factLine fact) :: rest) ≠ .ok facts := by
  have hstops := h.stopsInBody_firstLine hbreak
  rcases exists_factLine_eq_cons fact with ⟨cs, hcs⟩
  have hstart : Text.firstLine (factLine fact) = 'h' :: Text.firstLine (cs ++ ['.']) := by
    rw [hcs]
    rfl
  have htrimmed : Token.StopsInBody (Text.trimChars (Text.firstLine (factLine fact))) := by
    rw [hstart] at hstops ⊢
    exact hstops.trimChars rfl
  have hskip : isSkipped (Text.trimChars (Text.firstLine (factLine fact))) = false := by
    rw [hstart, Text.trimChars_cons rfl]
    rfl
  intro hread
  rw [readFacts] at hread
  simp only [hskip, Bool.false_eq_true, ↓reduceIte] at hread
  rcases exists_of_bind_eq_ok hread with ⟨first, hfirst, _⟩
  exact readFact_ne_ok_of_stopsInBody htrimmed number first hfirst

/-- A fact that is cut is no fact, so nothing is read of the lines. -/
theorem IsFact.readFacts_lines_ne_ok (number : Nat) (rest : List Char)
    (facts : List (Compound × String)) :
    readFacts number (Text.lines (factLine fact ++ rest)) ≠ .ok facts := by
  have hcut : ¬ Text.OnOneLine (factLine fact) :=
    fun hfits => hbreak (h.onOneLine_factLine_iff.mp hfits)
  rcases Text.exists_eq_firstLine_append hcut with ⟨c, more, hsplit, hc⟩
  rcases Text.exists_lines_eq_cons (Text.onOneLine_firstLine (factLine fact)) hc (more ++ rest)
    with ⟨others, hlines⟩
  have hfile : Text.lines (factLine fact ++ rest) = Text.firstLine (factLine fact) :: others := by
    rw [← hlines, ← List.cons_append, ← List.append_assoc, ← hsplit]
  rw [hfile]
  exact h.readFacts_firstLine_ne_ok hbreak number others facts

end

end EventCalculus

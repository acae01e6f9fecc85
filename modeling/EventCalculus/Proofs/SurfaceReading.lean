import EventCalculus.Proofs.SurfaceTokens

/-!
# Terms are read back from their texts

Every text of a term denotes at most one term, which `Term.reading?` tells from
the term alone: names lose the line feed at their ends, infinity becomes an atom,
and a number with an exponent or with too many digits leaves nothing to be read.
So a text denotes its own term if and only if no part of the term is changed.
-/

namespace EventCalculus
namespace Term

/-!
# What is read
-/

/-- The term that the text of a number denotes. -/
def numberReading? : Number -> Option Term
  | .int n =>
      if (Nat.toDigits 10 n.natAbs).length ≤ Numeral.digitLimit then some (.number (.int n))
      else none
  | .float x =>
      if x.isFinite then
        if 'e' ∈ x.chars then none else some (.number (.float x))
      else if x.negative then
        none
      else
        some (.atom infinityName.toAtomName)

/-- The atom that the text of an atom denotes. -/
def atomReading (n : AtomName) : AtomName :=
  if h : n.isPlain = true then (n.toFunctor h).stem.toAtomName else n

mutual

/-- The term that the text of a term denotes, if it denotes one. -/
def reading? : Term -> Option Term
  | .atom n => some (.atom (atomReading n))
  | .number n => numberReading? n
  | .text s => some (.text s)
  | .var v => some (.var v.stem)
  | .compound f args => (readingAll? args).map (.compound f.stem)

def readingAll? : List Term -> Option (List Term)
  | [] => some []
  | t :: ts => (reading? t).bind fun u => (readingAll? ts).map (u :: ·)

end

theorem exists_token?_of_numberReading? {n : Number} {u : Term} (h : numberReading? n = some u) :
    exists token, n.token? = some token := by
  cases n with
  | int n => exact ⟨_, rfl⟩
  | float x =>
      simp only [numberReading?] at h
      simp only [Number.token?, Binary64.token?]
      cases hfinite : x.isFinite with
      | true =>
          by_cases hscale : 'e' ∈ x.chars
          · simp [hfinite, hscale] at h
          · simp [hscale]
      | false =>
          cases hnegative : x.negative with
          | true => simp [hfinite, hnegative] at h
          | false => simp

mutual

/-- A text that denotes a term can be cut into tokens. -/
theorem exists_tokens?_of_reading? : (t : Term) -> (u : Term) -> t.reading? = some u ->
    exists tokens, t.tokens? = some tokens
  | .atom _, _, _ => ⟨_, rfl⟩
  | .text _, _, _ => ⟨_, rfl⟩
  | .var _, _, _ => ⟨_, rfl⟩
  | .number n, u, h => by
      rcases exists_token?_of_numberReading? h with ⟨token, htoken⟩
      exact ⟨[token], by rw [tokens?, htoken, Option.map_some]⟩
  | .compound f args, u, h => by
      rcases Option.map_eq_some_iff.mp h with ⟨us, hus, _⟩
      rcases exists_argumentTokens?_of_readingAll? args us hus with ⟨tokens, htokens⟩
      exact ⟨_, by rw [tokens?, htokens, Option.map_some]⟩

theorem exists_argumentTokens?_of_readingAll? : (ts us : List Term) ->
    readingAll? ts = some us -> exists tokens, argumentTokens? ts = some tokens
  | [], _, _ => ⟨[], rfl⟩
  | t :: ts, us, h => by
      rcases Option.bind_eq_some_iff.mp h with ⟨u, hu, hmap⟩
      rcases Option.map_eq_some_iff.mp hmap with ⟨rest, hrest, _⟩
      rcases exists_tokens?_of_reading? t u hu with ⟨first, hfirst⟩
      rcases exists_argumentTokens?_of_readingAll? ts rest hrest with ⟨more, hmore⟩
      cases ts with
      | nil => exact ⟨first, by rw [argumentTokens?, hfirst]⟩
      | cons v vs => exact ⟨first ++ .comma :: more, by simp [argumentTokens?, hfirst, hmore]⟩

end

/-!
# Reading the tokens of a term
-/

theorem value_token? {n : Number} {token : Token} (htoken : n.token? = some token) :
    (exists f, token = .name f ∧ numberReading? n = some (.atom f.toAtomName)) ∨
      exists m, token = .numeral m ∧
        (m.value.map Term.number).toOption = numberReading? n := by
  cases n with
  | int n =>
      cases htoken
      refine Or.inr ⟨_, rfl, ?_⟩
      by_cases hshort : (Nat.toDigits 10 n.natAbs).length ≤ Numeral.digitLimit
      · rw [Numeral.value_intChars n hshort]
        simp [numberReading?, hshort, Except.map, Except.toOption]
      · have hlong := Nat.not_le.mp hshort
        simp [numberReading?, hshort, hlong, Numeral.value, Except.map, Except.toOption]
  | float x =>
      cases hfinite : x.isFinite with
      | true =>
          by_cases hscale : 'e' ∈ x.chars
          · simp [Number.token?, Binary64.token?, hfinite, hscale] at htoken
          · rcases Binary64.exists_parts_of_not_mem hfinite hscale with
              ⟨d, _, hd, hparts, hvalue⟩
            have hsame : token = .numeral ⟨x.negative, d.whole, d.fraction⟩ := by
              rw [Number.token?, hparts] at htoken
              exact (Option.some.inj htoken).symm
            refine Or.inr ⟨_, hsame, ?_⟩
            rw [Numeral.value_fraction hd, hvalue]
            simp [numberReading?, hfinite, hscale, Except.map, Except.toOption]
      | false =>
          cases hnegative : x.negative with
          | true => simp [Number.token?, Binary64.token?, hfinite, hnegative] at htoken
          | false =>
              simp only [Number.token?, Binary64.token?, hfinite, hnegative, Bool.false_eq_true,
                ↓reduceIte, Option.some.injEq] at htoken
              refine Or.inl ⟨infinityName, htoken.symm, ?_⟩
              simp [numberReading?, hfinite, hnegative]

/-- No term starts with a closing bracket. -/
theorem exists_first_token : (t : Term) -> (tokens : List Token) -> t.tokens? = some tokens ->
    exists first more, tokens = first :: more ∧ first ≠ .closeParen
  | .atom n, tokens, h => by
      cases h
      refine ⟨atomToken n, [], rfl, ?_⟩
      unfold atomToken
      split
      · exact Token.noConfusion
      · exact Token.noConfusion
  | .number n, tokens, h => by
      rcases Option.map_eq_some_iff.mp h with ⟨token, htoken, rfl⟩
      refine ⟨token, [], rfl, ?_⟩
      rcases value_token? htoken with ⟨f, rfl, _⟩ | ⟨m, rfl, _⟩
      · exact Token.noConfusion
      · exact Token.noConfusion
  | .text s, tokens, h => by
      cases h
      exact ⟨_, [], rfl, Token.noConfusion⟩
  | .var v, tokens, h => by
      cases h
      exact ⟨_, [], rfl, Token.noConfusion⟩
  | .compound f args, tokens, h => by
      rcases Option.map_eq_some_iff.mp h with ⟨more, _, rfl⟩
      exact ⟨.name f.stem, _, rfl, Token.noConfusion⟩

theorem readTerm_name {f : Functor} {frames : List Frame} {rest : List Token}
    (hrest : rest.head? ≠ some .openParen) :
    readTerm frames (.name f :: rest) = afterTerm (.atom f.toAtomName) frames rest := by
  cases rest with
  | nil => rw [readTerm.eq_def]
  | cons token more =>
      cases token with
      | openParen => exact absurd rfl hrest
      | _ => rw [readTerm.eq_def]

theorem readTerm_open {f : Functor} {frames : List Frame} {first : Token} {more : List Token}
    (hfirst : first ≠ .closeParen) :
    readTerm frames (.name f :: .openParen :: first :: more) =
      readTerm (⟨f, []⟩ :: frames) (first :: more) := by
  cases first with
  | closeParen => exact absurd rfl hfirst
  | _ => rw [readTerm.eq_def]

section
variable {frames : List Frame} {rest : List Token}

/-- What follows a reading, if there is one. -/
def continue? (reading : Option Term) (frames : List Frame) (rest : List Token) : Option Term :=
  reading.bind fun u => (afterTerm u frames rest).toOption

theorem readTerm_atom (n : AtomName) (hrest : rest.head? ≠ some .openParen) :
    readTerm frames (atomToken n :: rest) = afterTerm (.atom (atomReading n)) frames rest := by
  unfold atomToken atomReading
  split
  · exact readTerm_name hrest
  · rename_i hplain
    have hbody : Token.unescape (n.text.toList.flatMap (escapeChar '\'')) = n.text.toList :=
      Token.unescape_escaped rfl n.text.toList
    have hname : AtomName.ofText? n.text = some n := by
      simp [AtomName.ofText?, n.nonempty]
    rw [readTerm.eq_def]
    simp only [hbody, String.ofList_toList, hname]

theorem readTerm_number {n : Number} {token : Token} (htoken : n.token? = some token)
    (hrest : rest.head? ≠ some .openParen) :
    (readTerm frames (token :: rest)).toOption = continue? (numberReading? n) frames rest := by
  rcases value_token? htoken with ⟨f, rfl, hreading⟩ | ⟨m, rfl, hreading⟩
  · rw [hreading, readTerm_name hrest]
    rfl
  · rw [← hreading, readTerm]
    cases m.value with
    | ok value => rfl
    | error count => rfl

theorem readTerm_text (s : String) :
    readTerm frames (.text (s.toList.flatMap (escapeChar '"')) :: rest) =
      afterTerm (.text s) frames rest := by
  have hbody : Token.unescape (s.toList.flatMap (escapeChar '"')) = s.toList :=
    Token.unescape_escaped rfl s.toList
  rw [readTerm.eq_def]
  simp only [hbody, String.ofList_toList]

end

mutual

/-- The tokens of a term are read as what its text denotes, whatever is open and whatever
follows. -/
theorem readTerm_tokens? : (t : Term) -> (tokens : List Token) -> t.tokens? = some tokens ->
    (frames : List Frame) -> (rest : List Token) -> rest.head? ≠ some .openParen ->
    (readTerm frames (tokens ++ rest)).toOption = continue? t.reading? frames rest
  | .atom n, tokens, htokens, frames, rest, hrest => by
      cases htokens
      rw [List.singleton_append, readTerm_atom n hrest]
      rfl
  | .number n, tokens, htokens, frames, rest, hrest => by
      rcases Option.map_eq_some_iff.mp htokens with ⟨token, htoken, rfl⟩
      exact readTerm_number htoken hrest
  | .text s, tokens, htokens, frames, rest, _ => by
      cases htokens
      rw [List.singleton_append, readTerm_text s]
      rfl
  | .var v, tokens, htokens, frames, rest, _ => by
      cases htokens
      rw [List.singleton_append, readTerm.eq_def]
      rfl
  | .compound f [], tokens, htokens, frames, rest, _ => by
      cases htokens
      simp only [List.append_nil, List.cons_append, List.nil_append]
      rw [readTerm.eq_def]
      rfl
  | .compound f (t :: ts), tokens, htokens, frames, rest, _ => by
      rcases Option.map_eq_some_iff.mp htokens with ⟨inner, hinner, rfl⟩
      have hargs := readTerm_argumentTokens? (t :: ts) (List.cons_ne_nil t ts) inner hinner
        ⟨f.stem, []⟩ frames rest
      rw [argumentTokens?_cons] at hinner
      rcases Option.bind_eq_some_iff.mp hinner with ⟨first, hfirst, hmap⟩
      rcases Option.map_eq_some_iff.mp hmap with ⟨more, _, rfl⟩
      rcases exists_first_token t first hfirst with ⟨token, others, rfl, htoken⟩
      simp only [List.append_assoc, List.cons_append, List.nil_append] at hargs ⊢
      rw [readTerm_open htoken, hargs, reading?, continue?, Option.bind_map]
      rfl

/-- The tokens of arguments are read up to the bracket that closes their compound. -/
theorem readTerm_argumentTokens? : (ts : List Term) -> ts ≠ [] -> (tokens : List Token) ->
    argumentTokens? ts = some tokens -> (frame : Frame) -> (outer : List Frame) ->
    (rest : List Token) ->
    (readTerm (frame :: outer) (tokens ++ .closeParen :: rest)).toOption =
      (readingAll? ts).bind fun us =>
        (afterTerm (.compound frame.functor (frame.args.reverse ++ us)) outer rest).toOption
  | [], hne, _, _, _, _, _ => absurd rfl hne
  | [t], _, tokens, htokens, frame, outer, rest => by
      have hread := readTerm_tokens? t tokens htokens (frame :: outer) (.closeParen :: rest)
        (by simp)
      rw [hread, continue?, readingAll?, readingAll?]
      cases t.reading? with
      | none => rfl
      | some u =>
          simp only [Option.bind_some, Option.map_some]
          rw [afterTerm.eq_def]
          simp [Frame.close]
  | t :: u :: us, _, tokens, htokens, frame, outer, rest => by
      rw [argumentTokens?_cons] at htokens
      rcases Option.bind_eq_some_iff.mp htokens with ⟨first, hfirst, hmap⟩
      rcases Option.map_eq_some_iff.mp hmap with ⟨_, hmore, rfl⟩
      rcases Option.map_eq_some_iff.mp hmore with ⟨more, hinner, rfl⟩
      have hread := readTerm_tokens? t first hfirst (frame :: outer)
        (.comma :: (more ++ .closeParen :: rest)) (by simp)
      rw [List.append_assoc, List.cons_append, hread, continue?, readingAll?]
      cases t.reading? with
      | none => rfl
      | some v =>
          have hnext := readTerm_argumentTokens? (u :: us) (List.cons_ne_nil u us) more hinner
            (frame.push v) outer rest
          simp only [Option.bind_some, Option.bind_map]
          rw [afterTerm.eq_def]
          simp only
          rw [hnext]
          simp [Frame.push]

end

/-!
# Reading the text of a term
-/

theorem toOption_parse (source : String) (h : Text.isBlankText source = false) :
    (parse source).toOption =
      (Token.scan? source.toList).bind fun tokens => (readTerm [] tokens).toOption := by
  unfold parse Token.scan?
  simp only [h, Bool.false_eq_true, ↓reduceIte]
  cases hread : Token.readAll source.toList with
  | ok tokens =>
      cases hterm : readTerm [] tokens with
      | ok t => simp [Except.toOption, hterm]
      | error fault => simp [Except.toOption, hterm]
  | error suffix =>
      cases suffix with
      | nil => rfl
      | cons c more => rfl

theorem isBlankText_render (t : Term) : Text.isBlankText t.render = false := by
  rcases exists_nonblank_renderChars t with ⟨c, rest, hcons, hc⟩
  simp [Text.isBlankText, render, hcons, hc]

/-- The text of a term is cut into its tokens. -/
theorem scan?_render (t : Term) : Token.scan? t.render.toList = t.tokens? := by
  have hends : EndsTerm [] := by
    intro c hc
    cases hc
  have hscan := scan?_renderChars t [] hends
  have hnil : Token.scan? [] = some [] := by
    rw [Token.scan?, Token.readAll]
    rfl
  have hlist : t.render.toList = t.renderChars := String.toList_ofList
  rw [List.append_nil, Token.before?, hnil] at hscan
  rw [hlist, hscan]
  simp

/-- The text of a term denotes its reading, and nothing if there is none. -/
theorem toOption_parse_render (t : Term) : (parse t.render).toOption = t.reading? := by
  rw [toOption_parse _ (isBlankText_render t), scan?_render]
  cases htokens : t.tokens? with
  | none =>
      cases hreading : t.reading? with
      | none => rfl
      | some u =>
          rcases exists_tokens?_of_reading? t u hreading with ⟨tokens, hsome⟩
          rw [htokens] at hsome
          cases hsome
  | some tokens =>
      have hread := readTerm_tokens? t tokens htokens [] [] (by simp)
      rw [List.append_nil] at hread
      rw [Option.bind_some, hread, continue?]
      cases t.reading? with
      | none => rfl
      | some u =>
          rw [Option.bind_some, afterTerm.eq_def]
          rfl

end Term
end EventCalculus

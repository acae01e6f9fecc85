import EventCalculus.Fault
import EventCalculus.Proofs.SurfaceReading
import EventCalculus.Proofs.TermGrammar

/-!
# Reading by the grammar

The tokens of a text are read as a term exactly if the grammar derives the term from their lexemes.
Reading goes on behind a term with whatever is open, so what is shown of a term is shown of the
arguments up to a bracket as well.
-/

namespace EventCalculus

/-!
# Lexemes of tokens
-/

namespace Numeral

section
variable {n : Numeral} (h : forall c, c ∈ n.whole ++ n.fraction -> Text.isDigit c = true)
include h

theorem filter_isDigit_chars : n.chars.filter Text.isDigit = n.whole ++ n.fraction := by
  have hdigits : (n.whole ++ n.fraction).filter Text.isDigit = n.whole ++ n.fraction :=
    List.filter_eq_self.mpr h
  have hsign : (if n.negative then ['-'] else []).filter Text.isDigit = [] := by
    have hdash : Text.isDigit '-' = false := textIsDigit_eq_false (by decide) (by decide)
    cases n.negative <;> simp [hdash]
  rw [List.filter_append] at hdigits
  rw [chars, List.filter_append, List.filter_append, hsign, List.nil_append]
  cases hfraction : n.fraction with
  | nil =>
      rw [hfraction] at hdigits
      exact hdigits
  | cons c rest =>
      rw [hfraction] at hdigits
      rw [List.isEmpty_cons, if_neg Bool.false_ne_true, List.filter_cons, textIsDigit_point,
        if_neg Bool.false_ne_true]
      exact hdigits

theorem not_mem_of_isDigit {c : Char} (hc : Text.isDigit c = false) :
    c ∉ n.whole ++ n.fraction := by
  intro hmem
  rw [h c hmem] at hc
  cases hc

theorem point_mem_chars_iff : '.' ∈ n.chars ↔ n.fraction.isEmpty = false := by
  have hdigits := not_mem_of_isDigit h textIsDigit_point
  rw [List.mem_append, not_or] at hdigits
  have hsign : '.' ∉ (if n.negative then ['-'] else []) := by
    cases n.negative <;> decide
  rw [chars, List.mem_append, List.mem_append]
  cases hfraction : n.fraction with
  | nil => simp [hsign, hdigits.left]
  | cons c rest => simp

theorem head?_chars_iff : n.chars.head? = some '-' ↔ n.negative = true := by
  have hdash : Text.isDigit '-' = false := textIsDigit_eq_false (by decide) (by decide)
  have hdigits := not_mem_of_isDigit h hdash
  rw [chars]
  cases n.negative with
  | true => simp
  | false =>
      cases hwhole : n.whole with
      | nil => cases n.fraction.isEmpty <;> simp
      | cons c rest =>
          rw [hwhole] at hdigits
          have hc : c ≠ '-' := fun heq => hdigits (by simp [heq])
          simp [hc]

theorem dropWhile_chars (hfraction : n.fraction.isEmpty = false) :
    (n.chars.dropWhile (· ≠ '.')).drop 1 = n.fraction := by
  have hfront : forall c, c ∈ (if n.negative then ['-'] else []) ++ n.whole ->
      decide (c ≠ '.') = true := by
    have hdigits := not_mem_of_isDigit h textIsDigit_point
    intro c hc
    apply decide_eq_true
    intro heq
    rw [heq] at hc
    cases List.mem_append.mp hc with
    | inl hsign =>
        cases hnegative : n.negative <;> rw [hnegative] at hsign <;> revert hsign <;> decide
    | inr hwhole => exact hdigits (List.mem_append_left _ hwhole)
  rw [chars, hfraction, if_neg Bool.false_ne_true, List.dropWhile_append_of_pos hfront]
  simp

/-- The characters of a numeral tell its value. -/
theorem number?_chars : Lexeme.number? n.chars = n.value.toOption := by
  have hnegative : decide (n.chars.head? = some '-') = n.negative :=
    Bool.eq_iff_iff.mpr (by rw [decide_eq_true_eq, head?_chars_iff h])
  unfold Lexeme.number? value
  simp only [hnegative, filter_isDigit_chars h, point_mem_chars_iff h]
  cases hfraction : n.fraction.isEmpty with
  | false =>
      rw [dropWhile_chars h hfraction]
      rfl
  | true =>
      rw [List.isEmpty_iff.mp hfraction, List.append_nil]
      by_cases hshort : n.whole.length ≤ digitLimit
      · rw [if_pos hshort, if_neg (Nat.not_lt.mpr hshort)]
        rfl
      · rw [if_neg hshort, if_pos (Nat.not_le.mp hshort)]
        rfl

end

end Numeral

namespace Token

/-- Tokens that are no numerals have different lexemes. -/
theorem eq_of_lexeme_eq {t u : Token} (h : t.lexeme = u.lexeme) (hu : u.kind ≠ .number) :
    t = u := by
  have hkind : t.kind = u.kind := congrArg Lexeme.kind h
  have hchars : t.chars = u.chars := congrArg Lexeme.chars h
  -- of the pairs of tokens only those of one kind are left
  rcases u with v | f | n | body | body | _ | _ | _ <;>
    rcases t with w | g | m | other | other | _ | _ | _ <;> try cases hkind
  case variable.variable => rw [VariableName.eq_of_text_eq (String.toList_inj.mp hchars)]
  case variable.name => exact absurd hchars.symm (v.toList_ne g)
  case name.variable => exact absurd hchars (w.toList_ne f)
  case name.name => rw [Functor.eq_of_text_eq (String.toList_inj.mp hchars)]
  case numeral.numeral => exact absurd rfl hu
  case text.text => rw [List.append_cancel_right (List.cons.inj hchars).right]
  case quoted.quoted => rw [List.append_cancel_right (List.cons.inj hchars).right]
  all_goals first | rfl | cases hchars

theorem exists_numeral_of_lexeme_eq {t : Token} {chars : List Char}
    (h : t.lexeme = ⟨.number, chars⟩) : exists n, t = .numeral n ∧ n.chars = chars := by
  have hkind : t.kind = .number := congrArg Lexeme.kind h
  cases t with
  | numeral n => exact ⟨n, rfl, congrArg Lexeme.chars h⟩
  | _ => cases hkind

end Token

namespace Term

/-!
# Reading what is derived
-/

mutual

/-- The lexemes of a term are read as the term, whatever is open and whatever follows. -/
theorem readTerm_of_yield : (tree : SyntaxTree) -> (u : Term) -> tree.term? = some u ->
    (front : List Token) -> (forall t, t ∈ front -> t.IsWritten) ->
    front.map Token.lexeme = tree.yield -> (frames : List Frame) -> (rest : List Token) ->
    rest.head? ≠ some .openParen ->
    readTerm frames (front ++ rest) = afterTerm u frames rest
  | .number chars, u, hu, front, hwritten, hfront, frames, rest, _ => by
      rcases List.map_eq_singleton_iff.mp hfront with ⟨token, rfl, htoken⟩
      rcases Token.exists_numeral_of_lexeme_eq htoken with ⟨n, rfl, rfl⟩
      rcases Option.map_eq_some_iff.mp hu with ⟨value, hvalue, rfl⟩
      rw [Numeral.number?_chars (hwritten _ List.mem_cons_self)] at hvalue
      rw [List.singleton_append, readTerm.eq_def]
      simp only [toOption_eq_some_iff.mp hvalue]
  | .text body, u, hu, front, _, hfront, frames, rest, _ => by
      rcases List.map_eq_singleton_iff.mp hfront with ⟨token, rfl, htoken⟩
      cases Token.eq_of_lexeme_eq (u := .text body) htoken LexemeKind.noConfusion
      cases hu
      rw [List.singleton_append, readTerm.eq_def]
  | .quoted body, u, hu, front, _, hfront, frames, rest, _ => by
      rcases List.map_eq_singleton_iff.mp hfront with ⟨token, rfl, htoken⟩
      cases Token.eq_of_lexeme_eq (u := .quoted body) htoken LexemeKind.noConfusion
      rcases Option.map_eq_some_iff.mp hu with ⟨name, hname, rfl⟩
      rw [List.singleton_append, readTerm.eq_def]
      simp only [hname]
  | .var v, u, hu, front, _, hfront, frames, rest, _ => by
      rcases List.map_eq_singleton_iff.mp hfront with ⟨token, rfl, htoken⟩
      cases Token.eq_of_lexeme_eq (u := .variable v) htoken LexemeKind.noConfusion
      cases hu
      rw [List.singleton_append, readTerm.eq_def]
  | .atom f, u, hu, front, _, hfront, frames, rest, hrest => by
      rcases List.map_eq_singleton_iff.mp hfront with ⟨token, rfl, htoken⟩
      cases Token.eq_of_lexeme_eq (u := .name f) htoken LexemeKind.noConfusion
      cases hu
      rw [List.singleton_append, readTerm_name hrest]
  | .compound f args, u, hu, front, hwritten, hfront, frames, rest, _ => by
      rcases List.map_eq_cons_iff.mp hfront with ⟨token, tokens, rfl, htoken, htokens⟩
      rcases List.map_eq_cons_iff.mp htokens with ⟨opening, others, rfl, hopening, hothers⟩
      rcases List.map_eq_append_iff.mp hothers with ⟨inner, last, rfl, hinner, hlast⟩
      rcases List.map_eq_singleton_iff.mp hlast with ⟨closing, rfl, hclosing⟩
      cases Token.eq_of_lexeme_eq (u := .name f) htoken LexemeKind.noConfusion
      cases Token.eq_of_lexeme_eq (u := .openParen) hopening LexemeKind.noConfusion
      cases Token.eq_of_lexeme_eq (u := .closeParen) hclosing LexemeKind.noConfusion
      rcases Option.map_eq_some_iff.mp hu with ⟨us, hus, rfl⟩
      cases args with
      | nil =>
          cases hus
          rw [List.map_eq_nil_iff.mp hinner]
          simp only [List.cons_append, List.nil_append]
          rw [readTerm.eq_def]
      | cons arg args =>
          have hargs := readTerm_of_yieldAll (arg :: args) (List.cons_ne_nil arg args) us hus inner
            (fun t ht => hwritten t (by simp [ht])) hinner ⟨f, []⟩ frames rest
          rcases SyntaxTree.exists_yieldAll_eq_cons arg args with ⟨l, ls, hyield, hl⟩
          rw [hyield] at hinner
          rcases List.map_eq_cons_iff.mp hinner with ⟨first, more, rfl, hfirst, _⟩
          have hne : first ≠ .closeParen := by
            intro heq
            rw [← hfirst, heq] at hl
            exact hl rfl
          simp only [List.cons_append, List.append_assoc, List.nil_append] at hargs ⊢
          rw [readTerm_open hne, hargs]
          rfl

/-- The lexemes of arguments are read up to the bracket that closes their compound. -/
theorem readTerm_of_yieldAll : (trees : List SyntaxTree) -> trees ≠ [] -> (us : List Term) ->
    SyntaxTree.terms? trees = some us -> (front : List Token) ->
    (forall t, t ∈ front -> t.IsWritten) ->
    front.map Token.lexeme = SyntaxTree.yieldAll trees -> (frame : Frame) ->
    (outer : List Frame) -> (rest : List Token) ->
    readTerm (frame :: outer) (front ++ .closeParen :: rest) =
      afterTerm (.compound frame.functor (frame.args.reverse ++ us)) outer rest
  | [], hne, _, _, _, _, _, _, _, _ => absurd rfl hne
  | [tree], _, us, hus, front, hwritten, hfront, frame, outer, rest => by
      rcases Option.bind_eq_some_iff.mp hus with ⟨u, hu, hnil⟩
      cases hnil
      rw [readTerm_of_yield tree u hu front hwritten hfront (frame :: outer) _ (by simp),
        afterTerm.eq_def]
      simp [Frame.close]
  | tree :: next :: trees, _, us, hus, front, hwritten, hfront, frame, outer, rest => by
      rcases Option.bind_eq_some_iff.mp hus with ⟨u, hu, hmap⟩
      rcases Option.map_eq_some_iff.mp hmap with ⟨others, hothers, rfl⟩
      rw [SyntaxTree.yieldAll_cons] at hfront
      rcases List.map_eq_append_iff.mp hfront with ⟨first, tail, rfl, hfirst, htail⟩
      rcases List.map_eq_cons_iff.mp htail with ⟨separator, more, rfl, hcomma, hmore⟩
      cases Token.eq_of_lexeme_eq (u := .comma) hcomma LexemeKind.noConfusion
      have hnext := readTerm_of_yieldAll (next :: trees) (List.cons_ne_nil next trees) others
        hothers more (fun t ht => hwritten t (by simp [ht])) hmore (frame.push u) outer rest
      rw [List.append_assoc, List.cons_append,
        readTerm_of_yield tree u hu first (fun t ht => hwritten t (by simp [ht])) hfirst
          (frame :: outer) _ (by simp),
        afterTerm.eq_def]
      simp only
      rw [hnext]
      simp [Frame.push]

end

/-!
# Deriving what is read
-/

/-- Tokens begin with those of a term, and what is read goes on behind them. -/
def BeginsWithTerm (frames : List Frame) (tokens : List Token) (t : Term) : Prop :=
  exists tree u front rest, tokens = front ++ rest ∧
    front.map Token.lexeme = SyntaxTree.yield tree ∧ tree.term? = some u ∧
    afterTerm u frames rest = .ok t

theorem beginsWithTerm_of_token (tree : SyntaxTree) {token : Token} {u t : Term}
    {frames : List Frame} {rest : List Token} (hyield : tree.yield = [token.lexeme])
    (hu : tree.term? = some u) (h : afterTerm u frames rest = .ok t) :
    BeginsWithTerm frames (token :: rest) t :=
  ⟨tree, u, [token], rest, rfl, hyield.symm, hu, h⟩

mutual

theorem beginsWithTerm_of_readTerm (frames : List Frame) (tokens : List Token) (t : Term)
    (hwritten : forall x, x ∈ tokens -> x.IsWritten) (h : readTerm frames tokens = .ok t) :
    BeginsWithTerm frames tokens t := by
  rw [readTerm.eq_def] at h
  split at h
  · cases h
  · rename_i v rest
    exact beginsWithTerm_of_token (.var v) rfl rfl h
  · rename_i f rest
    exact ⟨.compound f [], _, [.name f, .openParen, .closeParen], rest, rfl, rfl, rfl, h⟩
  · rename_i f rest _
    rcases readsArguments ⟨f, []⟩ frames rest t (fun x hx => hwritten x (by simp [hx])) h with
      ⟨trees, us, front, more, hne, rfl, hyield, hus, hafter⟩
    refine ⟨.compound f trees, .compound f us, .name f :: .openParen :: (front ++ [.closeParen]),
      more, by simp, ?_, by rw [SyntaxTree.term?, hus]; rfl, hafter⟩
    rw [SyntaxTree.yield, List.map_cons, List.map_cons, List.map_append, hyield]
    rfl
  · rename_i f rest _ _
    exact beginsWithTerm_of_token (.atom f) rfl rfl h
  · rename_i n rest
    split at h
    · rename_i value hvalue
      refine beginsWithTerm_of_token (.number n.chars) rfl ?_ h
      rw [SyntaxTree.term?, Numeral.number?_chars (hwritten _ List.mem_cons_self), hvalue]
      rfl
    · cases h
  · rename_i body rest
    exact beginsWithTerm_of_token (.text body) rfl rfl h
  · rename_i body rest
    split at h
    · rename_i name hname
      refine beginsWithTerm_of_token (.quoted body) rfl ?_ h
      rw [SyntaxTree.term?, hname]
      rfl
    · cases h
  · cases h
  · cases h
  · cases h
termination_by (tokens.length, 0)

theorem readsArguments (frame : Frame) (outer : List Frame) (tokens : List Token) (t : Term)
    (hwritten : forall x, x ∈ tokens -> x.IsWritten)
    (h : readTerm (frame :: outer) tokens = .ok t) :
    exists trees us front rest, trees ≠ [] ∧ tokens = front ++ .closeParen :: rest ∧
      front.map Token.lexeme = SyntaxTree.yieldAll trees ∧ SyntaxTree.terms? trees = some us ∧
      afterTerm (.compound frame.functor (frame.args.reverse ++ us)) outer rest = .ok t := by
  rcases beginsWithTerm_of_readTerm (frame :: outer) tokens t hwritten h with
    ⟨tree, u, front, rest, rfl, hyield, hu, hafter⟩
  cases rest with
  | nil =>
      rw [afterTerm.eq_def] at hafter
      cases hafter
  | cons token rest =>
      rw [afterTerm.eq_def] at hafter
      simp only at hafter
      split at hafter
      · refine ⟨[tree], [u], front, rest, List.cons_ne_nil tree [], rfl, hyield, ?_, ?_⟩
        · rw [SyntaxTree.terms?, hu]
          rfl
        · simpa [Frame.close] using hafter
      · rcases readsArguments (frame.push u) outer rest t (fun x hx => hwritten x (by simp [hx]))
          hafter with ⟨trees, us, more, last, hne, rfl, hyields, hus, hlast⟩
        refine ⟨tree :: trees, u :: us, front ++ .comma :: more, last, List.cons_ne_nil tree trees,
          by simp, ?_, ?_, by simpa [Frame.push] using hlast⟩
        · cases trees with
          | nil => exact absurd rfl hne
          | cons next trees =>
              rw [SyntaxTree.yieldAll_cons, List.map_append, List.map_cons, hyield, hyields]
              rfl
        · rw [SyntaxTree.terms?, hu, hus]
          rfl
      · cases hafter
termination_by (tokens.length, 1)

end

/-!
# Integers that are too long
-/

/-- A numeral has so many digits that it has no value. -/
def HasLongNumeral (tokens : List Token) (count : Nat) : Prop :=
  exists n, .numeral n ∈ tokens ∧ n.value = .error count

theorem HasLongNumeral.append {rest : List Token} {count : Nat} (h : HasLongNumeral rest count)
    (front : List Token) : HasLongNumeral (front ++ rest) count := by
  rcases h with ⟨n, hn, hvalue⟩
  exact ⟨n, List.mem_append_right front hn, hvalue⟩

mutual

/-- Reading meets the limit on digits at a numeral only. -/
theorem hasLongNumeral_of_readTerm (frames : List Frame) (tokens : List Token) (count : Nat)
    (h : readTerm frames tokens = .error (.tooManyDigits count)) :
    HasLongNumeral tokens count := by
  rw [readTerm.eq_def] at h
  split at h
  · cases h
  · exact (hasLongNumeral_of_afterTerm _ frames _ count h).append [_]
  · exact (hasLongNumeral_of_afterTerm _ frames _ count h).append [_, _, _]
  · exact (hasLongNumeral_of_readTerm _ _ count h).append [_, _]
  · exact (hasLongNumeral_of_afterTerm _ frames _ count h).append [_]
  · rename_i n rest
    split at h
    · exact (hasLongNumeral_of_afterTerm _ frames _ count h).append [_]
    · rename_i hvalue
      cases h
      exact ⟨n, List.mem_cons_self, hvalue⟩
  · exact (hasLongNumeral_of_afterTerm _ frames _ count h).append [_]
  · split at h
    · exact (hasLongNumeral_of_afterTerm _ frames _ count h).append [_]
    · cases h
  · cases h
  · cases h
  · cases h
termination_by tokens.length

theorem hasLongNumeral_of_afterTerm (u : Term) (frames : List Frame) (tokens : List Token)
    (count : Nat) (h : afterTerm u frames tokens = .error (.tooManyDigits count)) :
    HasLongNumeral tokens count := by
  rw [afterTerm.eq_def] at h
  split at h
  · cases frames <;> cases h
  · split at h
    · cases h
    · split at h
      · exact (hasLongNumeral_of_afterTerm _ _ _ count h).append [_]
      · exact (hasLongNumeral_of_readTerm _ _ count h).append [_]
      · cases h
termination_by tokens.length

end

theorem isLongInteger_of_value {n : Numeral}
    (hdigits : forall c, c ∈ n.whole ++ n.fraction -> Text.isDigit c = true) {count : Nat}
    (h : n.value = .error count) : (Token.numeral n).lexeme.IsLongInteger := by
  unfold Numeral.value at h
  split at h
  · rename_i hfraction
    split at h
    · rename_i hlong
      refine ⟨rfl, ?_, ?_⟩
      · show '.' ∉ n.chars
        rw [Numeral.point_mem_chars_iff hdigits, hfraction]
        exact Bool.noConfusion
      · show Numeral.digitLimit < (n.chars.filter Text.isDigit).length
        rw [Numeral.filter_isDigit_chars hdigits, List.length_append]
        exact Nat.lt_add_right _ hlong
    · cases h
  · cases h

/-!
# The grammar is accepted
-/

theorem scan?_of_isBlank : (cs : List Char) -> cs.all Text.isBlank = true ->
    Token.scan? cs = some []
  | [], _ => by
      rw [Token.scan?, Token.readAll]
      rfl
  | c :: cs, h => by
      rw [List.all_cons, Bool.and_eq_true] at h
      rw [Token.scan?_blank h.left, scan?_of_isBlank cs h.right]

theorem parse_eq_ok_iff (s : String) (t : Term) :
    parse s = .ok t ↔ exists tokens, Token.readAll s.toList = .ok tokens ∧
      readTerm [] tokens = .ok t := by
  cases hblank : Text.isBlankText s with
  | true =>
      have hscan : Token.readAll s.toList = .ok [] :=
        toOption_eq_some_iff.mp (scan?_of_isBlank s.toList hblank)
      rw [parse, hblank, if_pos rfl, hscan]
      constructor
      · intro h
        cases h
      · intro h
        rcases h with ⟨tokens, htokens, hread⟩
        cases htokens
        rw [readTerm.eq_def] at hread
        cases hread
  | false =>
      rw [← toOption_eq_some_iff, toOption_parse s hblank, Option.bind_eq_some_iff]
      simp only [Token.scan?, toOption_eq_some_iff]

/-- The lexemes of a text without the blank ones are the tokens that are read. -/
theorem shown_eq_of_readAll {s : String} {tokens : List Token}
    (h : Token.readAll s.toList = .ok tokens) {lexemes : List Lexeme}
    (hcuts : Lexeme.Cuts s.toList lexemes) :
    Lexeme.shown lexemes = tokens.map Token.lexeme ∧ forall x, x ∈ tokens -> x.IsWritten := by
  rcases Token.exists_readAll_of_cuts hcuts with ⟨others, hothers, hshown, hwritten⟩
  rw [h] at hothers
  cases hothers
  exact ⟨hshown, hwritten⟩

theorem parse_eq_ok_iff_derives (s : String) (t : Term) :
    parse s = .ok t ↔ exists tree : SyntaxTree, tree.Derives s ∧ tree.term? = some t := by
  rw [parse_eq_ok_iff]
  constructor
  · intro h
    rcases h with ⟨tokens, htokens, hread⟩
    rcases Token.exists_cuts_of_readAll htokens with ⟨lexemes, hcuts⟩
    rcases shown_eq_of_readAll htokens hcuts with ⟨hshown, hwritten⟩
    rcases beginsWithTerm_of_readTerm [] tokens t hwritten hread with
      ⟨tree, u, front, rest, hsplit, hyield, hu, hafter⟩
    rw [afterTerm.eq_def] at hafter
    cases rest with
    | nil =>
        cases hafter
        rw [hsplit, List.append_nil, hyield] at hshown
        exact ⟨tree, ⟨lexemes, hcuts, hshown⟩, hu⟩
    | cons token rest => cases hafter
  · intro h
    rcases h with ⟨tree, ⟨lexemes, hcuts, hyield⟩, hu⟩
    rcases Token.exists_readAll_of_cuts hcuts with ⟨tokens, htokens, hshown, hwritten⟩
    have hread := readTerm_of_yield tree t hu tokens hwritten (hshown.symm.trans hyield) [] []
      (by simp)
    rw [List.append_nil, afterTerm.eq_def] at hread
    exact ⟨tokens, htokens, hread⟩

theorem eq_of_derives {s : String} {tree other : SyntaxTree} (h : tree.Derives s)
    (hother : other.Derives s) : tree = other := by
  rcases h with ⟨lexemes, hcuts, hyield⟩
  rcases hother with ⟨others, hcuts', hyield'⟩
  rcases Token.exists_readAll_of_cuts hcuts with ⟨tokens, htokens, hshown, _⟩
  apply SyntaxTree.yield_injective
  rw [← hyield, ← hyield', hshown, (shown_eq_of_readAll htokens hcuts').left]

/-- Reading fails at the limit on digits only if the text has an integer that is too long. -/
theorem exists_isLongInteger {s : String} {f : ParseFault} (h : parse s = .error f)
    (hlimit : f.isLimit = true) :
    exists lexemes l, Lexeme.Cuts s.toList lexemes ∧ l ∈ lexemes ∧ l.IsLongInteger := by
  unfold parse at h
  split at h
  · cases h
    cases hlimit
  · split at h
    · rename_i tokens htokens
      split at h
      · cases h
      · rename_i fault hread
        cases h
        cases fault with
        | tooManyDigits count =>
            rcases hasLongNumeral_of_readTerm [] tokens count hread with ⟨n, hn, hvalue⟩
            rcases Token.exists_cuts_of_readAll htokens with ⟨lexemes, hcuts⟩
            rcases shown_eq_of_readAll htokens hcuts with ⟨hshown, hwritten⟩
            have hmem : (Token.numeral n).lexeme ∈ Lexeme.shown lexemes := by
              rw [hshown]
              exact List.mem_map_of_mem hn
            exact ⟨lexemes, _, hcuts, List.mem_of_mem_filter hmem,
              isLongInteger_of_value (hwritten _ hn) hvalue⟩
        | _ => cases hlimit
    · cases h
      cases hlimit
    · cases h
      cases hlimit

/-- A text is read as a term if and only if the grammar derives the term from its lexemes, in one
way only.  Reading any other text stops with a fault, at the limit on digits only if there is an
integer that is too long. -/
theorem parse_accepts_grammar (s : String) :
    (forall t, parse s = .ok t ↔ exists tree : SyntaxTree, tree.Derives s ∧ tree.term? = some t) ∧
      (forall tree other : SyntaxTree, tree.Derives s -> other.Derives s -> tree = other) ∧
      ((¬ exists (tree : SyntaxTree) (t : Term), tree.Derives s ∧ tree.term? = some t) ->
        exists f, parse s = .error f ∧ ((Fault.parse f).kind = .malformedTerm ∨
          (Fault.parse f).kind = .limit ∧ exists lexemes l, Lexeme.Cuts s.toList lexemes ∧
            l ∈ lexemes ∧ l.IsLongInteger)) := by
  refine ⟨parse_eq_ok_iff_derives s, fun _ _ => eq_of_derives, ?_⟩
  intro hnone
  cases hparse : parse s with
  | ok t =>
      rcases (parse_eq_ok_iff_derives s t).mp hparse with ⟨tree, htree, ht⟩
      exact absurd ⟨tree, t, htree, ht⟩ hnone
  | error f =>
      refine ⟨f, rfl, ?_⟩
      rw [Fault.kind]
      cases hlimit : f.isLimit with
      | false => exact Or.inl rfl
      | true => exact Or.inr ⟨rfl, exists_isLongInteger hparse hlimit⟩

end Term
end EventCalculus

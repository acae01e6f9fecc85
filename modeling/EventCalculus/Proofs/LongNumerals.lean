import EventCalculus.Json.Parser
import EventCalculus.Proofs.GrammarReading
import EventCalculus.Proofs.Lookup

/-!
# Numerals beyond the limit

A numeral has no more digits than the text in which it stands has characters.  So only a text that
is longer than the limit on digits can exceed it, be it a term, JSON, or a pattern in a record that
was read from JSON.
-/

namespace EventCalculus

/-!
# Terms

A text that is cut into lexemes consists of them.
-/

namespace Pattern

theorem append_of_mem_andThen {cs : List Char} {found : List Cut}
    {next : List Char -> List Cut} (hfound : forall cut, cut ∈ found -> cut.1 ++ cut.2 = cs)
    (hnext : forall rest cut, cut ∈ next rest -> cut.1 ++ cut.2 = rest) {cut : Cut}
    (h : cut ∈ andThen found next) : cut.1 ++ cut.2 = cs := by
  rcases (mem_andThen_iff found next cut).mp h with ⟨first, hfirst, more, hmore, rfl⟩
  rw [← hfound first hfirst, ← hnext first.2 more hmore, List.append_assoc]

theorem append_of_mem_rounds {cuts : List Char -> List Cut}
    (hcuts : forall rest cut, cut ∈ cuts rest -> cut.1 ++ cut.2 = rest) (n : Nat) {cs : List Char}
    {cut : Cut} (h : cut ∈ rounds cuts n cs) : cut.1 ++ cut.2 = cs := by
  induction n generalizing cs cut with
  | zero =>
      rw [List.mem_singleton.mp h]
      rfl
  | succ n ih =>
      rcases List.mem_append.mp h with hmore | hnone
      · exact append_of_mem_andThen (fun first => hcuts cs first) (fun rest more => ih) hmore
      · rw [List.mem_singleton.mp hnone]
        rfl

/-- What a pattern cuts off a text is its beginning. -/
theorem append_of_mem_cuts (p : Pattern) {cs : List Char} {cut : Cut} (h : cut ∈ p.cuts cs) :
    cut.1 ++ cut.2 = cs := by
  induction p generalizing cs cut with
  | char accepts =>
      cases cs with
      | nil => cases h
      | cons c rest =>
          rw [cuts] at h
          split at h
          · rw [List.mem_singleton.mp h]
            rfl
          · cases h
  | empty =>
      rw [List.mem_singleton.mp h]
      rfl
  | seq p q hp hq => exact append_of_mem_andThen (fun first => hp) (fun rest more => hq) h
  | either p q hp hq =>
      rcases List.mem_append.mp h with hfirst | hsecond
      · exact hp hfirst
      · exact hq hsecond
  | many p hp => exact append_of_mem_rounds (fun rest first => hp) _ h
  | notBefore accepts =>
      rw [cuts] at h
      split at h
      · cases h
      · rw [List.mem_singleton.mp h]
        rfl

end Pattern

namespace Lexeme

theorem append_of_first? {cs rest : List Char} {lexeme : Lexeme}
    (h : first? cs = some (lexeme, rest)) : lexeme.chars ++ rest = cs := by
  rcases List.exists_of_findSome?_eq_some h with ⟨p, _, hmatch⟩
  rcases Option.map_eq_some_iff.mp hmatch with ⟨cut, hcut, hlexeme⟩
  cases hlexeme
  exact p.2.append_of_mem_cuts (List.mem_of_head? hcut)

theorem Cuts.flatMap_chars {cs : List Char} {lexemes : List Lexeme} (h : Cuts cs lexemes) :
    lexemes.flatMap Lexeme.chars = cs := by
  induction h with
  | nil => rfl
  | cons hfirst _ ih => rw [List.flatMap_cons, ih, append_of_first? hfirst]

theorem Cuts.length_le {cs : List Char} {lexemes : List Lexeme} (h : Cuts cs lexemes)
    {l : Lexeme} (hl : l ∈ lexemes) : l.chars.length ≤ cs.length := by
  rw [← h.flatMap_chars]
  exact (List.sublist_flatten_of_mem (List.mem_map_of_mem hl)).length_le

end Lexeme

/-- Reading a term meets the limit only in a text that is longer. -/
theorem Term.lt_length_of_isLimit {s : String} {f : ParseFault} (h : parse s = .error f)
    (hlimit : f.isLimit = true) : Numeral.digitLimit < s.toList.length := by
  rcases exists_isLongInteger h hlimit with ⟨lexemes, l, hcuts, hl, _, _, hlong⟩
  calc Numeral.digitLimit
      < (l.chars.filter Text.isDigit).length := hlong
    _ ≤ l.chars.length := List.length_filter_le _ _
    _ ≤ s.toList.length := hcuts.length_le hl

/-!
# Values

The texts of a value that was read from JSON are no longer than the source.
-/

/-- The text stands in the value. -/
inductive Value.HasText (s : String) : Value -> Prop where
  | text : HasText s (.text s)
  | item {items : List Value} {v : Value} (hv : v ∈ items) (h : HasText s v) :
      HasText s (.list items)
  | field {fields : List (String × Value)} {key : String} {v : Value} (hv : (key, v) ∈ fields)
      (h : HasText s v) : HasText s (.object fields)

/-- No text in the value is longer. -/
def Value.TextsWithin (length : Nat) (v : Value) : Prop :=
  forall s, v.HasText s -> s.toList.length ≤ length

namespace Json

/-- What a text of this length can give as a token. -/
def Token.FitsIn (length : Nat) : Token -> Prop
  | .text s => s.toList.length ≤ length
  | .number (.error _) => Numeral.digitLimit < length
  | .word v => forall s, ¬ v.HasText s
  | _ => True

theorem Token.FitsIn.mono {token : Token} {n m : Nat} (h : token.FitsIn n) (hle : n ≤ m) :
    token.FitsIn m := by
  cases token with
  | text s => exact Nat.le_trans h hle
  | number value =>
      cases value with
      | error count => exact Nat.lt_of_lt_of_le h hle
      | ok n => trivial
  | word v => exact h
  | _ => trivial

theorem length_joinPairs_le (pieces : List Piece) :
    (joinPairs pieces).length ≤ pieces.length := by
  fun_induction joinPairs pieces with
  | case1 => exact Nat.le_refl _
  | case2 c rest ih => exact Nat.succ_le_succ ih
  | case3 high low rest _ ih => exact Nat.succ_le_succ (Nat.le_succ_of_le ih)
  | case4 high low rest _ ih => exact Nat.succ_le_succ ih
  | case5 n rest _ ih => exact Nat.succ_le_succ ih

theorem length_pieces_le {opening : Nat} {cs after : List Char} {pieces : List Piece}
    (h : readPieces opening cs = .ok (pieces, after)) : pieces.length ≤ cs.length := by
  fun_induction readPieces opening cs generalizing pieces after with
  | case2 rest =>
      cases h
      exact Nat.zero_le _
  | case4 a b c d n head tail _ ih =>
      rcases map_eq_ok h with ⟨⟨read, left⟩, hread, hresult⟩
      cases hresult
      have hle := ih hread
      simp only [List.length_cons] at hle ⊢
      omega
  | case7 c rest _ _ _ _ ih =>
      rcases map_eq_ok h with ⟨⟨read, left⟩, hread, hresult⟩
      cases hresult
      exact Nat.succ_le_succ (Nat.le_succ_of_le (ih hread))
  | case10 c rest _ _ _ _ _ ih =>
      rcases map_eq_ok h with ⟨⟨read, left⟩, hread, hresult⟩
      cases hresult
      exact Nat.succ_le_succ (ih hread)
  | case1 | case3 | case5 | case6 | case8 | case9 => cases h

theorem fitsIn_readText (rest : List Char) : (readText rest).1.FitsIn rest.length := by
  unfold readText
  split
  · rename_i pieces after hread
    show (String.ofList (joinPairs pieces)).toList.length ≤ rest.length
    rw [String.toList_ofList]
    exact Nat.le_trans (length_joinPairs_le pieces) (length_pieces_le hread)
  · trivial

theorem length_readWhole_le (cs : List Char) : (readWhole cs).1.length ≤ cs.length := by
  cases cs with
  | nil => exact Nat.le_refl _
  | cons c rest =>
      rw [readWhole]
      split
      · exact Nat.succ_le_succ (Nat.zero_le _)
      · exact (List.takeWhile_prefix Char.isDigit).length_le

theorem lt_length_of_readNumber? {negative : Bool} {cs rest : List Char} {count : Nat}
    (h : readNumber? negative cs = some (.error count, rest)) :
    Numeral.digitLimit < cs.length := by
  simp only [readNumber?] at h
  split at h
  · cases h
  · split at h
    · cases h
    · split at h
      · split at h
        · rename_i hlong
          exact Nat.lt_of_lt_of_le hlong (length_readWhole_le cs)
        · cases h
      · cases h

theorem not_hasText_of_mem_words {entry : List Char × Value} (h : entry ∈ words) (s : String) :
    ¬ entry.2.HasText s := by
  simp only [words, List.mem_cons, List.not_mem_nil, or_false] at h
  rcases h with rfl | rfl | rfl | rfl | rfl | rfl
  all_goals
    intro htext
    cases htext

theorem fitsIn_readScalar (cs : List Char) : (readScalar cs).1.FitsIn cs.length := by
  unfold readScalar
  split
  · rename_i word value hfind
    exact not_hasText_of_mem_words (List.mem_of_find?_eq_some hfind)
  · simp only
    split
    · rename_i value rest hread
      cases value with
      | ok n => trivial
      | error count =>
          refine Nat.lt_of_lt_of_le (lt_length_of_readNumber? hread) ?_
          split
          · exact List.length_drop ▸ Nat.sub_le _ _
          · exact Nat.le_refl _
    · trivial

theorem fitsIn_readFirst {c : Char} {rest : List Char} {token : Token}
    (h : (readFirst c rest).1 = some token) : token.FitsIn (c :: rest).length := by
  unfold readFirst at h
  split at h
  · cases h
  · cases h
    split
    case h_7 => exact (fitsIn_readText rest).mono (Nat.le_succ _)
    case h_8 => exact fitsIn_readScalar (c :: rest)
    all_goals trivial

theorem fitsIn_of_mem_readAll {cs : List Char} {t : Placed} (ht : t ∈ readAll cs) :
    t.token.FitsIn cs.length := by
  fun_induction readAll cs with
  | case1 => cases ht
  | case2 c rest after hread ih =>
      have hshorter := readFirst_length c rest
      rw [hread] at hshorter
      exact (ih ht).mono (Nat.le_of_lt hshorter)
  | case3 c rest token after hread ih =>
      rcases List.mem_cons.mp ht with rfl | hrest
      · exact fitsIn_readFirst (congrArg Prod.fst hread)
      · have hshorter := readFirst_length c rest
        rw [hread] at hshorter
        exact (ih hrest).mono (Nat.le_of_lt hshorter)

/-!
Open lists and objects keep what was read so far.
-/

/-- No text among the contents is longer. -/
def Frame.Within (length : Nat) : Frame -> Prop
  | .list items => forall v, v ∈ items -> v.TextsWithin length
  | .object fields _ => forall key v, (key, v) ∈ fields -> v.TextsWithin length

/-- What reading a text of this length can give. -/
def OutcomeWithin (length : Nat) : Except Fault Value -> Prop
  | .ok v => v.TextsWithin length
  | .error (.tooManyDigits _) => Numeral.digitLimit < length
  | .error (.malformed _ _) => True

theorem textsWithin_list {length : Nat} {items : List Value}
    (h : forall v, v ∈ items -> v.TextsWithin length) :
    (Value.list items).TextsWithin length := by
  intro s hs
  cases hs with
  | item hv htext => exact h _ hv s htext

theorem textsWithin_object {length : Nat} {fields : List (String × Value)}
    (h : forall key v, (key, v) ∈ fields -> v.TextsWithin length) :
    (Value.object fields).TextsWithin length := by
  intro s hs
  cases hs with
  | field hv htext => exact h _ _ hv s htext

theorem textsWithin_objectOf {length : Nat} {fields : List (String × Value)}
    (h : forall key v, (key, v) ∈ fields -> v.TextsWithin length) :
    (objectOf fields).TextsWithin length := by
  have hfold : forall (entries rest : List (String × Value)),
      (forall key v, (key, v) ∈ entries -> v.TextsWithin length) ->
      (forall key v, (key, v) ∈ rest -> v.TextsWithin length) ->
      forall key v, (key, v) ∈ rest.foldl
        (fun entries field => insertEntry field.1 field.2 entries) entries ->
      v.TextsWithin length := by
    intro entries rest
    induction rest generalizing entries with
    | nil => exact fun hentries _ => hentries
    | cons field rest ih =>
        intro hentries hrest
        apply ih
        · intro key v hv
          rcases mem_of_mem_insertEntry hv with heq | hold
          · exact hrest key v (heq ▸ List.mem_cons_self)
          · exact hentries key v hold
        · exact fun key v hv => hrest key v (List.mem_cons_of_mem field hv)
  exact textsWithin_object (hfold [] fields (fun key v hv => by cases hv) h)

theorem textsWithin_of_no_text {length : Nat} {v : Value} (h : forall s, ¬ v.HasText s) :
    v.TextsWithin length :=
  fun s hs => absurd hs (h s)

theorem textsWithin_text {length : Nat} {s : String} (h : s.toList.length ≤ length) :
    (Value.text s).TextsWithin length := by
  intro other hother
  cases hother
  exact h

theorem outcomeWithin_valueFault (length : Nat) (t : Placed) :
    OutcomeWithin length (.error (valueFault t)) := by
  unfold valueFault
  split
  · trivial
  · trivial

theorem outcomeWithin_keyFault (length : Nat) (t : Placed) :
    OutcomeWithin length (.error (keyFault t)) := by
  unfold keyFault
  split
  · trivial
  · trivial

section
variable {length : Nat}

mutual

/-- Reading meets the limit at a token only, and gives no texts but those of the tokens. -/
theorem outcomeWithin_readValue (frames : List Frame) (tokens : List Placed)
    (hframes : forall f, f ∈ frames -> f.Within length)
    (htokens : forall t, t ∈ tokens -> t.token.FitsIn length) :
    OutcomeWithin length (readValue frames tokens) := by
  rw [readValue.eq_def]
  split
  · trivial
  · rcases List.forall_mem_cons.mp htokens with ⟨htext, hrest⟩
    exact outcomeWithin_afterValue _ frames _ (textsWithin_text htext) hframes hrest
  · rcases List.forall_mem_cons.mp htokens with ⟨hword, hrest⟩
    exact outcomeWithin_afterValue _ frames _ (textsWithin_of_no_text hword) hframes hrest
  · rcases List.forall_mem_cons.mp htokens with ⟨_, hrest⟩
    refine outcomeWithin_afterValue _ frames _ (textsWithin_of_no_text ?_) hframes hrest
    intro s hs
    cases hs
  · exact (List.forall_mem_cons.mp htokens).left
  · rcases List.forall_mem_cons.mp (List.forall_mem_cons.mp htokens).right with ⟨_, hrest⟩
    refine outcomeWithin_afterValue _ frames _ (textsWithin_list ?_) hframes hrest
    exact fun v hv => by cases hv
  · rcases List.forall_mem_cons.mp htokens with ⟨_, hrest⟩
    refine outcomeWithin_readValue _ _ (List.forall_mem_cons.mpr ⟨?_, hframes⟩) hrest
    exact fun v hv => by cases hv
  · rcases List.forall_mem_cons.mp (List.forall_mem_cons.mp htokens).right with ⟨_, hrest⟩
    refine outcomeWithin_afterValue _ frames _ (textsWithin_object ?_) hframes hrest
    exact fun key v hv => by cases hv
  · rcases List.forall_mem_cons.mp htokens with ⟨_, hrest⟩
    exact outcomeWithin_readKey [] frames _ (fun key v hv => by cases hv) hframes hrest
  · exact outcomeWithin_valueFault length _
termination_by tokens.length

theorem outcomeWithin_readKey (fields : List (String × Value)) (frames : List Frame)
    (tokens : List Placed) (hfields : forall key v, (key, v) ∈ fields -> v.TextsWithin length)
    (hframes : forall f, f ∈ frames -> f.Within length)
    (htokens : forall t, t ∈ tokens -> t.token.FitsIn length) :
    OutcomeWithin length (readKey fields frames tokens) := by
  rw [readKey.eq_def]
  split
  · trivial
  · rcases List.forall_mem_cons.mp (List.forall_mem_cons.mp htokens).right with ⟨_, hrest⟩
    exact outcomeWithin_readValue _ _ (List.forall_mem_cons.mpr ⟨hfields, hframes⟩) hrest
  · trivial
  · exact outcomeWithin_keyFault length _
termination_by tokens.length

theorem outcomeWithin_afterValue (v : Value) (frames : List Frame) (tokens : List Placed)
    (hv : v.TextsWithin length) (hframes : forall f, f ∈ frames -> f.Within length)
    (htokens : forall t, t ∈ tokens -> t.token.FitsIn length) :
    OutcomeWithin length (afterValue v frames tokens) := by
  rw [afterValue.eq_def]
  split
  · split
    · exact hv
    · trivial
  · rcases List.forall_mem_cons.mp htokens with ⟨_, hrest⟩
    split
    · trivial
    · rename_i items outer _
      rcases List.forall_mem_cons.mp hframes with ⟨hitems, houter⟩
      refine outcomeWithin_afterValue _ _ _ (textsWithin_list ?_) houter hrest
      intro x hx
      exact List.forall_mem_cons.mpr ⟨hv, hitems⟩ x (List.mem_reverse.mp hx)
    · rename_i items outer _
      rcases List.forall_mem_cons.mp hframes with ⟨hitems, houter⟩
      refine outcomeWithin_readValue _ _ (List.forall_mem_cons.mpr ⟨?_, houter⟩) hrest
      exact List.forall_mem_cons.mpr ⟨hv, hitems⟩
    · rename_i fields key outer _
      rcases List.forall_mem_cons.mp hframes with ⟨hfields, houter⟩
      refine outcomeWithin_afterValue _ _ _ (textsWithin_objectOf ?_) houter hrest
      intro k x hx
      rcases List.mem_cons.mp (List.mem_reverse.mp hx) with hnew | hold
      · cases hnew
        exact hv
      · exact hfields k x hold
    · rename_i fields key outer _
      rcases List.forall_mem_cons.mp hframes with ⟨hfields, houter⟩
      refine outcomeWithin_readKey _ _ _ ?_ houter hrest
      intro k x hx
      rcases List.mem_cons.mp hx with hnew | hold
      · cases hnew
        exact hv
      · exact hfields k x hold
    · trivial
termination_by tokens.length

end

end

theorem outcomeWithin_readAll (document : List Char) :
    OutcomeWithin document.length (readValue [] (readAll document)) :=
  outcomeWithin_readValue [] (readAll document) (fun f hf => by cases hf)
    (fun t => fitsIn_of_mem_readAll)

/-- A value that was read has no text that is longer than the source. -/
theorem textsWithin_of_parse {source : String} {v : Value} (h : parse source = .ok v) :
    v.TextsWithin source.toList.length := by
  have hread := outcomeWithin_readAll source.toList
  unfold parse at h
  simp only at h
  split at h
  · cases h
  · split at h
    · rename_i value hvalue
      cases h
      rw [hvalue] at hread
      exact hread
    · cases h
    · cases h

/-- Reading meets the limit only in a source that is longer. -/
theorem lt_length_of_parse {source : String} {count : Nat}
    (h : parse source = .error (.tooManyDigits count)) :
    Numeral.digitLimit < source.toList.length := by
  have hread := outcomeWithin_readAll source.toList
  unfold parse at h
  simp only at h
  split at h
  · cases h
  · split at h
    · cases h
    · cases h
    · rename_i number hvalue
      rw [hvalue] at hread
      exact hread

end Json

/-!
# Records
-/

theorem Value.TextsWithin.field? {length : Nat} {v w : Value} (h : v.TextsWithin length)
    {key : String} (hw : v.field? key = some w) : w.TextsWithin length := by
  cases v with
  | object fields =>
      intro s hs
      exact h s (.field (mem_of_findValue?_eq_some hw) hs)
  | _ => cases hw

namespace FluentSpec

/-- The pattern, if there is one, is no longer. -/
def PatternWithin (length : Nat) (s : FluentSpec) : Prop :=
  forall pattern, s.pattern = some pattern -> pattern.toList.length ≤ length

theorem patternWithin_ofValue {length : Nat} {key : String} {entry : Value} {s : FluentSpec}
    (hentry : entry.TextsWithin length) (h : ofValue key entry = .ok s) :
    s.PatternWithin length := by
  unfold ofValue at h
  split at h
  · cases h
  · simp only at h
    split at h
    · cases h
    · rcases exists_of_map_eq_ok h with ⟨pattern, hpattern, rfl⟩
      rintro source rfl
      unfold readPattern at hpattern
      split at hpattern
      · cases hpattern
      · cases hpattern
      · rename_i hfield
        split at hpattern
        · cases hpattern
        · cases hpattern
          exact hentry.field? hfield source .text
      · cases hpattern

theorem patternWithin_of_mem_listOfValue {length : Nat} {key : String} {given : Option Value}
    {specs : List FluentSpec} (hgiven : forall v, given = some v -> v.TextsWithin length)
    (h : listOfValue key given = .ok specs) {s : FluentSpec} (hs : s ∈ specs) :
    s.PatternWithin length := by
  unfold listOfValue at h
  split at h
  · cases h
    cases hs
  · cases h
    cases hs
  · rcases exists_of_mem_of_mapM_eq_ok h hs with ⟨entry, hentry, hread⟩
    refine patternWithin_ofValue (fun text htext => ?_) hread
    exact hgiven _ rfl text (.item hentry htext)
  · cases h

theorem isLimit_of_listOfValue_eq_error {key : String} {given : Option Value}
    {fault : RecordFault} (h : listOfValue key given = .error fault) : fault.isLimit = false := by
  unfold listOfValue at h
  split at h
  · cases h
  · cases h
  · rcases exists_of_mapM_eq_error h with ⟨entry, _, hread⟩
    unfold ofValue at hread
    split at hread
    · cases hread
      rfl
    · simp only at hread
      split at hread
      · cases hread
        rfl
      · rename_i fluent _
        cases hpattern : readPattern fluent (entry.field? "pattern") with
        | ok pattern =>
            rw [hpattern] at hread
            cases hread
        | error reason =>
            rw [hpattern] at hread
            cases hread
            unfold readPattern at hpattern
            split at hpattern
            · cases hpattern
            · cases hpattern
            · cases hpattern
            · cases hpattern
              rfl
  · cases h
    rfl

/-- A pattern meets the limit only if it is longer. -/
theorem lt_length_of_compound {length : Nat} {s : FluentSpec} (hs : s.PatternWithin length)
    {fault : RecordFault} (h : s.compound = .error fault) (hlimit : fault.isLimit = true) :
    Numeral.digitLimit < length := by
  unfold compound at h
  split at h
  · cases h
  · rename_i source hsource
    split at h
    · rename_i reason hparse
      cases h
      exact Nat.lt_of_lt_of_le (Term.lt_length_of_isLimit hparse hlimit) (hs source hsource)
    · split at h
      · cases h
        cases hlimit
      · split at h
        · cases h
          cases hlimit
        · split at h
          · cases h
            cases hlimit
          · cases h

end FluentSpec

namespace RuleRecord

/-- The patterns are no longer. -/
def PatternsWithin (length : Nat) (r : RuleRecord) : Prop :=
  forall s, s ∈ r.initiates ++ r.terminates -> s.PatternWithin length

theorem patternsWithin_ofValue {length : Nat} {data given : Value} {r : RuleRecord}
    (hdata : data.TextsWithin length) (h : ofValue data given = .ok r) :
    r.PatternsWithin length := by
  unfold ofValue at h
  split at h
  · simp only at h
    split at h
    · split at h
      · rcases exists_of_bind_eq_ok h with ⟨_, _, h⟩
        rcases exists_of_bind_eq_ok h with ⟨_, _, h⟩
        rcases exists_of_bind_eq_ok h with ⟨initiates, hinitiates, h⟩
        rcases exists_of_bind_eq_ok h with ⟨terminates, hterminates, h⟩
        cases h
        intro s hs
        rcases List.mem_append.mp hs with hmem | hmem
        · exact FluentSpec.patternWithin_of_mem_listOfValue (fun v => hdata.field?)
            hinitiates hmem
        · exact FluentSpec.patternWithin_of_mem_listOfValue (fun v => hdata.field?)
            hterminates hmem
      · cases h
    · cases h
  · cases h

/-- Reading a record never meets the limit; its patterns are parsed with its rules. -/
theorem isLimit_of_ofValue_eq_error {data given : Value} {fault : RecordFault}
    (h : ofValue data given = .error fault) : fault.isLimit = false := by
  unfold ofValue at h
  split at h
  · simp only at h
    split at h
    · split at h
      · rcases exists_of_bind_eq_error h with h | ⟨_, _, h⟩
        · cases h
        rcases exists_of_bind_eq_error h with h | ⟨_, _, h⟩
        · cases h
        rcases exists_of_bind_eq_error h with h | ⟨_, _, h⟩
        · exact FluentSpec.isLimit_of_listOfValue_eq_error h
        rcases exists_of_bind_eq_error h with h | ⟨_, _, h⟩
        · exact FluentSpec.isLimit_of_listOfValue_eq_error h
        · cases h
      · cases h
        rfl
    · cases h
      rfl
  · cases h
    rfl

/-- The rules of a record meet the limit only at a pattern that is longer. -/
theorem lt_length_of_rules {length : Nat} {r : RuleRecord} (hr : r.PatternsWithin length)
    {fault : RecordFault} (h : r.rules = .error fault) (hlimit : fault.isLimit = true) :
    Numeral.digitLimit < length := by
  rcases exists_of_bind_eq_error h with h | ⟨_, _, h⟩
  · rcases exists_of_mapM_eq_error h with ⟨s, hs, hmade⟩
    rcases exists_of_bind_eq_error hmade with hmade | ⟨fluent, _, hmade⟩
    · exact FluentSpec.lt_length_of_compound (hr s (List.mem_append_left _ hs)) hmade hlimit
    · simp only at hmade
      split at hmade
      · cases hmade
      · cases hmade
        cases hlimit
  rcases exists_of_bind_eq_error h with h | ⟨_, _, h⟩
  · rcases exists_of_mapM_eq_error h with ⟨s, hs, hmade⟩
    have hmem : s ∈ r.terminates := List.mem_of_mem_filter hs
    rcases exists_of_bind_eq_error hmade with hmade | ⟨fluent, _, hmade⟩
    · exact FluentSpec.lt_length_of_compound (hr s (List.mem_append_right _ hmem)) hmade hlimit
    · cases hmade
  · cases h

end RuleRecord
end EventCalculus

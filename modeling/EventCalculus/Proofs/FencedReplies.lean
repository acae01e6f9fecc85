import EventCalculus.Proofs.CommandLines
import EventCalculus.Proofs.DigitRuns
import EventCalculus.Proofs.TokenBreaks

/-!
# Replies in a fence

A model may reply with JSON or put it between two lines of backquotes.  No line of a JSON text
starts with a fence, because no token starts so and none goes on behind a line feed.  So only the
fence is dropped, and the value is that of the JSON text either way.
-/

namespace EventCalculus
namespace Json

/-!
# What the parser takes
-/

section
variable {v : Value}

mutual

/-- A value is read from sound tokens only. -/
theorem isSound_of_readValue {frames : List Frame} {tokens : List Placed}
    (h : readValue frames tokens = .ok v) : forall t, t ∈ tokens -> t.token.IsSound := by
  rw [readValue.eq_def] at h
  split at h
  · cases h
  · exact List.forall_mem_cons.mpr ⟨trivial, isSound_of_afterValue h⟩
  · exact List.forall_mem_cons.mpr ⟨trivial, isSound_of_afterValue h⟩
  · exact List.forall_mem_cons.mpr ⟨trivial, isSound_of_afterValue h⟩
  · cases h
  · exact List.forall_mem_cons.mpr
      ⟨trivial, List.forall_mem_cons.mpr ⟨trivial, isSound_of_afterValue h⟩⟩
  · exact List.forall_mem_cons.mpr ⟨trivial, isSound_of_readValue h⟩
  · exact List.forall_mem_cons.mpr
      ⟨trivial, List.forall_mem_cons.mpr ⟨trivial, isSound_of_afterValue h⟩⟩
  · exact List.forall_mem_cons.mpr ⟨trivial, isSound_of_readKey h⟩
  · cases h
termination_by tokens.length

theorem isSound_of_readKey {fields : List (String × Value)} {frames : List Frame}
    {tokens : List Placed} (h : readKey fields frames tokens = .ok v) :
    forall t, t ∈ tokens -> t.token.IsSound := by
  rw [readKey.eq_def] at h
  split at h
  · cases h
  · exact List.forall_mem_cons.mpr
      ⟨trivial, List.forall_mem_cons.mpr ⟨trivial, isSound_of_readValue h⟩⟩
  · cases h
  · cases h
termination_by tokens.length

theorem isSound_of_afterValue {w : Value} {frames : List Frame} {tokens : List Placed}
    (h : afterValue w frames tokens = .ok v) : forall t, t ∈ tokens -> t.token.IsSound := by
  rw [afterValue.eq_def] at h
  split at h
  · exact List.forall_mem_nil _
  · split at h
    · cases h
    · rename_i htoken
      exact List.forall_mem_cons.mpr ⟨htoken ▸ trivial, isSound_of_afterValue h⟩
    · rename_i htoken
      exact List.forall_mem_cons.mpr ⟨htoken ▸ trivial, isSound_of_readValue h⟩
    · rename_i htoken
      exact List.forall_mem_cons.mpr ⟨htoken ▸ trivial, isSound_of_afterValue h⟩
    · rename_i htoken
      exact List.forall_mem_cons.mpr ⟨htoken ▸ trivial, isSound_of_readKey h⟩
    · cases h
termination_by tokens.length

end

/-- The same tokens, in whatever places. -/
def SameTokens (tokens others : List Placed) : Prop :=
  tokens.map Placed.token = others.map Placed.token

theorem SameTokens.exists_cons {token : Token} {place : Nat} {rest others : List Placed}
    (h : SameTokens (⟨token, place⟩ :: rest) others) :
    exists place' more, others = ⟨token, place'⟩ :: more ∧ SameTokens rest more := by
  rcases List.map_eq_cons_iff.mp h.symm with ⟨⟨token', place'⟩, more, rfl, rfl, hmore⟩
  exact ⟨place', more, rfl, hmore.symm⟩

theorem SameTokens.eq_nil {others : List Placed} (h : SameTokens [] others) : others = [] :=
  List.map_eq_nil_iff.mp h.symm

/-- What does not start with a token does not start with it in other places. -/
theorem SameTokens.not_starts {token : Token} {rest others : List Placed}
    (h : SameTokens rest others)
    (hne : forall place more, rest = ⟨token, place⟩ :: more -> False) :
    forall place more, others = ⟨token, place⟩ :: more -> False := by
  rintro place more rfl
  rcases SameTokens.exists_cons h.symm with ⟨place', rest', heq, _⟩
  exact hne place' rest' heq

mutual

/-- The value that is read does not depend on the places of the tokens. -/
theorem readValue_of_sameTokens {frames : List Frame} {tokens others : List Placed}
    (h : readValue frames tokens = .ok v) (hsame : SameTokens tokens others) :
    readValue frames others = .ok v := by
  rw [readValue.eq_def] at h
  split at h
  · cases h
  · rcases hsame.exists_cons with ⟨place, more, rfl, hrest⟩
    rw [readValue]
    exact afterValue_of_sameTokens h hrest
  · rcases hsame.exists_cons with ⟨place, more, rfl, hrest⟩
    rw [readValue]
    exact afterValue_of_sameTokens h hrest
  · rcases hsame.exists_cons with ⟨place, more, rfl, hrest⟩
    rw [readValue]
    exact afterValue_of_sameTokens h hrest
  · cases h
  · rcases hsame.exists_cons with ⟨place, more, rfl, hnext⟩
    rcases hnext.exists_cons with ⟨place', more', rfl, hrest⟩
    rw [readValue]
    exact afterValue_of_sameTokens h hrest
  · rename_i hclose
    rcases hsame.exists_cons with ⟨place, more, rfl, hrest⟩
    rw [readValue]
    · exact readValue_of_sameTokens h hrest
    · exact hrest.not_starts hclose
  · rcases hsame.exists_cons with ⟨place, more, rfl, hnext⟩
    rcases hnext.exists_cons with ⟨place', more', rfl, hrest⟩
    rw [readValue]
    exact afterValue_of_sameTokens h hrest
  · rename_i hclose
    rcases hsame.exists_cons with ⟨place, more, rfl, hrest⟩
    rw [readValue]
    · exact readKey_of_sameTokens h hrest
    · exact hrest.not_starts hclose
  · cases h
termination_by tokens.length

theorem readKey_of_sameTokens {fields : List (String × Value)} {frames : List Frame}
    {tokens others : List Placed} (h : readKey fields frames tokens = .ok v)
    (hsame : SameTokens tokens others) : readKey fields frames others = .ok v := by
  rw [readKey.eq_def] at h
  split at h
  · cases h
  · rcases hsame.exists_cons with ⟨place, more, rfl, hnext⟩
    rcases hnext.exists_cons with ⟨place', more', rfl, hrest⟩
    rw [readKey]
    exact readValue_of_sameTokens h hrest
  · cases h
  · cases h
termination_by tokens.length

theorem afterValue_of_sameTokens {w : Value} {frames : List Frame} {tokens others : List Placed}
    (h : afterValue w frames tokens = .ok v) (hsame : SameTokens tokens others) :
    afterValue w frames others = .ok v := by
  rw [afterValue.eq_def] at h
  split at h
  · rw [hsame.eq_nil, afterValue.eq_def]
    exact h
  · rename_i token rest
    rcases token with ⟨token, place⟩
    rcases hsame.exists_cons with ⟨place', more, rfl, hrest⟩
    rw [afterValue.eq_def]
    simp only
    split at h
    · cases h
    · rename_i htoken
      cases htoken
      exact afterValue_of_sameTokens h hrest
    · rename_i htoken
      cases htoken
      exact readValue_of_sameTokens h hrest
    · rename_i htoken
      cases htoken
      exact afterValue_of_sameTokens h hrest
    · rename_i htoken
      cases htoken
      exact readKey_of_sameTokens h hrest
    · cases h
termination_by tokens.length

end

theorem parse_eq_ok_iff {source : String} : parse source = .ok v ↔
    source.toList.head? ≠ some (Char.ofNat 0xFEFF) ∧
      readValue [] (readAll source.toList) = .ok v := by
  unfold parse
  simp only
  split
  · rename_i hmark
    constructor
    · intro h
      cases h
    · exact fun h => absurd hmark h.left
  · rename_i hmark
    cases hread : readValue [] (readAll source.toList) with
    | ok w => simp [hmark]
    | error fault => cases fault <;> simp

theorem isSoundText_of_parse {source : String} (h : parse source = .ok v) :
    IsSoundText source.toList := by
  intro token htoken
  rcases List.mem_map.mp htoken with ⟨t, ht, rfl⟩
  exact isSound_of_readValue (parse_eq_ok_iff.mp h).right t ht

/-- Texts with the same tokens have the same value. -/
theorem parse_of_tokensOf_eq {source other : String} (h : parse source = .ok v)
    (htokens : tokensOf other.toList = tokensOf source.toList) : parse other = .ok v := by
  have hsound : IsSoundText other.toList := by
    rw [IsSoundText, htokens]
    exact isSoundText_of_parse h
  apply parse_eq_ok_iff.mpr
  constructor
  · intro hmark
    rcases List.head?_eq_some_iff.mp hmark with ⟨rest, hrest⟩
    rw [hrest] at hsound
    exact absurd hsound.head (by decide)
  · exact readValue_of_sameTokens (parse_eq_ok_iff.mp h).right htokens.symm

end

/-!
# Lines of a text
-/

/-- Around a line feed both sides can be taken. -/
theorem IsSoundText.of_append {before after : List Char}
    (h : IsSoundText (before ++ '\n' :: after)) : IsSoundText before ∧ IsSoundText after := by
  have hsplit : tokensOf (before ++ '\n' :: after) = tokensOf before ++ tokensOf after := by
    rw [tokensOf_append (Or.inr ⟨after, rfl⟩) h, tokensOf_cons_of_isSpace rfl]
  rw [IsSoundText, hsplit, List.forall_mem_append] at h
  exact h

theorem IsSoundText.of_joinPieces {lines : List (List Char)}
    (h : IsSoundText (Text.joinPieces '\n' lines)) {line : List Char} (hline : line ∈ lines) :
    IsSoundText line := by
  fun_induction Text.joinPieces '\n' lines with
  | case1 => cases hline
  | case2 piece =>
      rw [List.mem_singleton.mp hline]
      exact h
  | case3 piece others _ ih =>
      rcases List.mem_cons.mp hline with rfl | hmore
      · exact h.of_append.left
      · exact ih h.of_append.right hmore

theorem IsSoundText.not_startsWithFence {cs : List Char} (h : IsSoundText cs) :
    startsWithFence cs = false := by
  cases hstart : startsWithFence cs with
  | false => rfl
  | true =>
      cases cs with
      | nil => cases hstart
      | cons c rest =>
          rw [eq_of_startsWithFence hstart] at h
          exact absurd h.head (by decide)

/-- No line of a JSON text starts with a fence. -/
theorem IsSoundText.lines_not_fences {cs : List Char} (h : IsSoundText cs) {line : List Char}
    (hline : line ∈ Text.pieces '\n' cs) : startsWithFence line = false := by
  rw [← Text.joinPieces_pieces '\n' cs] at h
  exact (h.of_joinPieces hline).not_startsWithFence

/-- A text that is trimmed has the same tokens. -/
theorem tokensOf_trimChars {cs : List Char} (h : IsSoundText cs) :
    tokensOf (Text.trimChars cs) = tokensOf cs := by
  have hstart : cs = cs.takeWhile Text.isBlank ++ cs.dropWhile Text.isBlank :=
    List.takeWhile_append_dropWhile.symm
  have hdrop : tokensOf cs = tokensOf (cs.dropWhile Text.isBlank) := by
    conv_lhs => rw [hstart]
    rw [hstart] at h
    exact tokensOf_blanks_append (fun d hd => List.mem_takeWhile_imp hd) h
  obtain ⟨ds, hend, hblank⟩ : exists ds, cs.dropWhile Text.isBlank = Text.trimChars cs ++ ds ∧
      forall d, d ∈ ds -> Text.isBlank d = true :=
    Text.exists_eq_dropEndWhile_append Text.isBlank (cs.dropWhile Text.isBlank)
  rw [IsSoundText, hdrop, hend] at h
  rw [hdrop, hend, tokensOf_append_blanks hblank h]

end Json

/-!
# Replies
-/

namespace Text

theorem trimChars_blanks_append {ds : List Char} (h : forall d, d ∈ ds -> isBlank d = true)
    (cs : List Char) : trimChars (ds ++ cs) = trimChars cs := by
  rw [trimChars, trimChars, List.dropWhile_append_of_pos h]

end Text

/-- A JSON text between two lines of backquotes, the first one with a tag. -/
def fenced (before tag source after : String) : String :=
  before ++ String.ofList fence ++ tag ++ "\n" ++ source ++ "\n" ++ String.ofList fence ++ after

section
variable {source : String} {v : Value}

theorem jsonSource_of_isSoundText (h : Json.IsSoundText source.toList) :
    jsonSource source = Text.trim source := by
  have htrimmed : Json.IsSoundText (Text.trimChars source.toList) := by
    rw [Json.IsSoundText, Json.tokensOf_trimChars h]
    exact h
  simp only [jsonSource, htrimmed.not_startsWithFence, Bool.false_eq_true, ↓reduceIte, Text.trim]

theorem dropFences_of_isSoundText {cs tag : List Char} (h : Json.IsSoundText cs)
    (htag : '\n' ∉ tag) : dropFences (fence ++ tag ++ '\n' :: (cs ++ '\n' :: fence)) = cs := by
  have hfirst : '\n' ∉ fence ++ tag := by
    rw [List.mem_append, not_or]
    exact ⟨by decide, htag⟩
  have hlines : Text.pieces '\n' (fence ++ tag ++ '\n' :: (cs ++ '\n' :: fence)) =
      (fence ++ tag) :: (Text.pieces '\n' cs ++ [fence]) := by
    rw [Text.pieces_append_separator hfirst, Text.pieces_append_cons]
    rfl
  have hkept : (Text.pieces '\n' cs).filter (fun line => !startsWithFence line) =
      Text.pieces '\n' cs := by
    apply List.filter_eq_self.mpr
    intro line hline
    rw [h.lines_not_fences hline]
    rfl
  have hopening : startsWithFence (fence ++ tag) = true :=
    List.isPrefixOf_iff_prefix.mpr (List.prefix_append fence tag)
  have hclosing : startsWithFence fence = true := by decide
  rw [dropFences, hlines, List.filter_cons, List.filter_append, hkept, List.filter_singleton]
  simp only [hopening, hclosing, Bool.not_true, Bool.false_eq_true, ↓reduceIte, List.append_nil,
    cond_false]
  exact Text.joinPieces_pieces '\n' cs

/-- Only the fence is dropped. -/
theorem jsonSource_fenced {tag : String} (h : Json.IsSoundText source.toList)
    (htag : '\n' ∉ tag.toList) {before after : String} (hbefore : Text.isBlankText before = true)
    (hafter : Text.isBlankText after = true) :
    jsonSource (fenced before tag source after) = source := by
  have hchars : (fenced before tag source after).toList =
      before.toList ++ (fence ++ tag.toList ++ '\n' :: (source.toList ++ '\n' :: fence)) ++
        after.toList := by
    simp [fenced]
  have htrim : Text.trimChars (fenced before tag source after).toList =
      fence ++ tag.toList ++ '\n' :: (source.toList ++ '\n' :: fence) := by
    rw [hchars, Text.trimChars_append_of_isBlank (List.all_eq_true.mp hafter),
      Text.trimChars_blanks_append (List.all_eq_true.mp hbefore)]
    let mark := Char.ofNat 0x60
    have hends : fence ++ tag.toList ++ '\n' :: (source.toList ++ '\n' :: fence) =
        mark :: ([mark, mark] ++ tag.toList ++ '\n' :: (source.toList ++ ['\n', mark, mark])) ++
          [mark] := by
      simp [fence, mark, List.replicate]
    rw [hends]
    exact Text.trimChars_of_ends rfl rfl _
  have hstart : startsWithFence
      (fence ++ tag.toList ++ '\n' :: (source.toList ++ '\n' :: fence)) = true := by
    rw [List.append_assoc]
    exact List.isPrefixOf_iff_prefix.mpr (List.prefix_append fence _)
  simp only [jsonSource, htrim, hstart, ↓reduceIte, dropFences_of_isSoundText h htag,
    String.ofList_toList]

/-- A JSON text as a reply, alone or in a fence, has its own value. -/
theorem readReply_of_parse (h : Json.parse source = .ok v) :
    readReply source = .ok v ∧ forall before tag after, Text.isBlankText before = true ->
      '\n' ∉ tag.toList -> Text.isBlankText after = true ->
        readReply (fenced before tag source after) = .ok v := by
  have hsound := Json.isSoundText_of_parse h
  constructor
  · rw [readReply, jsonSource_of_isSoundText hsound]
    apply Json.parse_of_tokensOf_eq h
    rw [Text.trim, String.toList_ofList, Json.tokensOf_trimChars hsound]
  · intro before tag after hbefore htag hafter
    rw [readReply, jsonSource_fenced hsound htag hbefore hafter, h]

end

/-- Backquotes inside of a text are no fence. -/
theorem readReply_of_parse_backquotes :
    Json.parse "[\n\"```\"\n]" = .ok (.list [.text "```"]) ∧
      readReply "[\n\"```\"\n]" = .ok (.list [.text "```"]) ∧
      readReply "\n```json\n[\n\"```\"\n]\n``` " = .ok (.list [.text "```"]) := by
  have hparse : Json.parse "[\n\"```\"\n]" = .ok (.list [.text "```"]) := by
    simp [Json.parse, Json.readAll, Json.readFirst, Json.isSpace, Json.readText, Json.readPieces,
      Except.map, Json.joinPairs, Json.readValue, Json.afterValue]
  have hfenced : fenced "\n" "json" "[\n\"```\"\n]" " " = "\n```json\n[\n\"```\"\n]\n``` " := by
    decide
  refine ⟨hparse, (readReply_of_parse hparse).left, ?_⟩
  rw [← hfenced]
  exact (readReply_of_parse hparse).right "\n" "json" " " rfl (by decide) rfl

end EventCalculus

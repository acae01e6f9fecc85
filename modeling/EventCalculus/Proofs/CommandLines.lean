import EventCalculus.Console.Command
import EventCalculus.Proofs.CutTexts
import EventCalculus.Proofs.RecordText
import EventCalculus.Proofs.TimestampOrder

/-!
# Command lines

Lines are trimmed and cut with no regard to the terms in them.  A piece is never longer than what it
was cut from.  Behind the name of the command stands the rest of the line, and the last at sign of
an argument is taken for the one in front of its time.
-/

namespace EventCalculus
namespace Text

/-!
# Pieces
-/

theorem trimChars_sublist (cs : List Char) : (trimChars cs).Sublist cs :=
  (List.rdropWhile_prefix isBlank _).sublist.trans (List.dropWhile_sublist isBlank)

theorem cutFirst_sublist (separator : Char) (cs : List Char) :
    (cutFirst separator cs).1.Sublist cs ∧ (cutFirst separator cs).2.Sublist cs :=
  ⟨List.takeWhile_sublist _, (List.drop_sublist 1 _).trans (List.dropWhile_sublist _)⟩

theorem sublist_of_cutLast? {separator : Char} {cs before after : List Char}
    (h : cutLast? separator cs = some (before, after)) : before.Sublist cs := by
  unfold cutLast? at h
  split at h
  · cases h
    have hcut := (cutFirst_sublist separator cs.reverse).right.reverse
    rw [List.reverse_reverse] at hcut
    exact hcut
  · cases h

section
variable {separator : Char} {cs : List Char}

theorem cutFirst_append (h : separator ∉ cs) (rest : List Char) :
    cutFirst separator (cs ++ separator :: rest) = (cs, rest) := by
  have hfront : forall c, c ∈ cs -> decide (c ≠ separator) = true := by
    intro c hc
    exact decide_eq_true fun heq => h (heq ▸ hc)
  rw [cutFirst, List.takeWhile_append_of_pos hfront, List.dropWhile_append_of_pos hfront]
  simp

theorem cutLast?_append (h : separator ∉ cs) (before : List Char) :
    cutLast? separator (before ++ separator :: cs) = some (before, cs) := by
  have hreverse : (before ++ separator :: cs).reverse =
      cs.reverse ++ separator :: before.reverse := by
    simp
  have hcut := cutFirst_append (fun hmem => h (List.mem_reverse.mp hmem)) before.reverse
  rw [cutLast?, if_pos (by simp), hreverse, hcut]
  simp only [List.reverse_reverse]

theorem cutLast?_of_not_mem (h : separator ∉ cs) : cutLast? separator cs = none := by
  rw [cutLast?, if_neg (by simpa using h)]

/-- A character stands somewhere for the last time. -/
theorem exists_eq_append_last (h : separator ∈ cs) :
    exists before after, cs = before ++ separator :: after ∧ separator ∉ after := by
  rcases List.eq_append_cons_of_mem (List.mem_reverse.mpr h) with ⟨after, before, hsplit, hnone⟩
  refine ⟨before.reverse, after.reverse, ?_, fun hmem => hnone (List.mem_reverse.mp hmem)⟩
  rw [← List.reverse_reverse cs, hsplit]
  simp

end

/-!
# Trimmed texts
-/

theorem dropEndWhile_append_of_all {p : Char -> Bool} {ds : List Char}
    (h : forall d, d ∈ ds -> p d = true) (cs : List Char) :
    dropEndWhile p (cs ++ ds) = dropEndWhile p cs := by
  have hreverse : forall d, d ∈ ds.reverse -> p d = true := fun d hd => h d (List.mem_reverse.mp hd)
  rw [dropEndWhile, dropEndWhile, List.reverse_append, List.dropWhile_append_of_pos hreverse]

theorem trimChars_cons_of_isBlank {c : Char} (hc : isBlank c = true) (cs : List Char) :
    trimChars (c :: cs) = trimChars cs := by
  rw [trimChars, trimChars, List.dropWhile_cons, if_pos hc]

theorem trimChars_append_of_isBlank {ds : List Char} (h : forall d, d ∈ ds -> isBlank d = true)
    (cs : List Char) : trimChars (cs ++ ds) = trimChars cs := by
  rw [trimChars, trimChars, List.dropWhile_append]
  split
  · rename_i hempty
    rw [List.isEmpty_iff.mp hempty, List.dropWhile_eq_nil_iff.mpr h]
  · exact dropEndWhile_append_of_all h _

theorem trimChars_dropEndWhile (cs : List Char) :
    trimChars (dropEndWhile isBlank cs) = trimChars cs := by
  rcases exists_eq_dropEndWhile_append isBlank cs with ⟨ds, hcs, hds⟩
  have htrim := trimChars_append_of_isBlank hds (dropEndWhile isBlank cs)
  rw [← hcs] at htrim
  exact htrim.symm

/-- Between two characters that are not blank nothing is trimmed. -/
theorem trimChars_append_cons {first last : Char} (hfirst : isBlank first = false)
    (hlast : isBlank last = false) (cs rest : List Char) :
    trimChars (first :: cs ++ last :: rest) =
      first :: cs ++ last :: dropEndWhile isBlank rest := by
  rw [List.cons_append, trimChars_cons hfirst, dropEndWhile_append_cons hlast]
  rfl

end Text

/-- A text denotes a moment with or without the blanks around it. -/
theorem timestampOf_trim {source timestamp : String}
    (h : timestampOf (.text source) = .ok timestamp) :
    timestampOf (.text (Text.trim source)) = .ok timestamp := by
  rcases exists_of_map_eq_ok (exists_of_mapError_eq_ok h) with ⟨i, hi, rfl⟩
  have hread : Moment.ofText (Text.trim source) = .ok i := by
    apply Moment.ofText_eq_ok_iff.mpr
    rw [Text.trim, String.toList_ofList, Text.trimChars_trimChars]
    exact Moment.ofText_eq_ok_iff.mp hi
  rw [timestampOf, Moment.timestamp, Moment.toInstant, hread]
  rfl

theorem trimChars_ne_nil_of_timestampOf {source timestamp : String}
    (h : timestampOf (.text source) = .ok timestamp) : Text.trimChars source.toList ≠ [] := by
  intro hnil
  rcases exists_of_map_eq_ok (exists_of_mapError_eq_ok h) with ⟨i, hi, _⟩
  have hread : Moment.ofText source = .ok i := hi
  unfold Moment.ofText at hread
  rw [hnil] at hread
  cases hread

namespace Compound

/-- Neither end of the text of a compound is blank. -/
theorem exists_toList_render (c : Compound) :
    exists first cs, c.render.toList = first :: cs ++ [')'] ∧ Text.isBlank first = false := by
  rcases exists_start_of_isIdentifier c.functor.valid with ⟨first, name, hname, hlower⟩
  refine ⟨first, name ++ '(' :: Term.renderAll c.args, ?_,
    isBlank_of_isWordStart (isWordStart_of_isLower hlower)⟩
  have hchars : c.render.toList = c.functor.text.toList ++ '(' :: Term.renderAll c.args ++ [')'] :=
    String.toList_ofList
  rw [hchars, hname]
  simp

theorem trim_render (c : Compound) : Text.trim c.render = c.render := by
  rcases c.exists_toList_render with ⟨first, cs, hchars, hfirst⟩
  rw [Text.trim, hchars, Text.trimChars_of_ends hfirst rfl cs, ← hchars, String.ofList_toList]

end Compound

/-!
# Commands
-/

/-- The event and the time of an argument whose at signs are all in front of the time. -/
theorem splitTime_append {before after : List Char} (h : '@' ∉ after) :
    splitTime (String.ofList (before ++ '@' :: after)) =
      (String.ofList (Text.trimChars before),
        if (Text.trimChars after).isEmpty then none
        else some (String.ofList (Text.trimChars after))) := by
  rw [splitTime, String.toList_ofList, Text.cutLast?_append h]

theorem splitTime_of_not_mem {argument : String} (h : '@' ∉ argument.toList) :
    splitTime argument = (Text.trim argument, none) := by
  rw [splitTime, Text.cutLast?_of_not_mem h]

theorem length_splitTime_le (argument : String) :
    (splitTime argument).1.toList.length ≤ argument.toList.length := by
  unfold splitTime
  split
  · rw [Text.trim, String.toList_ofList]
    exact (Text.trimChars_sublist _).length_le
  · rename_i before after hcut
    simp only [String.toList_ofList]
    exact ((Text.trimChars_sublist before).trans (Text.sublist_of_cutLast? hcut)).length_le

namespace Command

/-- The argument of a command, empty if it takes none. -/
def argument : Command -> String
  | .assert argument | .query argument | .holds argument | .state argument | .ever argument
  | .timeline argument | .now argument | .learn argument => argument
  | .leave | .events | .save | .reset | .help | .unknown _ => ""

theorem argument_ofParts (name argument : String) :
    (ofParts name argument).argument = argument ∨ (ofParts name argument).argument = "" := by
  unfold ofParts
  split
  all_goals first
    | exact Or.inl rfl
    | exact Or.inr rfl

theorem length_argument_ofLine_le (line : String) :
    (ofLine line).argument.toList.length ≤ line.toList.length := by
  have hcut := (Text.cutFirst_sublist ' ' (Text.trimChars line.toList)).right
  have hargument := (Text.trimChars_sublist _).trans (hcut.trans (Text.trimChars_sublist _))
  rcases argument_ofParts (String.ofList (Text.lowerChars
    (Text.cutFirst ' ' (Text.trimChars line.toList)).1)) (String.ofList (Text.trimChars
      (Text.cutFirst ' ' (Text.trimChars line.toList)).2)) with hsame | hnone
  · rw [ofLine, hsame, String.toList_ofList]
    exact hargument.length_le
  · rw [ofLine, hnone]
    exact Nat.zero_le _

/-- The argument of an assertion is the rest of the line without the blanks at its end. -/
theorem ofLine_assert {text : String} {first : Char} {rest : List Char}
    (htext : text.toList = first :: rest) (hfirst : Text.isBlank first = false) :
    ofLine ("/assert " ++ text) = .assert (Text.trim text) := by
  have hline : ("/assert " ++ text).toList = '/' :: "assert ".toList ++ first :: rest := by
    rw [String.toList_append, htext]
    rfl
  have htrim : Text.trimChars ("/assert " ++ text).toList =
      "/assert".toList ++ ' ' :: Text.trimChars text.toList := by
    rw [hline, Text.trimChars_append_cons rfl hfirst, htext, Text.trimChars_cons hfirst]
    rfl
  have hname : ' ' ∉ "/assert".toList := by decide
  have hlower : String.ofList (Text.lowerChars "/assert".toList) = "/assert" := by decide +kernel
  rw [ofLine, htrim, Text.cutFirst_append hname]
  simp only [hlower, Text.trimChars_trimChars]
  rfl

theorem ofLine_assert_render (c : Compound) :
    ofLine ("/assert " ++ c.render) = .assert c.render := by
  rcases c.exists_toList_render with ⟨first, cs, hchars, hfirst⟩
  rw [ofLine_assert hchars hfirst, c.trim_render]

end Command
end EventCalculus

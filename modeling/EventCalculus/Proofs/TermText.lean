import EventCalculus.Proofs.DecimalText
import EventCalculus.Proofs.Sameness
import EventCalculus.Term.Printer
import EventCalculus.Term.Token

/-!
# Terms are determined by their texts

The text of a term shows where it ends: a name, a variable or a number ends in
front of the next bracket or comma, and a quoted body at the next quote that is
not escaped.  Two terms without infinite numbers that have the same text are the
same term, down to the kind of their numbers.
-/

namespace EventCalculus

/-!
# Quoted bodies
-/

namespace Token

theorem readBody?_cons {quote c : Char} (hquote : c ≠ quote) (hescape : c ≠ '\\')
    (rest : List Char) :
    readBody? quote (c :: rest) =
      (readBody? quote rest).map fun (body, after) => (c :: body, after) := by
  rw [readBody?.eq_def]
  split
  · cases ‹c :: rest = []›
  · rename_i hcons
    exact absurd (List.cons.inj hcons).left hescape
  · rename_i hcons
    cases hcons
    simp [hquote, hescape]

theorem readBody?_escapeChar {quote : Char} (hquote : quote ≠ '\n') (c : Char)
    (rest : List Char) :
    readBody? quote (Term.escapeChar quote c ++ rest) =
      (readBody? quote rest).map fun (body, after) => (Term.escapeChar quote c ++ body, after) := by
  unfold Term.escapeChar
  split
  · rfl
  · split
    · simp [readBody?, hquote]
    · split
      · rfl
      · split
        · rfl
        · rename_i hescape hclose _ _
          exact readBody?_cons hclose hescape rest

/-- A body that was written is read up to the quote that closes it. -/
theorem readBody?_enclosed {quote : Char} (hquote : quote ≠ '\n') (hescape : quote ≠ '\\')
    (body rest : List Char) :
    readBody? quote (body.flatMap (Term.escapeChar quote) ++ quote :: rest) =
      some (body.flatMap (Term.escapeChar quote), rest) := by
  induction body with
  | nil =>
      rw [List.flatMap_nil, List.nil_append, readBody?.eq_def]
      split
      · rename_i hnil
        cases hnil
      · rename_i hcons
        exact absurd (List.cons.inj hcons).left hescape
      · rename_i hcons
        cases hcons
        simp
  | cons c body ih =>
      rw [List.flatMap_cons, List.append_assoc, readBody?_escapeChar hquote, ih]
      rfl

theorem unescape_cons {c : Char} (h : c ≠ '\\') (rest : List Char) :
    unescape (c :: rest) = c :: unescape rest := by
  rw [unescape.eq_def]
  split
  · rename_i hnil
    cases hnil
  · rename_i hcons
    exact absurd (List.cons.inj hcons).left h
  · rename_i hcons
    exact absurd (List.cons.inj hcons).left h
  · rename_i hcons
    cases hcons
    rfl

theorem unescape_escapeChar {quote : Char} (hquote : unescapeChar quote = quote) (c : Char)
    (rest : List Char) : unescape (Term.escapeChar quote c ++ rest) = c :: unescape rest := by
  unfold Term.escapeChar
  split
  · rename_i hc
    rw [hc]
    rfl
  · split
    · rename_i hc
      simp [unescape, hquote, hc]
    · split
      · rename_i hc
        rw [hc]
        rfl
      · split
        · rename_i hc
          rw [hc]
          rfl
        · rename_i hescape _ _ _
          exact unescape_cons hescape rest

/-- What was escaped is recovered. -/
theorem unescape_escaped {quote : Char} (hquote : unescapeChar quote = quote)
    (body : List Char) : unescape (body.flatMap (Term.escapeChar quote)) = body := by
  induction body with
  | nil => rfl
  | cons c body ih =>
      rw [List.flatMap_cons, unescape_escapeChar hquote, ih]

end Token

namespace Term

theorem eq_of_enclose_append_eq {quote : Char} (hline : quote ≠ '\n') (hescape : quote ≠ '\\')
    (hquote : Token.unescapeChar quote = quote) {body body' rest rest' : List Char}
    (h : enclose quote body ++ rest = enclose quote body' ++ rest') :
    body = body' ∧ rest = rest' := by
  simp only [enclose, List.cons_append, List.append_assoc, List.nil_append, List.cons.injEq,
    true_and] at h
  have hread := Token.readBody?_enclosed hline hescape body rest
  rw [h, Token.readBody?_enclosed hline hescape, Option.some.injEq, Prod.mk.injEq] at hread
  constructor
  · rw [← Token.unescape_escaped hquote body, ← Token.unescape_escaped hquote body', hread.left]
  · exact hread.right.symm

end Term

/-!
# Words

Names, variables and finite numbers have no brackets and no commas.
-/

/-- A character that ends a word. -/
def isDelimiter (c : Char) : Bool :=
  c == '(' || c == ')' || c == ','

/-- No character ends a word. -/
def IsWord (cs : List Char) : Prop :=
  forall c, c ∈ cs -> isDelimiter c = false

/-- What follows a word starts with a character that ends it, if there is one. -/
def EndsWord (cs : List Char) : Prop :=
  forall c, cs.head? = some c -> isDelimiter c = true

theorem takeWhile_of_endsWord {cs : List Char} (h : EndsWord cs) :
    cs.takeWhile (fun c => !isDelimiter c) = [] := by
  cases cs with
  | nil => rfl
  | cons c rest => simp [h c rfl]

theorem takeWhile_word_append {word rest : List Char} (hword : IsWord word)
    (hrest : EndsWord rest) :
    (word ++ rest).takeWhile (fun c => !isDelimiter c) = word := by
  rw [List.takeWhile_append_of_pos, takeWhile_of_endsWord hrest, List.append_nil]
  intro c hc
  rw [hword c hc]
  rfl

theorem eq_of_word_append_eq {word word' rest rest' : List Char} (hword : IsWord word)
    (hword' : IsWord word') (hrest : EndsWord rest) (hrest' : EndsWord rest')
    (h : word ++ rest = word' ++ rest') : word = word' ∧ rest = rest' := by
  have hsame : word = word' := by
    rw [← takeWhile_word_append hword hrest, h, takeWhile_word_append hword' hrest']
  rw [hsame] at h
  exact ⟨hsame, List.append_cancel_left h⟩

theorem isDelimiter_of_class {p : Char -> Bool} {c : Char} (h : p c = true)
    (hopen : p '(' = false) (hclose : p ')' = false) (hcomma : p ',' = false) :
    isDelimiter c = false := by
  rw [isDelimiter, beq_eq_false_of_class p h hopen, beq_eq_false_of_class p h hclose,
    beq_eq_false_of_class p h hcomma]
  rfl

theorem isWord_of_isIdentifier {start : Char -> Bool} {cs : List Char}
    (h : isIdentifier start cs = true) (hopen : start '(' = false) (hclose : start ')' = false)
    (hcomma : start ',' = false) : IsWord cs := by
  cases cs with
  | nil =>
      cases h
  | cons first rest =>
      simp only [isIdentifier, Bool.and_eq_true] at h
      intro c hc
      cases List.mem_cons.mp hc with
      | inl hfirst =>
          rw [hfirst]
          exact isDelimiter_of_class h.left hopen hclose hcomma
      | inr hrest =>
          rw [← List.takeWhile_append_dropWhile (p := isWordChar) (l := rest)] at hrest
          cases List.mem_append.mp hrest with
          | inl hword =>
              exact isDelimiter_of_class (List.mem_takeWhile_imp hword) (by decide) (by decide)
                (by decide)
          | inr hend =>
              -- only one line feed can follow the word characters
              have htail := h.right
              cases hdrop : rest.dropWhile isWordChar with
              | nil =>
                  rw [hdrop] at hend
                  cases hend
              | cons d more =>
                  rw [hdrop] at hend htail
                  cases more with
                  | nil =>
                      rw [List.mem_singleton.mp hend, eq_of_beq htail]
                      rfl
                  | cons _ _ =>
                      cases htail

theorem Functor.isWord (f : Functor) : IsWord f.text.toList :=
  isWord_of_isIdentifier f.valid (by decide) (by decide) (by decide)

theorem VariableName.isWord (v : VariableName) : IsWord v.text.toList :=
  isWord_of_isIdentifier v.valid (by decide) (by decide) (by decide)

theorem AtomName.isWord {n : AtomName} (h : n.isPlain = true) : IsWord n.text.toList :=
  isWord_of_isIdentifier h (by decide) (by decide) (by decide)

theorem Number.isWord {n : Number} (h : n.isFinite = true) : IsWord n.chars :=
  fun _ hc => isDelimiter_of_class (Number.isNumberChar_of_mem_chars h hc) (by decide) (by decide)
    (by decide)

/-!
# Kinds of texts

The first character tells the kind of a term.  An atom in quotes is of another
kind than a plain one, and a plain one is of the kind of a compound.
-/

/-- What the first character of a text tells. -/
inductive TextKind where
  | name
  | quoted
  | text
  | number
  | variable
deriving DecidableEq

def TextKind.ofStart? (c : Char) : Option TextKind :=
  if c.isDigit || c == '-' then some .number
  else if c == '\'' then some .quoted
  else if c == '"' then some .text
  else if c.isLower then some .name
  else if isVariableStart c then some .variable
  else none

theorem isLower_bounds {c : Char} (h : c.isLower = true) : 97 ≤ c.toNat ∧ c.toNat ≤ 122 := by
  have hbounds : (decide (c.val ≥ 97) && decide (c.val ≤ 122)) = true := h
  rcases Bool.and_eq_true_iff.mp hbounds with ⟨hlow, hhigh⟩
  constructor
  · exact of_decide_eq_true hlow
  · exact of_decide_eq_true hhigh

theorem isUpper_bounds {c : Char} (h : c.isUpper = true) : 65 ≤ c.toNat ∧ c.toNat ≤ 90 :=
  of_decide_eq_true h

theorem isDigit_bounds {c : Char} (h : c.isDigit = true) : 48 ≤ c.toNat ∧ c.toNat ≤ 57 :=
  Char.isDigit_iff_toNat.mp h

theorem isDigit_eq_false_of_isLower {c : Char} (h : c.isLower = true) : c.isDigit = false := by
  apply Bool.eq_false_iff.mpr
  intro hdigit
  have hletter := isLower_bounds h
  have hnumeral := isDigit_bounds hdigit
  omega

theorem isDigit_eq_false_of_isUpper {c : Char} (h : c.isUpper = true) : c.isDigit = false := by
  apply Bool.eq_false_iff.mpr
  intro hdigit
  have hletter := isUpper_bounds h
  have hnumeral := isDigit_bounds hdigit
  omega

theorem isLower_eq_false_of_isUpper {c : Char} (h : c.isUpper = true) : c.isLower = false := by
  apply Bool.eq_false_iff.mpr
  intro hlower
  have hlarge := isUpper_bounds h
  have hsmall := isLower_bounds hlower
  omega

theorem TextKind.ofStart?_of_isLower {c : Char} (h : c.isLower = true) :
    ofStart? c = some .name := by
  have hdigit := isDigit_eq_false_of_isLower h
  have hsign := beq_eq_false_of_class Char.isLower h (d := '-') (by decide)
  have hquote := beq_eq_false_of_class Char.isLower h (d := '\'') (by decide)
  have hdouble := beq_eq_false_of_class Char.isLower h (d := '"') (by decide)
  simp [ofStart?, h, hdigit, hsign, hquote, hdouble]

theorem TextKind.ofStart?_of_isVariableStart {c : Char} (h : isVariableStart c = true) :
    ofStart? c = some .variable := by
  cases Bool.or_eq_true_iff.mp h with
  | inl hupper =>
      have hdigit := isDigit_eq_false_of_isUpper hupper
      have hlower := isLower_eq_false_of_isUpper hupper
      have hsign := beq_eq_false_of_class Char.isUpper hupper (d := '-') (by decide)
      have hquote := beq_eq_false_of_class Char.isUpper hupper (d := '\'') (by decide)
      have hdouble := beq_eq_false_of_class Char.isUpper hupper (d := '"') (by decide)
      simp [ofStart?, h, hdigit, hsign, hquote, hdouble, hlower]
  | inr hunderscore =>
      rw [eq_of_beq hunderscore]
      rfl

theorem exists_start_of_isIdentifier {start : Char -> Bool} {cs : List Char}
    (h : isIdentifier start cs = true) : exists c rest, cs = c :: rest ∧ start c = true := by
  cases cs with
  | nil =>
      cases h
  | cons c rest =>
      simp only [isIdentifier, Bool.and_eq_true] at h
      exact ⟨c, rest, rfl, h.left⟩

/-- A word is a variable or a functor by its first character. -/
theorem not_isVariableText {s : String} (h : isFunctorText s = true) :
    ¬ isVariableText s = true := by
  intro hvariable
  rcases exists_start_of_isIdentifier h with ⟨c, rest, hcons, hlower⟩
  rw [isVariableText, hcons, isIdentifier, Bool.and_eq_true] at hvariable
  have hname := TextKind.ofStart?_of_isLower hlower
  rw [TextKind.ofStart?_of_isVariableStart hvariable.left] at hname
  cases hname

theorem VariableName.toList_ne (v : VariableName) (f : Functor) :
    v.text.toList ≠ f.text.toList := by
  intro h
  apply not_isVariableText f.valid
  rw [← String.toList_inj.mp h]
  exact v.valid

namespace Term

/-!
# Terms
-/

def textKind : Term -> TextKind
  | .atom n => if n.isPlain then .name else .quoted
  | .text _ => .text
  | .number _ => .number
  | .var _ => .variable
  | .compound _ _ => .name

theorem exists_start_renderChars {t : Term} (hfinite : t.isFinite = true) :
    exists c rest, t.renderChars = c :: rest ∧ TextKind.ofStart? c = some t.textKind := by
  cases t with
  | atom n =>
      cases hplain : n.isPlain with
      | true =>
          rcases exists_start_of_isIdentifier hplain with ⟨c, rest, hcons, hlower⟩
          refine ⟨c, rest, ?_, ?_⟩
          · simp [renderChars, hplain, hcons]
          · simp [textKind, hplain, TextKind.ofStart?_of_isLower hlower]
      | false =>
          refine ⟨'\'', n.text.toList.flatMap (escapeChar '\'') ++ ['\''], ?_, ?_⟩
          · simp [renderChars, hplain, enclose]
          · simp [textKind, hplain, TextKind.ofStart?]
  | number n =>
      rcases Number.exists_start_chars hfinite with ⟨c, rest, hcons, hstart⟩
      refine ⟨c, rest, hcons, ?_⟩
      cases hstart with
      | inl hdigit => simp [TextKind.ofStart?, hdigit, textKind]
      | inr hsign => simp [TextKind.ofStart?, hsign, textKind]
  | text s =>
      exact ⟨'"', s.toList.flatMap (escapeChar '"') ++ ['"'], rfl, rfl⟩
  | var v =>
      rcases exists_start_of_isIdentifier v.valid with ⟨c, rest, hcons, hstart⟩
      exact ⟨c, rest, hcons, TextKind.ofStart?_of_isVariableStart hstart⟩
  | compound f args =>
      rcases exists_start_of_isIdentifier f.valid with ⟨c, rest, hcons, hlower⟩
      refine ⟨c, rest ++ '(' :: renderAll args ++ [')'], ?_, TextKind.ofStart?_of_isLower hlower⟩
      simp [renderChars, hcons]

theorem textKind_eq_of_render_append_eq {a b : Term} (ha : a.isFinite = true)
    (hb : b.isFinite = true) {rest rest' : List Char}
    (h : a.renderChars ++ rest = b.renderChars ++ rest') : a.textKind = b.textKind := by
  rcases exists_start_renderChars ha with ⟨c, more, hcons, hkind⟩
  rcases exists_start_renderChars hb with ⟨d, more', hcons', hkind'⟩
  rw [hcons, hcons', List.cons_append, List.cons_append, List.cons.injEq] at h
  rw [h.left, hkind'] at hkind
  exact Option.some.inj hkind.symm

/-- What follows a term goes on with the arguments of a compound, or there is nothing. -/
def EndsTerm (cs : List Char) : Prop :=
  forall c, cs.head? = some c -> c = ')' ∨ c = ','

theorem EndsTerm.endsWord {cs : List Char} (h : EndsTerm cs) : EndsWord cs := by
  intro c hc
  cases h c hc with
  | inl hclose => rw [hclose]; rfl
  | inr hcomma => rw [hcomma]; rfl

theorem endsWord_open (rest : List Char) : EndsWord ('(' :: rest) := by
  intro c hc
  cases hc
  rfl

theorem EndsTerm.ne_open {cs rest : List Char} (h : EndsTerm cs) : cs ≠ '(' :: rest := by
  intro heq
  rw [heq] at h
  cases h '(' rfl with
  | inl hclose => cases hclose
  | inr hcomma => cases hcomma

/-!
The kind of a term is that of the term with the same text, which leaves one or two
constructors to compare with.
-/

theorem eq_atom_of_textKind {b : Term} (h : b.textKind = .quoted) :
    exists n, b = .atom n ∧ n.isPlain = false := by
  cases b with
  | atom n =>
      cases hplain : n.isPlain with
      | true => simp [textKind, hplain] at h
      | false => exact ⟨n, rfl, hplain⟩
  | number n => cases h
  | text s => cases h
  | var v => cases h
  | compound f args => cases h

theorem eq_atom_or_compound_of_textKind {b : Term} (h : b.textKind = .name) :
    (exists n, b = .atom n ∧ n.isPlain = true) ∨ exists f args, b = .compound f args := by
  cases b with
  | atom n =>
      cases hplain : n.isPlain with
      | true => exact Or.inl ⟨n, rfl, hplain⟩
      | false => simp [textKind, hplain] at h
  | compound f args => exact Or.inr ⟨f, args, rfl⟩
  | number n => cases h
  | text s => cases h
  | var v => cases h

theorem textKind_atom_ne {n : AtomName} {k : TextKind} (hname : k ≠ .name)
    (hquoted : k ≠ .quoted) : (Term.atom n).textKind ≠ k := by
  cases hplain : n.isPlain with
  | true =>
      rw [textKind, hplain]
      exact hname.symm
  | false =>
      rw [textKind, hplain]
      exact hquoted.symm

theorem eq_number_of_textKind {b : Term} (h : b.textKind = .number) : exists n, b = .number n := by
  cases b with
  | number n => exact ⟨n, rfl⟩
  | atom n => exact absurd h (textKind_atom_ne (by decide) (by decide))
  | text s => cases h
  | var v => cases h
  | compound f args => cases h

theorem eq_text_of_textKind {b : Term} (h : b.textKind = .text) : exists s, b = .text s := by
  cases b with
  | text s => exact ⟨s, rfl⟩
  | atom n => exact absurd h (textKind_atom_ne (by decide) (by decide))
  | number n => cases h
  | var v => cases h
  | compound f args => cases h

theorem eq_var_of_textKind {b : Term} (h : b.textKind = .variable) : exists v, b = .var v := by
  cases b with
  | var v => exact ⟨v, rfl⟩
  | atom n => exact absurd h (textKind_atom_ne (by decide) (by decide))
  | number n => cases h
  | text s => cases h
  | compound f args => cases h

section
variable {b : Term} {rest rest' : List Char} (hb : b.isFinite = true)
include hb

theorem eq_text_of_render_append_eq {s : String}
    (h : (Term.text s).renderChars ++ rest = b.renderChars ++ rest') :
    Term.text s = b ∧ rest = rest' := by
  have hkind := textKind_eq_of_render_append_eq (a := .text s) rfl hb h
  rcases eq_text_of_textKind hkind.symm with ⟨s', rfl⟩
  rcases eq_of_enclose_append_eq (by decide) (by decide) rfl h with ⟨hbody, hafter⟩
  exact ⟨by rw [String.toList_injective hbody], hafter⟩

variable (hrest : EndsTerm rest) (hrest' : EndsTerm rest')
include hrest hrest'

theorem eq_number_of_render_append_eq {n : Number} (hn : n.isFinite = true)
    (h : (Term.number n).renderChars ++ rest = b.renderChars ++ rest') :
    Term.number n = b ∧ rest = rest' := by
  have hkind := textKind_eq_of_render_append_eq (a := .number n) hn hb h
  rcases eq_number_of_textKind hkind.symm with ⟨m, rfl⟩
  rcases eq_of_word_append_eq (Number.isWord hn) (Number.isWord hb) hrest.endsWord
    hrest'.endsWord h with ⟨hchars, hafter⟩
  exact ⟨by rw [Number.eq_of_chars_eq hn hb hchars], hafter⟩

theorem eq_var_of_render_append_eq {v : VariableName}
    (h : (Term.var v).renderChars ++ rest = b.renderChars ++ rest') :
    Term.var v = b ∧ rest = rest' := by
  have hkind := textKind_eq_of_render_append_eq (a := .var v) rfl hb h
  rcases eq_var_of_textKind hkind.symm with ⟨w, rfl⟩
  rcases eq_of_word_append_eq v.isWord w.isWord hrest.endsWord hrest'.endsWord h with
    ⟨hchars, hafter⟩
  exact ⟨by rw [VariableName.eq_of_text_eq (String.toList_injective hchars)], hafter⟩

theorem eq_atom_of_render_append_eq {n : AtomName}
    (h : (Term.atom n).renderChars ++ rest = b.renderChars ++ rest') :
    Term.atom n = b ∧ rest = rest' := by
  have hkind := textKind_eq_of_render_append_eq (a := .atom n) rfl hb h
  cases hplain : n.isPlain with
  | false =>
      rw [textKind, hplain] at hkind
      rcases eq_atom_of_textKind hkind.symm with ⟨m, rfl, hquoted⟩
      simp only [renderChars, hplain, hquoted, Bool.false_eq_true, ↓reduceIte] at h
      rcases eq_of_enclose_append_eq (by decide) (by decide) rfl h with ⟨hbody, hafter⟩
      exact ⟨by rw [AtomName.eq_of_text_eq (String.toList_injective hbody)], hafter⟩
  | true =>
      rw [textKind, hplain] at hkind
      cases eq_atom_or_compound_of_textKind hkind.symm with
      | inl hatom =>
          rcases hatom with ⟨m, rfl, hplain'⟩
          simp only [renderChars, hplain, hplain', ↓reduceIte] at h
          rcases eq_of_word_append_eq (AtomName.isWord hplain) (AtomName.isWord hplain')
            hrest.endsWord hrest'.endsWord h with ⟨hchars, hafter⟩
          exact ⟨by rw [AtomName.eq_of_text_eq (String.toList_injective hchars)], hafter⟩
      | inr hcompound =>
          rcases hcompound with ⟨f, args, rfl⟩
          simp only [renderChars, hplain, ↓reduceIte, List.append_assoc, List.cons_append] at h
          rcases eq_of_word_append_eq (AtomName.isWord hplain) f.isWord hrest.endsWord
            (endsWord_open _) h with ⟨_, hafter⟩
          exact absurd hafter hrest.ne_open

end

/-- What follows the first of some arguments. -/
def moreArguments : List Term -> List Char
  | [] => []
  | t :: ts => ',' :: ' ' :: renderAll (t :: ts)

theorem renderAll_cons (t : Term) (ts : List Term) :
    renderAll (t :: ts) = t.renderChars ++ moreArguments ts := by
  cases ts with
  | nil => simp [renderAll, moreArguments]
  | cons u us => rfl

theorem renderAll_append_eq_of_moreArguments {xs ys : List Term} {rest rest' : List Char}
    (h : moreArguments xs ++ ')' :: rest = moreArguments ys ++ ')' :: rest') :
    renderAll xs ++ ')' :: rest = renderAll ys ++ ')' :: rest' := by
  cases xs with
  | nil =>
      cases ys with
      | nil => exact h
      | cons y ys => cases (List.cons.inj h).left
  | cons x xs =>
      cases ys with
      | nil => cases (List.cons.inj h).left
      | cons y ys => exact (List.cons.inj (List.cons.inj h).right).right

theorem renderAll_cons_append_ne (t : Term) (ts : List Term) (hfinite : t.isFinite = true)
    (rest rest' : List Char) : renderAll (t :: ts) ++ rest ≠ ')' :: rest' := by
  intro h
  rcases exists_start_renderChars hfinite with ⟨c, more, hcons, hkind⟩
  rw [renderAll_cons, hcons, List.cons_append, List.cons_append, List.cons.injEq] at h
  rw [h.left] at hkind
  cases hkind

theorem endsTerm_moreArguments (ts : List Term) (rest : List Char) :
    EndsTerm (moreArguments ts ++ ')' :: rest) := by
  intro c hc
  cases ts with
  | nil =>
      cases hc
      exact Or.inl rfl
  | cons t ts =>
      cases hc
      exact Or.inr rfl

mutual

theorem eq_of_render_append_eq : (a b : Term) -> (rest rest' : List Char) ->
    a.isFinite = true -> b.isFinite = true -> EndsTerm rest -> EndsTerm rest' ->
    a.renderChars ++ rest = b.renderChars ++ rest' -> a = b ∧ rest = rest'
  | .atom _, _, _, _, _, hb, hrest, hrest', h => eq_atom_of_render_append_eq hb hrest hrest' h
  | .number _, _, _, _, ha, hb, hrest, hrest', h =>
      eq_number_of_render_append_eq hb hrest hrest' ha h
  | .text _, _, _, _, _, hb, _, _, h => eq_text_of_render_append_eq hb h
  | .var _, _, _, _, _, hb, hrest, hrest', h => eq_var_of_render_append_eq hb hrest hrest' h
  | .compound f xs, b, rest, rest', ha, hb, hrest, hrest', h => by
      have hkind := textKind_eq_of_render_append_eq ha hb h
      cases eq_atom_or_compound_of_textKind hkind.symm with
      | inl hatom =>
          rcases hatom with ⟨n, rfl, _⟩
          rcases eq_atom_of_render_append_eq ha hrest' hrest h.symm with ⟨heq, hafter⟩
          exact ⟨heq.symm, hafter.symm⟩
      | inr hcompound =>
          rcases hcompound with ⟨g, ys, rfl⟩
          simp only [renderChars, List.append_assoc, List.cons_append, List.nil_append] at h
          rcases eq_of_word_append_eq f.isWord g.isWord (endsWord_open _) (endsWord_open _) h with
            ⟨hname, hafter⟩
          rcases eq_of_renderAll_append_eq xs ys rest rest' ha hb (List.cons.inj hafter).right with
            ⟨hargs, hrest⟩
          exact ⟨by rw [Functor.eq_of_text_eq (String.toList_injective hname), hargs], hrest⟩

theorem eq_of_renderAll_append_eq : (xs ys : List Term) -> (rest rest' : List Char) ->
    isFiniteAll xs = true -> isFiniteAll ys = true ->
    renderAll xs ++ ')' :: rest = renderAll ys ++ ')' :: rest' -> xs = ys ∧ rest = rest'
  | [], [], _, _, _, _, h => ⟨rfl, (List.cons.inj h).right⟩
  | [], y :: ys, rest, rest', _, hys, h => by
      simp only [isFiniteAll, Bool.and_eq_true] at hys
      exact absurd h.symm (renderAll_cons_append_ne y ys hys.left _ rest)
  | x :: xs, [], rest, rest', hxs, _, h => by
      simp only [isFiniteAll, Bool.and_eq_true] at hxs
      exact absurd h (renderAll_cons_append_ne x xs hxs.left _ rest')
  | x :: xs, y :: ys, rest, rest', hxs, hys, h => by
      simp only [isFiniteAll, Bool.and_eq_true] at hxs hys
      rw [renderAll_cons, renderAll_cons, List.append_assoc, List.append_assoc] at h
      rcases eq_of_render_append_eq x y _ _ hxs.left hys.left (endsTerm_moreArguments xs rest)
        (endsTerm_moreArguments ys rest') h with ⟨hhead, hmore⟩
      rcases eq_of_renderAll_append_eq xs ys rest rest' hxs.right hys.right
        (renderAll_append_eq_of_moreArguments hmore) with ⟨htail, hrest⟩
      exact ⟨by rw [hhead, htail], hrest⟩

end

theorem eq_of_render_eq {a b : Term} (ha : a.isFinite = true) (hb : b.isFinite = true)
    (h : a.render = b.render) : a = b := by
  have hchars : a.renderChars = b.renderChars := String.ofList_injective h
  have hends : EndsTerm [] := fun c hc => absurd hc (by simp)
  exact (eq_of_render_append_eq a b [] [] ha hb hends hends (by rw [hchars])).left

end Term

namespace Compound

theorem eq_of_render_eq {a b : Compound} (ha : a.isFinite = true) (hb : b.isFinite = true)
    (h : a.render = b.render) : a = b := by
  rcases a with ⟨f, xs⟩
  rcases b with ⟨g, ys⟩
  rcases Term.compound.inj (Term.eq_of_render_eq ha hb h) with ⟨hfunctor, hargs⟩
  simp only at hfunctor hargs
  rw [hfunctor, hargs]

end Compound
end EventCalculus

import EventCalculus.Proofs.LexemeTokens

/-!
# The grammar of terms

Terms are derived from lexemes by one production for each form of a term.  A list of lexemes has at
most one derivation: a term ends where no bracket follows, so a name in front of a bracket can only
be the functor of a compound.
-/

namespace EventCalculus

namespace Lexeme

/-- A bracket or a comma. -/
def mark (c : Char) : Lexeme :=
  ⟨.punctuation, [c]⟩

/-- The number that a numeral stands for: with a point a floating point number, and else an integer
if it has not too many digits. -/
def number? (chars : List Char) : Option Number :=
  let negative : Bool := chars.head? = some '-'
  let shown := chars.filter Text.isDigit
  if '.' ∈ chars then
    let places := ((chars.dropWhile (· ≠ '.')).drop 1).length
    some (.float (Binary64.ofDecimal negative (Text.digitsValue shown) (-(places : Int))))
  else if shown.length ≤ Numeral.digitLimit then
    let magnitude : Int := Text.digitsValue shown
    some (.int (if negative then -magnitude else magnitude))
  else
    none

/-- A numeral without a point and with too many digits. -/
def IsLongInteger (l : Lexeme) : Prop :=
  l.kind = .number ∧ '.' ∉ l.chars ∧ Numeral.digitLimit < (l.chars.filter Text.isDigit).length

end Lexeme

/-- A derivation in the grammar of terms. -/
inductive SyntaxTree where
  | number (chars : List Char)
  | text (body : List Char)
  | quoted (body : List Char)
  | var (v : VariableName)
  | atom (f : Functor)
  | compound (f : Functor) (args : List SyntaxTree)

namespace SyntaxTree

open Lexeme (mark)

mutual

/-- The lexemes that are derived. -/
def yield : SyntaxTree -> List Lexeme
  | number chars => [⟨.number, chars⟩]
  | text body => [⟨.text, '"' :: body ++ ['"']⟩]
  | quoted body => [⟨.quoted, '\'' :: body ++ ['\'']⟩]
  | var v => [⟨.name, v.text.toList⟩]
  | atom f => [⟨.name, f.text.toList⟩]
  | compound f args => ⟨.name, f.text.toList⟩ :: mark '(' :: (yieldAll args ++ [mark ')'])

/-- The lexemes of arguments, with commas between them. -/
def yieldAll : List SyntaxTree -> List Lexeme
  | [] => []
  | [t] => yield t
  | t :: ts => yield t ++ mark ',' :: yieldAll ts

end

mutual

/-- The term that is derived.  A quoted name must not be empty, and an integer not too long. -/
def term? : SyntaxTree -> Option Term
  | number chars => (Lexeme.number? chars).map .number
  | text body => some (.text (String.ofList (Token.unescape body)))
  | quoted body => (AtomName.ofText? (String.ofList (Token.unescape body))).map .atom
  | var v => some (.var v)
  | atom f => some (.atom f.toAtomName)
  | compound f args => (terms? args).map (.compound f)

def terms? : List SyntaxTree -> Option (List Term)
  | [] => some []
  | t :: ts => (term? t).bind fun u => (terms? ts).map (u :: ·)

end

/-- The tree derives the lexemes of the text, without the blank ones. -/
def Derives (t : SyntaxTree) (s : String) : Prop :=
  exists lexemes, Lexeme.Cuts s.toList lexemes ∧ Lexeme.shown lexemes = t.yield

/-!
# Derivations are unique
-/

/-- Neither a bracket nor a comma begins a term. -/
theorem exists_yield_eq_cons (t : SyntaxTree) :
    exists l rest, t.yield = l :: rest ∧ l.kind ≠ .punctuation := by
  cases t with
  | number chars => exact ⟨_, _, rfl, LexemeKind.noConfusion⟩
  | text body => exact ⟨_, _, rfl, LexemeKind.noConfusion⟩
  | quoted body => exact ⟨_, _, rfl, LexemeKind.noConfusion⟩
  | var v => exact ⟨_, _, rfl, LexemeKind.noConfusion⟩
  | atom f => exact ⟨_, _, rfl, LexemeKind.noConfusion⟩
  | compound f args => exact ⟨_, _, rfl, LexemeKind.noConfusion⟩

theorem yieldAll_cons (t u : SyntaxTree) (ts : List SyntaxTree) :
    yieldAll (t :: u :: ts) = yield t ++ mark ',' :: yieldAll (u :: ts) := rfl

theorem exists_yieldAll_eq_cons (t : SyntaxTree) (ts : List SyntaxTree) :
    exists l rest, yieldAll (t :: ts) = l :: rest ∧ l.kind ≠ .punctuation := by
  rcases t.exists_yield_eq_cons with ⟨l, rest, hyield, hl⟩
  cases ts with
  | nil => exact ⟨l, rest, hyield, hl⟩
  | cons u ts =>
      rw [yieldAll_cons, hyield]
      exact ⟨l, _, rfl, hl⟩

theorem head?_mark_ne {c : Char} (hc : c ≠ '(') (rest : List Lexeme) :
    (mark c :: rest).head? ≠ some (mark '(') := by
  intro h
  exact hc (List.cons.inj (Lexeme.mk.inj (Option.some.inj h)).right).left

mutual

/-- Terms in front of no bracket can be told from what follows them. -/
theorem eq_of_yield_append : (t u : SyntaxTree) -> (r s : List Lexeme) ->
    r.head? ≠ some (mark '(') -> s.head? ≠ some (mark '(') -> t.yield ++ r = u.yield ++ s ->
    t = u ∧ r = s
  | .number a, u, r, s, _, _, h => by
      cases u with
      | number b =>
          cases h
          exact ⟨rfl, rfl⟩
      | _ => cases h
  | .text a, u, r, s, _, _, h => by
      cases u with
      | text b =>
          rcases List.cons.inj h with ⟨hlexeme, hrest⟩
          have hbody := List.append_cancel_right (List.cons.inj (Lexeme.mk.inj hlexeme).right).right
          exact ⟨by rw [hbody], hrest⟩
      | _ => cases h
  | .quoted a, u, r, s, _, _, h => by
      cases u with
      | quoted b =>
          rcases List.cons.inj h with ⟨hlexeme, hrest⟩
          have hbody := List.append_cancel_right (List.cons.inj (Lexeme.mk.inj hlexeme).right).right
          exact ⟨by rw [hbody], hrest⟩
      | _ => cases h
  | .var v, u, r, s, _, _, h => by
      cases u with
      | var w =>
          rcases List.cons.inj h with ⟨hlexeme, hrest⟩
          have htext := String.toList_inj.mp (Lexeme.mk.inj hlexeme).right
          exact ⟨by rw [VariableName.eq_of_text_eq htext], hrest⟩
      | atom f =>
          rcases List.cons.inj h with ⟨hlexeme, _⟩
          exact absurd (Lexeme.mk.inj hlexeme).right (v.toList_ne f)
      | compound f args =>
          rcases List.cons.inj h with ⟨hlexeme, _⟩
          exact absurd (Lexeme.mk.inj hlexeme).right (v.toList_ne f)
      | _ => cases h
  | .atom f, u, r, s, hr, hs, h => by
      cases u with
      | var v =>
          rcases List.cons.inj h with ⟨hlexeme, _⟩
          exact absurd (Lexeme.mk.inj hlexeme).right.symm (v.toList_ne f)
      | atom g =>
          rcases List.cons.inj h with ⟨hlexeme, hrest⟩
          have htext := String.toList_inj.mp (Lexeme.mk.inj hlexeme).right
          exact ⟨by rw [Functor.eq_of_text_eq htext], hrest⟩
      | compound g args =>
          rcases List.cons.inj h with ⟨_, hrest⟩
          have hopen : r = mark '(' :: (yieldAll args ++ [mark ')'] ++ s) := hrest
          rw [hopen] at hr
          exact absurd rfl hr
      | _ => cases h
  | .compound f args, u, r, s, hr, hs, h => by
      cases u with
      | var v =>
          rcases List.cons.inj h with ⟨hlexeme, _⟩
          exact absurd (Lexeme.mk.inj hlexeme).right.symm (v.toList_ne f)
      | atom g =>
          rcases List.cons.inj h with ⟨_, hrest⟩
          have hopen : mark '(' :: (yieldAll args ++ [mark ')'] ++ r) = s := hrest
          rw [← hopen] at hs
          exact absurd rfl hs
      | compound g others =>
          rcases List.cons.inj h with ⟨hlexeme, hrest⟩
          have htext := String.toList_inj.mp (Lexeme.mk.inj hlexeme).right
          have hargs : (yieldAll args ++ [mark ')']) ++ r = (yieldAll others ++ [mark ')']) ++ s :=
            (List.cons.inj hrest).right
          rw [List.append_assoc, List.append_assoc] at hargs
          rcases eq_of_yieldAll_append args others r s hargs with ⟨hsame, htail⟩
          exact ⟨by rw [Functor.eq_of_text_eq htext, hsame], htail⟩
      | _ => cases h

/-- Arguments end at the bracket that closes them. -/
theorem eq_of_yieldAll_append : (ts us : List SyntaxTree) -> (r s : List Lexeme) ->
    yieldAll ts ++ mark ')' :: r = yieldAll us ++ mark ')' :: s -> ts = us ∧ r = s
  | [], [], _, _, h => ⟨rfl, (List.cons.inj h).right⟩
  | [], u :: us, r, s, h => by
      rcases exists_yieldAll_eq_cons u us with ⟨l, rest, hyield, hl⟩
      rw [hyield] at h
      rw [← (List.cons.inj h).left] at hl
      exact absurd rfl hl
  | t :: ts, [], r, s, h => by
      rcases exists_yieldAll_eq_cons t ts with ⟨l, rest, hyield, hl⟩
      rw [hyield] at h
      rw [(List.cons.inj h).left] at hl
      exact absurd rfl hl
  | [t], [u], r, s, h => by
      have hclose := head?_mark_ne (c := ')') (by decide)
      rcases eq_of_yield_append t u _ _ (hclose r) (hclose s) h with ⟨rfl, hrest⟩
      exact ⟨rfl, (List.cons.inj hrest).right⟩
  | [t], u :: v :: us, r, s, h => by
      rw [yieldAll_cons, List.append_assoc] at h
      have hclose := head?_mark_ne (c := ')') (by decide)
      have hcomma := head?_mark_ne (c := ',') (by decide)
      rcases eq_of_yield_append t u _ _ (hclose r) (hcomma _) h with ⟨_, hrest⟩
      cases hrest
  | t :: v :: ts, [u], r, s, h => by
      rw [yieldAll_cons, List.append_assoc] at h
      have hclose := head?_mark_ne (c := ')') (by decide)
      have hcomma := head?_mark_ne (c := ',') (by decide)
      rcases eq_of_yield_append t u _ _ (hcomma _) (hclose s) h with ⟨_, hrest⟩
      cases hrest
  | t :: v :: ts, u :: w :: us, r, s, h => by
      rw [yieldAll_cons, yieldAll_cons, List.append_assoc, List.append_assoc] at h
      have hcomma := head?_mark_ne (c := ',') (by decide)
      rcases eq_of_yield_append t u _ _ (hcomma _) (hcomma _) h with ⟨rfl, hrest⟩
      rcases eq_of_yieldAll_append (v :: ts) (w :: us) r s (List.cons.inj hrest).right with
        ⟨hsame, htail⟩
      exact ⟨by rw [hsame], htail⟩

end

theorem yield_injective {t u : SyntaxTree} (h : t.yield = u.yield) : t = u := by
  have hnil : ([] : List Lexeme).head? ≠ some (mark '(') := fun h => by cases h
  exact (eq_of_yield_append t u [] [] hnil hnil (by rw [h])).left

end SyntaxTree

end EventCalculus

import EventCalculus.Text.LowercaseTable
import EventCalculus.Text.Ranges

/-!
# Lower case

The full lowercase mapping.  Every character is lowered on its own, apart from
two rules: the dotted capital I becomes an i and a combining dot, and a capital
sigma that ends a word takes its final form.
-/

namespace EventCalculus
namespace Text

/-- The simple lowercase mapping of one character. -/
def lowerSimple (c : Char) : Char :=
  let n := c.toNat
  match lowercaseSegments.find? fun (first, last, step, _) =>
      first ≤ n && n ≤ last && (n - first) % step == 0 with
  | some (_, _, _, shift) => Char.ofNat ((n : Int) + shift).toNat
  | none => c

/-- The first character that is not ignored has a case. -/
def meetsCased (cs : List Char) : Bool :=
  match cs.dropWhile fun c => inRanges caseIgnorableRanges c.toNat with
  | [] => false
  | c :: _ => inRanges casedRanges c.toNat

/-- One character in its context; `before` is reversed. -/
def lowerInContext (before : List Char) (c : Char) (after : List Char) : List Char :=
  if c.toNat = 0x3A3 then
    if meetsCased before && !meetsCased after then [Char.ofNat 0x3C2] else [Char.ofNat 0x3C3]
  else if c.toNat = 0x130 then
    ['i', Char.ofNat 0x307]
  else
    [lowerSimple c]

/-- Lowers the characters after `before`, which is reversed. -/
def lowerFrom (before : List Char) : List Char → List Char
  | [] => []
  | c :: after => lowerInContext before c after ++ lowerFrom (c :: before) after

/-- The characters of a text in lower case. -/
def lowerChars (cs : List Char) : List Char :=
  lowerFrom [] cs

/-- A text in lower case. -/
def lower (s : String) : String :=
  String.ofList (lowerChars s.toList)

end Text
end EventCalculus

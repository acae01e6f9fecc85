import EventCalculus.Term.Basic
import EventCalculus.Term.Token
import EventCalculus.Text.Quoted

/-!
# Reading terms

One pass over the tokens with a stack of open compounds.  Reading stops at the
first token that cannot continue a term.
-/

namespace EventCalculus

/-- Why a source is not a term. -/
inductive SyntaxFault where
  | blank
  | character (c : Char) (position : Nat)
  | endOfInput
  | trailing
  | token (found : String)
  | separator (found : String)
  | emptyAtom
  | tooManyDigits (count : Nat)
deriving DecidableEq

/-- A source that is not a term, with the reason. -/
structure ParseFault where
  source : String
  fault : SyntaxFault
deriving DecidableEq

namespace ParseFault

/-- What is said about a source that is not a term. -/
def message (f : ParseFault) : String :=
  let source := Text.quoted f.source
  match f.fault with
  | .blank => "Cannot parse an empty term"
  | .character c position =>
      "Unexpected character " ++ Text.quoted (String.singleton c) ++ " at " ++
        toString position ++ " in " ++ source
  | .endOfInput => "Unexpected end of input in " ++ source
  | .trailing => "Trailing input after term in " ++ source
  | .token found => "Unexpected " ++ Text.quoted found ++ " in " ++ source
  | .separator found =>
      "Expected ',' or ')' but found " ++ Text.quoted found ++ " in " ++ source
  | .emptyAtom => "Atom name must be a non-empty string, got ''"
  | .tooManyDigits count => tooManyDigitsMessage count

/-- The limit on digits is a matter of resources; every other fault is one of form. -/
def isLimit (f : ParseFault) : Bool :=
  match f.fault with
  | .tooManyDigits _ => true
  | _ => false

end ParseFault

namespace Term

/-- An open compound: its functor and the arguments read so far, the last one first. -/
structure Frame where
  functor : Functor
  args : List Term

/-- An open compound with one more argument. -/
def Frame.push (frame : Frame) (t : Term) : Frame :=
  ⟨frame.functor, t :: frame.args⟩

/-- The compound that is closed after its last argument. -/
def Frame.close (frame : Frame) (t : Term) : Term :=
  .compound frame.functor (t :: frame.args).reverse

/-- The source of a token, for messages. -/
def found (token : Token) : String :=
  String.ofList token.chars

mutual

/-- Reads a term; `frames` are the open compounds, the innermost first. -/
def readTerm (frames : List Frame) : List Token -> Except SyntaxFault Term
  | [] => .error .endOfInput
  | .variable v :: rest => afterTerm (.var v) frames rest
  | .name f :: .openParen :: .closeParen :: rest => afterTerm (.compound f []) frames rest
  | .name f :: .openParen :: rest => readTerm (⟨f, []⟩ :: frames) rest
  | .name f :: rest => afterTerm (.atom f.toAtomName) frames rest
  | .numeral n :: rest =>
      match n.value with
      | .ok value => afterTerm (.number value) frames rest
      | .error count => .error (.tooManyDigits count)
  | .text body :: rest => afterTerm (.text (String.ofList (Token.unescape body))) frames rest
  | .quoted body :: rest =>
      match AtomName.ofText? (String.ofList (Token.unescape body)) with
      | some name => afterTerm (.atom name) frames rest
      | none => .error .emptyAtom
  | .openParen :: _ => .error (.token (found .openParen))
  | .closeParen :: _ => .error (.token (found .closeParen))
  | .comma :: _ => .error (.token (found .comma))

/-- Continues after a complete term. -/
def afterTerm (t : Term) (frames : List Frame) : List Token -> Except SyntaxFault Term
  | [] =>
      match frames with
      | [] => .ok t
      | _ :: _ => .error .endOfInput
  | token :: rest =>
      match frames with
      | [] => .error .trailing
      | frame :: outer =>
          match token with
          | .closeParen => afterTerm (frame.close t) outer rest
          | .comma => readTerm (frame.push t :: outer) rest
          | _ => .error (.separator (found token))

end

/-- The term that a source denotes. -/
def parse (source : String) : Except ParseFault Term :=
  if Text.isBlankText source then
    .error ⟨source, .blank⟩
  else
    match Token.readAll source.toList with
    | .ok tokens =>
        match readTerm [] tokens with
        | .ok t => .ok t
        | .error fault => .error ⟨source, fault⟩
    | .error [] => .error ⟨source, .endOfInput⟩
    | .error (c :: suffix) =>
        .error ⟨source, .character c (source.toList.length - (suffix.length + 1))⟩

end Term
end EventCalculus

import EventCalculus.Numeric.Literal
import EventCalculus.Value.Basic

/-!
# Sizes of audit logs

The limit of a log is given in megabytes and multiplied by the bytes of one.  A
text is multiplied by copying it, so it never gives a size: its copies in a row
have too many digits, or they are no numeral.
-/

namespace EventCalculus

/-- The bytes of a megabyte. -/
def bytesPerMegabyte : Nat := 1048576

/-- Why a size in megabytes is no number of bytes. -/
inductive SizeFault where
  | infinite
  | undefined
  | kind
  | tooManyDigits (count : Nat)
  | numeral (source : String)
deriving DecidableEq

namespace SizeFault

/-- The beginning of a text that repeats another one; it is longer than what is shown of it. -/
def repeatedText (s : String) : String :=
  String.ofList (List.replicate LiteralFault.shownLength s.toList).flatten

/-- What is said about a size that is no number of bytes. -/
def message : SizeFault -> String
  | .infinite => "cannot convert float infinity to integer"
  | .undefined => "cannot convert float NaN to integer"
  | .kind => "size of an unexpected kind"
  | .tooManyDigits count => tooManyDigitsMessage count
  | .numeral source => noIntegerMessage (repeatedText source)

end SizeFault

/-- Why the copies of a text in a row are no size.  If other characters than digits and
underscores occur, two copies show where the digits in front end. -/
def repeatedFault (s : String) : SizeFault :=
  match Literal.digits? s.toList with
  | some digits => .tooManyDigits (bytesPerMegabyte * digits.length)
  | none =>
      match Literal.readInteger (s ++ s) with
      | .error (.tooManyDigits count) => .tooManyDigits count
      | _ => .numeral s

/-- The bytes of a size in megabytes, without fraction. -/
def bytesOfMegabytes : Value -> Except SizeFault Int
  | .number (.int n) => .ok (n * bytesPerMegabyte)
  | .number (.float x) =>
      match x.scaleTruncate? 20 with
      | some n => .ok n
      | none => .error .infinite
  | .bool b => .ok (if b then bytesPerMegabyte else 0)
  | .nan => .error .undefined
  | .text s => .error (repeatedFault s)
  | .null | .list _ | .object _ | .term _ => .error .kind

end EventCalculus

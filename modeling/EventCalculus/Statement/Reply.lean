import EventCalculus.Json.Parser
import EventCalculus.Text.Blank

/-!
# JSON in replies

A reply may wrap its JSON in a fence: a first and a last line of three backquotes.
All lines that start so are dropped before the rest is read.
-/

namespace EventCalculus

/-- Three backquotes. -/
def fence : List Char :=
  List.replicate 3 (Char.ofNat 0x60)

/-- The characters start with a fence. -/
def startsWithFence (cs : List Char) : Bool :=
  fence.isPrefixOf cs

/-- The characters without the lines that start with a fence. -/
def dropFences (cs : List Char) : List Char :=
  Text.joinPieces '\n' ((Text.pieces '\n' cs).filter fun line => !startsWithFence line)

/-- The JSON source in a reply. -/
def jsonSource (reply : String) : String :=
  let cs := Text.trimChars reply.toList
  String.ofList (if startsWithFence cs then dropFences cs else cs)

/-- The value in a reply. -/
def readReply (reply : String) : Except Json.ReadFault Value :=
  Json.parse (jsonSource reply)

end EventCalculus

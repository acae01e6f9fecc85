/-!
# Ranges of code points

Character classes are kept as lists of closed ranges of code points.
-/

namespace EventCalculus
namespace Text

/-- Membership in a list of closed ranges. -/
def inRanges (ranges : List (Nat × Nat)) (n : Nat) : Bool :=
  ranges.any fun range => range.1 ≤ n && n ≤ range.2

end Text
end EventCalculus

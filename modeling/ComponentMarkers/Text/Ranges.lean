/-!
# Classes of characters given by ranges

A class of characters is an ascending array of closed ranges of code points.  Membership is decided
by bisection.
-/

namespace ComponentMarkers.Text

/-- Bisection for `code` among the ranges with index at least `low` and below `low + count`. -/
def inRangesFrom (table : Array (Nat × Nat)) (code : Nat) (low count : Nat) : Bool :=
  if count = 0 then
    false
  else
    let middle := low + count / 2
    match table[middle]? with
    | none => false
    | some (first, last) =>
      if code < first then
        inRangesFrom table code low (count / 2)
      else if last < code then
        inRangesFrom table code (middle + 1) (count - count / 2 - 1)
      else
        true
  termination_by count

/-- `c` lies in one of the ranges of an ascending table. -/
def inRanges (table : Array (Nat × Nat)) (c : Char) : Bool :=
  inRangesFrom table c.toNat 0 table.size

end ComponentMarkers.Text

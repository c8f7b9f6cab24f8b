/-!
# Sets of characters by their boundaries

A set of characters is given by the ascending code points at which membership begins and ends
in turn.  A character belongs to it when an odd number of boundaries lie at or below it.
-/

namespace ColumnConnector.Text

def withinBounds (bounds : List Nat) (c : Char) : Bool :=
  (bounds.takeWhile (· ≤ c.toNat)).length % 2 == 1

end ColumnConnector.Text

/-!
# The version clock

All tables of a store take their timestamps from one clock.  For each timestamp it reads the time of
day, a time before the epoch counting as zero, and it steps ahead of the time of day where two
writes would otherwise get the same timestamp.
-/

namespace ColumnConnector

/-- The time of day in milliseconds, as it is going to be read, and the last timestamp given. -/
structure Clock where
  now : Int64 := 0
  /-- What is read after `now`, one time for each timestamp; then the time of day stands still. -/
  later : List Int64 := []
  last : Int64 := 0
deriving DecidableEq, Repr

namespace Clock

/-- The next timestamp: the time of day, or just after the last timestamp. -/
def next (c : Clock) : Int64 :=
  let time := if c.now < 0 then 0 else c.now
  if time < c.last + 1 then c.last + 1 else time

/-- The clock when the next timestamp is given out. -/
def tick (c : Clock) : Clock where
  now := c.later.headD c.now
  later := c.later.tail
  last := c.next

end Clock

end ColumnConnector

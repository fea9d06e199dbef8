/-!
# Logical time

A moment of logical time is an integer between two ends, those of 64 bits. Sums that would leave the
range stop at its end.
-/

namespace StreamQuery

namespace Time

/-- The first moment that can be represented. -/
def earliest : Int := -0x8000000000000000

/-- The last moment that can be represented. -/
def latest : Int := 0x7FFFFFFFFFFFFFFF

/-- The moment `span` after `time`, at most the last one. -/
def after (time span : Int) : Int :=
  min (time + span) latest

end Time

/-- A clock that hands out successive arrival times. -/
structure LogicalClock where
  /-- The time that the next tick hands out. -/
  next : Int := 0
  deriving DecidableEq

namespace LogicalClock

/-- Hands out the next time. -/
def tick (clock : LogicalClock) : Int × LogicalClock :=
  (clock.next, { next := clock.next + 1 })

/-- The time that the next tick hands out. -/
def peek (clock : LogicalClock) : Int :=
  clock.next

end LogicalClock

end StreamQuery

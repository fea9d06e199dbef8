import StreamQuery.Tuple

/-!
# Channels

A channel is the first-in first-out queue between two operators. A protected channel also keeps a
backup of every tuple it receives, so that a consumer can start over; only eviction by low-water
mark takes tuples out of the backup.
-/

namespace StreamQuery

/-- A queue of tuples with an optional backup. -/
structure Channel where
  /-- The tuples that wait for the consumer, oldest first. -/
  queue : List Tuple := []
  /-- The tuples that can be delivered again, oldest first. -/
  backup : List Tuple := []
  /-- Whether received tuples go into the backup. -/
  isProtected : Bool := false

namespace Channel

/-- Receives a tuple. -/
def enqueue (channel : Channel) (tuple : Tuple) : Channel :=
  { channel with
    queue := channel.queue ++ [tuple]
    backup := if channel.isProtected then channel.backup ++ [tuple] else channel.backup }

/-- Receives several tuples in order. -/
def enqueueAll (channel : Channel) (tuples : List Tuple) : Channel :=
  tuples.foldl enqueue channel

/-- The oldest waiting tuple. -/
def peek? (channel : Channel) : Option Tuple :=
  channel.queue.head?

/-- Takes the oldest waiting tuple out of the queue. -/
def dequeue? (channel : Channel) : Option (Tuple × Channel) :=
  match channel.queue with
  | [] => none
  | tuple :: queue => some (tuple, { channel with queue })

/-- Drops the waiting tuples; the backup stays. -/
def clear (channel : Channel) : Channel :=
  { channel with queue := [] }

/-- Turns the backup on or off. Turning it off forgets it. -/
def setProtected (channel : Channel) (isProtected : Bool) : Channel :=
  { channel with
    isProtected
    backup := if isProtected then channel.backup else [] }

/-- Lets the backup wait in place of the queue. -/
def recover (channel : Channel) : Channel :=
  { channel with queue := channel.backup }

/-- Drops backup tuples whose low-water mark lies before `mark`. -/
def evictBefore (channel : Channel) (mark : Int) : Channel :=
  { channel with backup := channel.backup.filter fun tuple => mark ≤ tuple.lowWater }

/-- Drops backup tuples from before `mark` and lets the others wait in place of the queue. -/
def evictAndRewind (channel : Channel) (mark : Int) : Channel :=
  (channel.evictBefore mark).recover

end Channel

end StreamQuery

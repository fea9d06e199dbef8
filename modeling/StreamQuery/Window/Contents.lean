import StreamQuery.Tuple

/-!
# Window contents

What an operator sees of a window: its tuples, and the mark before which no later window needs
input. A window is consistent if no relation was read at two different versions.
-/

namespace StreamQuery

/-- The tuples of a window and the mark of the following one. -/
structure Contents where
  /-- The tuples in order of arrival. -/
  tuples : List Tuple
  /-- The oldest time that the following window still needs. -/
  mark : Int

namespace Contents

/-- The tuple that arrived last. -/
def newest? (contents : Contents) : Option Tuple :=
  contents.tuples.getLast?

/-- The smallest low-water mark. -/
def lowWater? (contents : Contents) : Option Int :=
  (contents.tuples.map Tuple.lowWater).min?

/-- The latest arrival. -/
def highWater? (contents : Contents) : Option Int :=
  (contents.tuples.map Tuple.arrival).max?

/-- All stamps of the tuples, in order. -/
def stampEntries (contents : Contents) : List (RelationId × Nat) :=
  contents.tuples.flatMap fun tuple => tuple.stamps.entries

/-- Whether every relation was read at one version only. -/
def isConsistent (contents : Contents) : Bool :=
  contents.stampEntries.all fun entry => contents.stampEntries.lookup entry.1 = some entry.2

end Contents

end StreamQuery

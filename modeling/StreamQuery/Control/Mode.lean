import StreamQuery.Control.Error

/-!
# Concurrency control modes

How a query keeps the windows it commits free of mixed relation versions.
-/

namespace StreamQuery

/-- A concurrency control protocol. -/
inductive Mode where
  /-- Windows are emitted as they are. -/
  | uncontrolled
  /-- A window with mixed versions is discarded and computed again. -/
  | optimistic
  /-- Relations stay locked until the transaction that read them ends. -/
  | twoPhaseLocking
  /-- Relations are read from copies that are renewed when a transaction ends. -/
  | snapshot
  deriving DecidableEq

namespace Mode

/-- Whether conflicts are prevented, by locks or copies, and not repaired. -/
def isPessimistic : Mode → Bool
  | uncontrolled => false
  | optimistic => false
  | twoPhaseLocking => true
  | snapshot => true

/-- The name by which a mode is chosen. -/
def name : Mode → String
  | uncontrolled => "none"
  | optimistic => "optimistic"
  | twoPhaseLocking => "2pl"
  | snapshot => "snapshot"

/-- The name of a mode in descriptions of internal state. -/
def label : Mode → String
  | uncontrolled => "None"
  | optimistic => "Optimistic"
  | twoPhaseLocking => "TwoPhaseLocking"
  | snapshot => "Snapshot"

/-- The mode with a name, in upper or lower case of the basic Latin letters. -/
def parse (text : String) : Except ControlError Mode :=
  let folded := text.map Char.toLower
  match [uncontrolled, optimistic, twoPhaseLocking, snapshot].find? (·.name = folded) with
  | some mode => .ok mode
  | none => .error (.unknownMode folded)

end Mode

end StreamQuery

import StreamQuery.Proofs.Engine.JoinRuns
import StreamQuery.Proofs.Window.RowReports
import StreamQuery.Proofs.Window.SpanReports

/-!
# Joins of windows

Which windows a join pairs when one of its sides completes a window. A side with windows of rows
shows the window that it completed last until it completes the next one. A side with windows of time
shows the window that is open: the tuple that completes a window has already left it behind.
-/

namespace StreamQuery

/-! ## What a side shows -/

namespace Window

/-- The tuples of the window that was reported last. -/
def lastReported (window : Window) (tuples : List Tuple) : List Tuple :=
  ((SynopsisLog.ofTuples window tuples).reports.flatten.getLast?.map Contents.tuples).getD []

/-- The tuples that did not arrive before the open window of time began. -/
def openSpan (window : Window) (tuples : List Tuple) : List Tuple :=
  since ((window.opening? tuples.reverse).getD 0) tuples.reverse

/-- The tuples that a side of a join shows. -/
def visible (window : Window) (tuples : List Tuple) : List Tuple :=
  match window.kind with
  | .rows => window.lastReported tuples
  | .time => window.openSpan tuples

variable {window : Window}

theorem completions_of_rows (rows : window.kind = .rows) (tuples : List Tuple) :
    window.completions tuples = window.rowCount tuples.length :=
  (slidesOver_ofTuples rows tuples).count_eq

theorem shown_of_rows (rows : window.kind = .rows) {tuples : List Tuple}
    (full : window.width ≤ tuples.length) :
    window.shown tuples = window.nthRows tuples (window.rowCount tuples.length - 1) := by
  rw [shown, (slidesOver_ofTuples rows tuples).tuples_eq, if_neg (Nat.not_lt.mpr full)]

/-- A window of rows stays visible until the next one is complete. -/
theorem lastReported_of_rows (rows : window.kind = .rows) {tuples : List Tuple}
    (full : window.width ≤ tuples.length) :
    window.lastReported tuples =
      window.nthRows tuples (window.rowCount tuples.length - 1) := by
  have slides := slidesOver_ofTuples rows tuples
  have last_lt := Nat.sub_one_lt_of_lt (window.rowCount_pos_iff.mpr full)
  obtain ⟨contents, report, turn, _⟩ := slides.reported _ last_lt
  rw [lastReported, List.getLast?_eq_getElem?, slides.count_eq, turn]
  exact report.tuples_eq

/-- Once a window is complete, a side shows the last one, or the open one if it is of time. -/
theorem shown_eq_visible {tuples : List Tuple} (completes : 0 < window.completions tuples) :
    window.shown tuples = window.visible tuples := by
  rw [visible]
  cases kind_eq : window.kind with
  | rows =>
      have full : window.width ≤ tuples.length := by
        rwa [completions_of_rows kind_eq, rowCount_pos_iff] at completes
      exact (shown_of_rows kind_eq full).trans (lastReported_of_rows kind_eq full).symm
  | time =>
      have shows := SynopsisLog.shows_ofTuples window tuples
      rw [shown]
      generalize (SynopsisLog.ofTuples window tuples).synopsis = synopsis at shows ⊢
      cases shows with
      | rows is_rows _ => cases kind_eq.symm.trans is_rows
      | time _ shows => exact shows.tuples_eq 0

end Window

/-! ## What is joined -/

variable {header : OperatorHeader} {logic : JoinLogic} {left right : Nat}
  {deliveries : List Delivery} {world : World}

theorem World.JoinsWindows.congr {pairs pairs' : Prop} {shown shown' : Side → List Tuple}
    (joins : world.JoinsWindows header logic left right pairs shown) (pairs_iff : pairs' ↔ pairs)
    (shown_eq : pairs' → ∀ side, shown' side = shown side) :
    world.JoinsWindows header logic left right pairs' shown' where
  silent not_joined := joins.silent (mt pairs_iff.mpr not_joined)
  joined is_joined compares := by
    rw [shown_eq is_joined .left, shown_eq is_joined .right] at compares ⊢
    exact joins.joined (pairs_iff.mp is_joined) compares

/-- A join of the operators with the numbers 0 and 1. -/
def pairingHeader : OperatorHeader where
  id := 2
  name := "J"
  schema := ⟨[]⟩

/-- The logic of a join that pairs all tuples of two windows. -/
def pairing (leftWindow rightWindow : Window) : JoinLogic where
  leftWindow := leftWindow
  rightWindow := rightWindow
  condition := .always

/-- A new join for which tuples with some times of arrival wait. -/
def pairingWorld (logic : JoinLogic) (lefts rights : List Int) : World where
  cells :=
    [{ output := { queue := lefts.map Tuple.blankAt }, memory := .source {} },
      { output := { queue := rights.map Tuple.blankAt }, memory := .source {} },
      { memory := .join
          { left := { synopsis := .ofWindow logic.leftWindow }
            right := { synopsis := .ofWindow logic.rightWindow } } }]
  catalog := { relations := [], access := { mode := .uncontrolled } }

theorem pairingHeader_joins : pairingHeader.Joins 0 1 := by
  constructor <;> decide

/-! ## Windows of rows -/

/-- A join of windows of rows pairs the windows that were completed last, whenever a side completes
one and both sides have completed one. -/
theorem row_windows_joined (run : JoinRun header logic left right deliveries world)
    (joins : header.Joins left right) (rows : ∀ side, (logic.window side).kind = .rows)
    (data : ∀ side, ∀ tuple ∈ (world.delivery left right).on side, tuple.isEndOfStream = false) :
    world.JoinsWindows header logic left right
      ((∃ side, (logic.window side).rowCount (received deliveries side).length <
          (logic.window side).rowCount
            (received (deliveries ++ [world.delivery left right]) side).length) ∧
        ∀ side, (logic.window side).width ≤
          (received (deliveries ++ [world.delivery left right]) side).length)
      fun side => (logic.window side).nthRows
        (received (deliveries ++ [world.delivery left right]) side)
        ((logic.window side).rowCount
          (received (deliveries ++ [world.delivery left right]) side).length - 1) := by
  refine (run.joinsWindows joins data).congr ?_ fun ready side => ?_
  · simp only [Window.completions_of_rows (rows _), Window.rowCount_pos_iff]
    refine and_congr_right fun _ => forall_congr' fun side => ?_
    refine ⟨fun full => ⟨full, ?_⟩, And.left⟩
    rw [Window.shown_of_rows (rows side) full]
    exact Window.nthRows_ne_nil ((logic.window side).last_complete full)
  · exact (Window.shown_of_rows (rows side) (ready.2 side)).symm

/-- Pairs of tuples on the left with each tuple on the right. -/
def rowPairing : JoinLogic :=
  pairing (.rows 2 2) (.rows 1 1)

/-- The first tuples have been taken, and one more waits on the left. -/
def rowPairingWorld : World :=
  ((pairingWorld rowPairing [0, 2] [1]).evaluateJoin pairingHeader rowPairing 0 1).1

/-- The first full window on the left is joined. -/
theorem rowPairing_joins_windows :
    ∃ lowest, IsLeast {time | time ∈ [0, 2, 1]} lowest ∧
      rowPairingWorld.JoinSends pairingHeader rowPairing 0 1
        (Condition.always.joined ⟨[]⟩ lowest [.blankAt 0, .blankAt 2] [.blankAt 1]) := by
  have run : JoinRun pairingHeader rowPairing 0 1
      [(pairingWorld rowPairing [0, 2] [1]).delivery 0 1] rowPairingWorld := .evaluate (.start rfl)
  have joins := row_windows_joined run pairingHeader_joins (by rintro (_ | _) <;> rfl)
    (by rintro (_ | _) _ ⟨⟩; rfl)
  exact joins.joined ⟨⟨.left, by decide⟩, by rintro (_ | _) <;> decide⟩
    fun _ _ _ _ => ⟨true, rfl⟩

/-! ## Windows of time -/

/-- Whenever a side completes a window, and both sides have completed one, a join pairs the windows
of rows that were completed last and the windows of time that are open. -/
theorem visible_windows_joined (run : JoinRun header logic left right deliveries world)
    (joins : header.Joins left right)
    (data : ∀ side, ∀ tuple ∈ (world.delivery left right).on side, tuple.isEndOfStream = false) :
    world.JoinsWindows header logic left right
      ((∃ side, (logic.window side).completions (received deliveries side) <
          (logic.window side).completions
            (received (deliveries ++ [world.delivery left right]) side)) ∧
        ∀ side, 0 < (logic.window side).completions
            (received (deliveries ++ [world.delivery left right]) side) ∧
          (logic.window side).visible
            (received (deliveries ++ [world.delivery left right]) side) ≠ [])
      fun side => (logic.window side).visible
        (received (deliveries ++ [world.delivery left right]) side) := by
  refine (run.joinsWindows joins data).congr (and_congr_right fun _ => forall_congr' fun side =>
    and_congr_right fun completes => ?_) fun ready side => ?_
  · rw [Window.shown_eq_visible completes]
  · exact (Window.shown_eq_visible (ready.2 side).1).symm

/-- Windows of time on the left, with single tuples on the right. -/
def spanPairing : JoinLogic :=
  pairing (.time 2 2) (.rows 1 1)

/-- What the join has taken at first: a tuple that arrived at 0 from each side. -/
def spanDeliveries : List Delivery :=
  [(pairingWorld spanPairing [0, 10] [0]).delivery 0 1]

/-- A tuple that arrived at 10 waits on the left. -/
def spanPairingWorld : World :=
  ((pairingWorld spanPairing [0, 10] [0]).evaluateJoin pairingHeader spanPairing 0 1).1

theorem spanPairing_run :
    JoinRun pairingHeader spanPairing 0 1 spanDeliveries spanPairingWorld :=
  .evaluate (.start rfl)

theorem spanPairing_data (side : Side) :
    ∀ tuple ∈ (spanPairingWorld.delivery 0 1).on side, tuple.isEndOfStream = false := by
  cases side with
  | left =>
      rintro tuple ⟨⟩
      rfl
  | right => nofun

/-- The tuple that completes the window on the left is joined itself. -/
theorem spanPairing_joins_open_span :
    ∃ sent, spanPairingWorld.JoinSends pairingHeader spanPairing 0 1 sent ∧
      sent.map Tuple.arrival = [10] := by
  have joins := visible_windows_joined spanPairing_run pairingHeader_joins spanPairing_data
  obtain ⟨lowest, _, sends⟩ := joins.joined
    ⟨⟨.left, by decide +kernel⟩, by rintro (_ | _) <;> decide +kernel⟩
    fun _ _ _ _ => ⟨true, rfl⟩
  refine ⟨_, sends, ?_⟩
  rw [Condition.map_arrival_joined]
  decide +kernel

/-- What is joined need not be the window that was completed: the window of the tuple that arrived
at 0 is, but only the tuple that arrived at 10 is joined. -/
theorem completed_span_not_joined :
    ¬∀ (header : OperatorHeader) (logic : JoinLogic) (left right : Nat)
      (deliveries : List Delivery) (world : World),
      JoinRun header logic left right deliveries world → header.Joins left right →
      (∃ side, (logic.window side).kind = .time) →
      (∀ side, ∀ tuple ∈ (world.delivery left right).on side, tuple.isEndOfStream = false) →
      world.JoinsWindows header logic left right
        ((∃ side, (logic.window side).completions (received deliveries side) <
            (logic.window side).completions
              (received (deliveries ++ [world.delivery left right]) side)) ∧
          ∀ side, 0 < (logic.window side).completions
            (received (deliveries ++ [world.delivery left right]) side))
        fun side => (logic.window side).lastReported
          (received (deliveries ++ [world.delivery left right]) side) := by
  intro claim
  have joins := claim pairingHeader spanPairing 0 1 spanDeliveries spanPairingWorld
    spanPairing_run pairingHeader_joins ⟨.left, rfl⟩ spanPairing_data
  obtain ⟨lowest, _, sends⟩ := joins.joined
    ⟨⟨.left, by decide +kernel⟩, by rintro (_ | _) <;> decide +kernel⟩
    fun _ _ _ _ => ⟨true, rfl⟩
  have claimed : ((spanPairingWorld.evaluateJoin pairingHeader spanPairing 0 1).1.output
      pairingHeader.id).queue.map Tuple.arrival = [0] := by
    rw [sends.output_eq, Channel.enqueueAll_queue, List.map_append, Condition.map_arrival_joined]
    decide +kernel
  have sent : ((spanPairingWorld.evaluateJoin pairingHeader spanPairing 0 1).1.output
      pairingHeader.id).queue.map Tuple.arrival = [10] := by
    decide +kernel
  exact absurd (claimed.symm.trans sent) (by decide)

end StreamQuery

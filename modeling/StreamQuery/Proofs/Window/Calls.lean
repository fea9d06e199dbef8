import Mathlib.Data.List.Induction
import StreamQuery.Proofs.Window.Completed
import StreamQuery.Proofs.Window.Reports

/-!
# Calls of synopses

A synopsis is told, in any order, to accept tuples and to start over. What it remembers, and what it
has reported since it was made or last started over, depends only on the tuples that it has accepted
since then.
-/

namespace StreamQuery

/-- What a synopsis is told to do. -/
inductive SynopsisCall where
  | accept (tuple : Tuple)
  | reset

namespace SynopsisCall

/-- The tuples accepted since the last reset, after one more call. -/
def extend (tuples : List Tuple) : SynopsisCall → List Tuple
  | accept tuple => tuples ++ [tuple]
  | reset => []

/-- The tuples that are accepted after the last reset, oldest first. -/
def accepted (calls : List SynopsisCall) : List Tuple :=
  calls.foldl extend []

theorem accepted_append_accept (calls : List SynopsisCall) (tuple : Tuple) :
    accepted (calls ++ [accept tuple]) = accepted calls ++ [tuple] :=
  List.foldl_append

theorem accepted_append_reset (calls : List SynopsisCall) : accepted (calls ++ [reset]) = [] :=
  List.foldl_append

end SynopsisCall

/-- A synopsis with the windows that each tuple since the last reset has completed. -/
structure SynopsisLog where
  /-- The synopsis. -/
  synopsis : Synopsis
  /-- The completed windows, in one list for each tuple. -/
  reports : List (List Contents) := []

namespace SynopsisLog

/-- What a call makes of a synopsis and its reports. -/
def perform (log : SynopsisLog) : SynopsisCall → SynopsisLog
  | .accept tuple =>
    { synopsis := (log.synopsis.enqueue tuple).1
      reports := log.reports ++ [(log.synopsis.enqueue tuple).2] }
  | .reset => { synopsis := log.synopsis.reset }

/-- The synopsis of a window, with its reports, after some calls. -/
def ofCalls (window : Window) (calls : List SynopsisCall) : SynopsisLog :=
  calls.foldl perform { synopsis := .ofWindow window }

/-- The synopsis of a window, with its reports, after some tuples. -/
def ofTuples (window : Window) (tuples : List Tuple) : SynopsisLog where
  synopsis := (Synopsis.ofWindow window).enqueueAll tuples
  reports := (Synopsis.ofWindow window).reports tuples

theorem ofTuples_append_singleton (window : Window) (tuples : List Tuple) (tuple : Tuple) :
    ofTuples window (tuples ++ [tuple]) = (ofTuples window tuples).perform (.accept tuple) := by
  rw [ofTuples, Synopsis.enqueueAll_append, Synopsis.reports_append]
  rfl

theorem reports_ofTuples_append_singleton (window : Window) (tuples : List Tuple) (tuple : Tuple) :
    (ofTuples window (tuples ++ [tuple])).reports = (ofTuples window tuples).reports ++
      [((ofTuples window tuples).synopsis.enqueue tuple).2] := by
  rw [ofTuples_append_singleton]
  rfl

/-- The synopsis shows what the window makes of the tuples. -/
theorem shows_ofTuples (window : Window) (tuples : List Tuple) :
    (ofTuples window tuples).synopsis.Shows window tuples.reverse := by
  induction tuples using List.reverseRecOn with
  | nil => exact Synopsis.shows_ofWindow window
  | append_singleton tuples tuple induction =>
      rw [ofTuples_append_singleton, List.reverse_append]
      exact (induction.enqueue tuple).1

/-- Only the tuples since the last reset count. -/
theorem ofCalls_eq (window : Window) (calls : List SynopsisCall) :
    ofCalls window calls = ofTuples window (SynopsisCall.accepted calls) := by
  induction calls using List.reverseRecOn with
  | nil => rfl
  | append_singleton calls call induction =>
      rw [ofCalls, List.foldl_append, ← ofCalls, induction]
      cases call with
      | accept tuple =>
          rw [SynopsisCall.accepted_append_accept, ofTuples_append_singleton]
          rfl
      | reset =>
          have forgotten : ((Synopsis.ofWindow window).enqueueAll
              (SynopsisCall.accepted calls)).reset = Synopsis.ofWindow window := by
            rw [Synopsis.reset_enqueueAll, Synopsis.reset_ofWindow]
          rw [SynopsisCall.accepted_append_reset]
          exact congrArg (fun synopsis => ({ synopsis } : SynopsisLog)) forgotten

end SynopsisLog

namespace Window

/-- The windows that some tuples complete, in order. -/
def contentsOf (window : Window) (tuples : List Tuple) : List Contents :=
  (SynopsisLog.ofTuples window tuples).reports.flatten

theorem contentsOf_append_singleton (window : Window) (tuples : List Tuple) (tuple : Tuple) :
    window.contentsOf (tuples ++ [tuple]) = window.contentsOf tuples ++
      ((SynopsisLog.ofTuples window tuples).synopsis.enqueue tuple).2 := by
  rw [contentsOf, SynopsisLog.reports_ofTuples_append_singleton, List.flatten_append,
    List.flatten_singleton]
  rfl

/-- Windows that are complete stay what they are when more tuples arrive. -/
theorem contentsOf_prefix (window : Window) (tuples later : List Tuple) :
    window.contentsOf tuples <+: window.contentsOf (tuples ++ later) := by
  rw [contentsOf, contentsOf, SynopsisLog.ofTuples, SynopsisLog.ofTuples, Synopsis.reports_append,
    List.flatten_append]
  exact List.prefix_append _ _

end Window

end StreamQuery

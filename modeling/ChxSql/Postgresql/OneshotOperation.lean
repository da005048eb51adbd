import ChxSql.Incremental.System
import ChxSql.Postgresql.Asynchronous
import ChxSql.Postgresql.ExecuteAnswers
import ChxSql.Postgresql.OneshotSimulation

namespace ChxSql.Postgresql.Oneshot

open Incremental

-- The completions of what `async_execute_oneshot` has started: the write (without an error) and the
-- reads. What is left in the buffer of the connection is parsed before anything else, like a read.
inductive Event where
  | written
  | read (bs : Bytes)
  deriving DecidableEq

-- `reader` is what `do_parse` works with, until it has completed. `completions` are the arguments of
-- the calls of `complete()`.
structure Execution where
  reader      : Option (Dialogue.State State)
  written     : Bool := false
  completions : List Report := []

namespace Execution

def parse (x : Execution) (s : Dialogue.State State) (bs : Bytes) : Option Execution :=
  match oneshot.doParse s bs with
  | .more s _              => some { x with reader := some s }
  | .done r _              => some { x with reader := none, completions := x.completions ++ [r] }
  | .fail (.malformed r) _ => some { x with reader := none, completions := x.completions ++ [r] }
  | .fail .undefined _     => none

-- Completing moves the result sets out of the operation.
def step (x : Execution) : Event → Option Execution
  | .written =>
    match x.written, x.reader with
    | true,  _      => none
    | false, none   => some { x with written := true, completions := x.completions ++ [{ ec := .none }] }
    | false, some s => some {
      reader      := some { s with ctl := { s.ctl with result := [] } }
      written     := true
      completions := x.completions ++ [{ ec := .none, resultSets := s.ctl.result }]
    }
  | .read bs => x.reader.bind (x.parse · bs)

end Execution

def system : System Execution Event where
  start := { reader := some oneshot.fresh }
  step  := Execution.step

-- Which of the calls of `complete()` the handler of the user is called with.
inductive Policy where
  | first
  | last
  deriving DecidableEq

def Policy.received : Policy → List Report → Option Report
  | first, rs => rs.head?
  | last,  rs => rs.getLast?

def Event.bytes : Event → Bytes
  | written => []
  | read bs => bs

-- What is read, and what of it is read before the write completes.
def bytes (es : List Event) : Bytes :=
  es.flatMap Event.bytes

-- The responses to Parse, Bind, Describe, Execute and Sync that `oneshot` accepts: a ParseComplete
-- and what `execute` accepts, or an ErrorResponse instead of the ParseComplete. They end with the
-- ReadyForQuery.
inductive Response : List ServerMessage → Prop
  | parsed {ns ms xs z} : (∀ n ∈ ns, n.IsNotice) → (∀ m ∈ ms, m.content.AnswersExecute) →
    ServerMessage.RowsFit none ms → Execute.Answered ms xs z [] → Response (ns ++ .parseComplete :: ms)
  | refused {ms xs z k} : (∀ m ∈ ms, m.content.AnswersExecute) → Execute.Answered ms xs z [] →
    ServerMessage.kinds xs = .replicate (k + 1) .errorResponse → Response ms

end ChxSql.Postgresql.Oneshot

import ChxSql.Postgresql.OneshotResponse

namespace ChxSql.Postgresql

open Incremental Msg ServerMessage

namespace Oneshot

variable {s s' : State} {rs : ResultSets} {m : AnyMessage} {type : Byte} {bs : Bytes}

section

variable {x x' : Execution} {es : List Event} {cs : List Bytes}

-- What has become of the reading side after some reads.
inductive Reads (x : Execution) (s : Dialogue.State State) (cs : List Bytes) : Execution → Prop
  | more {s' : Dialogue.State State} : feed oneshot.doParse s cs = (.more s' [], []) →
    Reads x s cs { x with reader := some s' }
  | done {r left} : feed oneshot.doParse s cs = (.done r left, []) →
    Reads x s cs { x with reader := none, completions := x.completions ++ [r] }
  | fail {r left} : feed oneshot.doParse s cs = (.fail (.malformed r) left, []) →
    Reads x s cs { x with reader := none, completions := x.completions ++ [r] }

end

end Oneshot

end ChxSql.Postgresql

import ChxSql.Incremental.Pausing
import ChxSql.Postgresql.ErrorReporting
import ChxSql.Postgresql.ExecuteLanguage
import ChxSql.Postgresql.Startup

namespace ChxSql.Postgresql.Connect

open Incremental Msg ServerMessage

-- The operation pauses when it has something to write.
def writes (s s' : State) : Bool :=
  s'.ctl.sent ≠ s.ctl.sent

variable (para : ConnectParameters)

-- What the operation does between a read or a write and the next one.
def doReadOrWrite (s : State) (bs : Bytes) : Step Byte State (State ⊕ Report) (Failure Report) :=
  ((loop para).pausing writes).run s bs

variable {para} {ctl ctl' : Ctl} {f : Frame} {r : Report} {rest : Bytes}
variable {m ask ok z : ServerMessage} {ds ss : List ServerMessage} {sent : List Bytes}

end ChxSql.Postgresql.Connect

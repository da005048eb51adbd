import ChxSql.Incremental.System

namespace ChxSql.Hiredis

open Incremental

-- hiredis asks to be told when its socket can be read and when it can be written to.
inductive Direction where
  | read
  | write
  deriving DecidableEq

-- `POLLIN` and `POLLOUT`
def Direction.event : Direction → Nat
  | read  => 0x001
  | write => 0x004

-- What an `async_poll` completes with: whether there is an error, and the events.
structure Completion where
  error  : Bool
  events : Nat
  deriving DecidableEq

-- The completion tells that the socket is ready.
def Completion.ready (x : Completion) (d : Direction) : Bool :=
  !x.error && x.events &&& d.event != 0

-- A poll whose handler has not been called yet. It may have been cancelled, and it may have
-- completed.
structure Poll where
  cancelled  : Bool := false
  completion : Option Completion := none
  deriving DecidableEq

-- `__M_poll_read` and `__M_poll_read_cancelled`, or the same for writing. The signal is represented
-- by what it tests as; the polls are those that have been started, in their order.
structure Channel where
  poll      : Bool := false
  cancelled : Bool := false
  polls     : List Poll := []
  deriving DecidableEq

namespace Channel

-- The signal is bound to the poll that has been started last.
def emit : List Poll → List Poll
  | []      => []
  | [p]     => [{ p with cancelled := true }]
  | p :: ps => p :: emit ps

def add (c : Channel) : Channel :=
  if c.poll then c else { poll := true, cancelled := false, polls := c.polls ++ [{}] }

def del (c : Channel) : Channel :=
  if !c.poll || c.cancelled then c else { c with cancelled := true, polls := emit c.polls }

-- Whether the handler of a poll calls `redisAsyncHandleRead` (or `redisAsyncHandleWrite`).
def calls (c : Channel) (d : Direction) (x : Completion) : Bool :=
  x.ready d && !c.cancelled

-- The handler of a poll.
def handle (c : Channel) (i : Nat) : Channel :=
  { c with poll := false, polls := c.polls.eraseIdx i }

-- What a poll can complete with: a poll that is cancelled with an error, and any other one with an
-- error of its own or, since the connection is live, with the event that it waits for.
def Possible (p : Poll) (d : Direction) (x : Completion) : Prop :=
  p.completion = none ∧ (x.error ∨ p.cancelled = false ∧ x.ready d)

instance (p d x) : Decidable (Possible p d x) := by
  unfold Possible
  infer_instance

end Channel

structure Connection where
  read  : Channel := {}
  write : Channel := {}
  deriving DecidableEq

inductive Event where
  | add (d : Direction)
  | del (d : Direction)
  | complete (d : Direction) (i : Nat) (x : Completion)
  | handle (d : Direction) (i : Nat)
  deriving DecidableEq

def Event.direction : Event → Direction
  | add d          => d
  | del d          => d
  | complete d _ _ => d
  | handle d _     => d

namespace Connection

def channel (c : Connection) : Direction → Channel
  | .read  => c.read
  | .write => c.write

def update (c : Connection) : Direction → Channel → Connection
  | .read,  ch => { c with read := ch }
  | .write, ch => { c with write := ch }

def addRead (c : Connection) : Connection :=
  { c with read := c.read.add }

def delRead (c : Connection) : Connection :=
  { c with read := c.read.del }

def addWrite (c : Connection) : Connection :=
  { c with write := c.write.add }

def delWrite (c : Connection) : Connection :=
  { c with write := c.write.del }

def step (c : Connection) : Event → Option Connection
  | .add .read      => some c.addRead
  | .add .write     => some c.addWrite
  | .del .read      => some c.delRead
  | .del .write     => some c.delWrite
  | .complete d i x => do
    let p ← (c.channel d).polls[i]?
    if Channel.Possible p d x then
      some (c.update d { c.channel d with
        polls := (c.channel d).polls.set i { p with completion := some x } })
    else
      none
  | .handle d i     => do
    let p ← (c.channel d).polls[i]?
    if p.completion.isSome then
      some (c.update d ((c.channel d).handle i))
    else
      none

end Connection

-- What may happen to a connection, starting with no requests.
def system : System Connection Event where
  start := {}
  step  := Connection.step

end ChxSql.Hiredis

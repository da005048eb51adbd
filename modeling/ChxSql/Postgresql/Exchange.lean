import ChxSql.Incremental.Conversation
import ChxSql.Incremental.Reading
import ChxSql.Postgresql.Answers
import ChxSql.Postgresql.StartupAsynchronous
import ChxSql.Postgresql.StartupWrites

namespace ChxSql.Postgresql

open Incremental Decoder Msg ServerMessage
open Connect (doReadOrWrite)
open StartupPacket (Parameters)

namespace Exchange

variable {α : Type}

-- What a client of the library waits for. It connects, and then it does one thing after another.
inductive Client.Stage where
  | starting
  | connecting (s : Connect.State)
  | answering (s : Connect.State)
  | sending (q : Query)
  | reading (q : Query) (s : Dialogue.State q.State)
  | over
  | aborted

-- `buffer` is `[__M_buf_begin, __M_buf_end)`, `connected` is what `async_connect` has completed with, and
-- `completions` is what the operations that came after it have completed with.
structure Client (α : Type) where
  stage       : Client.Stage
  commands    : List (Command α)
  buffer      : Bytes              := []
  connected   : Option ErrorCode   := none
  completions : List Report        := []

namespace Client

variable (toString : α → Bytes) (para : ConnectParameters)

-- The next operation, if there is another one.
def next (c : Client α) : Client α × Bytes :=
  match c.commands with
  | []          => ({ c with stage := .over }, [])
  | cmd :: cmds =>
    match cmd.request toString with
    | some request => ({ c with stage := .sending cmd.query, commands := cmds }, request)
    | none         => ({ c with stage := .aborted }, [])

-- The client does not go on without a connection.
def onConnect (c : Client α) :
    Step Byte Connect.State (Connect.State ⊕ Connect.Report) (Failure Connect.Report) → Client α × Bytes
  | .more s _              => ({ c with stage := .connecting s, buffer := [] }, [])
  | .done (.inl s) left    => ({ c with stage := .answering s, buffer := left }, s.ctl.sent.getLastD [])
  | .done (.inr r) left    =>
    if r.ec.isZero then
      next toString { c with connected := some r.ec, buffer := left }
    else
      ({ c with stage := .over, connected := some r.ec, buffer := left }, [])
  | .fail (.malformed r) left => ({ c with stage := .over, connected := some r.ec, buffer := left }, [])
  | .fail .undefined _        => ({ c with stage := .aborted }, [])

-- Nor does it go on after a malformed message.
def onQuery (c : Client α) (q : Query) :
    Step Byte (Dialogue.State q.State) Report (Failure Report) → Client α × Bytes
  | .more s _                 => ({ c with stage := .reading q s, buffer := [] }, [])
  | .done r left              => next toString { c with completions := c.completions ++ [r], buffer := left }
  | .fail (.malformed r) left =>
    ({ c with stage := .over, completions := c.completions ++ [r], buffer := left }, [])
  | .fail .undefined _        => ({ c with stage := .aborted }, [])

def hear (c : Client α) (bs : Bytes) : Client α × Bytes :=
  match c.stage with
  | .connecting s => c.onConnect toString (doReadOrWrite para s bs)
  | .reading q s  => c.onQuery toString q (q.dialogue.doParse s bs)
  | _             => (c, [])

-- What is left in the buffer is looked at before anything is read.
def wrote (c : Client α) : Option (Client α × Bytes) :=
  match c.stage with
  | .starting    => some ({ c with stage := .connecting Connect.fresh }, [])
  | .answering s => some (c.onConnect toString (doReadOrWrite para s c.buffer))
  | .sending q   => some (c.onQuery toString q (q.dialogue.doParse q.dialogue.fresh c.buffer))
  | _            => none

def party : Party (Client α) Byte where
  hear  := hear toString para
  wrote := wrote toString para

-- The client starts with a packet, unless that does not fit.
def start (commands : List (Command α)) : Client α × Bytes :=
  match Connect.startup para.username para.database with
  | some packet => ({ stage := .starting, commands }, packet)
  | none        => ({ stage := .aborted, commands }, [])

end Client

-- A server: it refuses a client at once or asks it for its password, which it may reject then. To what it is
-- asked to do later it replies.
structure Server where
  notices : List ServerMessage := []
  ask     : ServerMessage
  refuse  : Parameters → Option ServerMessage
  reject  : Parameters → Bytes → Option ServerMessage
  welcome : List ServerMessage
  reply   : Received → List ServerMessage

namespace Server

inductive Stage where
  | starting
  | authenticating (ps : Parameters)
  | serving
  | closed
  deriving DecidableEq

-- The server keeps what it has heard until that is all of a message or of a request. It remembers the requests
-- that it has executed.
structure State where
  stage    : Stage         := .starting
  buffer   : Bytes         := []
  executed : List Received := []
  deriving DecidableEq

variable (server : Server)

def onStartup (st : State) : Option Parameters → State × Bytes
  | none    => (st, [])
  | some ps =>
    match server.refuse ps with
    | none   => ({ st with stage := .authenticating ps, buffer := [] }, encode (server.notices ++ [server.ask]))
    | some m => ({ st with stage := .closed, buffer := [] }, encode (server.notices ++ [m]))

def onPassword (ps : Parameters) (st : State) : Option Bytes → State × Bytes
  | none          => (st, [])
  | some password =>
    match server.reject ps password with
    | none   => ({ st with stage := .serving, buffer := [] }, encode server.welcome)
    | some m => ({ st with stage := .closed, buffer := [] }, encode [m])

def onRequest (st : State) : Option Received → State × Bytes
  | none   => (st, [])
  | some r => ({ st with buffer := [], executed := st.executed ++ [r] }, encode (server.reply r))

def hear (st : State) (bs : Bytes) : State × Bytes :=
  let st := { st with buffer := st.buffer ++ bs }
  match st.stage with
  | .starting          => server.onStartup st (StartupPacket.packet.whole st.buffer)
  | .authenticating ps => server.onPassword ps st (StartupPacket.passwordMessage.whole st.buffer)
  | .serving           => server.onRequest st (Received.receive st.buffer)
  | .closed            => (st, [])

def party : Party State Byte where
  hear    := server.hear
  wrote _ := none

end Server

-- The client speaks first.
def system (toString : α → Bytes) (para : ConnectParameters) (server : Server) (commands : List (Command α)) :=
  Conversation.system (Client.party toString para) server.party {
    left    := (Client.start para commands).1
    right   := {}
    toLeft  := []
    toRight := (Client.start para commands).2
  }

-- What the server gets to know from the start-up packet.
def parameters (para : ConnectParameters) : Parameters :=
  [(StartupPacket.user, para.username), (StartupPacket.database, para.database)]

-- The server keeps to the protocol, it has the client's password sent, and it replies to each of the client's
-- requests with an answer, for which the user is to be told a report. The client's parameters and its requests
-- can be told to the server.
structure Proper (toString : α → Bytes) (para : ConnectParameters) (server : Server) (commands : List (Command α))
    (report : Received → Report) : Prop where
  notices  : ∀ m ∈ server.notices, m.content.Dismissable
  asks     : server.ask.content.Requests .cleartextPassword
  refuses  : ∀ m, server.refuse (parameters para) = some m → m.content.IsError
  rejects  : ∀ m, server.reject (parameters para) para.password = some m → m.content.IsError
  welcomes : ∃ ok ss z, server.welcome = ok :: (ss ++ [z]) ∧ ok.content.Requests .trustOrFinished ∧
    (∀ m ∈ ss, m.content.Dismissable ∨ m.content.IsKey) ∧ z.content.IsReady
  username : 0 ∉ para.username
  password : 0 ∉ para.password
  database : 0 ∉ para.database
  fits     : para.username.length + para.password.length + para.database.length < 2 ^ 31
  requests : ∀ cmd ∈ commands, cmd.Encodable toString
  replies  : ∀ cmd ∈ commands, Answers cmd.query (server.reply (cmd.meaning toString)) (report (cmd.meaning toString))

-- What the server does with the client.
def verdict (para : ConnectParameters) (server : Server) : Option ServerMessage :=
  (server.refuse (parameters para)).or (server.reject (parameters para) para.password)

-- What `async_connect` is to complete with.
def ec : Option ServerMessage → ErrorCode
  | none   => .none
  | some m => error [m]

-- The commands that the client gets to send.
def admitted (commands : List (Command α)) (v : Option ServerMessage) : List (Command α) :=
  if v.isNone then commands else []

section

variable (toString : α → Bytes) (para : ConnectParameters) (server : Server) (report : Received → Report)

-- What the user is to be told by the operations.
def outcome (commands : List (Command α)) : List Report :=
  commands.map fun cmd => report (cmd.meaning toString)

-- What the two of them say.
def startupPacket : Bytes :=
  (Connect.startup para.username para.database).getD []

def openingPackets : Bytes :=
  encode (server.notices ++ [(server.refuse (parameters para)).getD server.ask])

def verdictPackets : Bytes :=
  match server.reject (parameters para) para.password with
  | none   => encode server.welcome
  | some m => encode [m]

def requestPackets (cmd : Command α) : Bytes :=
  (cmd.request toString).getD []

def replyPackets (cmd : Command α) : Bytes :=
  encode (server.reply (cmd.meaning toString))

def serve (commands : List (Command α)) : Script Byte :=
  commands.map fun cmd => (requestPackets toString cmd, replyPackets toString server cmd)

variable (commands : List (Command α))

-- What the server does after it has reacted to the start-up packet.
def serverRest : Script Byte :=
  match server.refuse (parameters para) with
  | none   => (Connect.passwordMessage para.password, verdictPackets para server) ::
    serve toString server (admitted commands (verdict para server))
  | some _ => []

end

variable {toString : α → Bytes} {para : ConnectParameters} {server : Server} {commands : List (Command α)}
variable {report : Received → Report}

theorem request_eq (h : Proper toString para server commands report) {cmd : Command α} (hm : cmd ∈ commands) :
    cmd.request toString = some (requestPackets toString cmd) ∧
      Received.receive (requestPackets toString cmd) = some (cmd.meaning toString) := by
  have ⟨request, hr, hw⟩ := Command.request_received (h.requests cmd hm)
  rw [requestPackets, hr]
  exact ⟨rfl, hw⟩

theorem encode_ne_nil {ms : List ServerMessage} (h : ms ≠ []) : encode ms ≠ [] :=
  fun he => h (List.map_eq_nil_iff.mp (Frame.encodeAll_eq_nil he))

theorem admitted_of_isSome {v : Option ServerMessage} (h : v.isSome) : admitted commands v = [] := by
  rw [Option.isSome_iff_ne_none, ne_eq, ← Option.isNone_iff_eq_none] at h
  exact if_neg h

-- A command that the client gets to send is one of its commands.
theorem mem_of_admitted {v : Option ServerMessage} {done todo : List (Command α)} {cmd : Command α}
    (h : admitted commands v = done ++ cmd :: todo) : cmd ∈ commands := by
  have hm : cmd ∈ admitted commands v := by rw [h]; simp
  rw [admitted] at hm
  split at hm
  case isTrue  => exact hm
  case isFalse => cases hm

namespace Server

-- How far the server has got, and what is left of its script.
inductive At (toString : α → Bytes) (para : ConnectParameters) (server : Server) (commands : List (Command α)) :
    State → Script Byte → Prop
  | starting {buffer rest} : buffer ++ rest = startupPacket para → rest ≠ [] →
    At toString para server commands { buffer }
      ((rest, openingPackets para server) :: serverRest toString para server commands)
  | authenticating {buffer rest} : buffer ++ rest = Connect.passwordMessage para.password → rest ≠ [] →
    server.refuse (parameters para) = none →
    At toString para server commands { stage := .authenticating (parameters para), buffer }
      ((rest, verdictPackets para server) :: serve toString server (admitted commands (verdict para server)))
  | serving {done buffer rest cmd todo} : admitted commands (verdict para server) = done ++ cmd :: todo →
    buffer ++ rest = requestPackets toString cmd → rest ≠ [] →
    At toString para server commands ⟨.serving, buffer, done.map (·.meaning toString)⟩
      ((rest, replyPackets toString server cmd) :: serve toString server todo)
  | ended {stage} :
    At toString para server commands ⟨stage, [], (admitted commands (verdict para server)).map (·.meaning toString)⟩ []

theorem At.refused (stage : Stage) (hv : (verdict para server).isSome) :
    At toString para server commands { stage } [] := by
  have ha : At toString para server commands
      ⟨stage, [], (admitted commands (verdict para server)).map (·.meaning toString)⟩ [] := .ended
  rwa [admitted_of_isSome hv] at ha

-- The server waits for another request, or it has executed all of them.
theorem At.of_append (h : Proper toString para server commands report) {done todo : List (Command α)}
    (hq : admitted commands (verdict para server) = done ++ todo) : At toString para server commands
      ⟨.serving, [], done.map (·.meaning toString)⟩ (serve toString server todo) := by
  cases todo
  case nil =>
    rw [List.append_nil] at hq
    exact hq ▸ .ended
  case cons cmd todo =>
    refine .serving hq (List.nil_append _) fun he => ?_
    have hr := (request_eq h (mem_of_admitted hq)).right
    rw [he] at hr
    cases hr

end Server

namespace Client

-- The operation that has been asked for a password.
def asked (para : ConnectParameters) : Connect.State where
  ctl := ⟨.waitForAuthSuccess, [Connect.passwordMessage para.password]⟩

-- What the server's reaction to the start-up packet makes of the operation.
def opened (para : ConnectParameters) (server : Server) : Connect.State ⊕ Connect.Report :=
  match server.refuse (parameters para) with
  | none   => .inl (asked para)
  | some m => .inr { ec := error [m], sent := [] }

-- How far the client has got, and what is left of its script.
inductive At (toString : α → Bytes) (para : ConnectParameters) (server : Server) (commands : List (Command α))
    (report : Received → Report) : Client α → Script Byte → Prop
  | opening {stage s rest} : stage = .starting ∧ s = Connect.fresh ∨ stage = .connecting s →
    doReadOrWrite para s rest = .done (opened para server) [] →
    At toString para server commands report { stage, commands }
      ((rest, (serverRest toString para server commands).first) :: (serverRest toString para server commands).other)
  | judged {stage s rest} :
    stage = .answering s ∧ s = asked para ∨ stage = .connecting s →
    doReadOrWrite para s rest =
      .done (.inr { ec := ec (verdict para server), sent := [Connect.passwordMessage para.password] }) [] →
    At toString para server commands report { stage, commands }
      ((rest, (serve toString server (admitted commands (verdict para server))).first) ::
        (serve toString server (admitted commands (verdict para server))).other)
  | querying {stage done} {cmd : Command α} {s todo rest} :
    stage = .sending cmd.query ∧ s = cmd.query.dialogue.fresh ∨ stage = .reading cmd.query s →
    commands = done ++ cmd :: todo → verdict para server = none →
    cmd.query.dialogue.doParse s rest = .done (report (cmd.meaning toString)) [] →
    At toString para server commands report ⟨stage, todo, [], some .none, outcome toString report done⟩
      ((rest, (serve toString server todo).first) :: (serve toString server todo).other)
  | ended {todo} : At toString para server commands report ⟨.over, todo, [], some (ec (verdict para server)),
      outcome toString report (admitted commands (verdict para server))⟩ []

-- The client sends the next request, or it is over.
theorem At.next (h : Proper toString para server commands report) (stage : Stage) {done todo : List (Command α)}
    (hq : commands = done ++ todo) (hv : verdict para server = none) :
    ∃ c, next toString ⟨stage, todo, [], some .none, outcome toString report done⟩ =
        (c, (serve toString server todo).first) ∧
      At toString para server commands report c (serve toString server todo).other := by
  cases todo
  case nil =>
    rw [List.append_nil] at hq
    have ha : At toString para server commands report ⟨.over, [], [], some (ec (verdict para server)),
        outcome toString report (admitted commands (verdict para server))⟩ [] :=
      .ended
    rw [hv, show admitted commands none = commands from rfl, hq] at ha
    exact ⟨_, rfl, hq ▸ ha⟩
  case cons cmd todo =>
    have hm : cmd ∈ commands := by rw [hq]; simp
    refine ⟨⟨.sending cmd.query, todo, [], some .none, outcome toString report done⟩, ?_,
      .querying (.inl ⟨rfl, rfl⟩) hq hv (h.replies cmd hm).doParse_eq⟩
    rw [Client.next]
    simp only [(request_eq h hm).left]
    rfl

end Client

abbrev State (α : Type) := Conversation.State (Client α) Server.State Byte

-- The user has been told nothing but what he is to be told, in this order, and the server has executed requests
-- of the client in their order.
structure Sound (toString : α → Bytes) (commands : List (Command α)) (report : Received → Report)
    (v : Option ServerMessage) (st : State α) : Prop where
  defined     : st.left.stage ≠ .aborted
  connected   : st.left.connected = none ∨ st.left.connected = some (ec v)
  completions : st.left.completions <+: outcome toString report (admitted commands v)
  executed    : st.right.executed <+: (admitted commands v).map (·.meaning toString)

section

variable (h : Proper toString para server commands report)
include h

variable {es : List Conversation.Event} {st : State α}

end

def user : ConnectParameters where
  username := [117]
  password := [112]
  database := [100]

def told : Received → Report
  | .batch (.parse .. :: _) => { ec := .none }
  | .batch _                => delivered (Execute.rowAnswer.take 4)
  | .query _                => { ec := .none }

end Exchange

end ChxSql.Postgresql

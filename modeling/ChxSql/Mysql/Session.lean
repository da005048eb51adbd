import ChxSql.Incremental.Conversation
import ChxSql.Incremental.Reading
import ChxSql.Mysql.Answer
import ChxSql.Mysql.HandshakeResponse
import ChxSql.Mysql.LargePayloads
import ChxSql.Mysql.ServerVerdict

namespace ChxSql.Mysql

open Incremental Decoder
open ComQuery (Completion)

namespace Session

-- What a client of the library waits for. It connects, and then it sends one query after another.
inductive Client.Stage where
  | connecting (o : Connection.Operation)
  | sending (p : BasicPacket ComQuery.State)
  | querying (p : BasicPacket ComQuery.State)
  | over
  | aborted
  deriving DecidableEq

-- `connected` is what `async_connect` has completed with, and `completions` is what the operations that came
-- after it have completed with.
structure Client where
  stage       : Client.Stage
  queries     : List Bytes
  connected   : Option ErrorCode := none
  completions : List Completion  := []
  deriving DecidableEq

namespace Client

variable (sha1 : Sha1) (param : ConnectParameters)

-- `async_query`, if there is another query.
def next (c : Client) : Client × Bytes :=
  match c.queries with
  | []      => ({ c with stage := .over }, [])
  | q :: qs =>
    let (request, s) := ComQuery.request q (ComQuery.fresh 0).impl
    ({ c with stage := .sending { impl := s }, queries := qs }, request)

-- The client does not go on without a connection.
def onConnect (c : Client) : Step Byte Connection.Operation ErrorCode Unit → Client × Bytes
  | .more (.sendHandshakeResponse raw p) _ =>
    ({ c with stage := .connecting (.sendHandshakeResponse raw p) }, raw)
  | .more o _  => ({ c with stage := .connecting o }, [])
  | .done ec _ =>
    if ec = 0 then { c with connected := some ec }.next else ({ c with stage := .over, connected := some ec }, [])
  | .fail _ _  => ({ c with stage := .aborted }, [])

def onQuery (c : Client) : Step Byte (BasicPacket ComQuery.State) Completion Unit → Client × Bytes
  | .more p _ => ({ c with stage := .querying p }, [])
  | .done k _ => { c with completions := c.completions ++ [k] }.next
  | .fail _ _ => ({ c with stage := .aborted }, [])

def hear (c : Client) (bs : Bytes) : Client × Bytes :=
  match c.stage with
  | .connecting o => c.onConnect (Connection.onRead sha1 param o bs)
  | .querying p   => c.onQuery (ComQuery.onRead (clientFlag param.database) p bs)
  | _             => (c, [])

def wrote (c : Client) : Option (Client × Bytes) :=
  match c.stage with
  | .connecting (.sendHandshakeResponse _ p) => some ({ c with stage := .connecting (.readStage2 p) }, [])
  | .sending p                               => some ({ c with stage := .querying p }, [])
  | _                                        => none

def party : Party Client Byte where
  hear  := hear sha1 param
  wrote := wrote

def start (queries : List Bytes) : Client where
  stage   := .connecting (.readStage1 Connection.fresh)
  queries := queries

end Client

-- The query in a packet, as a server finds it.
def command : Decoder Bytes := do
  let length ← littleEndian 3
  let id ← littleEndian 1
  let payload ← take length
  if id = 0 ∧ length < maxPayload ∧ payload.head? = some 0x03 then return payload.tail else failure

-- A server: how it greets its clients, which of them it refuses, and how it answers queries.
structure Server where
  greeting : HandshakeV10Packet.Greeting
  refuse   : HandshakeResponse41 → Option ErrPacket
  welcome  : OkPacket := {}
  answer   : Bytes → Answer

namespace Server

inductive Stage where
  | authenticating
  | serving (clientCap : UInt32)
  | closed
  deriving DecidableEq

-- The server keeps what it has heard until that is a packet. It remembers the queries that it has executed.
structure State where
  stage    : Stage      := .authenticating
  buffer   : Bytes      := []
  executed : List Bytes := []
  deriving DecidableEq

variable (server : Server)

def onResponse (st : State) : Option (Nat × HandshakeResponse41) → State × Bytes
  | none               => (st, [])
  | some (id, response) =>
    match server.refuse response with
    | none       => ({ st with stage := .serving response.clientFlag, buffer := [] },
      encodePacket (.ofNat id + 1) (server.welcome.encode 0x00 response.clientFlag))
    | some error => ({ st with stage := .closed, buffer := [] }, encodePacket (.ofNat id + 1) error.encode)

def onCommand (clientCap : UInt32) (st : State) : Option Bytes → State × Bytes
  | none   => (st, [])
  | some q =>
    ({ st with buffer := [], executed := st.executed ++ [q] }, (server.answer q).encode clientCap)

def hear (st : State) (bs : Bytes) : State × Bytes :=
  let st := { st with buffer := st.buffer ++ bs }
  match st.stage with
  | .authenticating    => server.onResponse st (HandshakeResponse41.packet.whole st.buffer)
  | .serving clientCap => server.onCommand clientCap st (command.whole st.buffer)
  | .closed            => (st, [])

def party : Party State Byte where
  hear    := server.hear
  wrote _ := none

end Server

-- The greeting is on its way when the client starts.
def system (sha1 : Sha1) (param : ConnectParameters) (server : Server) (queries : List Bytes) :=
  Conversation.system (Client.party sha1 param) server.party {
    left    := .start queries
    right   := {}
    toLeft  := encodePacket 0 server.greeting.encode
    toRight := []
  }

-- What the server makes of the client is all right: the client has a digest of its password, its parameters
-- can be told to the server, and each packet can carry its payload.
structure Proper (sha1 : Sha1) (param : ConnectParameters) (server : Server) (queries : List Bytes)
    (pw : Digest) : Prop where
  greeting : server.greeting.WellFormed
  flags    : server.greeting.cap &&& CapabilitiesFlags.clientPluginAuth = 0 ↔
    server.greeting.flags &&& CapabilitiesFlags.clientPluginAuth = 0
  plugin   : server.greeting.authPluginName = Connection.pluginName
  greets   : server.greeting.encode.length < 2 ^ 24
  digest   : Connection.generatePw sha1 server.greeting.authPluginDataPart1
    (server.greeting.authPluginDataPart2.take (server.greeting.authPluginDataLen.toNat - 9)) param.password = some pw
  username : 0 ∉ param.username
  database : 0 ∉ param.database
  responds : Connection.payloadLength param < 2 ^ 24
  welcomes : (server.welcome.encode 0x00 (clientFlag param.database)).length < maxPayload
  refuses  : ∀ error, server.refuse (Connection.response param pw) = some error →
    error.WellFormed ∧ error.errorCode ≠ 0 ∧ error.encode.length < maxPayload
  requests : ∀ q ∈ queries, q.length + 1 < maxPayload
  answers  : ∀ q ∈ queries, (server.answer q).Valid (clientFlag param.database)

-- What the server does with the client.
def verdict (param : ConnectParameters) (server : Server) (pw : Digest) : Option ErrPacket :=
  server.refuse (Connection.response param pw)

-- What `async_connect` is to complete with.
def ec : Option ErrPacket → ErrorCode
  | none       => 0
  | some error => error.errorCode.toNat

-- What the user is to be told by the queries, which are sent only if the server lets the client in.
def outcome (server : Server) (queries : List Bytes) : Option ErrPacket → List Completion
  | none   => queries.map fun q => (server.answer q).completion
  | some _ => []

def verdictPayload (param : ConnectParameters) (server : Server) : Option ErrPacket → Bytes
  | none       => server.welcome.encode 0x00 (clientFlag param.database)
  | some error => error.encode

-- The packets of the client and of the server.
def responsePacket (param : ConnectParameters) (pw : Digest) : Bytes :=
  Connection.handshakeResponse param 1 pw

def verdictPacket (param : ConnectParameters) (server : Server) (v : Option ErrPacket) : Bytes :=
  encodePacket 2 (verdictPayload param server v)

def requestPacket (q : Bytes) : Bytes :=
  (ComQuery.request q (ComQuery.fresh 0).impl).1

def answerPackets (param : ConnectParameters) (server : Server) (q : Bytes) : Bytes :=
  (server.answer q).encode (clientFlag param.database)

section

variable (param : ConnectParameters) (server : Server)

def serve (queries : List Bytes) : Script Byte :=
  queries.map fun q => (requestPacket q, answerPackets param server q)

variable (queries : List Bytes) (v : Option ErrPacket)

-- The queries that the client gets to send.
def admitted : List Bytes :=
  if v = none then queries else []

end

variable {sha1 : Sha1} {param : ConnectParameters} {server : Server} {queries : List Bytes} {pw : Digest}

theorem requestPacket_ne_nil {q : Bytes} : requestPacket q ≠ [] :=
  List.append_ne_nil_of_right_ne_nil _ (List.cons_ne_nil _ _)

-- A query that the client gets to send is one of its queries.
theorem mem_of_admitted {v : Option ErrPacket} {done todo : List Bytes} {q : Bytes}
    (h : admitted queries v = done ++ q :: todo) : q ∈ queries := by
  have hm : q ∈ admitted queries v := by rw [h]; simp
  rw [admitted] at hm
  split at hm
  case isTrue  => exact hm
  case isFalse => cases hm

namespace Server

-- How far the server has got, and what is left of its script.
inductive At (param : ConnectParameters) (server : Server) (queries : List Bytes) (pw : Digest)
    (v : Option ErrPacket) : State → Script Byte → Prop
  | authenticating {buffer rest} : buffer ++ rest = responsePacket param pw → rest ≠ [] →
    At param server queries pw v { buffer }
      ((rest, verdictPacket param server v) :: serve param server (admitted queries v))
  | serving {executed buffer rest q todo} : admitted queries v = executed ++ q :: todo →
    buffer ++ rest = requestPacket q → rest ≠ [] →
    At param server queries pw v ⟨.serving (clientFlag param.database), buffer, executed⟩
      ((rest, answerPackets param server q) :: serve param server todo)
  | ended {stage} : At param server queries pw v ⟨stage, [], admitted queries v⟩ []

variable {v : Option ErrPacket}

-- The server waits for another query, or it has executed all of them.
theorem At.of_append {executed todo : List Bytes} (h : admitted queries v = executed ++ todo) :
    At param server queries pw v ⟨.serving (clientFlag param.database), [], executed⟩ (serve param server todo) := by
  cases todo
  case nil          => rw [List.append_nil] at h; exact h ▸ .ended
  case cons q todo  => exact .serving h (List.nil_append _) requestPacket_ne_nil

end Server

namespace Client

open Connection (impl impl_lawful resumed)

-- The operation when it has read the greeting, and when its response has been taken from it.
def greeted (param : ConnectParameters) (pw : Digest) : Connection.State where
  stage          := .s2Guess
  raw            := responsePacket param pw
  nextSequenceId := 2
  clientCap      := clientFlag param.database

def responded (param : ConnectParameters) : Connection.State where
  stage          := .s2Guess
  nextSequenceId := 2
  clientCap      := clientFlag param.database

-- How far the client has got, and what is left of its script.
inductive At (sha1 : Sha1) (param : ConnectParameters) (server : Server) (queries : List Bytes) (pw : Digest) :
    Client → Script Byte → Prop
  | connecting {p rest} : p.impl.Consistent → p.feed (impl sha1 param) rest = .done (greeted param pw) [] →
    At sha1 param server queries pw { stage := .connecting (.readStage1 p), queries }
      ((rest, responsePacket param pw) ::
        (verdictPacket param server (verdict param server pw),
          (serve param server (admitted queries (verdict param server pw))).first) ::
        (serve param server (admitted queries (verdict param server pw))).other)
  | responded {o r p rest s} : o = .sendHandshakeResponse r p ∨ o = .readStage2 p → p.impl.Consistent →
    p.feed (impl sha1 param) rest = .done s [] → s.ec = ec (verdict param server pw) →
    At sha1 param server queries pw { stage := .connecting o, queries }
      ((rest, (serve param server (admitted queries (verdict param server pw))).first) ::
        (serve param server (admitted queries (verdict param server pw))).other)
  | querying {stage p done q todo rest s} : stage = .sending p ∨ stage = .querying p →
    queries = done ++ q :: todo → verdict param server pw = none → p.impl.Consistent →
    p.feed (ComQuery.impl (clientFlag param.database)) rest = .done s [] →
    Completion.mk s.ec s.resultSet = (server.answer q).completion →
    At sha1 param server queries pw
      ⟨stage, todo, some 0, done.map fun q => (server.answer q).completion⟩
      ((rest, (serve param server todo).first) :: (serve param server todo).other)
  | ended {todo} : At sha1 param server queries pw
      ⟨.over, todo, some (ec (verdict param server pw)), outcome server queries (verdict param server pw)⟩ []

theorem feed_greeting (h : Proper sha1 param server queries pw) :
    Connection.fresh.feed (impl sha1 param) (encodePacket 0 server.greeting.encode) = .done (greeted param pw) [] := by
  have hp := Connection.onPayloadData_greeting h.greeting h.flags h.plugin h.digest
  have hne : server.greeting.encode ++ [] ≠ [] := List.append_ne_nil_of_left_ne_nil (List.cons_ne_nil _ _) []
  rw [← List.append_nil (encodePacket 0 server.greeting.encode)]
  exact BasicPacket.feed_pause rfl rfl h.greets hne hp

-- The client sends the next query, or it is over.
theorem At.next (h : Proper sha1 param server queries pw) (stage : Stage) {done todo : List Bytes}
    (hq : queries = done ++ todo) (hv : verdict param server pw = none) :
    ∃ c, next ⟨stage, todo, some 0, done.map fun q => (server.answer q).completion⟩ =
        (c, (serve param server todo).first) ∧
      At sha1 param server queries pw c (serve param server todo).other := by
  cases todo
  case nil =>
    rw [List.append_nil] at hq
    have ha : At sha1 param server queries pw ⟨.over, [], some (ec (verdict param server pw)),
        outcome server queries (verdict param server pw)⟩ [] :=
      .ended
    rw [hv, hq] at ha
    exact ⟨_, rfl, hq ▸ ha⟩
  case cons q todo =>
    have hm : q ∈ queries := by rw [hq]; simp
    have ⟨s, hf, hs⟩ := ComQuery.feed_answer (clientFlag_untracked param.database) (h.answers q hm)
    exact ⟨_, rfl, .querying (.inl rfl) hq hv (ComQuery.fresh_consistent 1) hf hs⟩

end Client

abbrev State := Conversation.State Client Server.State Byte

-- The client has been told nothing but what it is to be told, in this order, and the server has executed
-- queries of the client in their order.
structure Sound (server : Server) (queries : List Bytes) (v : Option ErrPacket) (st : State) : Prop where
  defined     : st.left.stage ≠ .aborted
  connected   : st.left.connected = none ∨ st.left.connected = some (ec v)
  completions : st.left.completions <+: outcome server queries v
  executed    : st.right.executed <+: admitted queries v

variable {c : Client} {script : Script Byte}

section

variable (h : Proper sha1 param server queries pw)
include h

variable {es : List Conversation.Event} {st : State}

end

def user : ConnectParameters where
  username := [117]
  password := [112]
  database := []

end Session

end ChxSql.Mysql

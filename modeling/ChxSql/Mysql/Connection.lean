import ChxSql.Mysql.Packets.HandshakeV10
import ChxSql.Mysql.Query

namespace ChxSql.Mysql

open Incremental

-- `connect_parameters`
structure ConnectParameters where
  username : Bytes
  password : Bytes
  database : Bytes

abbrev Digest := Vector Byte 20

-- What `hash_ctx` computes. There is no digest if it throws `bad_hash`. The calls of `finalize` are in
-- assertions, which `NDEBUG` removes.
structure Sha1 where
  digest : Bytes → Option Digest
  ndebug : Bool := false

-- A digest is zero until it is computed.
def Sha1.finalize (sha1 : Sha1) (bs : Bytes) : Option Digest :=
  if sha1.ndebug then some (.replicate 20 0) else sha1.digest bs

namespace Connection

inductive Stage where
  | initialGuess
  | s1Err
  | s1Handshake
  | s2Guess
  | s2Ok
  | s2Err
  | finished
  deriving DecidableEq

inductive PayloadParser where
  | handshakeV10 (parser : HandshakeV10Packet.Parser)
  | err          (parser : ErrPacket.Parser)
  | ok           (parser : OkPacket.Parser 0x00)
  deriving DecidableEq

-- The state of the operation, and `client_cap()` of the connection. Nothing reads that before
-- `do_handshake_response` has set it.
structure State where
  stage          : Stage         := .initialGuess
  payloadParser  : PayloadParser := .handshakeV10 {}
  raw            : Bytes         := []
  nextSequenceId : UInt8         := 0
  ec             : ErrorCode     := 0
  clientCap      : UInt32        := 0
  deriving DecidableEq

-- The bytes of "mysql_native_password".
def pluginName : Bytes :=
  [109, 121, 115, 113, 108, 95, 110, 97, 116, 105, 118, 101, 95, 112, 97, 115, 115, 119, 111, 114, 100]

-- The size of the password is passed on as an `unsigned int`.
def generatePw (sha1 : Sha1) (nonce₁ nonce₂ password : Bytes) : Option Digest := do
  let digestA ← sha1.finalize (password.take (password.length % 2 ^ 32))
  let digestB ← sha1.finalize digestA.toList
  let digestC ← sha1.finalize (nonce₁ ++ nonce₂ ++ digestB.toList)
  return digestA.zipWith (· ^^^ ·) digestC

variable (sha1 : Sha1) (param : ConnectParameters)

def payloadLength : Nat :=
  4 + 4 + 1 + 23 + (param.username.length + 1) + 21 + (pluginName.length + 1) +
    if param.database ≠ [] then param.database.length + 1 else 0

-- What `do_handshake_response` stores in `__M_raw`.
def handshakeResponse (id : UInt8) (pw : Digest) : Bytes :=
  toLittleEndian 3 (payloadLength param) ++ id ::
    (toLittleEndian 4 (clientFlag param.database).toNat ++ (toLittleEndian 4 0xffffff ++ 0x21 ::
    (List.replicate 23 0 ++ (param.username ++ 0 :: 20 :: (pw.toList ++
    ((if param.database ≠ [] then param.database ++ [0] else []) ++ (pluginName ++ [0])))))))

-- The header tells the length of the rest (cf. `assert(ptr == raw.data() + raw.size())`).
theorem length_handshakeResponse (id : UInt8) (pw : Digest) :
    (handshakeResponse param id pw).length = 4 + payloadLength param := by
  simp only [handshakeResponse, payloadLength, List.length_append, List.length_cons, List.length_replicate,
    toLittleEndian_length, Vector.length_toList, List.length_nil]
  split <;> simp only [List.length_append, List.length_cons, List.length_nil] <;> omega

def doHandshakeResponse (packet : HandshakeV10Packet) (s : State) : PayloadResult × State :=
  if packet.authPluginName ≠ pluginName then
    (.internalError, { s with ec := Errc.crAuthPluginErr })
  else
    let id := s.nextSequenceId
    let s  := { s with clientCap := clientFlag param.database, nextSequenceId := id + 1 }
    let nonce := packet.authPluginDataPart2.take (packet.authPluginDataLen.toNat - 9)
    match generatePw sha1 packet.authPluginDataPart1 nonce param.password with
    | none    => (.internalError, s)
    | some pw => (.success, { s with raw := handshakeResponse param id pw })

def onHandshake (s : State) (parser : HandshakeV10Packet.Parser) (bs : Bytes) : PayloadResult × State :=
  match parser.parse bs with
  | .more parser _  => (.needMore, { s with payloadParser := .handshakeV10 parser })
  | .fail e _       => (e.result, { s with payloadParser := .handshakeV10 {} })
  | .done packet bs =>
    match doHandshakeResponse sha1 param packet { s with payloadParser := .handshakeV10 {} } with
    | (.success, s) => (if bs = [] then .pause else .trailingData, { s with stage := .s2Guess })
    | (r, s)        => (r, s)

def onErr (isFinal : Bool) (s : State) (parser : ErrPacket.Parser) (bs : Bytes) :
    PayloadResult × State :=
  PayloadResult.ofStep (parser.parse isFinal bs) .pause ({ s with payloadParser := .err · })
    (fun packet =>
      { s with ec := packet.errorCode.toNat, payloadParser := .err {}, stage := .finished })
    { s with payloadParser := .err {} }

def onOk (isFinal : Bool) (s : State) (parser : OkPacket.Parser 0x00) (bs : Bytes) :
    PayloadResult × State :=
  PayloadResult.ofStep (parser.parse s.clientCap isFinal bs) .pause ({ s with payloadParser := .ok · })
    (fun _ => { s with ec := 0, payloadParser := .ok {}, stage := .finished })
    { s with payloadParser := .ok {} }

def guess₁ (isFinal : Bool) (s : State) (parser : HandshakeV10Packet.Parser) : Bytes → PayloadResult × State
  | []                 => (.needMore, s)
  | bs@(firstByte :: _) =>
    if firstByte ≠ 0xff then
      onHandshake sha1 param { s with stage := .s1Handshake } parser bs
    else
      onErr isFinal { s with payloadParser := .err {}, stage := .s1Err } {} bs

def guess₂ (isFinal : Bool) (s : State) : Bytes → PayloadResult × State
  | []                 => (.needMore, s)
  | bs@(firstByte :: _) =>
    if firstByte = 0x00 then
      onOk isFinal { s with payloadParser := .ok {}, stage := .s2Ok } {} bs
    else if firstByte = 0xff then
      onErr isFinal { s with payloadParser := .err {}, stage := .s2Err } {} bs
    else
      (.internalError, s)

def onPayloadData (remain : Nat) (s : State) (bs : Bytes) : PayloadResult × State :=
  match s.stage, s.payloadParser with
  | .initialGuess, .handshakeV10 parser => guess₁ sha1 param (remain = 0) s parser bs
  | .s1Handshake, .handshakeV10 parser  => onHandshake sha1 param s parser bs
  | .s2Guess, _                         => guess₂ (remain = 0) s bs
  | .s2Ok, .ok parser                   => onOk (remain = 0) s parser bs
  | .s1Err, .err parser                 => onErr (remain = 0) s parser bs
  | .s2Err, .err parser                 => onErr (remain = 0) s parser bs
  | _, _                                => (.undefined, s)

def impl : Impl State where
  onPacketLengthComplete s _ := (.success, s)
  onSequenceIdComplete s id  :=
    (if s.nextSequenceId = id then .success else .malformed,
      { s with nextSequenceId := s.nextSequenceId + 1 })
  onPayloadData _ remain     := onPayloadData sha1 param remain

-- The payload parser has the alternative that the stage reads.
def State.Consistent (s : State) : Prop :=
  match s.stage, s.payloadParser with
  | .initialGuess, .handshakeV10 _ => True
  | .s1Handshake, .handshakeV10 _  => True
  | .s2Guess, _                    => s.clientCap &&& CapabilitiesFlags.clientSessionTrack = 0
  | .s2Ok, .ok parser              =>
    parser.Untracked ∧ s.clientCap &&& CapabilitiesFlags.clientSessionTrack = 0
  | .s1Err, .err _                 => True
  | .s2Err, .err _                 => True
  | .finished, _                   => True
  | _, _                           => False

variable {sha1 param} {s s' : State} {xs ys bs : Bytes} {remain : Nat}

-- The ways in which `do_handshake_response` ends.
theorem doHandshakeResponse_cases (sha1 : Sha1) (param : ConnectParameters) (packet : HandshakeV10Packet) (s : State) :
    (∃ ec next cap, doHandshakeResponse sha1 param packet s =
      (.internalError, { s with ec, nextSequenceId := next, clientCap := cap })) ∨
    ∃ raw, doHandshakeResponse sha1 param packet s = (.success,
      { s with
        clientCap      := clientFlag param.database
        nextSequenceId := s.nextSequenceId + 1
        raw            := raw }) := by
  simp only [doHandshakeResponse]
  split
  case isTrue => exact .inl ⟨_, _, _, rfl⟩
  case isFalse =>
    split
    case h_1 => exact .inl ⟨_, _, _, rfl⟩
    case h_2 => exact .inr ⟨_, rfl⟩

section Joins

variable (hy : ys ≠ [])
include hy

theorem onErr_joins {parser} (hs : s.stage = .s1Err ∨ s.stage = .s2Err) :
    PayloadResult.Joins (onPayloadData sha1 param remain · ys) (onErr false s parser xs)
      (onErr (remain = 0) s parser (xs ++ ys)) := by
  refine PayloadResult.joins_err hy fun parser => ?_
  obtain hs | hs := hs <;> simp only [onPayloadData, hs, onErr]

theorem onOk_joins {parser} (hc : s.clientCap &&& CapabilitiesFlags.clientSessionTrack = 0)
    (hp : parser.Untracked) (hs : s.stage = .s2Ok) :
    PayloadResult.Joins (onPayloadData sha1 param remain · ys) (onOk false s parser xs)
      (onOk (remain = 0) s parser (xs ++ ys)) := by
  refine PayloadResult.joins_ok hc hp hy fun parser => ?_
  simp only [onPayloadData, hs, onOk]

theorem onHandshake_joins {parser} (hs : s.stage = .s1Handshake) :
    PayloadResult.Joins (onPayloadData sha1 param remain · ys) (onHandshake sha1 param s parser xs)
      (onHandshake sha1 param s parser (xs ++ ys)) := by
  have he := HandshakeV10Packet.Parser.resumable.extend (s := parser) trivial xs ys
  simp only [onHandshake]
  generalize parser.parse xs = st, parser.parse (xs ++ ys) = st' at he ⊢
  cases he
  case more parser _ =>
    have hg : onPayloadData sha1 param remain { s with payloadParser := .handshakeV10 parser } ys =
        onHandshake sha1 param s parser ys := by
      simp only [onPayloadData, hs, onHandshake]
    rw [onHandshake] at hg
    rw [← hg]
    exact .needMore
  case fail e _ _ => cases e <;> exact .stop nofun nofun nofun
  case done packet r =>
    obtain ⟨_, _, _, h⟩ | ⟨_, h⟩ :=
      doHandshakeResponse_cases sha1 param packet { s with payloadParser := .handshakeV10 {} } <;> simp only [h]
    case inl => exact .stop nofun nofun nofun
    case inr =>
      have hn : r ++ ys ≠ [] := List.append_ne_nil_of_right_ne_nil r hy
      rw [if_neg hn]
      split
      case isTrue  => exact .pause
      case isFalse => exact .stop nofun nofun nofun

theorem guess₁_joins {parser} (hs : s.stage = .initialGuess) (hp : s.payloadParser = .handshakeV10 parser) :
    PayloadResult.Joins (onPayloadData sha1 param remain · ys) (guess₁ sha1 param false s parser xs)
      (guess₁ sha1 param (remain = 0) s parser (xs ++ ys)) := by
  cases xs
  case nil =>
    have hg : guess₁ sha1 param (remain = 0) s parser ys = onPayloadData sha1 param remain s ys := by
      simp only [onPayloadData, hs, hp]
    rw [List.nil_append, hg]
    exact .needMore
  case cons firstByte xs =>
    simp only [guess₁, List.cons_append]
    split_ifs
    case pos => exact onHandshake_joins hy rfl
    case neg => exact onErr_joins hy (.inl rfl)

theorem guess₂_joins (hs : s.stage = .s2Guess)
    (hc : s.clientCap &&& CapabilitiesFlags.clientSessionTrack = 0) :
    PayloadResult.Joins (onPayloadData sha1 param remain · ys) (guess₂ false s xs)
      (guess₂ (remain = 0) s (xs ++ ys)) := by
  cases xs
  case nil =>
    have hg : guess₂ (remain = 0) s ys = onPayloadData sha1 param remain s ys := by
      simp only [onPayloadData, hs]
    rw [List.nil_append, hg]
    exact .needMore
  case cons firstByte xs =>
    simp only [guess₂, List.cons_append]
    split_ifs
    case pos => exact onOk_joins hy hc .fresh rfl
    case pos => exact onErr_joins hy (.inr rfl)
    case neg => exact .stop nofun nofun nofun

theorem onPayloadData_joins (hs : s.Consistent) :
    PayloadResult.Joins (onPayloadData sha1 param remain · ys)
      (onPayloadData sha1 param (remain + ys.length) s xs)
      (onPayloadData sha1 param remain s (xs ++ ys)) := by
  have hr : (remain + ys.length = 0) = False := ComQuery.part_not_final hy
  have ⟨stage, payloadParser, raw, nextSequenceId, ec, clientCap⟩ := s
  cases stage <;> cases payloadParser <;> simp only [onPayloadData, hr, decide_false]
  case initialGuess.handshakeV10 => exact guess₁_joins hy rfl rfl
  case s1Handshake.handshakeV10  => exact onHandshake_joins hy rfl
  case s1Err.err                 => exact onErr_joins hy (.inl rfl)
  case s2Err.err                 => exact onErr_joins hy (.inr rfl)
  case s2Ok.ok                   => exact onOk_joins hy hs.right hs.left rfl
  case s2Guess.handshakeV10 | s2Guess.err | s2Guess.ok => exact guess₂_joins hy rfl hs
  all_goals exact .stop nofun nofun nofun

end Joins

-- An answer to a part of a payload, and the state in which it leaves the operation.
structure Answers (answer : PayloadResult × State) : Prop where
  defined    : answer.1 ≠ .undefined
  consistent : answer.2.Consistent
  running    : answer.1 = .success ∨ answer.1 = .needMore → answer.2.stage ≠ .finished

theorem Answers.failure {e : PayloadFailure} (he : e ≠ .undefined) (hs : s.Consistent) :
    Answers (e.result, s) := by
  cases e
  case undefined => exact absurd rfl he
  all_goals exact ⟨nofun, hs, nofun⟩

theorem onErr_answers {isFinal parser} (hs : s.stage = .s1Err ∨ s.stage = .s2Err) :
    Answers (onErr isFinal s parser bs) := by
  refine PayloadResult.ofStep_satisfies (fun p _ _ => ?_)
    (fun _ _ _ => ⟨⟨nofun, trivial, nofun⟩, nofun, trivial, nofun⟩)
    (fun e _ h => .failure (ErrPacket.Parser.parse_fail h) ?_)
  all_goals obtain hs | hs := hs
  case refine_1.inl | refine_1.inr => exact ⟨nofun, by simp [State.Consistent, hs], by simp [hs]⟩
  all_goals simp only [State.Consistent, hs]

theorem onOk_answers {isFinal parser} (hc : s.clientCap &&& CapabilitiesFlags.clientSessionTrack = 0)
    (hp : parser.Untracked) (hs : s.stage = .s2Ok) : Answers (onOk isFinal s parser bs) := by
  refine PayloadResult.ofStep_satisfies (fun p _ h => ⟨nofun, ?_, by simp [hs]⟩)
    (fun _ _ _ => ⟨⟨nofun, trivial, nofun⟩, nofun, trivial, nofun⟩)
    (fun e _ h => .failure (OkPacket.Parser.parse_fail hc hp h) ?_)
  all_goals simp only [State.Consistent, hs]
  case refine_1 => exact ⟨OkPacket.Parser.parse_untracked hc hp h, hc⟩
  case refine_2 => exact ⟨.fresh, hc⟩

theorem onHandshake_answers {parser} (hs : s.stage = .s1Handshake) :
    Answers (onHandshake sha1 param s parser bs) := by
  simp only [onHandshake]
  cases h : parser.parse bs
  case more => exact ⟨nofun, by simp [State.Consistent, hs], by simp [hs]⟩
  case fail e r =>
    exact .failure (HandshakeV10Packet.Parser.parse_fail h ▸ nofun) (by simp [State.Consistent, hs])
  case done packet r =>
    obtain ⟨_, _, _, h⟩ | ⟨_, h⟩ :=
      doHandshakeResponse_cases sha1 param packet { s with payloadParser := .handshakeV10 {} } <;> simp only [h]
    case inl => exact ⟨nofun, by simp [State.Consistent, hs], nofun⟩
    case inr =>
      have hc := clientFlag_untracked param.database
      split
      case isTrue  => exact ⟨nofun, hc, nofun⟩
      case isFalse => exact ⟨nofun, hc, nofun⟩

theorem onPayloadData_answers (hs : s.Consistent) (hf : s.stage ≠ .finished) :
    Answers (onPayloadData sha1 param remain s bs) := by
  have hs' := hs
  have ⟨stage, payloadParser, raw, nextSequenceId, ec, clientCap⟩ := s
  cases stage <;> cases payloadParser <;> first | exact absurd hs id | exact absurd rfl hf | skip
  all_goals simp only [onPayloadData]
  case s1Handshake.handshakeV10  => exact onHandshake_answers rfl
  case s1Err.err                 => exact onErr_answers (.inl rfl)
  case s2Err.err                 => exact onErr_answers (.inr rfl)
  case s2Ok.ok                   => exact onOk_answers hs.right hs.left rfl
  case initialGuess.handshakeV10 =>
    cases bs
    case nil => exact ⟨nofun, hs, fun _ => nofun⟩
    case cons =>
      simp only [guess₁]
      split
      case isTrue  => exact onHandshake_answers rfl
      case isFalse => exact onErr_answers (.inl rfl)
  case s2Guess.handshakeV10 | s2Guess.err | s2Guess.ok =>
    cases bs
    case nil => exact ⟨nofun, hs, fun _ => nofun⟩
    case cons =>
      simp only [guess₂]
      split_ifs
      case pos => exact onOk_answers hs .fresh rfl
      case pos => exact onErr_answers (.inr rfl)
      case neg => exact ⟨nofun, hs, nofun⟩

theorem onPayloadData_consistent (hs : s.Consistent) : (onPayloadData sha1 param remain s bs).2.Consistent := by
  by_cases hf : s.stage = .finished
  case neg => exact (onPayloadData_answers hs hf).consistent
  case pos => simpa only [onPayloadData, hf] using hs

theorem impl_lawful : (impl sha1 param).Lawful State.Consistent where
  length hs           := hs
  sequenceId hs       := hs
  payload hs          := onPayloadData_consistent hs
  joins _ _ _ _ hs hy := onPayloadData_joins hy hs

-- The operation is done when it pauses, or it has a response for the server.
theorem impl_keeps : (impl sha1 param).Keeps (fun s => s.Consistent ∧ s.stage ≠ .finished) State.Consistent where
  length hs       := hs
  sequenceId hs   := hs
  payload hs hr   :=
    have h := onPayloadData_answers hs.left hs.right
    ⟨h.consistent, h.running hr⟩
  defined hs      := (onPayloadData_answers hs.left hs.right).defined
  pause hs _      := (onPayloadData_answers hs.left hs.right).consistent

-- What the operation waits for, and the parser that gets it.
inductive Operation where
  | readStage1 (p : BasicPacket State)
  | sendHandshakeResponse (raw : Bytes) (p : BasicPacket State)
  | readStage2 (p : BasicPacket State)
  deriving DecidableEq

-- The parser when the operation has paused.
def resumed (s : State) : BasicPacket State where
  impl := s

-- What comes of a failure of `feed`. The failure `()` is an `assert(false)`.
def fails (e : PacketResult × State) (left : Bytes) : Step Byte Operation ErrorCode Unit :=
  match e with
  | (.undefined, _)     => .fail () left
  | (.internalError, s) => .done (if s.ec ≠ 0 then s.ec else Errc.crUnknownError) left
  | (_, _)              => .done Errc.crMalformedPacket left

-- The handler of `ev_read_stage_1`.
def onReadStage1 : Step Byte (BasicPacket State) State (PacketResult × State) →
    Step Byte Operation ErrorCode Unit
  | .more p left => .more (.readStage1 p) left
  | .fail e left => fails e left
  | .done s left =>
    match s.stage with
    | .s2Guess =>
      if left = [] then
        .more (.sendHandshakeResponse s.raw (resumed { s with raw := [] })) []
      else
        .done Errc.crMalformedPacket left
    | .s1Err => .done s.ec left
    | _      => .fail () left

-- The handler of `ev_read_stage_2`.
def onReadStage2 : Step Byte (BasicPacket State) State (PacketResult × State) →
    Step Byte Operation ErrorCode Unit
  | .more p left => .more (.readStage2 p) left
  | .fail e left => fails e left
  | .done s left => .done (if left = [] then s.ec else Errc.crMalformedPacket) left

-- A read starts when the response is sent.
def onRead (sha1 : Sha1) (param : ConnectParameters) (o : Operation) (bs : Bytes) :
    Step Byte Operation ErrorCode Unit :=
  match o with
  | .readStage1 p              => onReadStage1 (p.feed (impl sha1 param) bs)
  | .sendHandshakeResponse _ p => onReadStage2 (p.feed (impl sha1 param) bs)
  | .readStage2 p              => onReadStage2 (p.feed (impl sha1 param) bs)

def fresh : BasicPacket State where
  impl := {}

-- Running the operation until it completes or has used up its reads, as in `ComQuery.run`.
def run (sha1 : Sha1) (param : ConnectParameters) (reads : List ComQuery.Read) :
    Step Byte Operation ErrorCode Unit × List Bytes :=
  feed (onRead sha1 param) (.readStage1 fresh) (reads.map (·.bytes))

end Connection

end ChxSql.Mysql

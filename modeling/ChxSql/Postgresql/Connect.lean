import ChxSql.Postgresql.Frame
import ChxSql.Postgresql.MessageParser

namespace ChxSql.Postgresql

open Incremental Msg

structure ConnectParameters where
  username : Bytes
  password : Bytes
  database : Bytes

namespace Connect

-- The alternatives of `__M_state` that hold a parser, each with the function that runs it:
-- `do_read_s1_v2`, `do_wait_for_auth_success` and `do_wait_till_ready`.
inductive Stage where
  | readS1
  | waitForAuthSuccess
  | waitTillReady
  deriving DecidableEq, Repr

-- The messages that a `message_parser` accepts in addition to its own ones.
def common : List AnyMessage :=
  [.errorResponse {}, .parameterStatus {}, .noticeResponse {}]

-- The alternatives of the `message_parser` of a stage.
def Stage.messages : Stage → List AnyMessage
  | readS1             => .authentication {} :: common
  | waitForAuthSuccess => .authentication {} :: common
  | waitTillReady      => .readyForQuery {} :: .backendKeyData {} :: common

def Stage.table (stage : Stage) : Byte → Option AnyMessage :=
  msgTypeJumpTable stage.messages

-- `__M_result` of a new parser holds its first alternative.
def Stage.parser (stage : Stage) : BasicParser AnyMessage :=
  { result := stage.messages.head (by cases stage <;> nofun) }

-- The message that answers a request for a password. Its size is an `uint32_t`.
def passwordMessage (password : Bytes) : Bytes :=
  let rawSz := (5 + password.length + 1) % 2 ^ 32
  letter 'p' :: (toBigEndian 4 (rawSz - 1) ++ password ++ [0])

-- What the operation keeps from message to message: its stage, and what it has sent since the
-- start-up packet.
structure Ctl where
  stage : Stage := .readS1
  sent  : List Bytes := []
  deriving DecidableEq

structure Report where
  ec   : ErrorCode
  sent : List Bytes
  deriving DecidableEq

def complete (ctl : Ctl) (ec : ErrorCode) : Move Ctl Report :=
  .complete { ec, sent := ctl.sent }

def malformed (ctl : Ctl) : Failure Report :=
  .malformed { ec := makeEc .malformedMessage, sent := ctl.sent }

variable (para : ConnectParameters)

-- What the stage functions do with a message. After the password message has been written the
-- operation goes on with what is left in the buffer.
def onMessage (ctl : Ctl) (m : AnyMessage) : Move Ctl Report :=
  match ctl.stage, m with
  | .readS1, .authentication m =>
    match m.authenticationMethod with
    | .trustOrFinished   => complete ctl .none
    | .cleartextPassword =>
      .goto ⟨.waitForAuthSuccess, ctl.sent ++ [passwordMessage para.password]⟩
    | _                  => complete ctl (makeEc .sqlclientUnableToEstablishSqlconnection)
  | .waitForAuthSuccess, .authentication m =>
    match m.authenticationMethod with
    | .trustOrFinished => .goto { ctl with stage := .waitTillReady }
    | _                => .fail (malformed ctl)
  | .waitTillReady, .readyForQuery _    => complete ctl .none
  | .waitTillReady, .backendKeyData _   => .goto ctl
  | .waitTillReady, .parameterStatus _  => .goto ctl
  | .waitTillReady, .noticeResponse _   => .goto ctl
  | .waitTillReady, .errorResponse m    => complete ctl (makeEc m.ec)
  | .waitTillReady, _                   => .fail .undefined
  | _, .errorResponse m                 => complete ctl (makeEc m.ec)
  | _, _                                => .goto { ctl with stage := .readS1 }

structure State where
  ctl    : Ctl
  parser : BasicParser AnyMessage := ctl.stage.parser

def finish (ctl : Ctl) (m : AnyMessage) (bs : Bytes) : Turn Byte State Report (Failure Report) :=
  match onMessage para ctl m with
  | .goto ctl   => .goto { ctl } bs
  | .complete r => .done r bs
  | .fail e     => .fail e bs

-- One call of a stage function.
def turn (s : State) (bs : Bytes) : Turn Byte State Report (Failure Report) :=
  match MessageParser.parse s.ctl.stage.table s.parser bs with
  | .more parser bs     => .more { s with parser } bs
  | .done m bs          => finish para s.ctl m bs
  | .fail .undefined bs => .fail .undefined bs
  | .fail _ bs          => .fail (malformed s.ctl) bs

def rank (s : State) : Nat :=
  if s.parser.phase = .type then 0 else 1

variable {para}

theorem finish_goto {ctl : Ctl} {s : State} {m bs r} (h : finish para ctl m bs = .goto s r) :
    r = bs ∧ s.parser.phase = .type := by
  simp only [finish] at h
  split at h <;> cases h
  exact ⟨rfl, rfl⟩

theorem turn_progress {s s' : State} {bs r} (h : turn para s bs = .goto s' r) :
    r.length * 1 + rank s' < bs.length * 1 + rank s := by
  simp only [turn] at h
  split at h
  case h_2 m rest hp =>
    have ⟨hr, ht⟩ := finish_goto h
    rw [hr, rank, rank, if_pos ht]
    split
    case isTrue ht => have := MessageParser.parse_lt ht hp; omega
    case isFalse   => have := (MessageParser.shrinks _).length_le hp; omega
  all_goals cases h

variable (para) in
def loop : Loop Byte State Report (Failure Report) where
  body     := turn para
  weight   := 1
  rank     := rank
  progress := turn_progress

variable (para) in
-- The stage functions, which call one another until the operation completes or wants to read.
def doRead (s : State) (bs : Bytes) : Step Byte State Report (Failure Report) :=
  (loop para).run s bs

-- The operation when the start-up packet has been sent.
def fresh : State :=
  { ctl := {} }

theorem turn_extends (s : State) (xs ys : Bytes) :
    (turn para s xs).Extends (fun _ => True) (turn para) ys (turn para s (xs ++ ys)) := by
  have ⟨ctl, parser⟩ := s
  have he := (MessageParser.resumable ctl.stage.table).extend (s := parser) trivial xs ys
  simp only [turn]
  generalize MessageParser.parse _ parser xs = st, MessageParser.parse _ parser (xs ++ ys) = st'
    at he ⊢
  cases he
  case more => exact .of_eq_more trivial rfl
  case done m rest =>
    simp only [finish]
    split
    case h_1 => exact .goto trivial
    case h_2 => exact .done
    case h_3 => exact .fail
  case fail e _ _ => cases e <;> exact .fail

theorem resumable : Resumable (doRead para) :=
  Loop.resumable turn_extends

theorem shrinks : Shrinks (doRead para) := by
  refine Loop.shrinks ?_
  intro s bs
  have hs := MessageParser.shrinks s.ctl.stage.table s.parser bs
  simp only [loop, turn]
  split <;> rename_i hp <;> rw [hp] at hs
  case h_2 =>
    simp only [finish]
    split <;> exact hs
  all_goals exact hs

-- The parser of a stage reads a message of one of the types of that stage.
def Holds (s : State) : Prop :=
  Message.messageType s.parser.result ∈ s.ctl.stage.messages.map Message.messageType

theorem holds_ctl (ctl : Ctl) : Holds { ctl } := by
  have ⟨stage, _⟩ := ctl
  cases stage
  case waitTillReady => exact (by decide : letter 'Z' ∈ ['Z', 'K', 'E', 'S', 'N'].map letter)
  all_goals exact (by decide : letter 'R' ∈ ['R', 'E', 'S', 'N'].map letter)

theorem onMessage_ne_undefined {ctl : Ctl} {m : AnyMessage}
    (h : Message.messageType m ∈ ctl.stage.messages.map Message.messageType) :
    onMessage para ctl m ≠ .fail .undefined := by
  have ⟨stage, sent⟩ := ctl
  cases stage
  case waitTillReady =>
    have h : Message.messageType m ∈ ['Z', 'K', 'E', 'S', 'N'].map letter := h
    cases m
    case readyForQuery | backendKeyData | errorResponse | parameterStatus | noticeResponse => nofun
    all_goals exact absurd (show letter _ ∈ _ from h) (by decide)
  case readS1 =>
    cases m
    case authentication => simp only [onMessage]; split <;> nofun
    all_goals nofun
  case waitForAuthSuccess =>
    cases m
    case authentication => simp only [onMessage]; split <;> nofun
    all_goals nofun

-- The invariant after one turn, which is not undefined.
def Keeps : Turn Byte State Report (Failure Report) → Prop
  | .goto s _ | .more s _ => Holds s
  | .done ..              => True
  | .fail e _             => e ≠ .undefined

theorem keeps_turn {s : State} {bs : Bytes} (h : Holds s) : Keeps (turn para s bs) := by
  have ht : MessageParser.TypeIn _ (MessageParser.parse s.ctl.stage.table s.parser bs) :=
    MessageParser.typeIn_parse h bs
  simp only [turn]
  split <;> rename_i hp <;> rw [hp] at ht
  case h_1 => exact ht
  case h_2 m rest =>
    have hu : onMessage para s.ctl m ≠ _ := onMessage_ne_undefined ht
    simp only [finish]
    cases he : onMessage para s.ctl m <;> rw [he] at hu
    case goto     => exact holds_ctl _
    case complete => trivial
    case fail     => rintro rfl; exact hu rfl
  case h_3 => exact absurd hp MessageParser.parse_ne_undefined
  case h_4 => nofun

-- The operation never runs into undefined behaviour.
theorem defined (bs r : Bytes) : doRead para fresh bs ≠ .fail .undefined r := by
  refine (loop para).run_induction (P := fun s _ => Holds s)
    (Q := fun st => st ≠ .fail .undefined r)
    (fun {s bs s' r} hi hb => ?_) (fun _ _ => nofun) (fun _ _ => nofun)
    (fun {s bs e r} hi hb => ?_) (holds_ctl {})
  case refine_1 => exact (congrArg Keeps hb).mp (keeps_turn hi)
  case refine_2 =>
    have hk : Keeps (.fail e r) := (congrArg Keeps hb).mp (keeps_turn hi)
    intro he
    cases he
    exact hk rfl

variable (para) in
-- The view of the operation that does not see bytes: what it does with a whole message.
def onFrame (ctl : Ctl) (f : Frame) : Move Ctl Report :=
  match MessageParser.receive ctl.stage.table f.type f.body with
  | none   => .fail (malformed ctl)
  | some m => onMessage para ctl m

variable (para) in
theorem doRead_frame (ctl : Ctl) (f : Frame) (rest : Bytes) :
    match onFrame para ctl f with
    | .goto ctl'  => doRead para { ctl } (f.encode ++ rest) = doRead para { ctl := ctl' } rest
    | .complete r => doRead para { ctl } (f.encode ++ rest) = .done r rest
    | .fail e     => ∃ r, doRead para { ctl } (f.encode ++ rest) = .fail e r := by
  have hb : (loop para).body { ctl } (f.encode ++ rest) = turn para { ctl } (f.encode ++ rest) := rfl
  simp only [turn, Frame.encode, Stage.parser] at hb
  have hf := MessageParser.parse_frame ctl.stage.table
    (ctl.stage.messages.head (by cases ctl.stage <;> simp [Stage.messages])) f.type f.fits rest
  cases hf
  case inr h =>
    obtain ⟨hm, e, r, hp⟩ := h
    simp only [onFrame, hm]
    rw [hp] at hb
    refine ⟨r, Loop.run_fail (hb.trans ?_)⟩
    cases e
    case undefined => exact absurd hp MessageParser.parse_ne_undefined
    all_goals rfl
  case inl h =>
    obtain ⟨m, hm, hp⟩ := h
    simp only [onFrame, hm]
    simp only [hp, finish] at hb
    cases ha : onMessage para ctl m <;> rw [ha] at hb
    case goto     => exact Loop.run_goto hb
    case complete => exact Loop.run_done hb
    case fail     => exact ⟨_, Loop.run_fail hb⟩

theorem doRead_nil (ctl : Ctl) : doRead para { ctl } [] = .more { ctl } [] :=
  Loop.run_more (by simp [loop, turn, Stage.parser, MessageParser.parse_nil])

theorem refines : Refines (doRead para) (onFrame para) (fun ctl => { ctl }) where
  idle := doRead_nil
  goto {ctl f _} h rest := by
    have := doRead_frame para ctl f rest
    rwa [h] at this
  complete {ctl f _} h rest := by
    have := doRead_frame para ctl f rest
    rwa [h] at this
  fail {ctl f _} h rest := by
    have := doRead_frame para ctl f rest
    rwa [h] at this

end Connect

end ChxSql.Postgresql

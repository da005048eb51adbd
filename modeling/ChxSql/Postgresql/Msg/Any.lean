import ChxSql.Postgresql.Msg.Authentication
import ChxSql.Postgresql.Msg.ErrorResponse
import ChxSql.Postgresql.Msg.Row

namespace ChxSql.Postgresql

open Incremental Msg

-- The message types whose parsers the operations keep in variants. A variant of parsers is modelled
-- as a parser of this variant, which never changes its alternative while it parses.
inductive AnyMessage where
  | errorResponse (m : ErrorResponse)
  | noticeResponse (m : NoticeResponse)
  | parameterStatus (m : ParameterStatus)
  | bindComplete (m : BindComplete)
  | rowDescription (m : RowDescription)
  | dataRow (m : DataRow)
  | noData (m : NoData)
  | readyForQuery (m : ReadyForQuery)
  | commandComplete (m : CommandComplete)
  | emptyQueryResponse (m : EmptyQueryResponse)
  | parseComplete (m : ParseComplete)
  | backendKeyData (m : BackendKeyData)
  | authentication (m : Authentication)
  deriving DecidableEq

def Body.map {M M' : Type} (f : M → M') : Body M → Body M'
  | success m  => success (f m)
  | needMore m => needMore (f m)
  | fail r     => fail r

namespace Body

variable {M M' : Type} {f : M → M'} {b : Body M} {m' : M'} {r : ParseResult}

theorem map_eq_needMore (h : b.map f = .needMore m') : ∃ m, b = .needMore m ∧ f m = m' := by
  cases b <;> cases h
  exact ⟨_, rfl, rfl⟩

theorem map_eq_success (h : b.map f = .success m') : ∃ m, b = .success m ∧ f m = m' := by
  cases b <;> cases h
  exact ⟨_, rfl, rfl⟩

theorem map_eq_fail (h : b.map f = .fail r) : b = .fail r := by
  cases b <;> cases h
  rfl

end Body

namespace AnyMessage

instance : Message AnyMessage where
  messageType
    | errorResponse m      => Message.messageType m
    | noticeResponse m     => Message.messageType m
    | parameterStatus m    => Message.messageType m
    | bindComplete m       => Message.messageType m
    | rowDescription m     => Message.messageType m
    | dataRow m            => Message.messageType m
    | noData m             => Message.messageType m
    | readyForQuery m      => Message.messageType m
    | commandComplete m    => Message.messageType m
    | emptyQueryResponse m => Message.messageType m
    | parseComplete m      => Message.messageType m
    | backendKeyData m     => Message.messageType m
    | authentication m     => Message.messageType m
  onMessageType
    | errorResponse m      => Message.onMessageType m
    | noticeResponse m     => Message.onMessageType m
    | parameterStatus m    => Message.onMessageType m
    | bindComplete m       => Message.onMessageType m
    | rowDescription m     => Message.onMessageType m
    | dataRow m            => Message.onMessageType m
    | noData m             => Message.onMessageType m
    | readyForQuery m      => Message.onMessageType m
    | commandComplete m    => Message.onMessageType m
    | emptyQueryResponse m => Message.onMessageType m
    | parseComplete m      => Message.onMessageType m
    | backendKeyData m     => Message.onMessageType m
    | authentication m     => Message.onMessageType m
  onMessageLength
    | errorResponse m      => Message.onMessageLength m
    | noticeResponse m     => Message.onMessageLength m
    | parameterStatus m    => Message.onMessageLength m
    | bindComplete m       => Message.onMessageLength m
    | rowDescription m     => Message.onMessageLength m
    | dataRow m            => Message.onMessageLength m
    | noData m             => Message.onMessageLength m
    | readyForQuery m      => Message.onMessageLength m
    | commandComplete m    => Message.onMessageLength m
    | emptyQueryResponse m => Message.onMessageLength m
    | parseComplete m      => Message.onMessageLength m
    | backendKeyData m     => Message.onMessageLength m
    | authentication m     => Message.onMessageLength m
  onBody
    | errorResponse m, bs      => (Message.onBody m bs).map errorResponse
    | noticeResponse m, bs     => (Message.onBody m bs).map noticeResponse
    | parameterStatus m, bs    => (Message.onBody m bs).map parameterStatus
    | bindComplete m, bs       => (Message.onBody m bs).map bindComplete
    | rowDescription m, bs     => (Message.onBody m bs).map rowDescription
    | dataRow m, bs            => (Message.onBody m bs).map dataRow
    | noData m, bs             => (Message.onBody m bs).map noData
    | readyForQuery m, bs      => (Message.onBody m bs).map readyForQuery
    | commandComplete m, bs    => (Message.onBody m bs).map commandComplete
    | emptyQueryResponse m, bs => (Message.onBody m bs).map emptyQueryResponse
    | parseComplete m, bs      => (Message.onBody m bs).map parseComplete
    | backendKeyData m, bs     => (Message.onBody m bs).map backendKeyData
    | authentication m, bs     => (Message.onBody m bs).map authentication

@[simp]
theorem messageType_errorResponse {m} : Message.messageType (errorResponse m) = letter 'E' := rfl

@[simp]
theorem messageType_noticeResponse {m} : Message.messageType (noticeResponse m) = letter 'N' := rfl

@[simp]
theorem messageType_parameterStatus {m} : Message.messageType (parameterStatus m) = letter 'S' := rfl

@[simp]
theorem messageType_bindComplete {m} : Message.messageType (bindComplete m) = letter '2' := rfl

@[simp]
theorem messageType_rowDescription {m} : Message.messageType (rowDescription m) = letter 'T' := rfl

@[simp]
theorem messageType_dataRow {m} : Message.messageType (dataRow m) = letter 'D' := rfl

@[simp]
theorem messageType_noData {m} : Message.messageType (noData m) = letter 'n' := rfl

@[simp]
theorem messageType_readyForQuery {m} : Message.messageType (readyForQuery m) = letter 'Z' := rfl

@[simp]
theorem messageType_commandComplete {m} : Message.messageType (commandComplete m) = letter 'C' := rfl

@[simp]
theorem messageType_emptyQueryResponse {m} : Message.messageType (emptyQueryResponse m) = letter 'I' := rfl

@[simp]
theorem messageType_parseComplete {m} : Message.messageType (parseComplete m) = letter '1' := rfl

@[simp]
theorem messageType_backendKeyData {m} : Message.messageType (backendKeyData m) = letter 'K' := rfl

@[simp]
theorem messageType_authentication {m} : Message.messageType (authentication m) = letter 'R' := rfl

instance : LawfulMessage AnyMessage where
  onMessageType_defined {m} type := by
    cases m <;> rename_i m <;> exact LawfulMessage.onMessageType_defined (m := m) type
  onMessageLength_defined {m} len := by
    cases m <;> rename_i m <;> exact LawfulMessage.onMessageLength_defined (m := m) len
  onBody_defined {m _} h := by
    cases m <;> rename_i m <;> exact LawfulMessage.onBody_defined (m := m) (Body.map_eq_fail h)
  onBody_needMore {m _ _} h ys := by
    cases m
    all_goals
      rename_i m
      have ⟨_, hb, he⟩ := Body.map_eq_needMore h
      exact he ▸ congrArg (Body.map _) (LawfulMessage.onBody_needMore (m := m) hb ys)
  onBody_success {m _ _} h _ hn := by
    cases m
    all_goals
      rename_i m
      have ⟨_, hb, _⟩ := Body.map_eq_success h
      exact congrArg (Body.map _) (LawfulMessage.onBody_success (m := m) hb hn)
  onBody_fail {m _ _} h ys := by
    cases m
    all_goals
      rename_i m
      exact congrArg (Body.map _) (LawfulMessage.onBody_fail (m := m) (Body.map_eq_fail h) ys)

-- The type of a message of which a parser accepted the type byte.
theorem onMessageType_eq {m : AnyMessage} {type : Byte}
    (h : Message.onMessageType m type = .success) : type = Message.messageType m := by
  cases m <;>
    simp only [Message.onMessageType, acceptIf, decide_eq_true_eq, ite_eq_left_iff, reduceCtorEq,
      imp_false, not_not] at h <;>
    exact h

-- Reading a body does not turn a message into one of another type.
theorem messageType_onBody {m m' : AnyMessage} {bs : Bytes}
    (h : Message.onBody m bs = .success m' ∨ Message.onBody m bs = .needMore m') :
    Message.messageType m' = Message.messageType m := by
  cases h
  case inl h => cases m <;> have ⟨_, _, he⟩ := Body.map_eq_success h <;> cases he <;> rfl
  case inr h => cases m <;> have ⟨_, _, he⟩ := Body.map_eq_needMore h <;> cases he <;> rfl

-- A message that is received has the type of the message object that reads it.
theorem messageType_receive {m m' : AnyMessage} {type : Byte} {body : Bytes}
    (h : Message.receive m type body = some m') :
    type = Message.messageType m ∧ Message.messageType m' = Message.messageType m := by
  simp only [Message.receive] at h
  split at h
  case isFalse => cases h
  case isTrue ht =>
    refine ⟨onMessageType_eq ht.left, ?_⟩
    cases ho : Message.onBody m body <;> rw [ho] at h <;> cases h
    exact messageType_onBody (.inl ho)

-- What an alternative receives is what the message in it receives.
theorem receive_inj {M : Type} [Message M] {m : M} {type : Byte} {body : Bytes}
    (inj : M → AnyMessage)
    (ht : Message.onMessageType (inj m) = Message.onMessageType m := by rfl)
    (hl : Message.onMessageLength (inj m) = Message.onMessageLength m := by rfl)
    (hb : ∀ bs, Message.onBody (inj m) bs = (Message.onBody m bs).map inj := by exact fun _ => rfl) :
    Message.receive (inj m) type body = (Message.receive m type body).map inj := by
  simp only [Message.receive, ht, hl, hb]
  split
  case isFalse => rfl
  case isTrue  => cases Message.onBody m body <;> rfl

theorem receive_map {M : Type} [Message M] {m m' : M} {type : Byte} {body : Bytes}
    (inj : M → AnyMessage) (hr : Message.receive m type body = some m')
    (ht : Message.onMessageType (inj m) = Message.onMessageType m := by rfl)
    (hl : Message.onMessageLength (inj m) = Message.onMessageLength m := by rfl)
    (hb : ∀ bs, Message.onBody (inj m) bs = (Message.onBody m bs).map inj := by exact fun _ => rfl) :
    Message.receive (inj m) type body = some (inj m') := by
  rw [receive_inj inj ht hl hb, hr, Option.map_some]

-- A parser of messages is done with a message of the type that it started with.
def SameType (type : Byte) : Step Byte (BasicParser AnyMessage) AnyMessage ParseResult → Prop
  | .more p _ => Message.messageType p.result = type
  | .done m _ => Message.messageType m = type
  | .fail ..  => True

-- Cf. `SameType`.
def SameTypeTurn (type : Byte) : Turn Byte (BasicParser AnyMessage) AnyMessage ParseResult → Prop
  | .goto p _ | .more p _ => Message.messageType p.result = type
  | .done m _             => Message.messageType m = type
  | .fail ..              => True

theorem messageType_turn (p : BasicParser AnyMessage) (bs : Bytes) :
    SameTypeTurn (Message.messageType p.result) (p.turn bs) := by
  have ⟨phase, remain, m⟩ := p
  cases phase <;> simp only [BasicParser.turn]
  case type =>
    cases bs
    case nil  => rfl
    case cons => dsimp only; split <;> trivial
  case length parser =>
    cases parser.parse bs
    case more => rfl
    case fail => trivial
    case done =>
      simp only [Step.turn]
      split
      case isTrue  => trivial
      case isFalse => split <;> trivial
  case body =>
    cases ho : Message.onBody m (bs.take (min remain bs.length)) <;>
      simp only [BasicParser.closeBody]
    case success  => split <;> first | trivial | exact messageType_onBody (.inl ho)
    case needMore => split <;> first | trivial | exact messageType_onBody (.inr ho)
    case fail     => trivial

theorem messageType_parse (p : BasicParser AnyMessage) (bs : Bytes) :
    SameType (Message.messageType p.result) (p.parse bs) := by
  refine BasicParser.loop.run_induction
    (P := fun p' _ => Message.messageType p'.result = Message.messageType p.result)
    (fun {p bs _ _} hp h => ?_) (fun {p bs _ _} hp h => ?_) (fun {p bs _ _} hp h => ?_)
    (fun _ _ => trivial) rfl
  all_goals
    have ht := messageType_turn p bs
    rw [show p.turn bs = _ from h] at ht
    exact Eq.trans ht hp

end AnyMessage

-- Cf. `msg_type_jump_table`: the alternative that a type byte stands for, in its initial state. A
-- later alternative of the same type takes the place of an earlier one.
def msgTypeJumpTable (messages : List AnyMessage) (type : Byte) : Option AnyMessage :=
  messages.reverse.find? (Message.messageType · = type)

theorem msgTypeJumpTable_eq_some {messages : List AnyMessage} {type : Byte} {m : AnyMessage}
    (h : msgTypeJumpTable messages type = some m) : m ∈ messages ∧ Message.messageType m = type := by
  have hm := List.mem_of_find?_eq_some h
  have ht := List.find?_some h
  simp_all

end ChxSql.Postgresql

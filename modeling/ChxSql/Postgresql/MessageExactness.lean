import ChxSql.Incremental.Reading
import ChxSql.Postgresql.AuthenticationRequest
import ChxSql.Postgresql.ErrorReporting
import ChxSql.Postgresql.RowExactness
import ChxSql.Postgresql.ServerMessage

namespace ChxSql.Postgresql

open Incremental Msg

namespace Msg

variable {type : Byte} {body bs rest : Bytes}

theorem acceptIf_eq_success {b : Bool} : acceptIf b = .success ↔ b := by
  cases b <;> decide

theorem EmptyBody.body_of_receive {t : Byte} {m m' : EmptyBody t} (h : Message.receive m type body = some m') :
    body = [] := by
  have hl := acceptIf_eq_success.mp (Message.receive_eq_some.mp h).left.right
  have hl : body.length + 4 = 4 := of_decide_eq_true hl
  exact List.length_eq_zero_iff.mp (by omega)

theorem ReadyForQuery.body_of_receive {m : ReadyForQuery}
    (h : Message.receive ({} : ReadyForQuery) type body = some m) : IsStatus m.status ∧ body = [m.status] := by
  have hr : read {} body = .done m [] := Body.ofStep_eq_success.mp (Message.receive_eq_some.mp h).right
  cases body
  case nil => cases hr
  case cons status body =>
    rw [read] at hr
    split at hr <;> cases hr
    case isTrue.refl hs => exact ⟨hs, rfl⟩

theorem CommandComplete.body_of_receive {m : CommandComplete}
    (h : Message.receive ({} : CommandComplete) type body = some m) :
    0 ∉ m.commandTag ∧ body = m.commandTag ++ [0] := by
  have hr : read {} body = .done m [] := Body.ofStep_eq_success.mp (Message.receive_eq_some.mp h).right
  obtain ⟨tag, r, hp, hk⟩ := Step.andThen_eq_done.mp hr
  cases hk
  obtain ⟨xs, hb, hv, hz⟩ := Terminated.parse_done hp
  rw [show tag = xs from hv]
  exact ⟨hz, hb⟩

theorem ParameterStatus.body_of_receive {m : ParameterStatus}
    (h : Message.receive ({} : ParameterStatus) type body = some m) :
    ∃ name value, 0 ∉ name ∧ 0 ∉ value ∧ body = name ++ 0 :: (value ++ [0]) := by
  have hr : read {} body = .done m [] := Body.ofStep_eq_success.mp (Message.receive_eq_some.mp h).right
  obtain ⟨_, r, hp, hk⟩ := Step.andThen_eq_done.mp hr
  obtain ⟨name, hb, _, hn⟩ := Terminated.parse_done hp
  obtain ⟨_, r', hp', hk'⟩ := Step.andThen_eq_done.mp hk
  cases hk'
  obtain ⟨value, hb', _, hv⟩ := Terminated.parse_done hp'
  exact ⟨name, value, hn, hv, by rw [hb, hb']⟩

theorem BackendKeyData.body_of_receive {m : BackendKeyData}
    (h : Message.receive ({} : BackendKeyData) type body = some m) :
    m.processId < 256 ^ 4 ∧ m.secretKey < 256 ^ 4 ∧
      body = toBigEndian 4 m.processId ++ toBigEndian 4 m.secretKey := by
  have hr : read {} body = .done m [] := Body.ofStep_eq_success.mp (Message.receive_eq_some.mp h).right
  obtain ⟨p, r, hp, hk⟩ := Step.andThen_eq_done.mp hr
  obtain ⟨hl, hb⟩ := Integer.exists_of_parse hp
  obtain ⟨s, r', hp', hk'⟩ := Step.andThen_eq_done.mp hk
  cases hk'
  obtain ⟨hl', hb'⟩ := Integer.exists_of_parse hp'
  rw [List.append_nil] at hb'
  exact ⟨hl, hl', by rw [hb, hb']⟩

namespace NoticeResponse

variable {m : NoticeResponse} {fs : Fields}

-- The parser of a NoticeResponse takes the text of a SQLSTATE as it takes any other.
def Terminated (fs : Fields) : Prop :=
  ∀ f ∈ fs, f.1 ≠ 0 ∧ 0 ∉ f.2

theorem read_type {type : Byte} (h : type ≠ 0) (bs : Bytes) : read {} (type :: bs) = read ⟨some {}⟩ bs :=
  Loop.run_goto (by simp [loop, turn, h])

theorem read_encode (h : Terminated fs) (rest : Bytes) : read {} (fs.encode ++ rest) = .done {} rest := by
  induction fs
  case nil => exact Loop.run_done rfl
  case cons f fs ih =>
    have ⟨hc, ht⟩ := h f (by simp)
    have hg : turn ⟨some {}⟩ (f.2 ++ 0 :: (Fields.encode fs ++ rest)) = .goto {} (Fields.encode fs ++ rest) := by
      simp [turn, Terminated.parse_full ht, Step.turn]
    have he : Fields.encode (f :: fs) ++ rest = f.1 :: (f.2 ++ 0 :: (Fields.encode fs ++ rest)) := by
      simp [Fields.encode]
    rw [he, read_type hc, read, Loop.run_goto hg]
    exact ih fun g hg => h g (List.mem_cons_of_mem _ hg)

-- The induction is on the length of the input, of which the first field is taken off.
theorem exists_fields (h : read {} bs = .done m rest) : m = {} ∧ ∃ fs, Terminated fs ∧ bs = fs.encode ++ rest := by
  induction hn : bs.length using Nat.strongRecOn generalizing bs
  case ind n ih =>
    cases bs
    case nil =>
      have hm : loop.body {} [] = .more {} [] := rfl
      rw [read, Loop.run_more hm] at h
      cases h
    case cons type bs =>
      by_cases ht : type = 0
      case pos =>
        have hd : loop.body {} (type :: bs) = .done {} bs := by simp [loop, turn, ht]
        rw [read, Loop.run_done hd] at h
        cases h
        exact ⟨rfl, [], List.forall_mem_nil _, by rw [ht]; rfl⟩
      case neg =>
        rw [read_type ht] at h
        obtain ⟨_, r, hp, hr⟩ := loop.goto_of_done (({} : Str NopContainer).parse bs) rfl h
        obtain ⟨text, hb, _, hz⟩ := Incremental.Terminated.parse_done hp
        have hl : r.length < n := by
          have := Incremental.Terminated.parse_lt hp
          rw [← hn, List.length_cons]
          omega
        obtain ⟨hm, fs, hf, he⟩ := ih r.length hl hr rfl
        refine ⟨hm, (type, text) :: fs, ?_, by rw [hb, he]; simp [Fields.encode]⟩
        exact List.forall_mem_cons.mpr ⟨⟨ht, hz⟩, hf⟩

-- The bodies that are accepted. Nothing is kept of them.
theorem receive_eq_some {body : Bytes} : Message.receive ({} : NoticeResponse) (letter 'N') body = some m ↔
    m = {} ∧ ∃ fs, Terminated fs ∧ body = fs.encode := by
  have ht : Message.onMessageType ({} : NoticeResponse) (letter 'N') = .success := rfl
  have hl : Message.onMessageLength ({} : NoticeResponse) (body.length + 4) = .success := rfl
  have hb : Message.onBody ({} : NoticeResponse) body = .success m ↔ read {} body = .done m [] :=
    Body.ofStep_eq_success
  rw [Message.receive_eq_some, and_iff_right ⟨ht, hl⟩, hb]
  constructor
  case mp =>
    intro h
    have ⟨hm, fs, hf, he⟩ := exists_fields h
    exact ⟨hm, fs, hf, by rw [he, List.append_nil]⟩
  case mpr =>
    rintro ⟨rfl, fs, hf, rfl⟩
    have hr := read_encode hf []
    rwa [List.append_nil] at hr

end NoticeResponse

-- Nothing but the error code is kept of an ErrorResponse.
theorem ErrorResponse.eq_of_receive {m : ErrorResponse}
    (h : Message.receive ({} : ErrorResponse) type body = some m) : m = { ec := m.ec } := by
  have hr : read {} body = .done m [] := Body.ofStep_eq_success.mp (Message.receive_eq_some.mp h).right
  have ⟨fs, hf, hb⟩ := exists_fields hr
  rw [hb, read_encode hf] at hr
  cases hr
  rfl

end Msg

namespace AuthenticationMethod

-- What follows the method in a request that the parser accepts. It reads the name of one mechanism only.
def Takes : AuthenticationMethod → Bytes → Prop
  | md5Password, data => data.length = 4
  | sasl, data        => ∃ name : Bytes, 0 ∉ name ∧ data = name ++ [0]
  | _, data           => data = []

theorem ofValue_eq_some {n : Nat} {method : AuthenticationMethod} (h : ofValue n = some method) :
    n = method.value := by
  have := List.find?_some h
  exact (of_decide_eq_true this).symm

end AuthenticationMethod

namespace Msg.Authentication

variable {type : Byte} {body : Bytes} {m : Authentication} {method : AuthenticationMethod}

theorem body_of_receive (h : Message.receive ({} : Authentication) type body = some m) :
    ∃ method data, AuthenticationMethod.Takes method data ∧ body = toBigEndian 4 method.value ++ data := by
  have hr : read {} body = .done m [] := Body.ofStep_eq_success.mp (Message.receive_eq_some.mp h).right
  have ⟨v, r, hp, hk⟩ := Step.andThen_eq_done.mp hr
  have ⟨_, hb⟩ := Integer.exists_of_parse hp
  cases hv : AuthenticationMethod.ofValue v <;> rw [hv] at hk
  case none => cases hk
  case some method =>
    rw [AuthenticationMethod.ofValue_eq_some hv] at hb
    refine ⟨method, r, ?_, hb⟩
    cases method
    case md5Password =>
      have ⟨salt, r', hp', hk'⟩ := Step.andThen_eq_done.mp hk
      have ⟨_, hs⟩ := Integer.exists_of_parse hp'
      cases hk'
      simp [AuthenticationMethod.Takes, hs]
    case sasl =>
      have ⟨name, r', hp', hk'⟩ := Step.andThen_eq_done.mp hk
      have ⟨xs, hs, _, hz⟩ := Terminated.parse_done hp'
      cases hk'
      exact ⟨xs, hz, hs⟩
    all_goals cases hk; rfl

theorem exists_receive {data : Bytes} (h : method.Takes data) :
    ∃ m, Message.receive ({} : Authentication) (letter 'R') (toBigEndian 4 method.value ++ data) = some m := by
  cases method
  case md5Password => exact AuthenticationRequest.receive_md5Password h
  case sasl =>
    obtain ⟨name, hz, hd⟩ := h
    have hm := Integer.parse_digits (k := 4) AuthenticationMethod.sasl.value_lt (name ++ [0])
    have hs : ({} : Str Bytes).parse (name ++ [0]) = (.done name [] : Step _ _ _ ParseResult) :=
      Terminated.parse_full hz []
    have hr : read {} (toBigEndian 4 AuthenticationMethod.sasl.value ++ (name ++ [0])) =
        .done { parsers := .mechanism {}, result := .mechanism name } [] := by
      simp only [read, hm, Step.andThen, AuthenticationMethod.ofValue_value, readMechanism, hs]
    exact ⟨_, by rw [hd, AuthenticationRequest.receive_of_read hr, if_pos rfl]⟩
  all_goals
    rw [show data = [] from h, List.append_nil]
    exact ⟨_, receive (by decide) (by decide)⟩

theorem exists_receive_iff {data : Bytes} :
    (∃ m, Message.receive ({} : Authentication) (letter 'R') (toBigEndian 4 method.value ++ data) = some m) ↔
      method.Takes data := by
  refine ⟨?_, exists_receive⟩
  intro ⟨m, h⟩
  have ⟨method', data', ht, hb⟩ := body_of_receive h
  have ⟨hm, hd⟩ := List.append_inj hb (by simp)
  have hv := congrArg ofBigEndian hm
  rw [ofBigEndian_toBigEndian method.value_lt, ofBigEndian_toBigEndian method'.value_lt] at hv
  have hn := congrArg AuthenticationMethod.ofValue hv
  rw [AuthenticationMethod.ofValue_value, AuthenticationMethod.ofValue_value] at hn
  cases hn
  rwa [hd]

end Msg.Authentication

namespace AnyMessage

-- The parsers that the operations start to read a message with.
inductive Fresh : AnyMessage → Prop
  | errorResponse : Fresh (.errorResponse {})
  | noticeResponse : Fresh (.noticeResponse {})
  | parameterStatus : Fresh (.parameterStatus {})
  | bindComplete : Fresh (.bindComplete ⟨⟩)
  | rowDescription : Fresh (.rowDescription {})
  | dataRow (columns : UInt16) : Fresh (.dataRow (.ofColumns columns.toNat))
  | noData : Fresh (.noData ⟨⟩)
  | readyForQuery : Fresh (.readyForQuery {})
  | commandComplete : Fresh (.commandComplete {})
  | emptyQueryResponse : Fresh (.emptyQueryResponse ⟨⟩)
  | parseComplete : Fresh (.parseComplete ⟨⟩)
  | backendKeyData : Fresh (.backendKeyData {})
  | authentication : Fresh (.authentication {})

-- What a parser is for: a kind of messages, rows with as many cells as there are columns, and authentication
-- requests with the data that it takes.
def Expects : AnyMessage → Content → Prop
  | .errorResponse _, .errorResponse _              => True
  | .noticeResponse _, .noticeResponse _            => True
  | .parameterStatus _, .parameterStatus ..         => True
  | .bindComplete _, .bindComplete                  => True
  | .rowDescription _, .rowDescription _            => True
  | .dataRow m, .dataRow cells                      => cells.length = m.data.length
  | .noData _, .noData                              => True
  | .readyForQuery _, .readyForQuery _              => True
  | .commandComplete _, .commandComplete _          => True
  | .emptyQueryResponse _, .emptyQueryResponse      => True
  | .parseComplete _, .parseComplete                => True
  | .backendKeyData _, .backendKeyData ..           => True
  | .authentication _, .authentication method data => method.Takes data
  | _, _                                           => False

-- What a message object has taken from a message.
def Holds : AnyMessage → Content → Prop
  | .errorResponse m, .errorResponse fields     => m.ec = fields.errc .successfulCompletion
  | .rowDescription m, .rowDescription cols     => m.desc = cols
  | .dataRow m, .dataRow cells                  => m.data = cells
  | .readyForQuery m, .readyForQuery status     => m.status = status
  | .commandComplete m, .commandComplete tag    => m.commandTag = tag
  | .backendKeyData m, .backendKeyData pid key  => m.processId = ofBigEndian pid ∧ m.secretKey = ofBigEndian key
  | .authentication m, .authentication method _ => m.authenticationMethod = method
  | m, c                                        => m.Expects c

end AnyMessage

-- A message that the operations cannot tell from a well-formed one. Of errors they see the error code only,
-- and of notices nothing.
inductive Frame.StandsFor : Frame → ServerMessage → Prop
  | same {m} : StandsFor m.frame m
  | error {f m fs fields} : f.type = letter 'E' → f.body = ErrorResponse.encode fs →
    (∀ field ∈ fs, field.WellFormed) → m.content = .errorResponse fields →
    fields.errc .successfulCompletion = ((sqlstate? fs).map sqlstateToErrc).getD .successfulCompletion → StandsFor f m
  | notice {f m fs fields} : f.type = letter 'N' → f.body = Fields.encode fs → NoticeResponse.Terminated fs →
    m.content = .noticeResponse fields → StandsFor f m

section

variable {a a' : AnyMessage} {f : Frame} {m : ServerMessage}

theorem ServerMessage.frame_of_content {c : Content} (h : m.content = c) :
    m.frame.type = c.type ∧ m.frame.body = c.body ∧ c.Valid := by
  cases h
  exact ⟨rfl, rfl, m.valid⟩

theorem AnyMessage.receive_eq_none {type : Byte} {body : Bytes} (h : type ≠ Message.messageType a) :
    Message.receive a type body = none := by
  cases hr : Message.receive a type body
  case none => rfl
  case some => exact absurd (messageType_receive hr).left h

theorem AnyMessage.Fresh.eq_errorResponse (ha : a.Fresh) (h : letter 'E' = Message.messageType a) :
    a = .errorResponse {} := by
  cases ha
  case errorResponse => rfl
  case dataRow       => exact absurd (show letter 'E' = letter 'D' from h) (by decide)
  all_goals exact absurd h (by decide)

theorem AnyMessage.Fresh.eq_noticeResponse (ha : a.Fresh) (h : letter 'N' = Message.messageType a) :
    a = .noticeResponse {} := by
  cases ha
  case noticeResponse => rfl
  case dataRow        => exact absurd (show letter 'N' = letter 'D' from h) (by decide)
  all_goals exact absurd h (by decide)

theorem Msg.ErrorResponse.receive_encode {fs : List ErrorField} (h : ∀ field ∈ fs, field.WellFormed) :
    Message.receive ({} : ErrorResponse) (letter 'E') (encode fs) =
      some { ec := ((sqlstate? fs).map sqlstateToErrc).getD .successfulCompletion } := by
  have hr := receive_iff.mpr ⟨fs, h, rfl, rfl⟩
  have ⟨m, hm, he⟩ := Option.map_eq_some_iff.mp hr
  rw [hm, ← he, ← eq_of_receive hm]

-- No parser can tell them apart.
theorem Frame.StandsFor.receive_eq (h : f.StandsFor m) (ha : a.Fresh) :
    Message.receive a f.type f.body = Message.receive a m.frame.type m.frame.body := by
  cases h
  case same => rfl
  case error fs fields hf he ht hb hc =>
    have ⟨ht', hb', hv⟩ := ServerMessage.frame_of_content hc
    rw [ht, hb, ht', hb', show Content.type (.errorResponse fields) = letter 'E' from rfl]
    by_cases hn : letter 'E' = Message.messageType a
    case neg => rw [AnyMessage.receive_eq_none hn, AnyMessage.receive_eq_none hn]
    case pos =>
      rw [ha.eq_errorResponse hn]
      have hr := AnyMessage.receive_map .errorResponse (ErrorResponse.receive_encode hf)
      have hr' := AnyMessage.receive_map .errorResponse (ErrorResponse.receive hv)
      exact hr.trans (he ▸ hr'.symm)
  case notice fs fields hf ht hb hc =>
    have ⟨ht', hb', hv⟩ := ServerMessage.frame_of_content hc
    rw [ht, hb, ht', hb', show Content.type (.noticeResponse fields) = letter 'N' from rfl]
    by_cases hn : letter 'N' = Message.messageType a
    case neg => rw [AnyMessage.receive_eq_none hn, AnyMessage.receive_eq_none hn]
    case pos =>
      rw [ha.eq_noticeResponse hn]
      have hr := AnyMessage.receive_map .noticeResponse (NoticeResponse.receive_eq_some.mpr ⟨rfl, fs, hf, rfl⟩)
      have hr' := AnyMessage.receive_map .noticeResponse (NoticeResponse.receive hv)
      exact hr.trans hr'.symm

-- A text that the parser reads as a SQLSTATE may contain a zero, but then it does not stand for an error
-- code of its own.
theorem sqlstateToErrc_of_zero {text : Bytes} (h : 0 ∈ text) : sqlstateToErrc text = .unknownSqlstate := by
  have hm : ∀ entry ∈ sqlstateMap, 0 ∉ ascii entry.1 := by decide +kernel
  have hn : sqlstateMap.find? (fun entry => ascii entry.1 = text) = none := by
    refine List.find?_eq_none.mpr fun entry he hd => ?_
    have := of_decide_eq_true hd
    exact hm entry he (this ▸ h)
  rw [sqlstateToErrc, hn]

-- There is a well-formed error with the same error code.
theorem exists_fields_errc {fs : List ErrorField} (h : ∀ field ∈ fs, field.WellFormed) :
    ∃ fields : Fields, fields.WellFormed ∧ fields.encode.length + 4 < 256 ^ 4 ∧
      fields.errc .successfulCompletion = ((sqlstate? fs).map sqlstateToErrc).getD .successfulCompletion := by
  cases hs : sqlstate? fs
  case none => exact ⟨[], nofun, by decide, rfl⟩
  case some text =>
    have hl : text.length = 5 := by
      have hm := List.mem_of_getLast? hs
      have ⟨field, hf, ht⟩ := List.mem_filterMap.mp hm
      cases field <;> cases ht
      exact h _ hf
    by_cases hz : 0 ∈ text
    case pos =>
      have he : sqlstateToErrc (ascii "?????") = .unknownSqlstate := by decide +kernel
      exact ⟨[(letter 'C', ascii "?????")], by decide, by decide, he.trans (sqlstateToErrc_of_zero hz).symm⟩
    case neg =>
      refine ⟨[(letter 'C', text)], ?_, ?_, rfl⟩
      case refine_1 => simpa [Fields.WellFormed, hl] using ⟨by decide, hz⟩
      case refine_2 => simp [Fields.encode, hl]

theorem Frame.exists_standsFor {c : Content} (hv : c.Valid) (ht : f.type = c.type) (hb : f.body = c.body) :
    ∃ m : ServerMessage, f.StandsFor m ∧ m.content = c := by
  have ⟨type, body, fits⟩ := f
  cases ht
  cases hb
  have hs : Frame.StandsFor (ServerMessage.frame ⟨c, hv, fits⟩) ⟨c, hv, fits⟩ := .same
  exact ⟨_, hs, rfl⟩

-- What an alternative receives, the message in it receives.
theorem AnyMessage.exists_receive {M : Type} [Message M] {r : M} {type : Byte} {body : Bytes}
    (inj : M → AnyMessage) (h : Message.receive (inj r) type body = some a')
    (ht : Message.onMessageType (inj r) = Message.onMessageType r := by rfl)
    (hl : Message.onMessageLength (inj r) = Message.onMessageLength r := by rfl)
    (hb : ∀ bs, Message.onBody (inj r) bs = (Message.onBody r bs).map inj := by exact fun _ => rfl) :
    ∃ r', Message.receive r type body = some r' ∧ inj r' = a' :=
  Option.map_eq_some_iff.mp (receive_inj inj ht hl hb ▸ h)

-- What a parser accepts is a message that it is for, and it keeps the data of the message.
theorem AnyMessage.exists_message (ha : a.Fresh) (h : Message.receive a f.type f.body = some a') :
    ∃ m : ServerMessage, f.StandsFor m ∧ a.Expects m.content ∧ a'.Holds m.content := by
  have ⟨ht, _⟩ := messageType_receive h
  -- A message with certain content, of which it only remains to be seen that the parser is for it.
  have hs {c : Content} (hv : c.Valid) (hc : f.type = c.type) (hb : f.body = c.body)
      (he : a.Expects c ∧ a'.Holds c) : ∃ m : ServerMessage, f.StandsFor m ∧ a.Expects m.content ∧ a'.Holds m.content := by
    have ⟨m, hm, hmc⟩ := Frame.exists_standsFor hv hc hb
    exact ⟨m, hm, hmc ▸ he⟩
  cases ha
  case errorResponse =>
    obtain ⟨r, hr, rfl⟩ := exists_receive .errorResponse h
    rw [show f.type = letter 'E' from ht] at hr
    have ⟨fs, hf, hb, he⟩ := ErrorResponse.receive_iff.mp (congrArg (Option.map (·.ec)) hr)
    have ⟨fields, hw, hl, hc⟩ := exists_fields_errc hf
    exact ⟨⟨.errorResponse fields, hw, hl⟩, .error ht hb hf rfl hc, trivial, he.trans hc.symm⟩
  case noticeResponse =>
    obtain ⟨r, hr, rfl⟩ := exists_receive .noticeResponse h
    rw [show f.type = letter 'N' from ht] at hr
    have ⟨_, fs, hf, hb⟩ := NoticeResponse.receive_eq_some.mp hr
    exact ⟨⟨.noticeResponse [], by decide, by decide⟩, .notice ht hb hf rfl, trivial, trivial⟩
  case parameterStatus =>
    obtain ⟨r, hr, rfl⟩ := exists_receive .parameterStatus h
    have ⟨name, value, hn, hv, hb⟩ := ParameterStatus.body_of_receive hr
    exact hs (c := .parameterStatus name value) ⟨hn, hv⟩ ht hb ⟨trivial, trivial⟩
  case bindComplete =>
    obtain ⟨r, hr, rfl⟩ := exists_receive .bindComplete h
    exact hs (c := .bindComplete) trivial ht (EmptyBody.body_of_receive hr) ⟨trivial, trivial⟩
  case noData =>
    obtain ⟨r, hr, rfl⟩ := exists_receive .noData h
    exact hs (c := .noData) trivial ht (EmptyBody.body_of_receive hr) ⟨trivial, trivial⟩
  case emptyQueryResponse =>
    obtain ⟨r, hr, rfl⟩ := exists_receive .emptyQueryResponse h
    exact hs (c := .emptyQueryResponse) trivial ht (EmptyBody.body_of_receive hr) ⟨trivial, trivial⟩
  case parseComplete =>
    obtain ⟨r, hr, rfl⟩ := exists_receive .parseComplete h
    exact hs (c := .parseComplete) trivial ht (EmptyBody.body_of_receive hr) ⟨trivial, trivial⟩
  case rowDescription =>
    obtain ⟨r, hr, rfl⟩ := exists_receive .rowDescription h
    have ⟨_, hv, hb⟩ := RowDescription.receive_iff.mp ⟨r, hr, rfl⟩
    exact hs (c := .rowDescription r.desc) hv ht hb ⟨trivial, rfl⟩
  case dataRow columns =>
    obtain ⟨r, hr, rfl⟩ := exists_receive .dataRow h
    have ⟨_, ⟨hn, hl⟩, hb⟩ := (DataRow.receive_iff f.fits).mp ⟨r, hr, rfl⟩
    have hl : r.data.length < 256 ^ 2 := by rwa [hn]
    exact hs (c := .dataRow r.data) hl ht hb ⟨hn.trans (List.length_replicate ..).symm, rfl⟩
  case readyForQuery =>
    obtain ⟨r, hr, rfl⟩ := exists_receive .readyForQuery h
    have ⟨hv, hb⟩ := ReadyForQuery.body_of_receive hr
    exact hs (c := .readyForQuery r.status) hv ht hb ⟨trivial, rfl⟩
  case commandComplete =>
    obtain ⟨r, hr, rfl⟩ := exists_receive .commandComplete h
    have ⟨hv, hb⟩ := CommandComplete.body_of_receive hr
    exact hs (c := .commandComplete r.commandTag) hv ht hb ⟨trivial, rfl⟩
  case backendKeyData =>
    obtain ⟨r, hr, rfl⟩ := exists_receive .backendKeyData h
    have ⟨hp, hk, hb⟩ := BackendKeyData.body_of_receive hr
    have hv := And.intro (toBigEndian_length 4 r.processId) (toBigEndian_length 4 r.secretKey)
    exact hs (c := .backendKeyData (toBigEndian 4 r.processId) (toBigEndian 4 r.secretKey)) hv ht hb
      ⟨trivial, (ofBigEndian_toBigEndian hp).symm, (ofBigEndian_toBigEndian hk).symm⟩
  case authentication =>
    obtain ⟨r, hr, rfl⟩ := exists_receive .authentication h
    have ⟨method, data, hd, hb⟩ := Authentication.body_of_receive hr
    have hv : Content.Valid (.authentication method data) := by
      cases method <;> first | exact hd | trivial
    rw [show f.type = letter 'R' from ht, hb] at hr
    exact hs (c := .authentication method data) hv ht hb ⟨hd, Authentication.authenticationMethod_receive hr⟩

-- A parser accepts the messages that it is for.
theorem AnyMessage.receive_of_expects (ha : a.Fresh) (he : a.Expects m.content) :
    ∃ a', Message.receive a m.frame.type m.frame.body = some a' := by
  have ⟨content, valid, fits⟩ := m
  cases ha <;> cases content <;> try exact he.elim
  case errorResponse.errorResponse           => exact ⟨_, receive_map .errorResponse (ErrorResponse.receive valid)⟩
  case noticeResponse.noticeResponse         => exact ⟨_, receive_map .noticeResponse (NoticeResponse.receive valid)⟩
  case bindComplete.bindComplete             => exact ⟨_, receive_map .bindComplete EmptyBody.receive⟩
  case noData.noData                         => exact ⟨_, receive_map .noData EmptyBody.receive⟩
  case emptyQueryResponse.emptyQueryResponse => exact ⟨_, receive_map .emptyQueryResponse EmptyBody.receive⟩
  case parseComplete.parseComplete           => exact ⟨_, receive_map .parseComplete EmptyBody.receive⟩
  case readyForQuery.readyForQuery           => exact ⟨_, receive_map .readyForQuery (ReadyForQuery.receive valid)⟩
  case commandComplete.commandComplete       =>
    exact ⟨_, receive_map .commandComplete (CommandComplete.receive valid)⟩
  case parameterStatus.parameterStatus =>
    have ⟨r, hr⟩ := ParameterStatus.receive valid.left valid.right
    exact ⟨_, receive_map .parameterStatus hr⟩
  case backendKeyData.backendKeyData =>
    have ⟨r, hr⟩ := BackendKeyData.receive valid.left valid.right
    exact ⟨_, receive_map .backendKeyData hr⟩
  case rowDescription.rowDescription =>
    have ⟨r, hr, _⟩ := RowDescription.receive valid.left valid.right
    exact ⟨_, receive_map .rowDescription hr⟩
  case dataRow.dataRow columns cells =>
    have ⟨r, hr, _⟩ := DataRow.receive (DataRow.wellFormed_of_fits fits) valid
    rw [show cells.length = columns.toNat from Eq.trans he (List.length_replicate ..)] at hr
    exact ⟨_, receive_map .dataRow hr⟩
  case authentication.authentication =>
    have ⟨r, hr⟩ := Authentication.exists_receive he
    exact ⟨_, receive_map .authentication hr⟩

end

end ChxSql.Postgresql

import ChxSql.Postgresql.BasicParser

namespace ChxSql.Postgresql

open Incremental

-- The type byte that the protocol writes as a character.
abbrev letter (c : Char) : Byte := c.toUInt8

namespace Msg

def acceptIf (b : Bool) : ParseResult :=
  if b then .success else .malformed

theorem acceptIf_defined {b : Bool} : acceptIf b = .success ∨ acceptIf b = .malformed := by
  cases b <;> decide

-- The messages that consist of nothing but their type: `bind_complete`, `no_data`, `parse_complete`
-- and `empty_query_response`.
structure EmptyBody (type : Byte) where
  deriving DecidableEq

namespace EmptyBody

variable {type : Byte}

instance : Message (EmptyBody type) where
  messageType _         := type
  onMessageType _ t     := acceptIf (t = type)
  onMessageLength _ len := acceptIf (len = 4)
  onBody                := makeSuccess

instance : LawfulMessage (EmptyBody type) :=
  .of_machine (f := .done) (.of_extends fun _ _ _ => .done) (fun _ _ => rfl)
    (fun _ _ => acceptIf_defined) (fun _ _ => acceptIf_defined) nofun

theorem receive : Message.receive (⟨⟩ : EmptyBody type) type [] = some ⟨⟩ := by
  simp [Message.receive, Message.onMessageType, Message.onMessageLength, Message.onBody, acceptIf,
    makeSuccess]

end EmptyBody

abbrev BindComplete := EmptyBody (letter '2')

abbrev NoData := EmptyBody (letter 'n')

abbrev ParseComplete := EmptyBody (letter '1')

abbrev EmptyQueryResponse := EmptyBody (letter 'I')

structure ReadyForQuery where
  status : Byte := 0
  deriving DecidableEq

namespace ReadyForQuery

def IsStatus (status : Byte) : Prop :=
  status = letter 'T' ∨ status = letter 'E' ∨ status = letter 'I'

instance : DecidablePred IsStatus :=
  fun _ => inferInstanceAs (Decidable (_ ∨ _))

def read (m : ReadyForQuery) : Bytes → Step Byte ReadyForQuery ReadyForQuery ParseResult
  | []           => .more m []
  | status :: bs => if IsStatus status then .done { status } bs else .fail .malformed bs

theorem resumable : Resumable read := by
  refine .of_extends fun m xs ys => ?_
  cases xs
  case nil  => exact .of_eq_more trivial rfl
  case cons =>
    rw [List.cons_append, read, read]
    split
    case isTrue  => exact .done
    case isFalse => exact .fail

instance : Message ReadyForQuery where
  messageType _         := letter 'Z'
  onMessageType _ type  := acceptIf (type = letter 'Z')
  onMessageLength _ len := acceptIf (len = 5)
  onBody m bs           := .ofStep (m.read bs)

instance : LawfulMessage ReadyForQuery := by
  refine .of_machine resumable (fun _ _ => rfl) (fun _ _ => acceptIf_defined)
    (fun _ _ => acceptIf_defined) fun m bs r h => ?_
  cases bs <;> simp only [read, reduceCtorEq] at h
  split at h <;> cases h

theorem receive {status : Byte} (h : IsStatus status) :
    Message.receive ({} : ReadyForQuery) (letter 'Z') [status] = some ⟨status⟩ := by
  simp [Message.receive, Message.onMessageType, Message.onMessageLength, Message.onBody, acceptIf,
    read, h, Body.ofStep, makeSuccess]

end ReadyForQuery

structure CommandComplete where
  commandTag : Bytes := []
  parser     : Str Bytes := {}
  deriving DecidableEq

namespace CommandComplete

def read (m : CommandComplete) (bs : Bytes) :
    Step Byte CommandComplete CommandComplete ParseResult :=
  (m.parser.parse bs).andThen ({ m with parser := · }) fun commandTag bs => .done { commandTag } bs

theorem resumable : Resumable read :=
  .of_extends fun _ xs ys => (Terminated.resumable.extend trivial xs ys).andThen
    (fun _ _ => trivial) (fun _ _ => rfl) (fun _ _ => .done)

instance : Message CommandComplete where
  messageType _        := letter 'C'
  onMessageType _ type := acceptIf (type = letter 'C')
  onMessageLength _ _  := .success
  onBody m bs          := .ofStep (m.read bs)

theorem read_ne_fail {m : CommandComplete} {bs e r} : m.read bs ≠ .fail e r := by
  simp only [read, Terminated.parse]
  split <;> rintro ⟨⟩

instance : LawfulMessage CommandComplete :=
  .of_machine resumable (fun _ _ => rfl) (fun _ _ => acceptIf_defined) (fun _ _ => .inl rfl)
    fun _ _ _ => read_ne_fail

theorem receive {tag : Bytes} (h : 0 ∉ tag) :
    Message.receive ({} : CommandComplete) (letter 'C') (tag ++ [0]) = some ⟨tag, {}⟩ := by
  simp [Message.receive, Message.onMessageType, Message.onMessageLength, Message.onBody, acceptIf,
    read, Terminated.parse_full h, Step.andThen, Body.ofStep, makeSuccess]

end CommandComplete

structure ParameterStatus where
  stage  : Bool := false
  parser : Str NopContainer := {}
  deriving DecidableEq

namespace ParameterStatus

-- Reading the second of the two strings. Nothing reads the parser of a message that is complete.
def readValue (m : ParameterStatus) (bs : Bytes) :
    Step Byte ParameterStatus ParameterStatus ParseResult :=
  (m.parser.parse bs).andThen ({ m with parser := · }) fun _ bs =>
    .done { m with parser := {} } bs

def read (m : ParameterStatus) (bs : Bytes) :
    Step Byte ParameterStatus ParameterStatus ParseResult :=
  if m.stage then
    m.readValue bs
  else
    (m.parser.parse bs).andThen ({ m with parser := · }) fun _ bs => readValue ⟨true, {}⟩ bs

theorem readValue_extends {m : ParameterStatus} (xs ys : Bytes) (h : m.stage = true) :
    (m.readValue xs).Extends (fun m => m.stage = true) readValue ys (m.readValue (xs ++ ys)) := by
  refine (Terminated.resumable.extend trivial xs ys).andThen ?_ (fun _ _ => rfl) (fun _ _ => .done)
  exact fun _ _ => h

theorem resumable : Resumable read := by
  refine .of_extends fun m xs ys => ?_
  have hv : ∀ {m : ParameterStatus} (xs), m.stage = true →
      (m.readValue xs).Extends (fun _ => True) read ys (m.readValue (xs ++ ys)) := by
    intro m xs h
    have he := readValue_extends xs ys h
    generalize m.readValue xs = st, m.readValue (xs ++ ys) = st' at he
    cases he
    case more hs => exact .of_eq_more trivial (by simp [read, hs])
    case done    => exact .done
    case fail    => exact .fail
  cases h : m.stage
  case true  =>
    have hr (bs) : m.read bs = m.readValue bs := by simp [read, h]
    rw [hr, hr]
    exact hv xs h
  case false =>
    have hr (p bs) : read { m with parser := p } bs = (p.parse bs).andThen ({ m with parser := · })
      fun _ bs => readValue ⟨true, {}⟩ bs := by simp [read, h]
    rw [hr m.parser, hr m.parser]
    exact (Terminated.resumable.extend trivial xs ys).andThen (fun _ _ => trivial) (fun _ _ => hr ..)
      (fun _ _ => hv _ rfl)

instance : Message ParameterStatus where
  messageType _        := letter 'S'
  onMessageType _ type := acceptIf (type = letter 'S')
  onMessageLength _ _  := .success
  onBody m bs          := .ofStep (m.read bs)

theorem readValue_ne_fail {m : ParameterStatus} {bs e r} : m.readValue bs ≠ .fail e r := by
  simp only [readValue, Terminated.parse]
  split <;> rintro ⟨⟩

theorem read_ne_fail {m : ParameterStatus} {bs e r} : m.read bs ≠ .fail e r := by
  simp only [read]
  split
  case isTrue  => exact readValue_ne_fail
  case isFalse =>
    simp only [Terminated.parse]
    split
    case isTrue  => exact readValue_ne_fail
    case isFalse => rintro ⟨⟩

instance : LawfulMessage ParameterStatus :=
  .of_machine resumable (fun _ _ => rfl) (fun _ _ => acceptIf_defined) (fun _ _ => .inl rfl)
    fun _ _ _ => read_ne_fail

theorem receive {name value : Bytes} (hn : 0 ∉ name) (hv : 0 ∉ value) :
    ∃ m, Message.receive ({} : ParameterStatus) (letter 'S') (name ++ 0 :: (value ++ [0])) =
      some m := by
  simp [Message.receive, Message.onMessageType, Message.onMessageLength, Message.onBody, acceptIf,
    read, readValue, Terminated.parse_full hn, Terminated.parse_full hv, Step.andThen, Body.ofStep, makeSuccess]

end ParameterStatus

structure BackendKeyData where
  processId : Nat := 0
  secretKey : Nat := 0
  stage     : Bool := false
  parser    : Integer 4 := {}
  deriving DecidableEq

namespace BackendKeyData

-- Reading the second of the two integers (the stage `S2`). Nothing reads the parser of a message that
-- is complete.
def readSecretKey (m : BackendKeyData) (bs : Bytes) :
    Step Byte BackendKeyData BackendKeyData ParseResult :=
  (m.parser.parse bs).andThen ({ m with parser := · }) fun secretKey bs =>
    .done { m with secretKey, parser := {} } bs

def read (m : BackendKeyData) (bs : Bytes) : Step Byte BackendKeyData BackendKeyData ParseResult :=
  if m.stage then
    m.readSecretKey bs
  else
    (m.parser.parse bs).andThen ({ m with parser := · }) fun processId bs =>
      readSecretKey { m with processId, stage := true, parser := {} } bs

theorem readSecretKey_extends {m : BackendKeyData} (xs ys : Bytes) (h : m.stage = true) :
    (m.readSecretKey xs).Extends (fun _ => True) read ys (m.readSecretKey (xs ++ ys)) := by
  refine (Integer.resumable.extend trivial xs ys).andThen (fun _ _ => trivial) (fun _ _ => ?_)
    (fun _ _ => .done)
  simp [read, h, readSecretKey]

theorem resumable : Resumable read := by
  refine .of_extends fun m xs ys => ?_
  cases h : m.stage
  case true  =>
    have hr (bs) : m.read bs = m.readSecretKey bs := by simp [read, h]
    rw [hr, hr]
    exact readSecretKey_extends xs ys h
  case false =>
    have hr (p bs) : read { m with parser := p } bs = (p.parse bs).andThen ({ m with parser := · })
      fun processId bs => readSecretKey { m with processId, stage := true, parser := {} } bs := by
        simp [read, h]
    rw [hr m.parser, hr m.parser]
    exact (Integer.resumable.extend trivial xs ys).andThen (fun _ _ => trivial) (fun _ _ => hr ..)
      (fun _ r => readSecretKey_extends r ys rfl)

instance : Message BackendKeyData where
  messageType _         := letter 'K'
  onMessageType _ type  := acceptIf (type = letter 'K')
  onMessageLength _ len := acceptIf (len = 12)
  onBody m bs           := .ofStep (m.read bs)

theorem readSecretKey_ne_fail {m : BackendKeyData} {bs e r} : m.readSecretKey bs ≠ .fail e r := by
  simp only [readSecretKey]
  cases h : m.parser.parse bs <;> simp only [Step.andThen, ne_eq, reduceCtorEq, not_false_eq_true]
  exact absurd h Integer.parse_ne_fail

theorem read_ne_fail {m : BackendKeyData} {bs e r} : m.read bs ≠ .fail e r := by
  simp only [read]
  split
  case isTrue  => exact readSecretKey_ne_fail
  case isFalse =>
    cases h : m.parser.parse bs
    case more => rintro ⟨⟩
    case done => exact readSecretKey_ne_fail
    case fail => exact absurd h Integer.parse_ne_fail

instance : LawfulMessage BackendKeyData :=
  .of_machine resumable (fun _ _ => rfl) (fun _ _ => acceptIf_defined) (fun _ _ => acceptIf_defined)
    fun _ _ _ => read_ne_fail

theorem receive {processId secretKey : Bytes} (hp : processId.length = 4)
    (hs : secretKey.length = 4) :
    ∃ m, Message.receive ({} : BackendKeyData) (letter 'K') (processId ++ secretKey) = some m := by
  have hr := Integer.parse_bytes hs []
  rw [List.append_nil] at hr
  simp [Message.receive, Message.onMessageType, Message.onMessageLength, Message.onBody, acceptIf,
    read, readSecretKey, Integer.parse_bytes hp, hr, Step.andThen, Body.ofStep, makeSuccess, hp, hs]

end BackendKeyData

end Msg

end ChxSql.Postgresql

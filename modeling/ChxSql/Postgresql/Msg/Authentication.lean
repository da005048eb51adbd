import ChxSql.Postgresql.Msg.Status

namespace ChxSql.Postgresql

open Incremental

-- Cf. detail/authentication_method.hpp.
inductive AuthenticationMethod where
  | trustOrFinished
  | kerberosV5
  | cleartextPassword
  | md5Password
  | gss
  | sspi
  | sasl
  deriving DecidableEq, Repr

namespace AuthenticationMethod

def value : AuthenticationMethod → Nat
  | trustOrFinished   => 0
  | kerberosV5        => 2
  | cleartextPassword => 3
  | md5Password       => 5
  | gss               => 7
  | sspi              => 9
  | sasl              => 10

def ofValue (n : Nat) : Option AuthenticationMethod :=
  [trustOrFinished, kerberosV5, cleartextPassword, md5Password, gss, sspi, sasl].find? (·.value = n)

theorem ofValue_value (m : AuthenticationMethod) : ofValue m.value = some m := by
  cases m <;> rfl

theorem value_lt (m : AuthenticationMethod) : m.value < 256 ^ 4 := by
  cases m <;> decide

end AuthenticationMethod

namespace Msg

-- Cf. `authentication`: the alternatives of `result`.
inductive AuthenticationResult where
  | method (m : AuthenticationMethod)
  | salt (v : Nat)
  | mechanism (name : Bytes)
  deriving DecidableEq

-- Cf. `authentication`: the alternatives of `parsers`.
inductive AuthenticationParser where
  | method (parser : Integer 4)
  | salt (parser : Integer 4)
  | mechanism (parser : Str Bytes)
  deriving DecidableEq

structure Authentication where
  parsers : AuthenticationParser := .method {}
  result  : AuthenticationResult := .method .trustOrFinished
  deriving DecidableEq

namespace Authentication

def authenticationMethod (m : Authentication) : AuthenticationMethod :=
  match m.result with
  | .method method => method
  | .salt _        => .md5Password
  | .mechanism _   => .sasl

-- `htonl` on a little-endian host.
def htonl (v : Nat) : Nat :=
  ofLittleEndian (toBigEndian 4 v)

def readSalt (m : Authentication) (parser : Integer 4) (bs : Bytes) :
    Step Byte Authentication Authentication ParseResult :=
  (parser.parse bs).andThen ({ m with parsers := .salt · }) fun v bs =>
    .done { parsers := .salt {}, result := .salt (htonl v) } bs

def readMechanism (m : Authentication) (parser : Str Bytes) (bs : Bytes) :
    Step Byte Authentication Authentication ParseResult :=
  (parser.parse bs).andThen ({ m with parsers := .mechanism · }) fun v bs =>
    .done { parsers := .mechanism {}, result := .mechanism v } bs

def read (m : Authentication) (bs : Bytes) : Step Byte Authentication Authentication ParseResult :=
  match m.parsers with
  | .method parser =>
    (parser.parse bs).andThen ({ m with parsers := .method · }) fun v bs =>
      match AuthenticationMethod.ofValue v with
      | none              => .fail .malformed bs
      | some .md5Password => m.readSalt {} bs
      | some .sasl        => m.readMechanism {} bs
      | some method       => .done { parsers := .method {}, result := .method method } bs
  | .salt parser      => m.readSalt parser bs
  | .mechanism parser => m.readMechanism parser bs

theorem readSalt_extends (m : Authentication) (parser : Integer 4) (xs ys : Bytes) :
    (m.readSalt parser xs).Extends (fun _ => True) read ys (m.readSalt parser (xs ++ ys)) :=
  (Integer.resumable.extend trivial xs ys).andThen (fun _ _ => trivial) (fun _ _ => rfl)
    (fun _ _ => .done)

theorem readMechanism_extends (m : Authentication) (parser : Str Bytes) (xs ys : Bytes) :
    (m.readMechanism parser xs).Extends (fun _ => True) read ys
      (m.readMechanism parser (xs ++ ys)) :=
  (Terminated.resumable.extend trivial xs ys).andThen (fun _ _ => trivial) (fun _ _ => rfl)
    (fun _ _ => .done)

theorem resumable : Resumable read := by
  refine .of_extends fun m xs ys => ?_
  have ⟨parsers, result⟩ := m
  cases parsers
  case salt      => exact readSalt_extends ..
  case mechanism => exact readMechanism_extends ..
  case method =>
    refine (Integer.resumable.extend trivial xs ys).andThen (fun _ _ => trivial) (fun _ _ => rfl)
      (fun _ _ => ?_)
    split
    case h_1 => exact .fail
    case h_2 => exact readSalt_extends ..
    case h_3 => exact readMechanism_extends ..
    case h_4 => exact .done

theorem readSalt_ne_fail {m : Authentication} {parser bs e r} :
    m.readSalt parser bs ≠ .fail e r := by
  cases hp : parser.parse bs
  case fail => exact absurd hp Integer.parse_ne_fail
  all_goals simp [readSalt, hp, Step.andThen]

theorem readMechanism_ne_fail {m : Authentication} {parser bs e r} :
    m.readMechanism parser bs ≠ .fail e r := by
  simp only [readMechanism, Terminated.parse]
  split <;> rintro ⟨⟩

theorem read_ne_undefined {m : Authentication} {bs r} : m.read bs ≠ .fail .undefined r := by
  obtain ⟨parsers, result⟩ := m
  cases parsers
  case salt      => exact readSalt_ne_fail
  case mechanism => exact readMechanism_ne_fail
  case method parser =>
    cases hp : parser.parse bs <;> simp only [read, hp, Step.andThen, ne_eq, reduceCtorEq,
      not_false_eq_true]
    case fail => exact absurd hp Integer.parse_ne_fail
    case done =>
      split
      case h_2 => exact readSalt_ne_fail
      case h_3 => exact readMechanism_ne_fail
      all_goals rintro ⟨⟩

instance : Message Authentication where
  messageType _        := letter 'R'
  onMessageType _ type := acceptIf (type = letter 'R')
  onMessageLength _ _  := .success
  onBody m bs          := .ofStep (m.read bs)

instance : LawfulMessage Authentication :=
  .of_machine resumable (fun _ _ => rfl) (fun _ _ => acceptIf_defined) (fun _ _ => .inl rfl)
    fun _ _ _ => read_ne_undefined

-- A request of a method that comes without data.
theorem receive {method : AuthenticationMethod} (hm : method ≠ .md5Password)
    (hs : method ≠ .sasl) :
    Message.receive ({} : Authentication) (letter 'R') (toBigEndian 4 method.value) =
      some { result := .method method } := by
  have hp := Integer.parse_digits (k := 4) method.value_lt []
  rw [List.append_nil] at hp
  have hr : read {} (toBigEndian 4 method.value) = .done { result := .method method } [] := by
    simp only [read, hp, Step.andThen, AuthenticationMethod.ofValue_value]
  simp [Message.receive, Message.onMessageType, Message.onMessageLength, Message.onBody, acceptIf,
    hr, Body.ofStep, makeSuccess]

-- Whatever request is received, it is of the method that it names.
theorem authenticationMethod_receive {method : AuthenticationMethod} {data : Bytes}
    {m : Authentication}
    (h : Message.receive ({} : Authentication) (letter 'R') (toBigEndian 4 method.value ++ data) =
      some m) : m.authenticationMethod = method := by
  have hp := Integer.parse_digits (k := 4) method.value_lt data
  have hm : ∀ m rest, read {} (toBigEndian 4 method.value ++ data) = .done m rest →
      m.authenticationMethod = method := by
    intro m rest hd
    simp only [read, hp, Step.andThen, AuthenticationMethod.ofValue_value] at hd
    cases method
    case md5Password =>
      simp only [readSalt] at hd
      cases hi : ({} : Integer 4).parse data <;> rw [hi] at hd <;> cases hd
      rfl
    case sasl =>
      simp only [readMechanism] at hd
      cases hi : ({} : Str Bytes).parse data <;> rw [hi] at hd <;> cases hd
      rfl
    all_goals cases hd; rfl
  simp only [Message.receive, Message.onBody] at h
  split at h <;> try cases h
  cases hr : read {} (toBigEndian 4 method.value ++ data) <;> rw [hr] at h <;> try cases h
  case done m' rest =>
    simp only [Body.ofStep, makeSuccess] at h
    have := hm m' rest hr
    by_cases hn : rest = []
    case pos => rw [if_pos hn] at h; cases h; exact this
    case neg => rw [if_neg hn] at h; cases h

end Authentication

end Msg

end ChxSql.Postgresql

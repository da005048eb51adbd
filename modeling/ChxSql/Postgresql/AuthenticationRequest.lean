import ChxSql.Postgresql.VariantParser

namespace ChxSql.Postgresql

open Incremental Msg VariantParser

-- What follows the method in an authentication request: four bytes of salt, or a list of names that
-- ends with an empty one, or nothing.
def AuthenticationMethod.Data : AuthenticationMethod → Bytes → Prop
  | md5Password, data => data.length = 4
  | sasl, data        =>
    ∃ names : List Bytes, names ≠ [] ∧ (∀ name ∈ names, 0 ∉ name) ∧ data = names.flatMap (· ++ [0]) ++ [0]
  | _, data           => data = []

structure AuthenticationRequest where
  method : AuthenticationMethod
  data   : Bytes
  valid  : method.Data data
  fits   : data.length + 8 < 256 ^ 4

namespace AuthenticationRequest

def body (r : AuthenticationRequest) : Bytes :=
  toBigEndian 4 r.method.value ++ r.data

def encode (r : AuthenticationRequest) : Bytes :=
  frame (letter 'R') r.body

theorem fits_body (r : AuthenticationRequest) : r.body.length + 4 < 256 ^ 4 := by
  have := r.fits
  rw [body, List.length_append, toBigEndian_length]
  omega

-- The value of a `message_parser<authentication>` that holds a request.
def value (m : Authentication) : Variant (alternatives [.authentication]) :=
  ⟨first [.authentication], m⟩

-- The request is read as one of its method: the parser wants more before the last byte of the request,
-- and with that byte it succeeds.
def Accepted (r : AuthenticationRequest) : Prop :=
  ∃ m, Reads parse (start [.authentication]) r.encode (value m) ∧ m.authenticationMethod = r.method

theorem receive_of_read {body : Bytes} {m : Authentication} {rest : Bytes}
    (h : Authentication.read {} body = .done m rest) :
    Message.receive ({} : Authentication) (letter 'R') body = if rest = [] then some m else none := by
  simp only [Message.receive, Message.onMessageType, Message.onMessageLength, Message.onBody, acceptIf, h,
    Body.ofStep, makeSuccess]
  by_cases hr : rest = [] <;> simp [hr]

theorem receive_md5Password {salt : Bytes} (h : salt.length = 4) :
    ∃ m, Message.receive ({} : Authentication) (letter 'R')
      (toBigEndian 4 AuthenticationMethod.md5Password.value ++ salt) = some m := by
  have hm := Integer.parse_digits (k := 4) AuthenticationMethod.md5Password.value_lt salt
  have hs := Integer.parse_bytes h []
  rw [List.append_nil] at hs
  have hr : Authentication.read {} (toBigEndian 4 AuthenticationMethod.md5Password.value ++ salt) =
      .done { parsers := .salt {}, result := .salt (Authentication.htonl (ofBigEndian salt)) } [] := by
    simp only [Authentication.read, hm, Step.andThen, AuthenticationMethod.ofValue_value,
      Authentication.readSalt, hs]
  exact ⟨_, receive_of_read hr⟩

-- Only the first name is read. There is at least the end of the list after it.
theorem receive_sasl {names : List Bytes} (hn : names ≠ []) (hz : ∀ name ∈ names, 0 ∉ name) :
    Message.receive ({} : Authentication) (letter 'R')
      (toBigEndian 4 AuthenticationMethod.sasl.value ++ (names.flatMap (· ++ [0]) ++ [0])) = none := by
  cases names
  case nil => exact absurd rfl hn
  case cons name names =>
    let rest := names.flatMap (· ++ [0]) ++ [0]
    have hd : (name :: names).flatMap (· ++ [0]) ++ [0] = name ++ 0 :: rest := by simp [rest]
    have hm := Integer.parse_digits (k := 4) AuthenticationMethod.sasl.value_lt (name ++ 0 :: rest)
    have hs : ({} : Str Bytes).parse (name ++ 0 :: rest) = (.done name rest : Step _ _ _ ParseResult) :=
      Terminated.parse_full (hz name (by simp)) rest
    have hr : Authentication.read {} (toBigEndian 4 AuthenticationMethod.sasl.value ++ (name ++ 0 :: rest)) =
        .done { parsers := .mechanism {}, result := .mechanism name } rest := by
      simp only [Authentication.read, hm, Step.andThen, AuthenticationMethod.ofValue_value,
        Authentication.readMechanism, hs]
    rw [hd, receive_of_read hr, if_neg (by simp [rest])]

theorem receive_body (r : AuthenticationRequest) :
    (∃ m, Message.receive ({} : Authentication) (letter 'R') r.body = some m) ↔ r.method ≠ .sasl := by
  have ⟨method, data, valid, fits⟩ := r
  cases method <;> simp only [body, AuthenticationMethod.Data] at valid ⊢
  case md5Password => exact iff_of_true (receive_md5Password valid) nofun
  case sasl =>
    have ⟨names, hn, hz, hd⟩ := valid
    refine iff_of_false ?_ (fun h => h rfl)
    rw [hd, receive_sasl hn hz]
    nofun
  all_goals
    rw [valid, List.append_nil]
    exact iff_of_true ⟨_, Authentication.receive nofun nofun⟩ nofun

theorem parse_encode {r : AuthenticationRequest} {m : Authentication} :
    BasicParser.parse { result := ({} : Authentication) } r.encode = .done m [] ↔
      Message.receive ({} : Authentication) (letter 'R') r.body = some m := by
  have hp := BasicParser.parse_frame ({} : Authentication) (letter 'R') r.fits_body []
  rw [List.append_nil, ← encode] at hp
  obtain ⟨m', hr, hd⟩ | ⟨hr, e, rest, hf⟩ := hp
  case inl => rw [hr, hd, Step.done.injEq, and_iff_left rfl, Option.some.injEq]
  case inr => simp [hr, hf]

theorem reads_encode {r : AuthenticationRequest} {m : Authentication} :
    Reads parse (start [.authentication]) r.encode (value m) ↔
      Message.receive ({} : Authentication) (letter 'R') r.body = some m := by
  have : LawfulMessage ((alternatives [.authentication]).get (first [.authentication])).Carrier :=
    inferInstanceAs (LawfulMessage Authentication)
  have hn : ((alternatives [.authentication]).map (·.byte)).Nodup := by decide
  exact (reads_iff hn (first [.authentication])).trans parse_encode

theorem accepted_iff (r : AuthenticationRequest) : r.Accepted ↔ r.method ≠ .sasl := by
  rw [← receive_body, Accepted]
  refine exists_congr fun m => ?_
  rw [reads_encode]
  exact and_iff_left_of_imp Authentication.authenticationMethod_receive

-- A server that offers SCRAM-SHA-256.
def scram : AuthenticationRequest where
  method := .sasl
  data   := ['S', 'C', 'R', 'A', 'M', '-', 'S', 'H', 'A', '-', '2', '5', '6'].map letter ++ [0, 0]
  valid  := ⟨[['S', 'C', 'R', 'A', 'M', '-', 'S', 'H', 'A', '-', '2', '5', '6'].map letter], by decide⟩
  fits   := by decide

theorem not_accepted_scram : ¬∀ r : AuthenticationRequest, r.Accepted := by
  intro h
  have ⟨m, hr, _⟩ := h scram
  exact receive_body scram |>.mp ⟨m, reads_encode.mp hr⟩ rfl

end AuthenticationRequest

end ChxSql.Postgresql

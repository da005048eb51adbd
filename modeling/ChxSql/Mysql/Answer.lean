import ChxSql.Mysql.ChainedResults

namespace ChxSql.Mysql

open Incremental ComQuery ColumnDefinition41Packet

-- What a server says to a query. An error may come in place of a result, or in place of the packet that
-- ends the rows.
inductive Answer where
  | ok (packet : OkPacket)
  | err (packet : ErrPacket)
  | resultset (r : TextResultset)
  | interrupted (r : TextResultset) (packet : ErrPacket)

namespace TextResultset

-- The payloads up to the last row.
def body (r : TextResultset) : List Bytes :=
  lenencInteger r.definitions.length :: (r.definitions.map Definition.encode ++ r.rows.map ResultsetPacket.encode)

theorem length_body (r : TextResultset) : r.body.length = 1 + r.definitions.length + r.rows.length := by
  simp only [body, List.length_cons, List.length_append, List.length_map]
  omega

end TextResultset

namespace Answer

variable (clientCap : UInt32)

def payloads : Answer → List Bytes
  | ok packet            => [packet.encode 0x00 clientCap]
  | err packet           => [packet.encode]
  | resultset r          => r.payloads clientCap
  | interrupted r packet => r.body ++ [packet.encode]

def encode (a : Answer) : Bytes :=
  encodePackets 1 (a.payloads clientCap)

-- The columns are counted right, and an error has a state.
def WellFormed : Answer → Prop
  | ok _                 => True
  | err packet           => packet.WellFormed
  | resultset r          => r.definitions.length < 2 ^ 31
  | interrupted r packet => r.definitions.length < 2 ^ 31 ∧ packet.WellFormed

instance : DecidablePred WellFormed
  | ok _                 => inferInstanceAs (Decidable True)
  | err packet           => inferInstanceAs (Decidable packet.WellFormed)
  | resultset r          => inferInstanceAs (Decidable (r.definitions.length < 2 ^ 31))
  | interrupted r packet => inferInstanceAs (Decidable (r.definitions.length < 2 ^ 31 ∧ packet.WellFormed))

-- Each payload goes into one packet.
structure Valid (a : Answer) : Prop where
  wellFormed : a.WellFormed
  fits       : ∀ payload ∈ a.payloads clientCap, payload.length < maxPayload

instance : DecidablePred (Valid clientCap) := fun a =>
  decidable_of_iff (a.WellFormed ∧ ∀ payload ∈ a.payloads clientCap, payload.length < maxPayload)
    ⟨fun h => ⟨h.left, h.right⟩, fun h => ⟨h.wellFormed, h.fits⟩⟩

-- What the user of the library is to get: the rows that have come, and the error if there is one.
def completion : Answer → Completion
  | ok _                 => ⟨0, {}⟩
  | err packet           => ⟨packet.errorCode.toNat, {}⟩
  | resultset r          => ⟨0, r.resultSet⟩
  | interrupted r packet => ⟨packet.errorCode.toNat, r.resultSet⟩

end Answer

namespace ComQuery

variable {clientCap : UInt32} {s : State}

theorem err_encode_head (packet : ErrPacket) : packet.encode.headI = 0xff := rfl

theorem err_encode_ne_nil (packet : ErrPacket) : packet.encode ≠ [] := List.cons_ne_nil _ _

theorem onErr_encode {packet : ErrPacket} (h : packet.WellFormed) :
    onErr true s {} packet.encode = (.pause,
      { s with ec := packet.errorCode.toNat, payloadParser := .err {}, stage := .finished }) :=
  PayloadResult.ofStep_done (ErrPacket.parse_encode h)

-- An error in place of a result.
theorem onPayloadData_err_first {packet : ErrPacket} (h : packet.WellFormed) (hs : s.stage = .initialGuess) {len : Nat} :
    onPayloadData clientCap len 0 s packet.encode = (.pause,
      { s with ec := packet.errorCode.toNat, payloadParser := .err {}, stage := .finished }) := by
  have he := onErr_encode (s := { s with payloadParser := .err {}, stage := .s1Err }) h
  have hb : packet.encode = 0xff :: packet.encode.tail := rfl
  rw [hb] at he ⊢
  simp only [onPayloadData, hs, guess, if_true]
  exact he

-- An error in place of a row.
theorem onPayloadData_err_row {packet : ErrPacket} (h : packet.WellFormed) (hs : AwaitsRow s) :
    onPayloadData clientCap packet.encode.length 0 s packet.encode = (.pause,
      { s with ec := packet.errorCode.toNat, payloadParser := .err {}, stage := .finished }) := by
  rw [onPayloadData_of_awaitsRow hs (err_encode_ne_nil packet), err_encode_head, if_pos rfl]
  exact onErr_encode h

-- Reading the columns and the rows.
theorem feed_body (clientCap : UInt32) (r : TextResultset) (hl : ∀ payload ∈ r.body, payload.length < maxPayload)
    (hn : r.definitions.length < 2 ^ 31) (id : UInt8) (rest : Bytes) :
    ∃ s, AwaitsRow s ∧ s.resultSet = r.resultSet ∧ s.nextSequenceId = id + .ofNat r.body.length ∧
      BasicPacket.feed (impl clientCap) (fresh id) (encodePackets id r.body ++ rest) =
        BasicPacket.feed (impl clientCap) { impl := s } rest := by
  have hdefs (d) (hd : d ∈ r.definitions) : d.encode.length < maxPayload :=
    hl _ (by simp only [TextResultset.body]; grind)
  have hrows (row) (hr : row ∈ r.rows) : (ResultsetPacket.encode row).length < maxPayload :=
    hl _ (by simp only [TextResultset.body]; grind)
  have hne (row) (hr : row ∈ r.rows) : row ≠ [] := by
    have := r.rectangular row hr
    have := List.length_pos_of_ne_nil r.ne
    exact List.ne_nil_of_length_pos (by omega)
  let s₁ := columnsAnnounced (id + 1) r.definitions.length
  let s₂ : State :=
    { s₁ with
      resultSet.names := r.definitions.map (·.name)
      nextSequenceId  := id + 1 + .ofNat r.definitions.length }
  have hfd := feed_definitions clientCap (s := s₁) rfl rfl (by simp [s₁, columnsAnnounced]) hdefs
    (encodePackets s₂.nextSequenceId (r.rows.map ResultsetPacket.encode) ++ rest)
  obtain ⟨s₃, hs₃, hres, _, hid, hfr⟩ := feed_rows clientCap rest (s := s₂)
    (.inl ⟨rfl, by simp [s₂, s₁, columnsAnnounced]⟩) r.rectangular hne hrows
  refine ⟨s₃, hs₃, hres, ?_, ?_⟩
  case refine_1 =>
    rw [hid, r.length_body, Nat.add_assoc, Nat.add_comm 1, add_ofNat_succ, UInt8.ofNat_add, ← add_assoc]
  case refine_2 =>
    simp only [TextResultset.body, encodePackets, encodePackets_append, List.append_assoc, List.length_map]
    rw [feed_columnCount (by simpa using r.ne), LengthEncodedInteger.decoded_eq_iff.mpr hn]
    exact hfd.trans hfr

-- The operation reads an answer as what it stands for.
theorem feed_answer (hc : clientCap &&& CapabilitiesFlags.clientSessionTrack = 0) {a : Answer}
    (ha : a.Valid clientCap) :
    ∃ s, BasicPacket.feed (impl clientCap) (fresh 1) (a.encode clientCap) = .done s [] ∧
      Completion.mk s.ec s.resultSet = a.completion := by
  obtain ⟨hw, hl⟩ := ha
  cases a
  case ok packet =>
    have hf := feed_pause clientCap (s := (fresh 1).impl) (List.cons_ne_nil _ _) (hl _ (List.mem_singleton_self _)) []
      (onPayloadData_ok hc packet rfl)
    rw [List.append_nil] at hf
    exact ⟨_, by rwa [Answer.encode, Answer.payloads, encodePackets, encodePackets, List.append_nil], rfl⟩
  case err packet =>
    have hf := feed_pause clientCap (s := (fresh 1).impl) (err_encode_ne_nil packet) (hl _ (List.mem_singleton_self _))
      [] (onPayloadData_err_first hw rfl)
    rw [List.append_nil] at hf
    exact ⟨_, by rwa [Answer.encode, Answer.payloads, encodePackets, encodePackets, List.append_nil], rfl⟩
  case resultset r =>
    obtain ⟨s, he, hs, hf⟩ := feed_textResultset hc r hl hw 1 []
    rw [List.append_nil] at hf
    exact ⟨s, hf, by rw [he, hs]; rfl⟩
  case interrupted r packet =>
    obtain ⟨hn, hp⟩ := hw
    have hb (payload) (h : payload ∈ r.body) : payload.length < maxPayload := hl _ (List.mem_append_left _ h)
    have hlp := hl _ (List.mem_append_right r.body (List.mem_singleton_self packet.encode))
    obtain ⟨s, hs, hres, hid, hf⟩ := feed_body clientCap r hb hn 1
      (encodePacket (1 + .ofNat r.body.length) packet.encode)
    have hfe := feed_pause clientCap (s := s) (err_encode_ne_nil packet) hlp []
      (onPayloadData_err_row (s := s.advance) hp hs)
    rw [List.append_nil, hid] at hfe
    have he : (Answer.interrupted r packet).encode clientCap =
        encodePackets 1 r.body ++ encodePacket (1 + .ofNat r.body.length) packet.encode := by
      rw [Answer.encode, Answer.payloads, encodePackets_append, encodePackets, encodePackets, List.append_nil]
    exact ⟨_, he ▸ hf.trans hfe, congrArg (Completion.mk _) hres⟩

end ComQuery

end ChxSql.Mysql

import ChxSql.Mysql.PacketSequence
import ChxSql.Mysql.Query

namespace ChxSql.Mysql

open Incremental ColumnDefinition41Packet

-- A result set as a server sends it. Each row has a cell for each column.
structure TextResultset where
  definitions : List Definition
  rows        : List Row
  ok          : OkPacket
  ne          : definitions ≠ []
  rectangular : ∀ row ∈ rows, row.length = definitions.length

namespace TextResultset

variable (clientCap : UInt32) (r : TextResultset)

-- The payloads of the result set: the number of columns, the columns, the rows and the packet that
-- ends it.
def payloads : List Bytes :=
  lenencInteger r.definitions.length :: (r.definitions.map Definition.encode ++
    (r.rows.map ResultsetPacket.encode ++ [r.ok.encode 0xfe clientCap]))

-- Each payload goes into one packet.
def Fits : Prop :=
  ∀ payload ∈ r.payloads clientCap, payload.length < maxPayload

instance : Decidable (r.Fits clientCap) :=
  inferInstanceAs (Decidable (∀ _ ∈ _, _))

def encode : Bytes :=
  encodePackets 1 ((r.payloads clientCap).flatMap pieces)

-- What the user of the library is to get.
def resultSet : ResultSet where
  names := r.definitions.map (·.name)
  rows  := r.rows

end TextResultset

namespace ComQuery

variable {clientCap : UInt32} {s s' : State} {payload rest : Bytes}

def State.advance (s : State) : State :=
  { s with nextSequenceId := s.nextSequenceId + 1 }

@[simp] theorem State.advance_nextSequenceId : s.advance.nextSequenceId = s.nextSequenceId + 1 := rfl
@[simp] theorem State.advance_columnCount : s.advance.columnCount = s.columnCount := rfl
@[simp] theorem State.advance_resultSet : s.advance.resultSet = s.resultSet := rfl

theorem lt_of_lt_maxPayload {n : Nat} (h : n < maxPayload) : n < 2 ^ 24 :=
  h.trans (by decide)

section Packet

variable (clientCap) (hp : payload ≠ []) (hl : payload.length < maxPayload) (rest : Bytes)
include hp hl

theorem feed_success
    (h : onPayloadData clientCap payload.length 0 s.advance payload = (.success, s')) :
    BasicPacket.feed (impl clientCap) { impl := s } (encodePacket s.nextSequenceId payload ++ rest) =
      BasicPacket.feed (impl clientCap) { impl := s' } rest :=
  BasicPacket.feed_success rfl (by simp [impl, State.advance]) (lt_of_lt_maxPayload hl)
    (List.append_ne_nil_of_left_ne_nil hp rest) h

theorem feed_pause
    (h : onPayloadData clientCap payload.length 0 s.advance payload = (.pause, s')) :
    BasicPacket.feed (impl clientCap) { impl := s } (encodePacket s.nextSequenceId payload ++ rest) =
      .done s' rest :=
  BasicPacket.feed_pause rfl (by simp [impl, State.advance]) (lt_of_lt_maxPayload hl)
    (List.append_ne_nil_of_left_ne_nil hp rest) h

end Packet

theorem onPayloadData_columnCount {n len : Nat} (hn : n ≠ 0) (hs : s.stage = .initialGuess) :
    onPayloadData clientCap len 0 s (lenencInteger n) = (.success,
      { s with
        columnCount   := LengthEncodedInteger.decoded n
        payloadParser := .columnDefinition {}
        stage         := .s2ColnumDef }) := by
  have ⟨b, bs, hb, head⟩ := lenencInteger_head n
  have hp := LengthEncodedInteger.parse_lenencInteger n []
  rw [List.append_nil, hb] at hp
  have hz : b ≠ 0x00 := fun h => hn (head.zero h)
  simp only [onPayloadData, hs, hb, guess, if_neg head.ne_err, if_neg hz, onColumnCount]
  rw [PayloadResult.ofStep_done hp]

theorem onPayloadData_definition {d : Definition} {len : Nat} (hd : d.encode.length < 2 ^ 31)
    (hs : s.stage = .s2ColnumDef) (hp : s.payloadParser = .columnDefinition {})
    (hn : s.resultSet.names.length < s.columnCount) :
    onPayloadData clientCap len 0 s d.encode = (.success,
      { s with resultSet.names := s.resultSet.names ++ [d.name] }) := by
  have hd := Definition.parse_encode hd []
  rw [List.append_nil] at hd
  simp only [onPayloadData, hs, hp, if_pos hn, onColumnDefinition]
  rw [PayloadResult.ofStep_done hd]

-- The operation has read all the columns and waits for a row, or for the packet that ends the rows.
def AwaitsRow (s : State) : Prop :=
  s.stage = .s2ColnumDef ∧ ¬s.resultSet.names.length < s.columnCount ∨ s.stage = .s2ResultSetRowGuess

theorem onPayloadData_of_awaitsRow {bs : Bytes} (hs : AwaitsRow s) (hb : bs ≠ []) :
    onPayloadData clientCap bs.length 0 s bs = 
      if bs.headI = 0xff then
        onErr true { s with payloadParser := .err {}, stage := .s2Err } {} bs
      else if bs.headI = 0xfe ∧ bs.length < 0xffffff then
        onOkEof clientCap true { s with payloadParser := .okEof {}, stage := .s2OkEof } {} bs
      else
        onRow { s with payloadParser := .resultset {}, stage := .s2ResultSet } {} bs := by
  cases bs
  case nil => exact absurd rfl hb
  case cons b bs =>
    obtain ⟨hs, hn⟩ | hs := hs
    case inl => simp [onPayloadData, hs, hn, guessRow]; rfl
    case inr => simp [onPayloadData, hs, guessRow]; rfl

theorem onPayloadData_row {row : Row} (hs : AwaitsRow s) (hr : row.length = s.columnCount)
    (hn : row ≠ []) (hl : (ResultsetPacket.encode row).length < maxPayload) :
    onPayloadData clientCap (ResultsetPacket.encode row).length 0 s (ResultsetPacket.encode row) =
      (.success,
        { s with
          resultSet.rows := s.resultSet.rows ++ [row]
          payloadParser  := .resultset {}
          stage          := .s2ResultSetRowGuess }) := by
  have hp := ResultsetPacket.parse_encode ((lt_of_lt_maxPayload hl).trans (by decide)) []
  rw [List.append_nil, hr] at hp
  have head := ResultsetPacket.encode_head hn
  have hfe : ¬((ResultsetPacket.encode row).headI = 0xfe ∧ (ResultsetPacket.encode row).length < 0xffffff) :=
    fun ⟨h, hl⟩ => absurd hl (Nat.not_lt.mpr ((head.large h).trans' (by decide)))
  rw [onPayloadData_of_awaitsRow hs head.ne_nil, if_neg head.ne_err, if_neg hfe, onRow,
    PayloadResult.ofStep_done hp]

theorem onPayloadData_okEof (hc : clientCap &&& CapabilitiesFlags.clientSessionTrack = 0)
    {packet : OkPacket} (hs : AwaitsRow s) (hl : (packet.encode 0xfe clientCap).length < maxPayload) :
    onPayloadData clientCap (packet.encode 0xfe clientCap).length 0 s (packet.encode 0xfe clientCap) =
      (.pause, { s with ec := 0, payloadParser := .okEof {}, stage := .finished }) := by
  have hp := packet.parse_encode 0xfe hc
  have hn : packet.encode 0xfe clientCap ≠ [] := List.cons_ne_nil _ _
  have hh : (packet.encode 0xfe clientCap).headI = 0xfe := rfl
  rw [onPayloadData_of_awaitsRow hs hn, hh, if_neg (by decide), if_pos ⟨rfl, hl⟩, onOkEof,
    PayloadResult.ofStep_done hp]

-- Reading the columns. The induction is on the columns that are still to come.
theorem feed_definitions (clientCap : UInt32) {ds : List Definition} (hs : s.stage = .s2ColnumDef)
    (hp : s.payloadParser = .columnDefinition {})
    (hn : s.resultSet.names.length + ds.length ≤ s.columnCount)
    (hl : ∀ d ∈ ds, d.encode.length < maxPayload) (rest : Bytes) :
    BasicPacket.feed (impl clientCap) { impl := s }
      (encodePackets s.nextSequenceId (ds.map Definition.encode) ++ rest) =
      BasicPacket.feed (impl clientCap) { impl :=
        { s with
          resultSet.names := s.resultSet.names ++ ds.map (·.name)
          nextSequenceId  := s.nextSequenceId + .ofNat ds.length } } rest := by
  induction ds generalizing s
  case nil => simp [encodePackets]
  case cons d ds ih =>
    simp only [List.length_cons] at hn
    have hd := hl d (by simp)
    have hg := feed_success clientCap (Definition.encode_ne_nil d) hd
      (encodePackets (s.nextSequenceId + 1) (ds.map Definition.encode) ++ rest)
      (onPayloadData_definition ((lt_of_lt_maxPayload hd).trans (by decide)) hs hp
        (show s.resultSet.names.length < s.columnCount by omega))
    rw [List.map_cons, encodePackets, List.append_assoc, hg]
    refine (ih (s := { s.advance with resultSet.names := s.resultSet.names ++ [d.name] }) hs hp
      ?_ fun d hd => hl d (List.mem_cons_of_mem _ hd)).trans ?_
    case refine_1 =>
      simp only [State.advance, List.length_append, List.length_singleton]
      omega
    case refine_2 =>
      simp only [State.advance, List.map_cons, List.append_assoc, List.singleton_append, List.length_cons,
        add_ofNat_succ]

-- Reading the rows. The induction is on the rows that are still to come.
theorem feed_rows (clientCap : UInt32) (rest : Bytes) {rows : List Row} (hs : AwaitsRow s)
    (hr : ∀ row ∈ rows, row.length = s.columnCount) (hn : ∀ row ∈ rows, row ≠ [])
    (hl : ∀ row ∈ rows, (ResultsetPacket.encode row).length < maxPayload) :
    ∃ s', AwaitsRow s' ∧ s'.resultSet = ⟨s.resultSet.names, s.resultSet.rows ++ rows⟩ ∧
      s'.columnCount = s.columnCount ∧ s'.nextSequenceId = s.nextSequenceId + .ofNat rows.length ∧
      BasicPacket.feed (impl clientCap) { impl := s }
        (encodePackets s.nextSequenceId (rows.map ResultsetPacket.encode) ++ rest) =
        BasicPacket.feed (impl clientCap) { impl := s' } rest := by
  induction rows generalizing s
  case nil => exact ⟨s, hs, by simp, rfl, by simp, by simp [encodePackets]⟩
  case cons row rows ih =>
    have hrow := hl row (by simp)
    have hg := feed_success clientCap (ResultsetPacket.encode_head (hn row (by simp))).ne_nil hrow
      (encodePackets (s.nextSequenceId + 1) (rows.map ResultsetPacket.encode) ++ rest)
      (onPayloadData_row (s := s.advance) hs (hr row (by simp)) (hn row (by simp)) hrow)
    obtain ⟨s', hs', hres, hcount, hid, hf⟩ := ih (s :=
      { s.advance with
        resultSet.rows := s.resultSet.rows ++ [row]
        payloadParser  := .resultset {}
        stage          := .s2ResultSetRowGuess })
      (.inr rfl) (fun row h => hr row (List.mem_cons_of_mem _ h))
      (fun row h => hn row (List.mem_cons_of_mem _ h)) (fun row h => hl row (List.mem_cons_of_mem _ h))
    refine ⟨s', hs', ?_, hcount, ?_, ?_⟩
    case refine_1 => simpa [State.advance] using hres
    case refine_2 => rw [hid, List.length_cons, add_ofNat_succ]; rfl
    case refine_3 =>
      rw [List.map_cons, encodePackets, List.append_assoc, hg]
      exact hf

-- The state after the number of columns.
def columnsAnnounced (id : UInt8) (columnCount : Nat) : State where
  stage          := .s2ColnumDef
  payloadParser  := .columnDefinition {}
  columnCount    := columnCount
  nextSequenceId := id

theorem feed_columnCount {id : UInt8} {n : Nat} (hn : n ≠ 0) :
    BasicPacket.feed (impl clientCap) (fresh id) (encodePacket id (lenencInteger n) ++ rest) =
      BasicPacket.feed (impl clientCap)
        { impl := columnsAnnounced (id + 1) (LengthEncodedInteger.decoded n) } rest := by
  have ⟨b, bs, hb, _⟩ := lenencInteger_head n
  exact feed_success clientCap (by simp [hb]) ((lenencInteger_length_le n).trans_lt (by decide)) rest
    (onPayloadData_columnCount (s := (fresh id).impl.advance) hn rfl)

theorem feed_textResultset (hc : clientCap &&& CapabilitiesFlags.clientSessionTrack = 0)
    (r : TextResultset) (hl : r.Fits clientCap) (hn : r.definitions.length < 2 ^ 31) (id : UInt8)
    (rest : Bytes) :
    ∃ s', s'.ec = 0 ∧ s'.resultSet = r.resultSet ∧
      BasicPacket.feed (impl clientCap) (fresh id) (encodePackets id (r.payloads clientCap) ++ rest) =
        .done s' rest := by
  have hdefs (d) (hd : d ∈ r.definitions) : d.encode.length < maxPayload :=
    hl _ (by simp only [TextResultset.payloads]; grind)
  have hrows (row) (hr : row ∈ r.rows) : (ResultsetPacket.encode row).length < maxPayload :=
    hl _ (by simp only [TextResultset.payloads]; grind)
  have hok : (r.ok.encode 0xfe clientCap).length < maxPayload :=
    hl _ (by simp only [TextResultset.payloads]; grind)
  have hne (row) (hr : row ∈ r.rows) : row ≠ [] := by
    have := r.rectangular row hr
    have := List.length_pos_of_ne_nil r.ne
    exact List.ne_nil_of_length_pos (by omega)
  let s₁ := columnsAnnounced (id + 1) r.definitions.length
  let s₂ : State :=
    { s₁ with
      resultSet.names := r.definitions.map (·.name)
      nextSequenceId  := id + 1 + .ofNat r.definitions.length }
  let afterRows := encodePacket (s₂.nextSequenceId + .ofNat r.rows.length) (r.ok.encode 0xfe clientCap) ++ rest
  have hfd := feed_definitions clientCap (s := s₁) rfl rfl (by simp [s₁, columnsAnnounced]) hdefs
    (encodePackets s₂.nextSequenceId (r.rows.map ResultsetPacket.encode) ++ afterRows)
  have ⟨s₃, hs₃, hres, _, hid, hfr⟩ := feed_rows clientCap afterRows (s := s₂)
    (.inl ⟨rfl, by simp [s₂, s₁, columnsAnnounced]⟩) r.rectangular hne hrows
  have hfo := feed_pause clientCap (s := s₃) (List.cons_ne_nil _ _) hok rest (onPayloadData_okEof hc hs₃ hok)
  rw [hid] at hfo
  refine ⟨{ s₃.advance with ec := 0, payloadParser := .okEof {}, stage := .finished }, rfl, hres, ?_⟩
  simp only [TextResultset.payloads, encodePackets, encodePackets_append, List.append_assoc,
    List.append_nil, List.length_map]
  rw [feed_columnCount (by simpa using r.ne), LengthEncodedInteger.decoded_eq_iff.mpr hn]
  exact hfd.trans (hfr.trans hfo)

end ComQuery

namespace TextResultset

open ComQuery

-- However the bytes of the result set come in reads, the operation completes once it has read them
-- all, without an error and with the result set.
def Decodes (clientCap : UInt32) (r : TextResultset) : Prop :=
  ∀ reads, received reads = r.encode clientCap →
    run clientCap reads = (.done ⟨0, r.resultSet⟩ [], [])

variable {clientCap : UInt32} {r : TextResultset}

theorem decodes_of_lt (hc : clientCap &&& CapabilitiesFlags.clientSessionTrack = 0)
    (hl : r.Fits clientCap) (hn : r.definitions.length < 2 ^ 31) : r.Decodes clientCap := by
  intro reads hr
  have ⟨s, he, hs, hf⟩ := feed_textResultset hc r hl hn 1 []
  rw [List.append_nil, ← flatMap_pieces hl, ← encode, ← hr] at hf
  rw [run_of_feed_end hc hf, he, hs]

end TextResultset

end ChxSql.Mysql

import ChxSql.Mysql.Formats
import ChxSql.Mysql.TextResultset

namespace ChxSql.Mysql

open Incremental

namespace BasicPacket

variable {ι : Type} {i : Impl ι} {s s' : ι} {bs rest : Bytes}

theorem after_onHeader {next : Stage} {answer : PayloadResult × ι} :
    (loop i).after (onHeader next answer bs) = .done s' rest ↔
      ∃ s, answer = (.success, s) ∧ feed i ⟨next, s⟩ bs = .done s' rest := by
  obtain ⟨a, s⟩ := answer
  cases a
  case success => simp [onHeader, Loop.after, feed]
  all_goals simp [onHeader, Loop.after]

theorem after_onPart {len remain : Nat} {answer : PayloadResult × ι} :
    (loop i).after (onPart len remain answer bs) = .done s' rest ↔ remain = 0 ∧
      (answer = (.pause, s') ∧ bs = rest ∨ ∃ s, answer = (.success, s) ∧ feed i { impl := s } bs = .done s' rest) := by
  obtain ⟨a, s⟩ := answer
  by_cases hr : remain = 0
  case pos => cases a <;> simp [onPart, Loop.after, feed, hr]
  case neg => cases a <;> simp [onPart, Loop.after, hr]

theorem feed_packetLength_iff : feed i { impl := s } bs = .done s' rest ↔ ∃ header r, bs = header ++ r ∧
    header.length = 3 ∧ ∃ s₁, i.onPacketLengthComplete s (ofLittleEndian header) = (.success, s₁) ∧
      feed i ⟨.sequenceId (ofLittleEndian header), s₁⟩ r = .done s' rest := by
  have hf : Accepts (({} : Filling Bytes 3).fill : _ → Step _ _ _ (PacketResult × ι)) _ := Filling.accepts
  have hb (bs : Bytes) : (loop i).body { impl := s } bs = Step.turn (({} : Filling Bytes 3).fill bs)
      ({ impl := s, stage := .packetLength · }) fun header bs =>
        onHeader (.sequenceId (ofLittleEndian header)) (i.onPacketLengthComplete s (ofLittleEndian header)) bs := by
    simp only [loop, turn]
    split
    case isTrue h => rw [h]; rfl
    case isFalse  => rfl
  rw [feed, Loop.run_field_iff hf hb]
  simp only [after_onHeader]
  constructor
  case mp =>
    rintro ⟨header, _, r, rfl, ⟨hl, rfl⟩, h⟩
    exact ⟨header, r, rfl, hl, h⟩
  case mpr =>
    rintro ⟨header, r, rfl, hl, h⟩
    exact ⟨header, header, r, rfl, ⟨hl, rfl⟩, h⟩

theorem feed_sequenceId_iff {len : Nat} : feed i ⟨.sequenceId len, s⟩ bs = .done s' rest ↔ ∃ id r, bs = id :: r ∧
    ∃ s₁, i.onSequenceIdComplete s id = (.success, s₁) ∧ feed i ⟨.payload len len, s₁⟩ r = .done s' rest := by
  cases bs
  case nil => simp [feed_nil]
  case cons id bs =>
    have hb : (loop i).body ⟨.sequenceId len, s⟩ (id :: bs) =
        onHeader (.payload len len) (i.onSequenceIdComplete s id) bs := rfl
    rw [feed, Loop.run_eq_after, hb, after_onHeader]
    simp

theorem feed_payload_iff {len : Nat} : feed i ⟨.payload len len, s⟩ bs = .done s' rest ↔ bs ≠ [] ∧
    ∃ payload r, bs = payload ++ r ∧ payload.length = len ∧
      (i.onPayloadData len 0 s payload = (.pause, s') ∧ r = rest ∨
        ∃ s₁, i.onPayloadData len 0 s payload = (.success, s₁) ∧ feed i { impl := s₁ } r = .done s' rest) := by
  by_cases hn : bs = []
  case pos => simp [hn, feed_nil]
  case neg =>
    have hb : (loop i).body ⟨.payload len len, s⟩ bs = _ := turn_payload hn
    rw [feed, Loop.run_eq_after, hb, after_onPart, and_iff_right hn]
    constructor
    case mp =>
      rintro ⟨hl, h⟩
      rw [hl] at h
      exact ⟨bs.take len, bs.drop len, (List.take_append_drop ..).symm, by rw [List.length_take]; omega, h⟩
    case mpr =>
      rintro ⟨payload, r, rfl, rfl, h⟩
      have hl : payload.length - (payload ++ r).length = 0 := by simp
      rw [hl, List.take_left, List.drop_left]
      exact ⟨rfl, h⟩

-- Reading up to a pause takes one packet after the other. A packet without a payload needs another byte after it.
theorem feed_done_iff : feed i { impl := s } bs = .done s' rest ↔ ∃ id payload r, bs = encodePacket id payload ++ r ∧
    payload.length < 2 ^ 24 ∧ payload ++ r ≠ [] ∧ ∃ s₁ s₂,
      i.onPacketLengthComplete s payload.length = (.success, s₁) ∧ i.onSequenceIdComplete s₁ id = (.success, s₂) ∧
      (i.onPayloadData payload.length 0 s₂ payload = (.pause, s') ∧ r = rest ∨
        ∃ s₃, i.onPayloadData payload.length 0 s₂ payload = (.success, s₃) ∧
          feed i { impl := s₃ } r = .done s' rest) := by
  constructor
  case mp =>
    intro h
    obtain ⟨header, _, rfl, hl, s₁, h₁, h⟩ := feed_packetLength_iff.mp h
    obtain ⟨id, _, rfl, s₂, h₂, h⟩ := feed_sequenceId_iff.mp h
    obtain ⟨hn, payload, r, rfl, hp, h⟩ := feed_payload_iff.mp h
    have he : toLittleEndian 3 (ofLittleEndian header) = header := hl ▸ toLittleEndian_ofLittleEndian header
    have hlt : ofLittleEndian header < 2 ^ 24 := by simpa [hl] using ofLittleEndian_lt header
    rw [← hp] at he hlt h₁ h
    exact ⟨id, payload, r, by rw [encodePacket, he]; simp, hlt, hn, s₁, s₂, h₁, h₂, h⟩
  case mpr =>
    rintro ⟨id, payload, r, rfl, hp, hr, s₁, s₂, h₁, h₂, ⟨h, rfl⟩ | ⟨s₃, h, hf⟩⟩
    case inl => exact feed_pause h₁ h₂ hp hr h
    case inr => rw [feed_success h₁ h₂ hp hr h, hf]

end BasicPacket

namespace PayloadResult

variable {π α ι : Type} {st : Step Byte π α PayloadFailure} {ok : PayloadResult} {more : π → ι} {done : α → ι}
variable {failed s : ι}

theorem ofStep_ok_iff (h : ok = .success ∨ ok = .pause) :
    ofStep st ok more done failed = (ok, s) ↔ ∃ a, st = .done a [] ∧ s = done a := by
  cases st
  case more p r => obtain rfl | rfl := h <;> simp [ofStep]
  case done a r => cases r <;> obtain rfl | rfl := h <;> simp [ofStep, eq_comm]
  case fail e r => cases e <;> obtain rfl | rfl := h <;> simp [ofStep, PayloadFailure.result]

theorem ofStep_pause_ne : ofStep st .pause more done failed ≠ (.success, s) := by
  cases st
  case more => simp [ofStep]
  case done a r => cases r <;> simp [ofStep]
  case fail e r => cases e <;> simp [ofStep, PayloadFailure.result]

theorem ofStep_success_ne : ofStep st .success more done failed ≠ (.pause, s) := by
  cases st
  case more => simp [ofStep]
  case done a r => cases r <;> simp [ofStep]
  case fail e r => cases e <;> simp [ofStep, PayloadFailure.result]

end PayloadResult

namespace ComQuery

open ResultsetPacket ColumnDefinition41Packet

-- A packet that ends a response, with the error code that is reported.
inductive Verdict (headerCh : Byte) : Bytes → ErrorCode → Prop
  | err {packet : ErrPacket} : packet.WellFormed → Verdict headerCh packet.encode packet.errorCode.toNat
  | ok {packet : OkPacket} {payload : Bytes} : packet.Written headerCh payload → Verdict headerCh payload 0

-- A payload that is taken for a row: it does not look like something that ends the rows.
structure WrittenRow (n : Nat) (row : Row) (payload : Bytes) : Prop where
  cells  : ∃ cells, List.Forall₂ Cell row cells ∧ payload = cells.flatten
  length : row.length = n
  ne_nil : payload ≠ []
  ne_err : payload.headI ≠ 0xff
  ne_ok  : payload.headI = 0xfe → maxPayload ≤ payload.length

-- The packet after the rows. A long one is taken for a row.
structure Ending (payload : Bytes) (ec : ErrorCode) : Prop where
  verdict : Verdict 0xfe payload ec
  short   : payload.headI = 0xfe → payload.length < maxPayload

-- The payloads of the response to a query, with the error code and the result set that they stand for.
inductive Response : List Bytes → ErrorCode → ResultSet → Prop
  | verdict {payload : Bytes} {ec : ErrorCode} : Verdict 0x00 payload ec → Response [payload] ec {}
  | resultSet {count last : Bytes} {columns payloads : List Bytes} {ds : List Definition} {rows : List Row}
    {ec : ErrorCode} :
    Lenenc ds.length count → count.headI ≠ 0x00 → List.Forall₂ Definition.Written ds columns →
    List.Forall₂ (WrittenRow ds.length) rows payloads → Ending last ec →
    Response (count :: (columns ++ (payloads ++ [last]))) ec ⟨ds.map (·.name), rows⟩

variable {clientCap : UInt32} {s s' : State} {payload : Bytes}

theorem onErr_pause_iff : onErr true s {} payload = (.pause, s') ↔ ∃ packet : ErrPacket,
    packet.WellFormed ∧ payload = packet.encode ∧
      s' = { s with ec := packet.errorCode.toNat, payloadParser := .err {}, stage := .finished } := by
  rw [onErr, PayloadResult.ofStep_ok_iff (.inr rfl)]
  simp only [ErrPacket.parse_done_iff, and_true, and_assoc]

theorem onOk_pause_iff (hc : clientCap &&& CapabilitiesFlags.clientSessionTrack = 0) :
    onOk clientCap true s {} payload = (.pause, s') ↔ (∃ packet : OkPacket, packet.Written 0x00 payload) ∧
      s' = { s with ec := 0, payloadParser := .ok {}, stage := .finished } := by
  rw [onOk, PayloadResult.ofStep_ok_iff (.inr rfl), exists_and_right, OkPacket.exists_done_iff hc]

theorem onOkEof_pause_iff (hc : clientCap &&& CapabilitiesFlags.clientSessionTrack = 0) :
    onOkEof clientCap true s {} payload = (.pause, s') ↔ (∃ packet : OkPacket, packet.Written 0xfe payload) ∧
      s' = { s with ec := 0, payloadParser := .okEof {}, stage := .finished } := by
  rw [onOkEof, PayloadResult.ofStep_ok_iff (.inr rfl), exists_and_right, OkPacket.exists_done_iff hc]

theorem onColumnCount_success_iff : onColumnCount s {} payload = (.success, s') ↔ ∃ n, Lenenc n payload ∧
    s' = { s with columnCount := n, payloadParser := .columnDefinition {}, stage := .s2ColnumDef } := by
  rw [onColumnCount, PayloadResult.ofStep_ok_iff (.inl rfl)]
  simp only [LengthEncodedInteger.accepts.done_nil_iff]

-- Having read the description of a column.
def State.appendName (s : State) (name : Bytes) : State :=
  { s with resultSet.names := s.resultSet.names ++ [name], payloadParser := .columnDefinition {} }

section

variable {name : Bytes}

@[simp] theorem State.appendName_nextSequenceId : (s.appendName name).nextSequenceId = s.nextSequenceId := rfl
@[simp] theorem State.appendName_columnCount : (s.appendName name).columnCount = s.columnCount := rfl
@[simp] theorem State.appendName_names : (s.appendName name).resultSet.names = s.resultSet.names ++ [name] := rfl
@[simp] theorem State.appendName_rows : (s.appendName name).resultSet.rows = s.resultSet.rows := rfl

end

theorem onColumnDefinition_success_iff : onColumnDefinition s {} payload = (.success, s') ↔
    ∃ d : Definition, d.Written payload ∧ s' = s.appendName d.name := by
  rw [onColumnDefinition, PayloadResult.ofStep_ok_iff (.inl rfl)]
  simp only [ColumnDefinition41Packet.Parser.accepts.done_nil_iff]
  constructor
  case mp =>
    rintro ⟨_, ⟨d, rfl, hd⟩, rfl⟩
    exact ⟨d, hd, rfl⟩
  case mpr =>
    rintro ⟨d, hd, rfl⟩
    exact ⟨_, ⟨d, rfl, hd⟩, rfl⟩

theorem onRow_success_iff : onRow s {} payload = (.success, s') ↔
    ∃ row, (∃ cells, List.Forall₂ Cell row cells ∧ payload = cells.flatten) ∧ row.length = s.columnCount ∧
      s' = s.appendRow row := by
  rw [onRow, PayloadResult.ofStep_ok_iff (.inl rfl)]
  simp only [ResultsetPacket.Parser.parse_done_iff, List.append_nil, exists_eq_left', cells_iff, and_assoc]
  rfl

theorem headI_of_written {packet : OkPacket} {headerCh : Byte} (h : packet.Written headerCh payload) :
    payload ≠ [] ∧ payload.headI = headerCh := by
  cases h
  exact ⟨List.cons_ne_nil _ _, rfl⟩

variable {ec : ErrorCode} {rs : ResultSet} {headerCh : Byte} {len : Nat}

theorem Verdict.ne_nil (h : Verdict headerCh payload ec) : payload ≠ [] := by
  cases h
  case err  => exact List.cons_ne_nil _ _
  case ok h => exact (headI_of_written h).left

-- The first byte tells whether it is an error.
theorem verdict_iff_err (h : payload.headI = 0xff) (hn : headerCh ≠ 0xff) : Verdict headerCh payload ec ↔
    ∃ packet : ErrPacket, packet.WellFormed ∧ payload = packet.encode ∧ ec = packet.errorCode.toNat := by
  constructor
  case mp =>
    rintro (hw | hw)
    case err => exact ⟨_, hw, rfl, rfl⟩
    case ok  => exact absurd ((headI_of_written hw).right.symm.trans h) hn
  case mpr =>
    rintro ⟨packet, hw, rfl, rfl⟩
    exact .err hw

theorem verdict_iff_ok (h : payload.headI ≠ 0xff) : Verdict headerCh payload ec ↔
    (∃ packet : OkPacket, packet.Written headerCh payload) ∧ ec = 0 := by
  constructor
  case mp =>
    rintro (hw | hw)
    case err => exact absurd rfl h
    case ok  => exact ⟨⟨_, hw⟩, rfl⟩
  case mpr =>
    rintro ⟨⟨packet, hw⟩, rfl⟩
    exact .ok hw

-- An answer that completes the operation, if nothing comes after the packet.
def Completes (answer : PayloadResult × State) (ec : ErrorCode) (rs : ResultSet) : Prop :=
  ∃ s', answer = (.pause, s') ∧ s'.ec = ec ∧ s'.resultSet = rs

theorem onErr_completes_iff (h : payload.headI = 0xff) (hn : headerCh ≠ 0xff) :
    Completes (onErr true s {} payload) ec rs ↔ Verdict headerCh payload ec ∧ rs = s.resultSet := by
  simp only [Completes, onErr_pause_iff, verdict_iff_err h hn]
  constructor
  case mp =>
    rintro ⟨_, ⟨packet, hw, rfl, rfl⟩, rfl, rfl⟩
    exact ⟨⟨packet, hw, rfl, rfl⟩, rfl⟩
  case mpr =>
    rintro ⟨⟨packet, hw, rfl, rfl⟩, rfl⟩
    exact ⟨_, ⟨packet, hw, rfl, rfl⟩, rfl, rfl⟩

-- A query that has not read the number of columns.
theorem guess_completes_iff (hc : clientCap &&& CapabilitiesFlags.clientSessionTrack = 0) :
    Completes (guess clientCap true s payload) ec rs ↔ Verdict 0x00 payload ec ∧ rs = s.resultSet := by
  cases payload
  case nil =>
    have hv : ¬Verdict 0x00 [] ec := fun h => h.ne_nil rfl
    simp [guess, Completes, hv]
  case cons b bs =>
    simp only [guess]
    split_ifs with h₁ h₂
    case pos => exact onErr_completes_iff h₁ (by decide)
    case pos =>
      have hb : (b :: bs).headI ≠ 0xff := h₁
      simp only [Completes, onOk_pause_iff hc, verdict_iff_ok hb]
      constructor
      case mp =>
        rintro ⟨_, ⟨hw, rfl⟩, rfl, rfl⟩
        exact ⟨⟨hw, rfl⟩, rfl⟩
      case mpr =>
        rintro ⟨⟨hw, rfl⟩, rfl⟩
        exact ⟨_, ⟨hw, rfl⟩, rfl, rfl⟩
    case neg =>
      have hb : (b :: bs).headI ≠ 0xff := h₁
      have hv : ¬Verdict 0x00 (b :: bs) ec := by
        rw [verdict_iff_ok hb]
        rintro ⟨⟨_, hw⟩, _⟩
        exact h₂ (headI_of_written hw).right
      simp [Completes, hv, onColumnCount, PayloadResult.ofStep_success_ne]

theorem guess_success_iff : guess clientCap true s payload = (.success, s') ↔ ∃ n,
    Lenenc n payload ∧ payload.headI ≠ 0x00 ∧
      s' = { s with columnCount := n, payloadParser := .columnDefinition {}, stage := .s2ColnumDef } := by
  cases payload
  case nil =>
    have hl (n : Nat) : ¬Lenenc n [] := by rintro ⟨⟩
    simp [guess, hl]
  case cons b bs =>
    simp only [guess, List.headI_cons]
    split_ifs with h₁ h₂
    case pos =>
      have hl (n : Nat) : ¬Lenenc n (b :: bs) := by rintro ⟨⟩ <;> simp_all
      simp [hl, onErr, PayloadResult.ofStep_pause_ne]
    case pos => simp [h₂, onOk, PayloadResult.ofStep_pause_ne]
    case neg => simp only [onColumnCount_success_iff, ne_eq, h₂, not_false_iff, true_and]

-- An empty payload is no row and does not end the rows.
theorem onPayloadData_nil (hs : AwaitsRow s) : (onPayloadData clientCap 0 0 s []).1 = .needMore := by
  obtain ⟨hs, hn⟩ | hs := hs
  case inl => simp [onPayloadData, hs, hn, guessRow]
  case inr => simp [onPayloadData, hs, guessRow]

-- A query that waits for a row.
theorem row_completes_iff (hc : clientCap &&& CapabilitiesFlags.clientSessionTrack = 0) (hs : AwaitsRow s) :
    Completes (onPayloadData clientCap payload.length 0 s payload) ec rs ↔ Ending payload ec ∧ rs = s.resultSet := by
  cases payload
  case nil =>
    have hv : ¬Ending [] ec := fun h => h.verdict.ne_nil rfl
    have hn : ∀ s', onPayloadData clientCap 0 0 s [] ≠ (.pause, s') := by
      intro s' h
      cases (onPayloadData_nil hs).symm.trans (congrArg (·.1) h)
    simp [Completes, hv, hn]
  case cons b bs =>
    rw [onPayloadData_of_awaitsRow hs (List.cons_ne_nil b bs)]
    split_ifs with h₁ h₂
    case pos =>
      have he : Ending (b :: bs) ec ↔ Verdict 0xfe (b :: bs) ec :=
        ⟨(·.verdict), fun h => ⟨h, fun hb => absurd (h₁.symm.trans hb) (by decide)⟩⟩
      rw [he]
      exact onErr_completes_iff h₁ (by decide)
    case pos =>
      have hb : (b :: bs).headI ≠ 0xff := h₁
      have he : Ending (b :: bs) ec ↔ Verdict 0xfe (b :: bs) ec := ⟨(·.verdict), fun h => ⟨h, fun _ => h₂.right⟩⟩
      simp only [Completes, he, onOkEof_pause_iff hc, verdict_iff_ok hb]
      constructor
      case mp =>
        rintro ⟨_, ⟨hw, rfl⟩, rfl, rfl⟩
        exact ⟨⟨hw, rfl⟩, rfl⟩
      case mpr =>
        rintro ⟨⟨hw, rfl⟩, rfl⟩
        exact ⟨_, ⟨hw, rfl⟩, rfl, rfl⟩
    case neg =>
      have hb : (b :: bs).headI ≠ 0xff := h₁
      have hv : ¬Ending (b :: bs) ec := by
        rintro ⟨hv, hs⟩
        obtain ⟨⟨_, hw⟩, _⟩ := (verdict_iff_ok hb).mp hv
        have ho : b = 0xfe := (headI_of_written hw).right
        exact h₂ ⟨ho, hs ho⟩
      simp [Completes, hv, onRow, PayloadResult.ofStep_success_ne]

theorem row_success_iff (hs : AwaitsRow s) : onPayloadData clientCap payload.length 0 s payload = (.success, s') ↔
    ∃ row, WrittenRow s.columnCount row payload ∧ s' = s.appendRow row := by
  cases payload
  case nil =>
    have hr (row : Row) : ¬WrittenRow s.columnCount row [] := fun h => h.ne_nil rfl
    have hn : onPayloadData clientCap 0 0 s [] ≠ (.success, s') := by
      intro h
      cases (onPayloadData_nil hs).symm.trans (congrArg (·.1) h)
    simp [hr, hn]
  case cons b bs =>
    rw [onPayloadData_of_awaitsRow hs (List.cons_ne_nil b bs)]
    split_ifs with h₁ h₂
    case pos =>
      have hr (row : Row) : ¬WrittenRow s.columnCount row (b :: bs) := fun h => h.ne_err h₁
      simp [hr, onErr, PayloadResult.ofStep_pause_ne]
    case pos =>
      have hr (row : Row) : ¬WrittenRow s.columnCount row (b :: bs) := fun h =>
        absurd (h.ne_ok h₂.left) (Nat.not_le.mpr h₂.right)
      simp [hr, onOkEof, PayloadResult.ofStep_pause_ne]
    case neg =>
      rw [onRow_success_iff]
      constructor
      case mp =>
        rintro ⟨row, hw, hl, rfl⟩
        exact ⟨row, ⟨hw, hl, List.cons_ne_nil _ _, h₁, fun ho => Nat.not_lt.mp fun hs => h₂ ⟨ho, hs⟩⟩, rfl⟩
      case mpr =>
        rintro ⟨row, hw, rfl⟩
        exact ⟨row, hw.cells, hw.length, rfl⟩

-- The operation pauses at the end of some bytes, with an error code and a result set.
def Pauses (clientCap : UInt32) (s : State) (bs rest : Bytes) (ec : ErrorCode) (rs : ResultSet) : Prop :=
  ∃ s', BasicPacket.feed (impl clientCap) { impl := s } bs = .done s' rest ∧ s'.ec = ec ∧ s'.resultSet = rs

variable {bs rest : Bytes} {payloads : List Bytes}

theorem pauses_iff : Pauses clientCap s bs rest ec rs ↔ ∃ payload r, bs = encodePacket s.nextSequenceId payload ++ r ∧
    payload.length < 2 ^ 24 ∧ payload ++ r ≠ [] ∧
      (Completes (onPayloadData clientCap payload.length 0 s.advance payload) ec rs ∧ r = rest ∨
        ∃ s₁, onPayloadData clientCap payload.length 0 s.advance payload = (.success, s₁) ∧
          Pauses clientCap s₁ r rest ec rs) := by
  constructor
  case mp =>
    rintro ⟨s', hf, rfl, rfl⟩
    obtain ⟨id, payload, r, rfl, hl, hn, _, s₂, h₁, h₂, h⟩ := BasicPacket.feed_done_iff.mp hf
    cases h₁
    obtain ⟨hi, rfl⟩ := Prod.mk.inj h₂
    obtain rfl : s.nextSequenceId = id := by
      by_contra hne
      rw [if_neg hne] at hi
      cases hi
    refine ⟨payload, r, rfl, hl, hn, ?_⟩
    obtain ⟨h, rfl⟩ | ⟨s₁, h, hf⟩ := h
    case inl => exact .inl ⟨⟨s', h, rfl, rfl⟩, rfl⟩
    case inr => exact .inr ⟨s₁, h, s', hf, rfl, rfl⟩
  case mpr =>
    rintro ⟨payload, r, rfl, hl, hn, h⟩
    have hi : (impl clientCap).onSequenceIdComplete s s.nextSequenceId = (.success, s.advance) := by
      simp [impl, State.advance]
    obtain ⟨⟨s', h, hec, hrs⟩, rfl⟩ | ⟨s₁, h, s', hf, hec, hrs⟩ := h
    case inl =>
      exact ⟨s', BasicPacket.feed_done_iff.mpr ⟨_, _, r, rfl, hl, hn, s, _, rfl, hi, .inl ⟨h, rfl⟩⟩, hec, hrs⟩
    case inr =>
      exact ⟨s', BasicPacket.feed_done_iff.mpr ⟨_, _, r, rfl, hl, hn, s, _, rfl, hi, .inr ⟨s₁, h, hf⟩⟩, hec, hrs⟩

theorem AwaitsRow.advance (h : AwaitsRow s) : AwaitsRow s.advance :=
  h

theorem AwaitsRow.appendRow (s : State) (row : Row) : AwaitsRow (s.appendRow row) :=
  .inr rfl

-- A query that waits for rows pauses at the end of the packet after them. The induction is on the number of bytes.
theorem exists_rows (hc : clientCap &&& CapabilitiesFlags.clientSessionTrack = 0) (hs : AwaitsRow s)
    (h : Pauses clientCap s bs rest ec rs) : ∃ payloads last rows,
      bs = encodePackets s.nextSequenceId (payloads ++ [last]) ++ rest ∧
      (∀ p ∈ payloads ++ [last], p.length < 2 ^ 24) ∧
      List.Forall₂ (WrittenRow s.columnCount) rows payloads ∧ Ending last ec ∧
      rs = ⟨s.resultSet.names, s.resultSet.rows ++ rows⟩ := by
  induction hn : bs.length using Nat.strongRecOn generalizing s bs
  case ind n ih =>
    obtain ⟨payload, r, rfl, hl, _, ⟨ho, rfl⟩ | ⟨s₁, ho, hp⟩⟩ := pauses_iff.mp h
    case inl =>
      obtain ⟨he, rfl⟩ := (row_completes_iff hc hs.advance).mp ho
      exact ⟨[], payload, [], by simp [encodePackets], by simpa using hl, .nil, he, by simp⟩
    case inr =>
      obtain ⟨row, hw, rfl⟩ := (row_success_iff hs.advance).mp ho
      have hr : r.length < n := by
        rw [← hn, encodePacket, List.length_append, List.length_append, List.length_cons]
        omega
      obtain ⟨payloads, last, rows, rfl, hls, hrs, he, rfl⟩ := ih r.length hr (.appendRow _ row) hp rfl
      have hpl : ∀ p ∈ payload :: payloads ++ [last], p.length < 2 ^ 24 := List.forall_mem_cons.mpr ⟨hl, hls⟩
      refine ⟨payload :: payloads, last, row :: rows, ?_, hpl, .cons hw hrs, he, ?_⟩
      case refine_1 => simp [encodePackets]
      case refine_2 => simp

theorem pauses_of_rows {last : Bytes} {rows : List Row} (rest : Bytes)
    (hc : clientCap &&& CapabilitiesFlags.clientSessionTrack = 0) (hs : AwaitsRow s)
    (hl : ∀ p ∈ payloads ++ [last], p.length < 2 ^ 24)
    (hr : List.Forall₂ (WrittenRow s.columnCount) rows payloads) (he : Ending last ec) :
    Pauses clientCap s (encodePackets s.nextSequenceId (payloads ++ [last]) ++ rest) rest ec
      ⟨s.resultSet.names, s.resultSet.rows ++ rows⟩ := by
  induction rows generalizing s payloads
  case nil =>
    cases hr
    refine pauses_iff.mpr ⟨last, rest, by simp [encodePackets], hl last (by simp), ?_, .inl ⟨?_, rfl⟩⟩
    case refine_1 => exact List.append_ne_nil_of_left_ne_nil he.verdict.ne_nil rest
    case refine_2 => exact (row_completes_iff hc hs.advance).mpr ⟨he, by simp⟩
  case cons row rows ih =>
    cases hr
    case cons payload payloads hw hrs =>
      obtain ⟨hp, hl⟩ := List.forall_mem_cons.mp hl
      have hi := ih (s := s.advance.appendRow row) (.appendRow _ row) hl hrs
      refine pauses_iff.mpr ⟨payload, _, List.append_assoc .., hp, ?_, .inr ⟨s.advance.appendRow row, ?_, ?_⟩⟩
      case refine_1 => exact List.append_ne_nil_of_left_ne_nil hw.ne_nil _
      case refine_2 => exact (row_success_iff hs.advance).mpr ⟨row, hw, rfl⟩
      case refine_3 => simpa using hi

theorem written_ne_nil {d : Definition} (h : d.Written payload) : payload ≠ [] := by
  obtain ⟨⟨hc⟩, _⟩ := h
  exact List.append_ne_nil_of_left_ne_nil (List.append_ne_nil_of_left_ne_nil hc.ne_nil _) _

-- A query that waits for the description of a column.
theorem pauses_column_iff (hs : s.stage = .s2ColnumDef) (hp : s.payloadParser = .columnDefinition {})
    (hn : s.resultSet.names.length < s.columnCount) : Pauses clientCap s bs rest ec rs ↔ ∃ d payload r,
      bs = encodePacket s.nextSequenceId payload ++ r ∧ payload.length < 2 ^ 24 ∧ Definition.Written d payload ∧
        Pauses clientCap (s.advance.appendName d.name) r rest ec rs := by
  have ho (payload : Bytes) : onPayloadData clientCap payload.length 0 s.advance payload =
      onColumnDefinition s.advance {} payload := by
    simp only [onPayloadData, State.advance, hs, hp, if_pos hn]
  rw [pauses_iff]
  constructor
  case mp =>
    rintro ⟨payload, r, rfl, hl, _, ⟨⟨_, h, _⟩, _⟩ | ⟨s₁, h, hp⟩⟩ <;> rw [ho] at h
    case inl => exact absurd h PayloadResult.ofStep_success_ne
    case inr =>
      obtain ⟨d, hd, rfl⟩ := onColumnDefinition_success_iff.mp h
      exact ⟨d, payload, r, rfl, hl, hd, hp⟩
  case mpr =>
    rintro ⟨d, payload, r, rfl, hl, hd, hp⟩
    refine ⟨payload, r, rfl, hl, List.append_ne_nil_of_left_ne_nil (written_ne_nil hd) r, .inr ⟨_, ?_, hp⟩⟩
    rw [ho]
    exact onColumnDefinition_success_iff.mpr ⟨d, hd, rfl⟩

-- The induction is on the number of columns that are not described yet.
theorem pauses_columns_iff (hc : clientCap &&& CapabilitiesFlags.clientSessionTrack = 0) (hs : s.stage = .s2ColnumDef)
    (hp : s.payloadParser = .columnDefinition {}) (hn : s.resultSet.names.length ≤ s.columnCount) :
    Pauses clientCap s bs rest ec rs ↔ ∃ columns payloads last ds rows,
      bs = encodePackets s.nextSequenceId (columns ++ (payloads ++ [last])) ++ rest ∧
      (∀ p ∈ columns ++ (payloads ++ [last]), p.length < 2 ^ 24) ∧
      s.resultSet.names.length + ds.length = s.columnCount ∧
      List.Forall₂ Definition.Written ds columns ∧ List.Forall₂ (WrittenRow s.columnCount) rows payloads ∧
      Ending last ec ∧ rs = ⟨s.resultSet.names ++ ds.map (·.name), s.resultSet.rows ++ rows⟩ := by
  induction hk : s.columnCount - s.resultSet.names.length generalizing s bs
  case zero =>
    have ha : AwaitsRow s := .inl ⟨hs, by omega⟩
    constructor
    case mp =>
      intro h
      obtain ⟨payloads, last, rows, rfl, hl, hr, he, rfl⟩ := exists_rows hc ha h
      exact ⟨[], payloads, last, [], rows, rfl, hl, by simp; omega, .nil, hr, he, by simp⟩
    case mpr =>
      rintro ⟨columns, payloads, last, ds, rows, rfl, hl, hd, hcs, hr, he, rfl⟩
      obtain rfl : ds = [] := List.length_eq_zero_iff.mp (by omega)
      cases hcs
      have h := pauses_of_rows rest hc ha hl hr he
      simpa using h
  case succ k ih =>
    have ih (bs : Bytes) (d : Definition) := @ih (s.advance.appendName d.name) bs hs rfl
      (by simp; omega) (by simp; omega)
    rw [pauses_column_iff hs hp (by omega)]
    constructor
    case mp =>
      rintro ⟨d, payload, r, rfl, hl, hd, h⟩
      obtain ⟨columns, payloads, last, ds, rows, rfl, hls, hds, hcs, hr, he, rfl⟩ := (ih r d).mp h
      have hpl : ∀ p ∈ payload :: columns ++ (payloads ++ [last]), p.length < 2 ^ 24 :=
        List.forall_mem_cons.mpr ⟨hl, hls⟩
      refine ⟨payload :: columns, payloads, last, d :: ds, rows, ?_, hpl, ?_, .cons hd hcs, hr, he, ?_⟩
      case refine_1 => simp [encodePackets]
      case refine_2 =>
        simp at hds
        simp; omega
      case refine_3 => simp
    case mpr =>
      rintro ⟨columns, payloads, last, ds, rows, rfl, hl, hds, hcs, hr, he, rfl⟩
      obtain _ | ⟨hd, hcs⟩ := hcs
      case nil => simp at hds; omega
      case cons =>
        obtain ⟨hpl, hls⟩ := List.forall_mem_cons.mp hl
        refine ⟨_, _, _, List.append_assoc .., hpl, hd, (ih _ _).mpr ?_⟩
        refine ⟨_, payloads, last, _, rows, rfl, hls, ?_, hcs, hr, he, ?_⟩
        case refine_1 =>
          simp
          simp at hds; omega
        case refine_2 => simp

theorem pauses_fresh_iff (hc : clientCap &&& CapabilitiesFlags.clientSessionTrack = 0) {id : UInt8} :
    Pauses clientCap { nextSequenceId := id } bs rest ec rs ↔ ∃ payloads, bs = encodePackets id payloads ++ rest ∧
      (∀ p ∈ payloads, p.length < 2 ^ 24) ∧ Response payloads ec rs := by
  have ho (payload : Bytes) : onPayloadData clientCap payload.length 0 { nextSequenceId := id + 1 } payload =
      guess clientCap true { nextSequenceId := id + 1 } payload := by
    simp [onPayloadData]
  have hcols (n : Nat) (bs : Bytes) : Pauses clientCap
      { nextSequenceId := id + 1, columnCount := n, payloadParser := .columnDefinition {}, stage := .s2ColnumDef }
      bs rest ec rs ↔ _ := pauses_columns_iff hc rfl rfl (Nat.zero_le n)
  rw [pauses_iff]
  simp only [State.advance, ho, guess_completes_iff hc, guess_success_iff]
  constructor
  case mp =>
    rintro ⟨payload, r, rfl, hl, _, ⟨⟨hv, rfl⟩, rfl⟩ | ⟨_, ⟨n, hcount, hz, rfl⟩, h⟩⟩
    case inl => exact ⟨[payload], by simp [encodePackets], by simpa using hl, .verdict hv⟩
    case inr =>
      obtain ⟨columns, payloads, last, ds, rows, rfl, hls, hds, hcs, hr, he, rfl⟩ := (hcols n r).mp h
      obtain rfl : ds.length = n := by simpa using hds
      refine ⟨payload :: (columns ++ (payloads ++ [last])), ?_, List.forall_mem_cons.mpr ⟨hl, hls⟩, ?_⟩
      case refine_1 => simp [encodePackets]
      case refine_2 => simpa using Response.resultSet hcount hz hcs hr he
  case mpr =>
    rintro ⟨_, rfl, hl, h⟩
    cases h
    case verdict payload hv =>
      refine ⟨payload, rest, by simp [encodePackets], hl payload (by simp), ?_, .inl ⟨⟨hv, rfl⟩, rfl⟩⟩
      exact List.append_ne_nil_of_left_ne_nil hv.ne_nil rest
    case resultSet count last columns payloads ds rows hcount hz hcs hr he =>
      obtain ⟨hp, hls⟩ := List.forall_mem_cons.mp hl
      have hn := List.append_ne_nil_of_left_ne_nil hcount.ne_nil
      refine ⟨count, _, List.append_assoc .., hp, hn _, .inr ⟨_, ⟨_, hcount, hz, rfl⟩, ?_⟩⟩
      refine (hcols _ _).mpr ⟨columns, payloads, last, ds, rows, rfl, hls, by simp, hcs, hr, he, by simp⟩

-- Whatever bytes a server sends, and in whatever chunks they come: the operation pauses with an error code and a
-- result set if and only if the bytes begin with the packets of a response that stands for them, and it leaves what
-- comes after these.
theorem feed_pauses_iff_response (database : Bytes) (cs : List Bytes) (rest : Bytes) (ec : ErrorCode)
    (rs : ResultSet) :
    (∃ s left unfed, feed (BasicPacket.feed (impl (clientFlag database))) (fresh 1) cs = (.done s left, unfed) ∧
        left ++ unfed.flatten = rest ∧ s.ec = ec ∧ s.resultSet = rs) ↔
      ∃ payloads, cs.flatten = encodePackets 1 payloads ++ rest ∧ (∀ p ∈ payloads, p.length < 2 ^ 24) ∧
        Response payloads ec rs := by
  have hc := clientFlag_untracked database
  have ha := BasicPacket.feed_agrees (impl_lawful hc) (fresh_consistent 1) cs
  rw [← pauses_fresh_iff hc]
  constructor
  case mp =>
    rintro ⟨s, left, unfed, hf, rfl, hec, hrs⟩
    rw [hf] at ha
    exact ⟨s, ha.to_done, hec, hrs⟩
  case mpr =>
    rintro ⟨s, hf, hec, hrs⟩
    rw [show BasicPacket.feed _ (fresh 1) cs.flatten = _ from hf] at ha
    obtain ⟨left, unfed, hfed, hl⟩ := ha.of_done
    exact ⟨s, left, unfed, hfed, hl, hec, hrs⟩

-- What has been read when the operation completes without an error is exactly a response to the query that tells no
-- error, and the operation completes with the result set that it stands for.
theorem run_succeeds_iff_response (database : Bytes) (reads : List Read) (rs : ResultSet) :
    run (clientFlag database) reads = (.done ⟨0, rs⟩ [], []) ↔
      ∃ payloads, received reads = encodePackets 1 payloads ∧ (∀ p ∈ payloads, p.length < 2 ^ 24) ∧
        Response payloads 0 rs := by
  have hc := clientFlag_untracked database
  have hp : Pauses (clientFlag database) { nextSequenceId := 1 } (received reads) [] 0 rs ↔ _ := pauses_fresh_iff hc
  simp only [List.append_nil] at hp
  rw [← hp]
  constructor
  case mp => exact feed_of_run hc
  case mpr =>
    rintro ⟨s, hf, hec, rfl⟩
    rw [run_of_feed_end hc hf, hec]

-- A result set without columns, whose number is written with more digits than it needs.
example : Response [[0xfc, 0, 0], [0xfe, 0, 0, 2, 0, 0, 0]] 0 {} := by
  have hz : Lenenc (0 : UInt8).toNat [0] := .byte (by decide)
  have hw : OkPacket.Written 0xfe ⟨0, 0, 2, 0, [], []⟩ (0xfe :: ([0] ++ ([0] ++ _))) := .mk hz hz
  have hn : Lenenc (ofLittleEndian [0, 0]) _ := .two rfl
  have hd : Lenenc ([] : List Definition).length _ := hn
  exact .resultSet hd (by decide) .nil .nil ⟨.ok hw, fun _ => by decide⟩

end ComQuery

end ChxSql.Mysql

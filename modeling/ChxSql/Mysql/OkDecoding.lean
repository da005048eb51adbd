import ChxSql.Incremental.Reading
import ChxSql.Mysql.Packets.Ok

namespace ChxSql.Mysql.OkPacket

open Incremental

variable {clientCap : UInt32} {headerCh : Byte} {packet : OkPacket}

-- The packets with numbers of at most three digits, and with a session state only where it is sent.
structure WellFormed (clientCap : UInt32) (packet : OkPacket) : Prop where
  affectedRows : packet.affectedRows < 2 ^ 24
  lastInsertId : packet.lastInsertId < 2 ^ 24
  stateless    : clientCap &&& CapabilitiesFlags.clientSessionTrack = 0 ∨
    packet.statusFlags &&& (1 : UInt16) <<< 14 = 0 → packet.sessionStateInfo = []

-- The first look at the info, when there is nothing to look at.
theorem parse_sessionTrackInfo_nil (isFinal : Bool) (result : OkPacket) :
    Parser.parse clientCap isFinal (⟨.sessionTrackInfo (.len {}), result⟩ : Parser headerCh) [] =
      .fail .undefined [] :=
  Loop.run_fail rfl

-- What is in front of the info.
def encodeFields (headerCh : Byte) (packet : OkPacket) : Bytes :=
  headerCh :: (lenencInteger packet.affectedRows ++ (lenencInteger packet.lastInsertId ++
    (toLittleEndian 2 packet.statusFlags.toNat ++ (toLittleEndian 2 packet.warnings.toNat ++ []))))

-- With session tracking, the first look at the info is too early if the chunk ends before it.
theorem not_readsToEnd (hc : clientCap &&& CapabilitiesFlags.clientSessionTrack ≠ 0) :
    ¬ReadsToEnd (Parser.parse clientCap false) (Parser.parse clientCap true) ({} : Parser headerCh)
      (packet.encode headerCh clientCap) packet := by
  intro h
  have hf := parse_fields clientCap false packet headerCh []
  rw [← encodeFields, if_pos hc, parse_sessionTrackInfo_nil] at hf
  obtain ⟨info, hi, hn⟩ : ∃ info, packet.encode headerCh clientCap = packet.encodeFields headerCh ++ info ∧
      info ≠ [] := by
    obtain ⟨b, bs, hb, _⟩ := lenencInteger_head packet.info.length
    refine ⟨lenencStr packet.info ++ if packet.statusFlags &&& (1 : UInt16) <<< 14 ≠ 0 then
      lenencStr packet.sessionStateInfo else [], ?_, by simp [lenencStr, hb]⟩
    simp only [encode, if_pos hc, encodeFields, List.cons_append, List.append_assoc, List.nil_append]
  obtain ⟨s', hm, _⟩ := h [packet.encodeFields headerCh] info (by simp [hi]) hn
  rw [feed, hf] at hm
  cases hm

-- Packets are read as what they are if and only if the client does not track the session.
theorem decodes_iff_untracked (h : packet.WellFormed clientCap) :
    ReadsToEnd (Parser.parse clientCap false) (Parser.parse clientCap true) ({} : Parser headerCh)
      (packet.encode headerCh clientCap) packet ↔
    clientCap &&& CapabilitiesFlags.clientSessionTrack = 0 := by
  constructor <;> intro hc
  case mp =>
    by_contra hn
    exact not_readsToEnd hn hc
  case mpr =>
    have he : { packet with sessionStateInfo := [] } = packet := by rw [← h.stateless (.inl hc)]
    have hu : ({} : Parser headerCh).Untracked := ⟨nofun, nofun⟩
    have hp := parse_encode packet headerCh hc
    rw [LengthEncodedInteger.decoded_of_lt h.affectedRows,
      LengthEncodedInteger.decoded_of_lt h.lastInsertId, he] at hp
    exact (Parser.resumes hc).readsToEnd hu hp

theorem decodes_iff_untracked_empty :
    ReadsToEnd (Parser.parse 0 false) (Parser.parse 0 true) ({} : Parser 0) (encode 0 0 {}) {} ↔
      (0 : UInt32) &&& CapabilitiesFlags.clientSessionTrack = 0 :=
  decodes_iff_untracked ⟨by decide, by decide, fun _ => rfl⟩

theorem not_decodes_tracked : ¬∀ (clientCap : UInt32) (packet : OkPacket), packet.WellFormed clientCap →
    ReadsToEnd (Parser.parse clientCap false) (Parser.parse clientCap true) ({} : Parser 0)
      (packet.encode 0 clientCap) packet := by
  intro h
  exact not_readsToEnd (by decide) (h CapabilitiesFlags.clientSessionTrack { info := [111, 107] }
    ⟨by decide, by decide, fun _ => rfl⟩)

end ChxSql.Mysql.OkPacket

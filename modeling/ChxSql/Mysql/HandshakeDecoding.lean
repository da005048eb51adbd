import ChxSql.Incremental.Reading
import ChxSql.Mysql.Packets.HandshakeV10

namespace ChxSql.Mysql.HandshakeV10Packet

open Incremental

-- The flag for the plugin is the fourth flag of the upper half.
theorem clientPluginAuth_and (lower upper : UInt16) :
    (lower.toUInt32 + upper.toUInt32 <<< 16) &&& CapabilitiesFlags.clientPluginAuth = 0 ↔
      upper &&& 8 = 0 := by
  have hl := lower.toNat_lt
  have hu := upper.toNat_lt
  have h19 : (lower.toNat + upper.toNat <<< 16 % 2 ^ 32) % 2 ^ 32 &&& 2 ^ 19 = 0 ↔
      upper.toNat &&& 2 ^ 3 = 0 := by
    simp only [Nat.and_two_pow, Nat.testBit_eq_decide_div_mod_eq, Nat.shiftLeft_eq]
    simp
    omega
  rw [← UInt32.toNat_inj, ← UInt16.toNat_inj]
  simpa [CapabilitiesFlags.clientPluginAuth] using h19

namespace Greeting

variable {g : Greeting}

theorem encode_ne_nil : g.encode ≠ [] := by
  simp [encode, toLittleEndian]

-- A name that is not in the packet is waited for, and one that the parser does not expect is left
-- unread.
theorem cap_iff_of_reads (h : g.WellFormed)
    (hr : Reads Parser.parse {} g.encode g.toHandshakeV10Packet) :
    g.cap &&& CapabilitiesFlags.clientPluginAuth = 0 ↔
      g.flags &&& CapabilitiesFlags.clientPluginAuth = 0 := by
  have hp := hr.parse_eq
  rw [parse_fields h] at hp
  split_ifs at hp with hc hf hf
  case pos => exact iff_of_false hc hf
  case neg =>
    have hm : Parser.turn ⟨.authPluginName {}, { g.toHandshakeV10Packet with authPluginName := [] }⟩ [] =
      .more ⟨.authPluginName {}, { g.toHandshakeV10Packet with authPluginName := [] }⟩ [] := rfl
    rw [Parser.parse, Loop.run_more hm] at hp
    cases hp
  case pos =>
    rw [Step.done.injEq] at hp
    exact absurd hp.2 (by simp)
  case neg => exact iff_of_true (not_not.mp hc) (not_not.mp hf)

-- The greeting of a server is read as what it is if and only if the two halves of its flags agree in
-- the fourth flag.
theorem decodes_iff_flag (h : g.WellFormed) : Reads Parser.parse {} g.encode g.toHandshakeV10Packet ↔
    (g.capabilityFlags1 &&& 8 = 0 ↔ g.capabilityFlags2 &&& 8 = 0) := by
  have hcap : g.cap &&& CapabilitiesFlags.clientPluginAuth = 0 ↔ g.capabilityFlags1 &&& 8 = 0 :=
    clientPluginAuth_and ..
  have hflags : g.flags &&& CapabilitiesFlags.clientPluginAuth = 0 ↔ g.capabilityFlags2 &&& 8 = 0 :=
    clientPluginAuth_and ..
  rw [← hcap, ← hflags]
  exact ⟨cap_iff_of_reads h, fun hc => Parser.resumable.reads encode_ne_nil (parse_encode h hc)⟩

-- A server that has plugins, but lets no client choose a database when it connects.
def databaseless : Greeting where
  serverVersion       := [56]
  authPluginDataPart1 := List.replicate 8 1
  capabilityFlags1    := 0xfff7
  capabilityFlags2    := 0xffff
  authPluginDataLen   := 21
  authPluginDataPart2 := List.replicate 13 2
  authPluginName      := [109]

theorem databaseless_wellFormed : databaseless.WellFormed := by
  constructor <;> decide

theorem decodes_iff_flag_databaseless :
    Reads Parser.parse {} databaseless.encode databaseless.toHandshakeV10Packet ↔
      (databaseless.capabilityFlags1 &&& 8 = 0 ↔ databaseless.capabilityFlags2 &&& 8 = 0) :=
  decodes_iff_flag databaseless_wellFormed

theorem not_decodes_databaseless :
    ¬∀ g : Greeting, g.WellFormed → Reads Parser.parse {} g.encode g.toHandshakeV10Packet := by
  intro h
  have hr := h databaseless databaseless_wellFormed
  have := cap_iff_of_reads databaseless_wellFormed hr
  exact absurd this (by decide)

end Greeting

end ChxSql.Mysql.HandshakeV10Packet

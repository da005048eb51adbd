import ChxSql.Mysql.BasicTypes

namespace ChxSql.Mysql

open Incremental

-- `HandshakeV10_Packet`. The parser does not store the filler.
structure HandshakeV10Packet where
  serverVersion       : Bytes  := []
  threadId            : UInt32 := 0
  authPluginDataPart1 : Bytes  := []
  capabilityFlags1    : UInt16 := 0
  characterSet        : UInt8  := 0
  statusFlags         : UInt16 := 0
  capabilityFlags2    : UInt16 := 0
  authPluginDataLen   : UInt8  := 0
  authPluginDataPart2 : Bytes  := []
  authPluginName      : Bytes  := []
  deriving DecidableEq

namespace HandshakeV10Packet

-- The lower half of the flags is taken for the upper half, too.
def cap (packet : HandshakeV10Packet) : UInt32 :=
  packet.capabilityFlags1.toUInt32 + packet.capabilityFlags1.toUInt32 <<< 16

-- The stages of the parser, each with the alternative of `__M_parsers` that it uses.
inductive Stage where
  | protocolVersion     (parser : FixedLengthInteger 1)
  | serverVersion       (parser : Terminated Bytes)
  | threadId            (parser : FixedLengthInteger 4)
  | authPluginDataPart1 (parser : Filling Bytes 8)
  | filler              (parser : FixedLengthInteger 1)
  | capFlags1           (parser : FixedLengthInteger 2)
  | characterSet        (parser : FixedLengthInteger 1)
  | statusFlags         (parser : FixedLengthInteger 2)
  | capFlags2           (parser : FixedLengthInteger 2)
  | authPluginDataLen   (parser : FixedLengthInteger 1)
  | reserved            (parser : Filling NopContainer 10)
  | authPluginDataPart2 (parser : Sized Bytes)
  | authPluginName      (parser : Terminated Bytes)
  deriving DecidableEq

structure Parser where
  stage  : Stage := .protocolVersion {}
  result : HandshakeV10Packet := {}
  deriving DecidableEq

namespace Parser

def turn (p : Parser) (bs : Bytes) : Turn Byte Parser HandshakeV10Packet PayloadFailure :=
  match p.stage with
  | .protocolVersion parser =>
    (parser.parse bs).turn ({ p with stage := .protocolVersion · }) fun v bs =>
      if v = 10 then .goto { p with stage := .serverVersion {} } bs else .fail .malformed bs
  | .serverVersion parser =>
    (parser.parse bs).turn ({ p with stage := .serverVersion · }) fun v bs =>
      .goto ⟨.threadId {}, { p.result with serverVersion := v }⟩ bs
  | .threadId parser =>
    (parser.parse bs).turn ({ p with stage := .threadId · }) fun v bs =>
      .goto ⟨.authPluginDataPart1 {}, { p.result with threadId := .ofNat v }⟩ bs
  | .authPluginDataPart1 parser =>
    (parser.fill bs).turn ({ p with stage := .authPluginDataPart1 · }) fun v bs =>
      .goto ⟨.filler {}, { p.result with authPluginDataPart1 := v }⟩ bs
  | .filler parser =>
    (parser.parse bs).turn ({ p with stage := .filler · }) fun _ bs =>
      .goto { p with stage := .capFlags1 {} } bs
  | .capFlags1 parser =>
    (parser.parse bs).turn ({ p with stage := .capFlags1 · }) fun v bs =>
      .goto ⟨.characterSet {}, { p.result with capabilityFlags1 := .ofNat v }⟩ bs
  | .characterSet parser =>
    (parser.parse bs).turn ({ p with stage := .characterSet · }) fun v bs =>
      .goto ⟨.statusFlags {}, { p.result with characterSet := .ofNat v }⟩ bs
  | .statusFlags parser =>
    (parser.parse bs).turn ({ p with stage := .statusFlags · }) fun v bs =>
      .goto ⟨.capFlags2 {}, { p.result with statusFlags := .ofNat v }⟩ bs
  | .capFlags2 parser =>
    (parser.parse bs).turn ({ p with stage := .capFlags2 · }) fun v bs =>
      .goto ⟨.authPluginDataLen {}, { p.result with capabilityFlags2 := .ofNat v }⟩ bs
  | .authPluginDataLen parser =>
    (parser.parse bs).turn ({ p with stage := .authPluginDataLen · }) fun dataLen bs =>
      if dataLen ≤ 9 then
        .fail .malformed bs
      else
        .goto ⟨.reserved {}, { p.result with authPluginDataLen := .ofNat dataLen }⟩ bs
  | .reserved parser =>
    (parser.fill bs).turn ({ p with stage := .reserved · }) fun _ bs =>
      let targetLength := max 13 (p.result.authPluginDataLen.toNat - 8)
      .goto { p with stage := .authPluginDataPart2 { targetLength } } bs
  | .authPluginDataPart2 parser =>
    (parser.parse bs).turn ({ p with stage := .authPluginDataPart2 · }) fun v bs =>
      let result := { p.result with authPluginDataPart2 := v }
      if result.cap &&& CapabilitiesFlags.clientPluginAuth ≠ 0 then
        .goto ⟨.authPluginName {}, result⟩ bs
      else
        .done result bs
  | .authPluginName parser =>
    (parser.parse bs).turn ({ p with stage := .authPluginName · }) fun v bs =>
      .done { p.result with authPluginName := v } bs

-- The number of the stages that are still to come.
def rank (p : Parser) : Nat :=
  match p.stage with
  | .protocolVersion _     => 12
  | .serverVersion _       => 11
  | .threadId _            => 10
  | .authPluginDataPart1 _ => 9
  | .filler _              => 8
  | .capFlags1 _           => 7
  | .characterSet _        => 6
  | .statusFlags _         => 5
  | .capFlags2 _           => 4
  | .authPluginDataLen _   => 3
  | .reserved _            => 2
  | .authPluginDataPart2 _ => 1
  | .authPluginName _      => 0

theorem turn_suffix (p : Parser) (bs : Bytes) : (p.turn bs).rest <:+ bs := by
  have ⟨stage, result⟩ := p
  cases stage <;> simp only [turn]
  all_goals
    refine Step.rest_turn_suffix ?_ fun _ r => by first | exact List.suffix_refl r | split <;> exact List.suffix_refl r
    first
      | exact FixedLengthInteger.shrinks ..
      | exact Terminated.shrinks ..
      | exact Filling.shrinks ..
      | exact Sized.shrinks ..

theorem rank_turn {p p' : Parser} {bs r} (h : p.turn bs = .goto p' r) : p'.rank < p.rank := by
  have ⟨stage, result⟩ := p
  cases stage <;> simp only [turn] at h
  case authPluginDataPart1 parser | reserved parser =>
    cases hp : (parser.fill bs : Step _ _ _ PayloadFailure) <;> simp only [hp, Step.turn, reduceCtorEq] at h
    cases h
    simp [rank]
  all_goals
    rename_i parser
    cases hp : (parser.parse bs : Step _ _ _ PayloadFailure) <;> simp only [hp, Step.turn, reduceCtorEq] at h
    try split at h
    all_goals
      cases h
      try simp [rank]

def loop : Loop Byte Parser HandshakeV10Packet PayloadFailure :=
  .ofRank turn rank turn_suffix rank_turn

def parse (p : Parser) (bs : Bytes) : Step Byte Parser HandshakeV10Packet PayloadFailure :=
  loop.run p bs

theorem parse_goto {p p' : Parser} {bs r} (h : p.turn bs = .goto p' r) : p.parse bs = p'.parse r :=
  Loop.run_goto h

theorem parse_done {p : Parser} {bs packet r} (h : p.turn bs = .done packet r) :
    p.parse bs = .done packet r :=
  Loop.run_done h

theorem turn_fail {p : Parser} {bs e r} (h : p.turn bs = .fail e r) : e = .malformed := by
  have ⟨stage, result⟩ := p
  cases stage <;> simp only [turn] at h
  case authPluginDataPart1 parser | reserved parser =>
    cases hp : (parser.fill bs : Step _ _ _ PayloadFailure) <;> simp only [hp, Step.turn, reduceCtorEq] at h
    exact absurd hp Filling.fill_ne_fail
  all_goals
    rename_i parser
    cases hp : (parser.parse bs : Step _ _ _ PayloadFailure) <;> simp only [hp, Step.turn, reduceCtorEq] at h
    try split at h
    all_goals cases h
    all_goals first
      | rfl
      | exact absurd hp FixedLengthInteger.parse_ne_fail
      | exact absurd hp Terminated.parse_ne_fail
      | exact absurd hp Sized.parse_ne_fail

theorem parse_fail {p : Parser} {bs e r} (h : p.parse bs = .fail e r) : e = .malformed :=
  Loop.run_fails (I := fun _ => True) (Q := (· = .malformed)) (fun _ _ => trivial)
    (fun _ => turn_fail) trivial h

theorem turn_extends (p : Parser) (xs ys : Bytes) :
    (p.turn xs).Extends (fun _ => True) turn ys (p.turn (xs ++ ys)) := by
  have ⟨stage, result⟩ := p
  cases stage
  case serverVersion | authPluginName =>
    refine (Terminated.resumable.extend trivial xs ys).turn (fun _ _ => trivial)
      (fun _ _ => rfl) (fun _ _ => ?_)
    first | exact .goto trivial | exact .done
  case authPluginDataPart1 | reserved =>
    exact (Filling.resumable.extend trivial xs ys).turn (fun _ _ => trivial)
      (fun _ _ => rfl) (fun _ _ => .goto trivial)
  case authPluginDataPart2 =>
    refine (Sized.resumable.extend trivial xs ys).turn (fun _ _ => trivial)
      (fun _ _ => rfl) (fun _ _ => ?_)
    dsimp only
    split
    case isTrue  => exact .goto trivial
    case isFalse => exact .done
  all_goals
    refine (FixedLengthInteger.resumable.extend trivial xs ys).turn (fun _ _ => trivial)
      (fun _ _ => rfl) (fun _ _ => ?_)
    try split
    all_goals first | exact .goto trivial | exact .fail

theorem resumable : Resumable parse :=
  Loop.resumable turn_extends

end Parser

-- The two parts of the challenge are as long as `auth_plugin_data_len` says.
structure Lengths (packet : HandshakeV10Packet) : Prop where
  part1 : packet.authPluginDataPart1.length = 8
  len   : 9 < packet.authPluginDataLen.toNat
  part2 : packet.authPluginDataPart2.length = max 13 (packet.authPluginDataLen.toNat - 8)

namespace Parser

-- What is known of the lengths in each stage.
def Valid (p : Parser) : Prop :=
  match p.stage with
  | .protocolVersion _ | .serverVersion _ | .threadId _ | .authPluginDataPart1 _ => True
  | .filler _ | .capFlags1 _ | .characterSet _ | .statusFlags _ | .capFlags2 _ =>
    p.result.authPluginDataPart1.length = 8
  | .authPluginDataLen parser   => p.result.authPluginDataPart1.length = 8 ∧ parser = {}
  | .reserved _                 =>
    p.result.authPluginDataPart1.length = 8 ∧ 9 < p.result.authPluginDataLen.toNat
  | .authPluginDataPart2 parser =>
    p.result.authPluginDataPart1.length = 8 ∧ 9 < p.result.authPluginDataLen.toNat ∧
      parser.targetLength = max 13 (p.result.authPluginDataLen.toNat - 8)
  | .authPluginName _           => p.result.Lengths

theorem turn_valid {p : Parser} (hp : p.Valid) (bs : Bytes) :
    (p.turn bs).Satisfies Valid Lengths (fun _ => True) := by
  obtain ⟨stage, result⟩ := p
  cases stage <;> simp only [turn]
  case protocolVersion =>
    refine Step.satisfies_turn (fun _ => trivial) (fun v r _ => ?_) fun _ => trivial
    split <;> trivial
  case serverVersion | threadId =>
    exact Step.satisfies_turn (fun _ => trivial) (fun _ _ _ => trivial) fun _ => trivial
  case authPluginDataPart1 =>
    exact Step.satisfies_turn (fun _ => trivial) (fun _ _ hf => Filling.fill_size hf) fun _ => trivial
  case filler | capFlags1 | characterSet | statusFlags =>
    exact Step.satisfies_turn (fun _ => hp) (fun _ _ _ => hp) fun _ => trivial
  case capFlags2 =>
    exact Step.satisfies_turn (fun _ => hp) (fun _ _ _ => ⟨hp, rfl⟩) fun _ => trivial
  case authPluginDataLen parser =>
    obtain ⟨h₁, rfl⟩ := hp
    cases bs
    case nil => exact ⟨h₁, rfl⟩
    case cons b bs =>
      have hb : ({} : FixedLengthInteger 1).parse (b :: bs) = .done b.toNat bs := by
        simpa [toLittleEndian] using FixedLengthInteger.parse_uint8 b bs
      rw [hb, Step.turn]
      split
      case isTrue    => trivial
      case isFalse h => exact ⟨h₁, by simpa using h⟩
  case reserved =>
    exact Step.satisfies_turn (fun _ => hp) (fun _ _ _ => ⟨hp.1, hp.2, rfl⟩) fun _ => trivial
  case authPluginDataPart2 parser =>
    obtain ⟨h₁, hl, ht⟩ := hp
    cases hf : (parser.result.fill bs : Step _ _ _ PayloadFailure) <;>
      simp only [Sized.parse, hf, Step.andThen, Step.turn]
    case more => exact ⟨h₁, hl, ht⟩
    case fail => trivial
    case done v r =>
      have h₂ : v.length = max 13 (result.authPluginDataLen.toNat - 8) := ht ▸ Filling.fill_size hf
      split
      all_goals exact ⟨h₁, hl, h₂⟩
  case authPluginName =>
    exact Step.satisfies_turn (fun _ => hp) (fun _ _ _ => ⟨hp.part1, hp.len, hp.part2⟩) fun _ => trivial

theorem parse_lengths {bs packet r} (h : ({} : Parser).parse bs = .done packet r) : packet.Lengths := by
  have hs : (({} : Parser).parse bs).Satisfies Valid Lengths (fun _ => True) :=
    Loop.run_satisfies turn_valid trivial
  rwa [h] at hs

end Parser

-- What a server sends first. The parser drops the fields that are not in the packet.
structure Greeting extends HandshakeV10Packet where
  filler   : UInt8 := 0
  reserved : Bytes := List.replicate 10 0
  deriving DecidableEq

namespace Greeting

-- The flags of the server.
def flags (g : Greeting) : UInt32 :=
  g.capabilityFlags1.toUInt32 + g.capabilityFlags2.toUInt32 <<< 16

def encode (g : Greeting) : Bytes :=
  toLittleEndian 1 10 ++ (g.serverVersion ++ 0 :: (toLittleEndian 4 g.threadId.toNat ++
    (g.authPluginDataPart1 ++ (toLittleEndian 1 g.filler.toNat ++
    (toLittleEndian 2 g.capabilityFlags1.toNat ++ (toLittleEndian 1 g.characterSet.toNat ++
    (toLittleEndian 2 g.statusFlags.toNat ++ (toLittleEndian 2 g.capabilityFlags2.toNat ++
    (toLittleEndian 1 g.authPluginDataLen.toNat ++ (g.reserved ++ (g.authPluginDataPart2 ++
    if g.flags &&& CapabilitiesFlags.clientPluginAuth ≠ 0 then g.authPluginName ++ [0] else [])))))))))))

structure WellFormed (g : Greeting) : Prop where
  serverVersion       : 0 ∉ g.serverVersion
  authPluginDataPart1 : g.authPluginDataPart1.length = 8
  authPluginDataLen   : 9 < g.authPluginDataLen.toNat
  reserved            : g.reserved.length = 10
  authPluginDataPart2 : g.authPluginDataPart2.length = max 13 (g.authPluginDataLen.toNat - 8)
  authPluginName      : 0 ∉ g.authPluginName
  nameless            : g.flags &&& CapabilitiesFlags.clientPluginAuth = 0 → g.authPluginName = []

-- What follows the second part of the challenge is taken for a name if the parser finds the flag for
-- it, and for the next packet otherwise.
theorem parse_fields {g : Greeting} (h : g.WellFormed) :
    ({} : Parser).parse g.encode =
      if g.cap &&& CapabilitiesFlags.clientPluginAuth ≠ 0 then
        Parser.parse ⟨.authPluginName {}, { g.toHandshakeV10Packet with authPluginName := [] }⟩
          (if g.flags &&& CapabilitiesFlags.clientPluginAuth ≠ 0 then g.authPluginName ++ [0] else [])
      else
        .done { g.toHandshakeV10Packet with authPluginName := [] }
          (if g.flags &&& CapabilitiesFlags.clientPluginAuth ≠ 0 then g.authPluginName ++ [0] else []) := by
  have hv {ys} : ({} : FixedLengthInteger 1).parse (toLittleEndian 1 10 ++ ys) = .done 10 ys :=
    FixedLengthInteger.parse_digits (by decide) (by decide) ys
  have hs {ys} : ({} : Terminated Bytes).parse (g.serverVersion ++ 0 :: ys) =
      (.done g.serverVersion ys : Step _ _ _ PayloadFailure) := Terminated.parse_full h.serverVersion ys
  have h₁ {ys} : ({} : Filling Bytes 8).fill (g.authPluginDataPart1 ++ ys) =
      (.done g.authPluginDataPart1 ys : Step _ _ _ PayloadFailure) :=
    Filling.fill_full (by simpa using h.authPluginDataPart1) ys
  have hr {ys} : ({} : Filling NopContainer 10).fill (g.reserved ++ ys) =
      (.done (Container.insert {} g.reserved) ys : Step _ _ _ PayloadFailure) :=
    Filling.fill_full (by simpa using h.reserved) ys
  have hd : ¬g.authPluginDataLen.toNat ≤ 9 := Nat.not_le.mpr h.authPluginDataLen
  have h₂ {ys} : ({ targetLength := max 13 ((UInt8.ofNat g.authPluginDataLen.toNat).toNat - 8) } : Sized Bytes).parse
      (g.authPluginDataPart2 ++ ys) = (.done g.authPluginDataPart2 ys : Step _ _ _ PayloadFailure) := by
    rw [UInt8.ofNat_toNat, ← h.authPluginDataPart2]
    exact Sized.parse_full g.authPluginDataPart2 ys
  rw [encode]
  generalize (if g.flags &&& CapabilitiesFlags.clientPluginAuth ≠ 0 then g.authPluginName ++ [0] else []) = tail
  rw [Parser.parse_goto (by simp only [Parser.turn, hv, Step.turn]; rfl)]
  rw [Parser.parse_goto (by simp only [Parser.turn, hs, Step.turn]; rfl)]
  rw [Parser.parse_goto (by simp only [Parser.turn, FixedLengthInteger.parse_uint32, Step.turn]; rfl)]
  rw [Parser.parse_goto (by simp only [Parser.turn, h₁, Step.turn]; rfl)]
  rw [Parser.parse_goto (by simp only [Parser.turn, FixedLengthInteger.parse_uint8, Step.turn]; rfl)]
  rw [Parser.parse_goto (by simp only [Parser.turn, FixedLengthInteger.parse_uint16, Step.turn]; rfl)]
  rw [Parser.parse_goto (by simp only [Parser.turn, FixedLengthInteger.parse_uint8, Step.turn]; rfl)]
  rw [Parser.parse_goto (by simp only [Parser.turn, FixedLengthInteger.parse_uint16, Step.turn]; rfl)]
  rw [Parser.parse_goto (by simp only [Parser.turn, FixedLengthInteger.parse_uint16, Step.turn]; rfl)]
  rw [Parser.parse_goto (by simp only [Parser.turn, FixedLengthInteger.parse_uint8, Step.turn, if_neg hd]; rfl)]
  rw [Parser.parse_goto (by simp only [Parser.turn, hr, Step.turn, UInt8.ofNat_toNat]; rfl)]
  simp only [UInt16.ofNat_toNat, FixedLengthInteger.ofNat_signExtend]
  split_ifs with hc
  case pos =>
    rw [Parser.parse_goto (by simp only [Parser.turn, h₂, Step.turn]; exact if_pos hc)]
  case neg =>
    rw [Parser.parse_done (by simp only [Parser.turn, h₂, Step.turn]; exact if_neg hc)]

-- The parser has to find the flag for the plugin where it looks for it.
theorem parse_encode {g : Greeting} (h : g.WellFormed)
    (hc : g.cap &&& CapabilitiesFlags.clientPluginAuth = 0 ↔
      g.flags &&& CapabilitiesFlags.clientPluginAuth = 0) :
    ({} : Parser).parse g.encode = .done g.toHandshakeV10Packet [] := by
  rw [parse_fields h]
  by_cases hf : g.flags &&& CapabilitiesFlags.clientPluginAuth = 0
  case pos =>
    have hn := h.nameless hf
    rw [if_neg (not_not_intro (hc.mpr hf)), if_neg (not_not_intro hf)]
    simp only [← hn]
  case neg =>
    have hname {ys} : ({} : Terminated Bytes).parse (g.authPluginName ++ 0 :: ys) =
        (.done g.authPluginName ys : Step _ _ _ PayloadFailure) := Terminated.parse_full h.authPluginName ys
    rw [if_pos (mt hc.mp hf), if_pos hf,
      Parser.parse_done (by simp only [Parser.turn, hname, Step.turn]; rfl)]

end Greeting

end HandshakeV10Packet

end ChxSql.Mysql

import ChxSql.Incremental.Language
import ChxSql.Mysql.RowLanguage

namespace ChxSql.Mysql

open Incremental

-- The digits of a number, read by the parsers of this library: one digit after the other is shifted and added.
theorem Digits.accepts (target : Nat) : Accepts (({} : Digits).parse target) fun v xs =>
    xs.length = target ∧ v = (xs.foldl Digits.add {}).result := by
  intro bs v r
  constructor
  case mp =>
    intro h
    obtain ⟨xs, rfl, hl⟩ := Digits.exists_of_parse (Nat.zero_le target) h
    have hd := Digits.parse_full hl r
    exact ⟨xs, rfl, by simpa using hl, (Step.done.inj (h.symm.trans hd)).left⟩
  case mpr =>
    rintro ⟨xs, rfl, hl, rfl⟩
    exact Digits.parse_full (by simpa using hl) r

-- Up to three digits make the number that they stand for.
theorem Digits.result_eq (xs : Bytes) (h : xs.length ≤ 3) : (xs.foldl Digits.add {}).result = ofLittleEndian xs := by
  have hx : toLittleEndian xs.length (ofLittleEndian xs) = xs := toLittleEndian_ofLittleEndian xs
  have hd := FixedLengthInteger.parse_digits (ofLittleEndian_lt xs) h []
  rw [hx, List.append_nil] at hd
  have hp := Digits.parse_full (p := {}) (show 0 + xs.length = xs.length by omega) []
  rw [List.append_nil] at hp
  rw [FixedLengthInteger.parse, hp] at hd
  exact (Step.done.inj hd).left

theorem Filling.accepts {n : Nat} {ε : Type} :
    Accepts (({} : Filling Bytes n).fill : _ → Step Byte _ _ ε) fun v xs => xs.length = n ∧ v = xs := by
  intro bs v r
  constructor
  case mp =>
    intro h
    obtain ⟨xs, rfl, hv, hl⟩ := Filling.fill_done h
    exact ⟨xs, rfl, by simpa using hl, hv.trans (Container.insert_empty_bytes xs)⟩
  case mpr =>
    rintro ⟨_, rfl, hl, rfl⟩
    have hf := Filling.fill_full (ε := ε) (p := ({} : Filling Bytes n)) (by simpa using hl) r
    rw [hf]
    exact congrArg (Step.done · r) (Container.insert_empty_bytes v)

namespace FixedLengthInteger

theorem accepts_of {n : Nat} {υ : Type} {enc : υ → Bytes} {val : υ → Nat}
    (hp : ∀ u ys, ({} : FixedLengthInteger n).parse (enc u ++ ys) = .done (val u) ys)
    (hs : ∀ xs, xs.length = n → ∃ u, xs = enc u) :
    Accepts ({} : FixedLengthInteger n).parse fun v xs => ∃ u, xs = enc u ∧ v = val u := by
  intro bs v r
  constructor
  case mp =>
    intro h
    obtain ⟨xs, rfl, hl⟩ := exists_of_parse h
    obtain ⟨u, rfl⟩ := hs xs hl
    exact ⟨_, rfl, u, rfl, (Step.done.inj (h.symm.trans (hp u r))).left⟩
  case mpr =>
    rintro ⟨_, rfl, u, rfl, rfl⟩
    exact hp u r

theorem accepts_uint8 : Accepts ({} : FixedLengthInteger 1).parse fun v xs =>
    ∃ u : UInt8, xs = toLittleEndian 1 u.toNat ∧ v = u.toNat := by
  refine accepts_of parse_uint8 fun xs hl => ⟨.ofNat (ofLittleEndian xs), ?_⟩
  have hx : ofLittleEndian xs < 2 ^ 8 := by simpa [hl] using ofLittleEndian_lt xs
  rw [UInt8.toNat_ofNat', Nat.mod_eq_of_lt hx, ← hl, toLittleEndian_ofLittleEndian]

theorem accepts_uint16 : Accepts ({} : FixedLengthInteger 2).parse fun v xs =>
    ∃ u : UInt16, xs = toLittleEndian 2 u.toNat ∧ v = u.toNat := by
  refine accepts_of parse_uint16 fun xs hl => ⟨.ofNat (ofLittleEndian xs), ?_⟩
  have hx : ofLittleEndian xs < 2 ^ 16 := by simpa [hl] using ofLittleEndian_lt xs
  rw [UInt16.toNat_ofNat', Nat.mod_eq_of_lt hx, ← hl, toLittleEndian_ofLittleEndian]

theorem accepts_uint32 : Accepts ({} : FixedLengthInteger 4).parse fun v xs =>
    ∃ u : UInt32, xs = toLittleEndian 4 u.toNat ∧ v = signExtend u.toNat := by
  refine accepts_of parse_uint32 fun xs hl => ⟨.ofNat (ofLittleEndian xs), ?_⟩
  have hx : ofLittleEndian xs < 2 ^ 32 := by simpa [hl] using ofLittleEndian_lt xs
  rw [UInt32.toNat_ofNat', Nat.mod_eq_of_lt hx, ← hl, toLittleEndian_ofLittleEndian]

end FixedLengthInteger

-- Eight digits are taken for two numbers of four digits with a sign, which are added up.
def sumOfHalves (n : Nat) : Nat :=
  (signExtend (n % 2 ^ 32) + signExtend (n / 2 ^ 32 % 2 ^ 32)) % 2 ^ 64

theorem Digits.result_eight {xs : Bytes} (h : xs.length = 8) :
    (xs.foldl Digits.add {}).result = sumOfHalves (ofLittleEndian xs) := by
  have hx := toLittleEndian_ofLittleEndian xs
  rw [h] at hx
  generalize ofLittleEndian xs = n at hx
  have h₂₄ (b : Byte) : shiftLeft b 24 = signExtend (b.toNat * 16777216 % 4294967296) := rfl
  have h₃₂ (b : Byte) : shiftLeft b 32 = shiftLeft b 0  := shiftLeft_add_32 b 0
  have h₄₀ (b : Byte) : shiftLeft b 40 = shiftLeft b 8  := shiftLeft_add_32 b 8
  have h₄₈ (b : Byte) : shiftLeft b 48 = shiftLeft b 16 := shiftLeft_add_32 b 16
  have h₅₆ (b : Byte) : shiftLeft b 56 = shiftLeft b 24 := shiftLeft_add_32 b 24
  rw [← hx, sumOfHalves, ← signExtend_digits n, ← signExtend_digits (n / 2 ^ 32)]
  simp [toLittleEndian, Digits.add, h₂₄, h₃₂, h₄₀, h₄₈, h₅₆, shiftLeft_eq, Nat.div_div_eq_div_mul, Nat.add_assoc]

-- The bytes that are taken for a number. The first one is the number, or it tells how many digits follow, and these
-- may be more than the number needs.
inductive Lenenc : Nat → Bytes → Prop
  | byte {b : Byte} : b < 251 → Lenenc b.toNat [b]
  | two {ds : Bytes} : ds.length = 2 → Lenenc (ofLittleEndian ds) (0xfc :: ds)
  | three {ds : Bytes} : ds.length = 3 → Lenenc (ofLittleEndian ds) (0xfd :: ds)
  | eight {ds : Bytes} : ds.length = 8 → Lenenc (sumOfHalves (ofLittleEndian ds)) (0xfe :: ds)

theorem Lenenc.ne_nil {n : Nat} {bs : Bytes} (h : Lenenc n bs) : bs ≠ [] := by
  cases h <;> exact List.cons_ne_nil _ _

-- A string with its length in front.
inductive LenencStr (v : Bytes) : Bytes → Prop
  | mk {pre : Bytes} : Lenenc v.length pre → LenencStr v (pre ++ v)

namespace LengthEncodedInteger

variable {target v : Nat} {bs r : Bytes}

theorem readDigits_done_iff : readDigits { target } bs = .done v r ↔
    ∃ ds, bs = ds ++ r ∧ ds.length = target ∧ v = (ds.foldl Digits.add {}).result := by
  rw [readDigits, Step.andThen_eq_done]
  simp [Digits.accepts target]

theorem accepts : Accepts ({} : LengthEncodedInteger).parse Lenenc := by
  intro bs v r
  constructor
  case mp =>
    intro h
    cases bs
    case nil => cases h
    case cons b bs =>
      simp only [parse, if_true] at h
      split_ifs at h with h₁ h₂ h₃ h₄
      case pos => cases h; exact ⟨[b], rfl, .byte h₁⟩
      case pos =>
        obtain ⟨ds, rfl, hl, rfl⟩ := readDigits_done_iff.mp h
        exact ⟨b :: ds, rfl, h₂ ▸ Digits.result_eq ds (by omega) ▸ .two hl⟩
      case pos =>
        obtain ⟨ds, rfl, hl, rfl⟩ := readDigits_done_iff.mp h
        exact ⟨b :: ds, rfl, h₃ ▸ Digits.result_eq ds (by omega) ▸ .three hl⟩
      case pos =>
        obtain ⟨ds, rfl, hl, rfl⟩ := readDigits_done_iff.mp h
        exact ⟨b :: ds, rfl, h₄ ▸ Digits.result_eight hl ▸ .eight hl⟩
  case mpr =>
    rintro ⟨xs, rfl, hx⟩
    cases hx
    case byte b h => simp [parse, h]
    case two ds h   => exact readDigits_done_iff.mpr ⟨ds, rfl, h, (Digits.result_eq ds (by omega)).symm⟩
    case three ds h => exact readDigits_done_iff.mpr ⟨ds, rfl, h, (Digits.result_eq ds (by omega)).symm⟩
    case eight ds h => exact readDigits_done_iff.mpr ⟨ds, rfl, h, (Digits.result_eight h).symm⟩

end LengthEncodedInteger

namespace LengthEncodedString

variable {C : Type} [Container C]

theorem accepts : Accepts ((.len {} : LengthEncodedString C).parse) fun c xs =>
    ∃ v, LenencStr v xs ∧ c = Container.insert Container.empty v := by
  intro bs c r
  rw [parse, Step.andThen_eq_done]
  constructor
  case mp =>
    rintro ⟨n, ys, hn, hs⟩
    obtain ⟨pre, rfl, hp⟩ := LengthEncodedInteger.accepts.mp hn
    obtain ⟨c', r', hf, hd⟩ := Step.andThen_eq_done.mp hs
    obtain ⟨_, _, hf, hd'⟩ := Step.andThen_eq_done.mp hf
    cases hd
    cases hd'
    obtain ⟨v, rfl, rfl, hl⟩ := Filling.fill_done hf
    obtain rfl : v.length = n := by simpa using hl
    exact ⟨pre ++ v, (List.append_assoc ..).symm, v, ⟨hp⟩, rfl⟩
  case mpr =>
    rintro ⟨xs, rfl, v, ⟨hp⟩, rfl⟩
    rw [List.append_assoc]
    refine ⟨v.length, v ++ r, LengthEncodedInteger.accepts.done hp _, ?_⟩
    exact Step.andThen_eq_done.mpr ⟨_, r, Sized.parse_full v r, rfl⟩

theorem accepts_bytes : Accepts ((.len {} : LengthEncodedString Bytes).parse) LenencStr := by
  intro bs v r
  rw [accepts]
  simp only [Container.insert_empty_bytes, exists_eq_right']

end LengthEncodedString

namespace ResultsetPacket

-- A cell of a row: the byte 0xfb or a string.
inductive Cell : Option Bytes → Bytes → Prop
  | null : Cell none [0xfb]
  | str {v bs : Bytes} : LenencStr v bs → Cell (some v) bs

theorem cells_iff {row : Row} {bs : Bytes} :
    Cells row bs ↔ ∃ cells, List.Forall₂ Cell row cells ∧ bs = cells.flatten := by
  constructor
  case mp =>
    intro h
    induction h
    case nil => exact ⟨[], .nil, rfl⟩
    case null ih =>
      obtain ⟨cells, hc, rfl⟩ := ih
      exact ⟨[0xfb] :: cells, .cons .null hc, rfl⟩
    case str hp _ ih =>
      obtain ⟨cells, hc, rfl⟩ := ih
      have hl := LengthEncodedInteger.accepts.done_nil_iff.mp hp
      exact ⟨_ :: cells, .cons (.str ⟨hl⟩) hc, by simp⟩
  case mpr =>
    rintro ⟨cells, hc, rfl⟩
    induction hc
    case nil => exact .nil
    case cons h _ ih =>
      cases h
      case null  => exact .null ih
      case str h =>
        obtain ⟨hl⟩ := h
        have hp := LengthEncodedInteger.accepts.done_nil_iff.mpr hl
        simpa using Cells.str hp ih

end ResultsetPacket

namespace ColumnDefinition41Packet

-- The fields of a fixed length, with their length.
def Definition.fixedFields (d : Definition) : Bytes :=
  toLittleEndian 1 0x0c ++ (toLittleEndian 2 d.characterSet.toNat ++ (toLittleEndian 4 d.columnLength.toNat ++
    (toLittleEndian 1 d.type.toNat ++ (toLittleEndian 2 d.flags.toNat ++
      (toLittleEndian 1 d.decimals.toNat ++ toLittleEndian 2 d.unusedNotInDoc.toNat)))))

-- The payloads that are taken for the description of a column.
inductive Definition.Written (d : Definition) : Bytes → Prop
  | mk {catalog schema table orgTable name orgName : Bytes} :
    LenencStr catalogName catalog → LenencStr d.schema schema → LenencStr d.table table →
    LenencStr d.orgTable orgTable → LenencStr d.name name → LenencStr d.orgName orgName →
    Written d (catalog ++ (schema ++ (table ++ (orgTable ++ (name ++ (orgName ++ d.fixedFields))))))

namespace Parser

variable {result packet : ColumnDefinition41Packet} {bs r : Bytes}

-- The second half of the fields.
theorem parse_fixedFields_iff : (⟨.lengthOfFixedLengthFields {}, result⟩ : Parser).parse bs = .done packet r ↔
    ∃ d : Definition, { d.toColumnDefinition41Packet with name := result.name } = packet ∧ bs = d.fixedFields ++ r := by
  constructor
  case mp =>
    intro h
    obtain ⟨len, _, _, rfl, ⟨u, rfl, rfl⟩, h⟩ :=
      (Loop.run_field_iff FixedLengthInteger.accepts_uint8 fun _ => rfl).mp h
    split at h
    case isFalse => cases h
    case isTrue hu =>
    obtain ⟨_, _, _, rfl, ⟨characterSet, rfl, rfl⟩, h⟩ :=
      (Loop.run_field_iff FixedLengthInteger.accepts_uint16 fun _ => rfl).mp h
    obtain ⟨_, _, _, rfl, ⟨columnLength, rfl, rfl⟩, h⟩ :=
      (Loop.run_field_iff FixedLengthInteger.accepts_uint32 fun _ => rfl).mp h
    obtain ⟨_, _, _, rfl, ⟨type, rfl, rfl⟩, h⟩ :=
      (Loop.run_field_iff FixedLengthInteger.accepts_uint8 fun _ => rfl).mp h
    obtain ⟨_, _, _, rfl, ⟨flags, rfl, rfl⟩, h⟩ :=
      (Loop.run_field_iff FixedLengthInteger.accepts_uint16 fun _ => rfl).mp h
    obtain ⟨_, _, _, rfl, ⟨decimals, rfl, rfl⟩, h⟩ :=
      (Loop.run_field_iff FixedLengthInteger.accepts_uint8 fun _ => rfl).mp h
    obtain ⟨_, _, _, rfl, ⟨unused, rfl, rfl⟩, ⟨⟩⟩ :=
      (Loop.run_field_iff FixedLengthInteger.accepts_uint16 fun _ => rfl).mp h
    refine ⟨{ characterSet, columnLength, type, flags, decimals, unusedNotInDoc := unused }, ?_, ?_⟩
    case refine_1 => simp only [UInt8.ofNat_toNat, UInt16.ofNat_toNat, FixedLengthInteger.ofNat_signExtend]
    case refine_2 => simp only [Definition.fixedFields, hu, List.append_assoc]
  case mpr =>
    rintro ⟨d, rfl, rfl⟩
    simp only [Definition.fixedFields, List.append_assoc]
    refine (Loop.run_field_iff FixedLengthInteger.accepts_uint8 fun _ => rfl).mpr ⟨12, _, _, rfl, ⟨12, rfl, rfl⟩, ?_⟩
    refine (Loop.run_field_iff FixedLengthInteger.accepts_uint16 fun _ => rfl).mpr ⟨_, _, _, rfl, ⟨_, rfl, rfl⟩, ?_⟩
    refine (Loop.run_field_iff FixedLengthInteger.accepts_uint32 fun _ => rfl).mpr ⟨_, _, _, rfl, ⟨_, rfl, rfl⟩, ?_⟩
    refine (Loop.run_field_iff FixedLengthInteger.accepts_uint8 fun _ => rfl).mpr ⟨_, _, _, rfl, ⟨_, rfl, rfl⟩, ?_⟩
    refine (Loop.run_field_iff FixedLengthInteger.accepts_uint16 fun _ => rfl).mpr ⟨_, _, _, rfl, ⟨_, rfl, rfl⟩, ?_⟩
    refine (Loop.run_field_iff FixedLengthInteger.accepts_uint8 fun _ => rfl).mpr ⟨_, _, _, rfl, ⟨_, rfl, rfl⟩, ?_⟩
    refine (Loop.run_field_iff FixedLengthInteger.accepts_uint16 fun _ => rfl).mpr ⟨_, _, _, rfl, ⟨_, rfl, rfl⟩, ?_⟩
    simp only [Loop.after, UInt8.ofNat_toNat, UInt16.ofNat_toNat, FixedLengthInteger.ofNat_signExtend]

-- The payloads that are taken for the description of a column, and what is kept of them.
theorem accepts : Accepts ({} : Parser).parse fun packet xs =>
    ∃ d : Definition, d.toColumnDefinition41Packet = packet ∧ d.Written xs := by
  intro bs packet r
  constructor
  case mp =>
    intro h
    obtain ⟨_, _, _, rfl, hc, h⟩ := (Loop.run_field_iff LengthEncodedString.accepts_bytes fun _ => rfl).mp h
    split at h
    case isFalse => cases h
    case isTrue hv =>
    obtain ⟨_, _, _, rfl, ⟨schema, hs, -⟩, h⟩ := (Loop.run_field_iff LengthEncodedString.accepts fun _ => rfl).mp h
    obtain ⟨_, _, _, rfl, ⟨table, ht, -⟩, h⟩ := (Loop.run_field_iff LengthEncodedString.accepts fun _ => rfl).mp h
    obtain ⟨_, _, _, rfl, ⟨orgTable, hot, -⟩, h⟩ := (Loop.run_field_iff LengthEncodedString.accepts fun _ => rfl).mp h
    obtain ⟨name, _, _, rfl, hn, h⟩ := (Loop.run_field_iff LengthEncodedString.accepts_bytes fun _ => rfl).mp h
    obtain ⟨_, _, _, rfl, ⟨orgName, hon, -⟩, h⟩ := (Loop.run_field_iff LengthEncodedString.accepts fun _ => rfl).mp h
    obtain ⟨d, rfl, rfl⟩ := parse_fixedFields_iff.mp h
    refine ⟨_, ?_, { d with schema, table, orgTable, name, orgName }, rfl, .mk (hv ▸ hc) hs ht hot hn hon⟩
    simp only [List.append_assoc]
    rfl
  case mpr =>
    rintro ⟨_, rfl, d, rfl, ⟨hc, hs, ht, hot, hn, hon⟩⟩
    simp only [List.append_assoc]
    refine (Loop.run_field_iff LengthEncodedString.accepts_bytes fun _ => rfl).mpr ⟨_, _, _, rfl, hc, ?_⟩
    refine (Loop.run_field_iff LengthEncodedString.accepts fun _ => rfl).mpr ⟨_, _, _, rfl, ⟨_, hs, rfl⟩, ?_⟩
    refine (Loop.run_field_iff LengthEncodedString.accepts fun _ => rfl).mpr ⟨_, _, _, rfl, ⟨_, ht, rfl⟩, ?_⟩
    refine (Loop.run_field_iff LengthEncodedString.accepts fun _ => rfl).mpr ⟨_, _, _, rfl, ⟨_, hot, rfl⟩, ?_⟩
    refine (Loop.run_field_iff LengthEncodedString.accepts_bytes fun _ => rfl).mpr ⟨_, _, _, rfl, hn, ?_⟩
    refine (Loop.run_field_iff LengthEncodedString.accepts fun _ => rfl).mpr ⟨_, _, _, rfl, ⟨_, hon, rfl⟩, ?_⟩
    exact parse_fixedFields_iff.mpr ⟨d, rfl, rfl⟩

end Parser

end ColumnDefinition41Packet

namespace ErrPacket

theorem parse_done_iff {packet : ErrPacket} {bs r : Bytes} :
    ({} : Parser).parse true bs = .done packet r ↔ packet.WellFormed ∧ bs = packet.encode ∧ r = [] := by
  constructor
  case mp =>
    intro h
    obtain ⟨packet', hw, rfl⟩ := exists_of_parse h
    cases (parse_encode hw).symm.trans h
    exact ⟨hw, rfl, rfl⟩
  case mpr =>
    rintro ⟨hw, rfl, rfl⟩
    exact parse_encode hw

end ErrPacket

namespace OkPacket

-- The payloads that are taken for an OK packet, when session tracking is off. The info goes up to the end.
inductive Written (headerCh : Byte) (packet : OkPacket) : Bytes → Prop
  | mk {affectedRows lastInsertId : Bytes} :
    Lenenc packet.affectedRows affectedRows → Lenenc packet.lastInsertId lastInsertId →
    Written headerCh packet (headerCh :: (affectedRows ++ (lastInsertId ++ (toLittleEndian 2 packet.statusFlags.toNat ++
      (toLittleEndian 2 packet.warnings.toNat ++ packet.info)))))

theorem parse_done_iff {clientCap : UInt32} (hc : clientCap &&& CapabilitiesFlags.clientSessionTrack = 0)
    {headerCh : Byte} {packet : OkPacket} {bs r : Bytes} :
    ({} : Parser headerCh).parse clientCap true bs = .done packet r ↔
      packet.Written headerCh bs ∧ packet.sessionStateInfo = [] ∧ r = [] := by
  have hh (bs : Bytes) : ({} : Parser headerCh).parse clientCap true (headerCh :: bs) =
      (⟨.affectedRows {}, {}⟩ : Parser headerCh).parse clientCap true bs :=
    Parser.parse_goto (by simp only [Parser.turn, if_true])
  constructor
  case mp =>
    intro h
    cases bs
    case nil =>
      have hm : ({} : Parser headerCh).turn clientCap true [] = .more {} [] := rfl
      cases (Loop.run_more hm).symm.trans h
    case cons b bs =>
      by_cases hb : b = headerCh
      case neg =>
        have hf : ({} : Parser headerCh).turn clientCap true (b :: bs) = .fail .malformedHeader bs := if_neg hb
        cases (Loop.run_fail hf).symm.trans h
      case pos =>
        subst hb
        rw [hh] at h
        obtain ⟨affectedRows, _, _, rfl, ha, h⟩ :=
          (Loop.run_field_iff LengthEncodedInteger.accepts fun _ => rfl).mp h
        obtain ⟨lastInsertId, _, _, rfl, hi, h⟩ :=
          (Loop.run_field_iff LengthEncodedInteger.accepts fun _ => rfl).mp h
        obtain ⟨_, _, _, rfl, ⟨statusFlags, rfl, rfl⟩, h⟩ :=
          (Loop.run_field_iff FixedLengthInteger.accepts_uint16 fun _ => rfl).mp h
        obtain ⟨_, _, info, rfl, ⟨warnings, rfl, rfl⟩, h⟩ :=
          (Loop.run_field_iff FixedLengthInteger.accepts_uint16 fun _ => rfl).mp h
        simp only [hc, ne_eq, not_true, if_false, Loop.after] at h
        rw [Loop.run_done rfl] at h
        cases h
        refine ⟨?_, rfl, rfl⟩
        have hw : Written b ⟨affectedRows, lastInsertId, statusFlags, warnings, info, []⟩ _ := .mk ha hi
        simpa using hw
  case mpr =>
    rintro ⟨⟨ha, hi⟩, hs, rfl⟩
    rw [hh]
    refine (Loop.run_field_iff LengthEncodedInteger.accepts fun _ => rfl).mpr ⟨_, _, _, rfl, ha, ?_⟩
    refine (Loop.run_field_iff LengthEncodedInteger.accepts fun _ => rfl).mpr ⟨_, _, _, rfl, hi, ?_⟩
    refine (Loop.run_field_iff FixedLengthInteger.accepts_uint16 fun _ => rfl).mpr ⟨_, _, _, rfl, ⟨_, rfl, rfl⟩, ?_⟩
    refine (Loop.run_field_iff FixedLengthInteger.accepts_uint16 fun _ => rfl).mpr ⟨_, _, _, rfl, ⟨_, rfl, rfl⟩, ?_⟩
    simp only [hc, ne_eq, not_true, if_false, Loop.after]
    rw [Loop.run_done rfl]
    obtain ⟨affectedRows, lastInsertId, statusFlags, warnings, info, sessionStateInfo⟩ := packet
    cases hs
    simp only [UInt16.ofNat_toNat, List.nil_append]

-- The session state is not part of a payload.
theorem exists_done_iff {clientCap : UInt32} (hc : clientCap &&& CapabilitiesFlags.clientSessionTrack = 0)
    {headerCh : Byte} {bs : Bytes} : (∃ packet, ({} : Parser headerCh).parse clientCap true bs = .done packet []) ↔
      ∃ packet : OkPacket, packet.Written headerCh bs := by
  simp only [parse_done_iff hc, and_true]
  constructor
  case mp =>
    rintro ⟨packet, hw, _⟩
    exact ⟨packet, hw⟩
  case mpr =>
    rintro ⟨packet, ha, hi⟩
    exact ⟨{ packet with sessionStateInfo := [] }, .mk ha hi, rfl⟩

end OkPacket

end ChxSql.Mysql

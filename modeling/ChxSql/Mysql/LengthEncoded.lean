import ChxSql.Mysql.BasicTypes

namespace ChxSql.Mysql

open Incremental

-- `lenenc_integer` (cf. detail/length_encoded.hpp)
def lenencInteger (n : Nat) : Bytes :=
  if n < 251 then
    [UInt8.ofNat n]
  else if n < 2 ^ 16 then
    0xfc :: toLittleEndian 2 n
  else if n < 2 ^ 24 then
    0xfd :: toLittleEndian 3 n
  else
    0xfe :: toLittleEndian 8 n

-- `lenenc_int_bound`
def lenencIntBound (n : Nat) : Nat :=
  if n < 251 then
    1
  else if n < 2 ^ 16 then
    3
  else if n < 2 ^ 24 then
    4
  else
    9

theorem length_lenencInteger (n : Nat) : (lenencInteger n).length = lenencIntBound n := by
  rw [lenencInteger, lenencIntBound]
  split_ifs <;> simp

-- `lenenc_str`
def lenencStr (bs : Bytes) : Bytes :=
  lenencInteger bs.length ++ bs

theorem length_lenencStr (bs : Bytes) :
    (lenencStr bs).length = (lenencInteger bs.length).length + bs.length := by
  simp [lenencStr]

theorem lenencInteger_length_le (n : Nat) : (lenencInteger n).length ≤ 9 := by
  rw [lenencInteger]
  split_ifs <;> simp

-- What the first byte of an encoded number tells.
structure LenencHead (n : Nat) (b : Byte) : Prop where
  ne_null : b ≠ 0xfb
  ne_err  : b ≠ 0xff
  zero    : b = 0x00 → n = 0
  large   : b = 0xfe → 2 ^ 24 ≤ n

theorem lenencInteger_head (n : Nat) : ∃ b bs, lenencInteger n = b :: bs ∧ LenencHead n b := by
  rw [lenencInteger]
  split_ifs with h₁ h₂ h₃
  case pos =>
    have hb (c : UInt8) (hc : UInt8.ofNat n = c) : n = c.toNat := by
      have := congrArg UInt8.toNat hc
      rw [UInt8.toNat_ofNat'] at this
      omega
    exact ⟨_, _, rfl, fun h => absurd (hb _ h) (by simp; omega), fun h => absurd (hb _ h) (by simp; omega),
      fun h => hb _ h, fun h => absurd (hb _ h) (by simp; omega)⟩
  case pos => exact ⟨_, _, rfl, by decide, by decide, nofun, nofun⟩
  case pos => exact ⟨_, _, rfl, by decide, by decide, nofun, nofun⟩
  case neg => exact ⟨_, _, rfl, by decide, by decide, nofun, fun _ => Nat.not_lt.mp h₃⟩

-- `length_encoded_integer`. The target is 0 as long as the first byte is missing.
structure LengthEncodedInteger where
  target : Nat    := 0
  digits : Digits := {}
  deriving DecidableEq

namespace LengthEncodedInteger

def readDigits (p : LengthEncodedInteger) (bs : Bytes) :
    Step Byte LengthEncodedInteger Nat PayloadFailure :=
  (p.digits.parse p.target bs).andThen (.mk p.target) .done

def parse (p : LengthEncodedInteger) (bs : Bytes) :
    Step Byte LengthEncodedInteger Nat PayloadFailure :=
  if p.target = 0 then
    match bs with
    | []              => .more p []
    | firstByte :: bs =>
      if firstByte < 251 then
        .done firstByte.toNat bs
      else if firstByte = 0xfc then
        { p with target := 2 }.readDigits bs
      else if firstByte = 0xfd then
        { p with target := 3 }.readDigits bs
      else if firstByte = 0xfe then
        { p with target := 8 }.readDigits bs
      else
        .fail .malformed bs
  else
    p.readDigits bs

theorem parse_eq_readDigits {p : LengthEncodedInteger} (h : p.target ≠ 0) (bs : Bytes) :
    p.parse bs = p.readDigits bs :=
  if_neg h

theorem readDigits_extends {p : LengthEncodedInteger} (h : p.target ≠ 0) (xs ys : Bytes) :
    (p.readDigits xs).Extends (fun _ => True) parse ys (p.readDigits (xs ++ ys)) :=
  (Digits.resumable.extend trivial xs ys).andThen (fun _ _ => trivial)
    (fun q _ => parse_eq_readDigits (p := ⟨p.target, q⟩) h ys) (fun _ _ => .done)

theorem resumable : Resumable parse := by
  refine .of_extends fun p xs ys => ?_
  by_cases ht : p.target = 0
  case neg =>
    rw [parse_eq_readDigits ht, parse_eq_readDigits ht]
    exact readDigits_extends ht xs ys
  case pos =>
    cases xs
    case nil =>
      simp only [parse, if_pos ht, List.nil_append]
      exact .of_eq_more trivial (by simp [parse, ht])
    case cons firstByte xs =>
      simp only [parse, if_pos ht, List.cons_append]
      split_ifs
      case pos => exact .done
      case neg => exact .fail
      all_goals exact readDigits_extends (Nat.succ_ne_zero _) xs ys

theorem shrinks : Shrinks parse := by
  intro p bs
  have hd (p : LengthEncodedInteger) (bs) : (p.readDigits bs).rest <:+ bs :=
    Step.rest_andThen_suffix (Digits.shrinks p.digits bs) fun _ r => List.suffix_refl r
  by_cases ht : p.target = 0
  case neg => rw [parse_eq_readDigits ht]; exact hd p bs
  case pos =>
    cases bs
    case nil => simp [parse, ht, Step.rest]
    case cons firstByte bs =>
      simp only [parse, if_pos ht]
      split_ifs
      case pos => exact List.suffix_cons ..
      case neg => exact List.suffix_cons ..
      all_goals exact (hd _ bs).trans (List.suffix_cons ..)

theorem parse_fail {p : LengthEncodedInteger} {bs e r} (h : p.parse bs = .fail e r) :
    e = .malformed := by
  have hd (p : LengthEncodedInteger) (bs r) : p.readDigits bs ≠ .fail e r := by
    intro h
    cases hp : p.digits.parse p.target bs <;> simp only [readDigits, hp, Step.andThen, reduceCtorEq] at h
    exact Digits.parse_ne_fail hp
  by_cases ht : p.target = 0
  case neg =>
    rw [parse_eq_readDigits ht] at h
    exact absurd h (hd p bs r)
  case pos =>
    cases bs <;> simp only [parse, if_pos ht] at h
    case nil  => cases h
    case cons =>
      split_ifs at h
      case neg => cases h; rfl
      all_goals exact absurd h (hd _ _ r)

-- The number that the parser makes of an encoded number.
def decoded (n : Nat) : Nat :=
  if n < 2 ^ 24 then n else ((toLittleEndian 8 n).foldl Digits.add {}).result

theorem decoded_of_lt {n : Nat} (h : n < 2 ^ 24) : decoded n = n :=
  if_pos h

theorem readDigits_full {target n : Nat} (ys : Bytes) :
    readDigits { target } (toLittleEndian target n ++ ys) =
      .done ((toLittleEndian target n).foldl Digits.add {}).result ys := by
  have hd := Digits.parse_full (p := {}) (show 0 + (toLittleEndian target n).length = target by simp) ys
  rw [readDigits, hd, Step.andThen]

-- The eight digits are taken for two numbers with a sign, of four digits each, which are added up.
theorem decoded_eq {n : Nat} (h : ¬n < 2 ^ 24) :
    decoded n = (signExtend (n % 2 ^ 32) + signExtend (n / 2 ^ 32 % 2 ^ 32)) % 2 ^ 64 := by
  have h₂₄ (b : Byte) : shiftLeft b 24 = signExtend (b.toNat * 16777216 % 4294967296) := rfl
  have h₃₂ (b : Byte) : shiftLeft b 32 = shiftLeft b 0  := shiftLeft_add_32 b 0
  have h₄₀ (b : Byte) : shiftLeft b 40 = shiftLeft b 8  := shiftLeft_add_32 b 8
  have h₄₈ (b : Byte) : shiftLeft b 48 = shiftLeft b 16 := shiftLeft_add_32 b 16
  have h₅₆ (b : Byte) : shiftLeft b 56 = shiftLeft b 24 := shiftLeft_add_32 b 24
  rw [decoded, if_neg h, ← signExtend_digits n, ← signExtend_digits (n / 2 ^ 32)]
  simp [toLittleEndian, Digits.add, h₂₄, h₃₂, h₄₀, h₄₈, h₅₆, shiftLeft_eq, Nat.div_div_eq_div_mul,
    Nat.add_assoc]

theorem decoded_eq_iff {n : Nat} : decoded n = n ↔ n < 2 ^ 31 := by
  by_cases hs : n < 2 ^ 24
  case pos => simp only [decoded_of_lt hs, true_iff]; omega
  case neg =>
    rw [decoded_eq hs]
    constructor <;> intro h
    case mp =>
      -- The lower half of the sum tells that the number has no upper half.
      have hm := calc n % 2 ^ 32
        _ = (signExtend (n % 2 ^ 32) + signExtend (n / 2 ^ 32 % 2 ^ 32)) % 2 ^ 64 % 2 ^ 32 := by rw [h]
        _ = (n % 2 ^ 32 + n / 2 ^ 32) % 2 ^ 32 := by
          rw [Nat.mod_mod_of_dvd _ (by decide), Nat.add_mod, signExtend_mod (Nat.mod_lt _ (by decide)),
            signExtend_mod (Nat.mod_lt _ (by decide)), Nat.add_mod_mod]
      have hl : n < 2 ^ 64 := h ▸ Nat.mod_lt _ (by decide)
      have hn : n < 2 ^ 32 := by omega
      rw [Nat.mod_eq_of_lt hn, Nat.div_eq_of_lt hn, Nat.zero_mod, signExtend_zero, Nat.add_zero,
        Nat.mod_eq_of_lt (signExtend_lt hn)] at h
      exact signExtend_eq_iff.mp h
    case mpr =>
      rw [Nat.mod_eq_of_lt (show n < 2 ^ 32 by omega), Nat.div_eq_of_lt (show n < 2 ^ 32 by omega),
        signExtend_eq_iff.mpr h, Nat.zero_mod, signExtend_zero, Nat.add_zero,
        Nat.mod_eq_of_lt (by omega)]

-- A number is read back as what it is `decoded` to.
theorem parse_lenencInteger (n : Nat) (ys : Bytes) :
    ({} : LengthEncodedInteger).parse (lenencInteger n ++ ys) = .done (decoded n) ys := by
  rw [lenencInteger]
  split_ifs with h₁ h₂ h₃
  case pos =>
    have hb : UInt8.ofNat n < 251 := by
      rw [UInt8.lt_iff_toNat_lt, UInt8.toNat_ofNat']
      simp
      omega
    rw [decoded_of_lt (by omega)]
    simp [parse, hb]
    omega
  case pos =>
    rw [decoded_of_lt (by omega)]
    simp [parse, readDigits_full]
    simp [toLittleEndian, Digits.add, shiftLeft_eq]
    omega
  case pos =>
    rw [decoded_of_lt h₃]
    simp [parse, readDigits_full]
    simp [toLittleEndian, Digits.add, shiftLeft_eq]
    omega
  case neg =>
    rw [decoded, if_neg h₃]
    simp [parse, readDigits_full]

theorem parse_lenencInteger_of_lt {n : Nat} (h : n < 2 ^ 31) (ys : Bytes) :
    ({} : LengthEncodedInteger).parse (lenencInteger n ++ ys) = .done n ys := by
  rw [parse_lenencInteger, decoded_eq_iff.mpr h]

-- A number that is done has read at least its first byte.
theorem parse_lt {bs n r} (h : ({} : LengthEncodedInteger).parse bs = .done n r) :
    r.length < bs.length := by
  have hd (p : LengthEncodedInteger) (bs r) (h : p.readDigits bs = .done n r) :
      r.length < bs.length + 1 := by
    cases hp : p.digits.parse p.target bs <;> simp only [readDigits, hp, Step.andThen, reduceCtorEq] at h
    cases h
    exact Nat.lt_succ_of_le (Digits.shrinks.length_le hp)
  cases bs
  case nil => simp [parse] at h
  case cons firstByte bs =>
    simp only [parse, if_true] at h
    split_ifs at h
    case pos => cases h; exact Nat.lt_succ_self _
    all_goals exact hd _ _ _ h

-- The bytes that a number that is done has read.
theorem exists_of_parse {bs r : Bytes} {n : Nat}
    (h : ({} : LengthEncodedInteger).parse bs = .done n r) :
    ∃ pre, bs = pre ++ r ∧ ({} : LengthEncodedInteger).parse pre = .done n [] := by
  have hd {target : Nat} {bs} (h : readDigits { target } bs = .done n r) :
      ∃ pre, bs = pre ++ r ∧ readDigits { target } pre = .done n [] := by
    cases hp : ({} : Digits).parse target bs <;> simp only [readDigits, hp, Step.andThen, reduceCtorEq] at h
    cases h
    obtain ⟨pre, hb, hp⟩ := Digits.parse_done hp
    exact ⟨pre, hb, by simp only [readDigits, hp, Step.andThen]⟩
  cases bs
  case nil => simp [parse] at h
  case cons firstByte bs =>
    simp only [parse, if_true] at h
    split_ifs at h with h₁ h₂ h₃ h₄
    case pos => cases h; exact ⟨[firstByte], rfl, by simp [parse, h₁]⟩
    all_goals
      obtain ⟨pre, hb, hp⟩ := hd h
      exact ⟨firstByte :: pre, by rw [hb]; rfl, by simp only [parse]; simp [*]⟩

end LengthEncodedInteger

-- `length_encoded_string`. The parser of the bytes is engaged when their number is known.
inductive LengthEncodedString (C : Type) [Container C] where
  | len (parser : LengthEncodedInteger)
  | str (parser : Sized C)
  deriving DecidableEq

namespace LengthEncodedString

variable {C : Type} [Container C]

def parseStr (parser : Sized C) (bs : Bytes) : Step Byte (LengthEncodedString C) C PayloadFailure :=
  (parser.parse bs).andThen .str .done

def parse (p : LengthEncodedString C) (bs : Bytes) :
    Step Byte (LengthEncodedString C) C PayloadFailure :=
  match p with
  | len parser => (parser.parse bs).andThen .len fun n bs => parseStr { targetLength := n } bs
  | str parser => parseStr parser bs

theorem parseStr_extends (parser : Sized C) (xs ys : Bytes) :
    (parseStr parser xs).Extends (fun _ => True) parse ys (parseStr parser (xs ++ ys)) :=
  (Sized.resumable.extend trivial xs ys).andThen
    (fun _ _ => trivial) (fun _ _ => rfl) (fun _ _ => .done)

theorem resumable : Resumable (parse (C := C)) := by
  refine .of_extends fun p xs ys => ?_
  cases p
  case str parser => exact parseStr_extends parser xs ys
  case len parser =>
    exact (LengthEncodedInteger.resumable.extend trivial xs ys).andThen (fun _ _ => trivial)
      (fun _ _ => rfl) (fun n r => parseStr_extends { targetLength := n } r ys)

theorem parseStr_suffix (parser : Sized C) (bs : Bytes) : (parseStr parser bs).rest <:+ bs :=
  Step.rest_andThen_suffix (Sized.shrinks parser bs) fun _ r => List.suffix_refl r

theorem shrinks : Shrinks (parse (C := C)) := by
  intro p bs
  cases p
  case str parser => exact parseStr_suffix parser bs
  case len parser =>
    exact Step.rest_andThen_suffix (LengthEncodedInteger.shrinks parser bs)
      fun n r => parseStr_suffix { targetLength := n } r

theorem parse_fail {p : LengthEncodedString C} {bs e r} (h : p.parse bs = .fail e r) :
    e = .malformed := by
  have hs (parser : Sized C) (bs r) : parseStr parser bs ≠ .fail e r := by
    intro h
    cases hp : (parser.parse bs : Step _ _ _ PayloadFailure) <;>
      simp only [parseStr, hp, Step.andThen, reduceCtorEq] at h
    exact Sized.parse_ne_fail hp
  cases p
  case str => exact absurd h (hs _ _ _)
  case len parser =>
    cases hp : parser.parse bs <;> simp only [parse, hp, Step.andThen, reduceCtorEq] at h
    case done => exact absurd h (hs _ _ _)
    case fail => cases h; exact LengthEncodedInteger.parse_fail hp

-- A string is read back, if its length is.
theorem parse_lenencStr {v : Bytes} (h : v.length < 2 ^ 31) (ys : Bytes) :
    (len {} : LengthEncodedString C).parse (lenencStr v ++ ys) =
      .done (Container.insert Container.empty v) ys := by
  rw [lenencStr, List.append_assoc, parse, LengthEncodedInteger.parse_lenencInteger_of_lt h,
    Step.andThen, parseStr, Sized.parse_full, Step.andThen]

-- A string that is done has read at least the first byte of its length.
theorem parse_lt {bs v r} (h : (len {} : LengthEncodedString C).parse bs = .done v r) :
    r.length < bs.length := by
  cases hp : ({} : LengthEncodedInteger).parse bs <;> simp only [parse, hp, Step.andThen, reduceCtorEq] at h
  case done n rest =>
    have hs : r.length ≤ rest.length := by
      simpa only [h, Step.rest] using (parseStr_suffix (C := C) { targetLength := n } rest).length_le
    exact Nat.lt_of_le_of_lt hs (LengthEncodedInteger.parse_lt hp)

end LengthEncodedString

end ChxSql.Mysql

import ChxSql.Incremental.Reading
import ChxSql.Mysql.LengthEncoded

namespace ChxSql.Mysql

open Incremental

namespace LengthEncodedInteger

variable {b : Byte} {ds : Bytes} {k n : Nat}

-- What is written for a number is read back as that number, and as many bytes are written as the
-- bound says.
structure RoundTrips (n : Nat) : Prop where
  reads : Reads parse {} (lenencInteger n) n
  bound : lenencIntBound n = (lenencInteger n).length

theorem lenencInteger_ne_nil (n : Nat) : lenencInteger n ≠ [] := by
  have ⟨b, bs, h, _⟩ := lenencInteger_head n
  simp [h]

theorem roundTrips_of_decoded : RoundTrips n ↔ decoded n = n := by
  have hp := parse_lenencInteger n []
  rw [List.append_nil] at hp
  constructor <;> intro h
  case mp =>
    have hr := h.reads.parse_eq
    rw [hp, Step.done.injEq] at hr
    exact hr.1
  case mpr =>
    refine ⟨resumable.reads (lenencInteger_ne_nil n) ?_, (length_lenencInteger n).symm⟩
    rw [hp, h]

-- A digit is promoted to `int` before it is shifted, and `int` has no shifts by 32 or more. This is
-- to say that no such shift is made while `bs` is read: `pre` is what has been read before the next
-- byte, which is shifted by eight times the number of the digits so far.
def ShiftsDefined (bs : Bytes) : Prop :=
  ∀ pre b post p, bs = pre ++ b :: post → ({} : LengthEncodedInteger).parse pre = .more p [] →
    p.target ≠ 0 → 8 * p.digits.digits < 32

theorem readDigits_short (h : ds.length < k) :
    readDigits { target := k } ds = .more ⟨k, ds.foldl Digits.add {}⟩ [] := by
  have hs : ({} : Digits).parse k ds = .more (ds.foldl Digits.add {}) [] :=
    Digits.parse_short (by simpa using h)
  rw [readDigits, hs, Step.andThen]

-- A single byte is not shifted.
theorem shiftsDefined_single (b : Byte) : ShiftsDefined [b] := by
  intro pre c post p h hp ht
  cases pre
  case nil  => cases hp; exact absurd rfl ht
  case cons => simp at h

-- The fifth digit is the first one whose shift is not defined.
theorem shiftsDefined_digits (hb : ∀ bs, parse {} (b :: bs) = readDigits { target := k } bs)
    (hl : ds.length = k) : ShiftsDefined (b :: ds) ↔ k ≤ 4 := by
  constructor <;> intro h
  case mp =>
    by_contra hk
    have hs := List.take_append_drop 4 ds
    have hd : (ds.take 4).length = 4 := by rw [List.length_take]; omega
    cases hp : ds.drop 4
    case nil => rw [List.drop_eq_nil_iff] at hp; omega
    case cons c post =>
      rw [hp] at hs
      have hm : readDigits { target := k } (ds.take 4) = _ := readDigits_short (by omega)
      have hk0 : k ≠ 0 := by omega
      have := h (b :: ds.take 4) c post _ (by rw [List.cons_append, hs]) (by rw [hb, hm]) hk0
      rw [Digits.foldl_add_digits, hd] at this
      exact absurd this (by decide)
  case mpr =>
    intro pre c post p he hp ht
    cases pre
    case nil => cases hp; exact absurd rfl ht
    case cons d pre =>
      rw [List.cons_append, List.cons.injEq] at he
      have hle : pre.length < k := by simp [← hl, he.2]
      rw [← he.1, hb, readDigits_short hle] at hp
      cases hp
      rw [Digits.foldl_add_digits, Nat.zero_add]
      omega

theorem shiftsDefined_lenencInteger : ShiftsDefined (lenencInteger n) ↔ n < 2 ^ 24 := by
  rw [lenencInteger]
  split_ifs with h₁ h₂ h₃
  case pos => exact iff_of_true (shiftsDefined_single _) (by omega)
  case pos =>
    rw [shiftsDefined_digits (k := 2) (fun _ => rfl) (toLittleEndian_length ..)]
    omega
  case pos =>
    rw [shiftsDefined_digits (k := 3) (fun _ => rfl) (toLittleEndian_length ..)]
    omega
  case neg =>
    rw [shiftsDefined_digits (k := 8) (fun _ => rfl) (toLittleEndian_length ..)]
    omega

-- Numbers are read back if they have no more than 31 bits, on a machine that takes the counts of
-- shifts modulo 32. Those of more than 24 bits rely on it, as they have eight digits.
theorem roundTrips_iff (n : UInt64) : (RoundTrips n.toNat ↔ n.toNat < 2 ^ 31) ∧
    (RoundTrips n.toNat ∧ ShiftsDefined (lenencInteger n.toNat) ↔ n.toNat < 2 ^ 24) := by
  rw [roundTrips_of_decoded, decoded_eq_iff, shiftsDefined_lenencInteger]
  exact ⟨Iff.rfl, fun h => h.2, fun h => ⟨Nat.lt_trans h (by decide), h⟩⟩

-- The number 2^31 is read back as 2^64 - 2^31.
theorem not_roundTrips_two_pow_31 : ¬∀ n : UInt64, RoundTrips n.toNat := by
  intro h
  have := decoded_eq_iff.mp (roundTrips_of_decoded.mp (h 2147483648))
  simp at this

end LengthEncodedInteger

end ChxSql.Mysql

import ChxSql.Incremental.Fill
import ChxSql.Incremental.Loop
import ChxSql.Incremental.Terminated

namespace ChxSql.Mysql

open Incremental

-- The `capabilities_flags` that the code looks at.
namespace CapabilitiesFlags

def clientConnectWithDb : UInt32 := 8
def clientPluginAuth    : UInt32 := (1 : UInt32) <<< 19
def clientSessionTrack  : UInt32 := (1 : UInt32) <<< 23

end CapabilitiesFlags

-- The flags that `do_handshake_response` sends to the server and stores in the connection.
def clientFlag (database : Bytes) : UInt32 :=
  if database ≠ [] then 0x012ea207 ||| CapabilitiesFlags.clientConnectWithDb else 0x012ea207

theorem clientFlag_untracked (database : Bytes) :
    clientFlag database &&& CapabilitiesFlags.clientSessionTrack = 0 := by
  rw [clientFlag]
  split <;> rfl

-- The results of a payload parser (cf. detail/result.hpp). The constructor `undefined` is not in the
-- source: it marks that the call ran into an `assert(false)`, took the wrong alternative out of a
-- variant or has no defined behaviour.
inductive PayloadResult where
  | success
  | pause
  | needMore
  | malformed
  | malformedHeader
  | trailingData
  | internalError
  | undefined
  deriving DecidableEq, Repr

-- The results with which the parsers of packets and of their fields give up.
inductive PayloadFailure where
  | malformed
  | malformedHeader
  | undefined
  deriving DecidableEq, Repr

def PayloadFailure.result : PayloadFailure → PayloadResult
  | malformed       => .malformed
  | malformedHeader => .malformedHeader
  | undefined       => .undefined

-- The conversion of an `int` to `std::size_t`. The `int` is given by its 32 bits.
def signExtend (v : Nat) : Nat :=
  if v < 2 ^ 31 then v else v + 2 ^ 64 - 2 ^ 32

@[simp]
theorem signExtend_zero : signExtend 0 = 0 := rfl

theorem signExtend_lt {v : Nat} (h : v < 2 ^ 32) : signExtend v < 2 ^ 64 := by
  rw [signExtend]
  split_ifs <;> omega

theorem signExtend_mod {v : Nat} (h : v < 2 ^ 32) : signExtend v % 2 ^ 32 = v := by
  rw [signExtend]
  split_ifs <;> omega

theorem signExtend_eq_iff {v : Nat} : signExtend v = v ↔ v < 2 ^ 31 := by
  rw [signExtend]
  split_ifs <;> omega

-- The last of four digits carries the sign.
theorem signExtend_digits (v : Nat) : v % 256 + v / 256 % 256 * 256 + v / 65536 % 256 * 65536 +
    signExtend (v / 16777216 % 256 * 16777216 % 4294967296) = signExtend (v % 2 ^ 32) := by
  have hs : v % 256 + v / 256 % 256 * 256 + v / 65536 % 256 * 65536 < 16777216 := by omega
  have hv : v % 256 + v / 256 % 256 * 256 + v / 65536 % 256 * 65536 +
    v / 16777216 % 256 * 16777216 = v % 2 ^ 32 := by omega
  rw [Nat.mod_eq_of_lt (show v / 16777216 % 256 * 16777216 < 4294967296 by omega)]
  generalize v / 16777216 % 256 = d, v % 2 ^ 32 = w at *
  simp only [signExtend]
  split_ifs <;> omega

-- `b << count`, converted to `std::size_t`: the byte is promoted to `int` before it is shifted. A
-- count of 32 or more is undefined for `int`: the x86-64 instruction takes it modulo 32.
def shiftLeft (b : Byte) (count : Nat) : Nat :=
  signExtend (b.toNat * 2 ^ (count % 32) % 2 ^ 32)

theorem shiftLeft_add_32 (b : Byte) (count : Nat) : shiftLeft b (count + 32) = shiftLeft b count := by
  simp [shiftLeft]

-- Up to two digits to the left the sign does not matter.
theorem shiftLeft_eq {count : Nat} (h : count ≤ 16) (b : Byte) :
    shiftLeft b count = b.toNat * 2 ^ count := by
  have hb := b.toNat_lt
  have hp : 2 ^ count ≤ 2 ^ 16 := Nat.pow_le_pow_right (by decide) h
  have hv : b.toNat * 2 ^ count ≤ 255 * 2 ^ 16 := Nat.mul_le_mul (by omega) hp
  rw [shiftLeft, Nat.mod_eq_of_lt (show count < 32 by omega),
    Nat.mod_eq_of_lt (show b.toNat * 2 ^ count < 2 ^ 32 by omega), signExtend, if_pos (by omega)]

-- `__M_result` and `__M_digits` of an integer that is read byte by byte.
structure Digits where
  result : Nat := 0
  digits : Nat := 0
  deriving DecidableEq

namespace Digits

def add (p : Digits) (b : Byte) : Digits where
  result := (p.result + shiftLeft b (8 * p.digits)) % 2 ^ 64
  digits := p.digits + 1

def parse (target : Nat) (p : Digits) : Bytes → Step Byte Digits Nat PayloadFailure
  | []      => if p.digits < target then .more p [] else .done p.result []
  | b :: bs =>
    if p.digits < target then
      (p.add b).parse target bs
    else
      .done p.result (b :: bs)

variable {target : Nat}

theorem resumable : Resumable (parse target) := by
  refine .of_extends fun p xs ys => ?_
  induction xs generalizing p <;> rw [parse] <;> split
  case nil.isTrue        => exact .of_eq_more trivial rfl
  case nil.isFalse h     => cases ys <;> rw [List.nil_append, parse, if_neg h] <;> exact .done
  case cons.isTrue ih h  => rw [List.cons_append, parse, if_pos h]; exact ih _
  case cons.isFalse h    => rw [List.cons_append, parse, if_neg h]; exact .done

theorem parse_ne_fail {p : Digits} {bs e r} : p.parse target bs ≠ .fail e r := by
  induction bs generalizing p <;> rw [parse] <;> split
  case cons.isTrue ih _ => exact ih
  all_goals nofun

-- The digits that are missing, all of them in one chunk.
theorem parse_full {p : Digits} {xs : Bytes} (h : p.digits + xs.length = target) (ys : Bytes) :
    p.parse target (xs ++ ys) = .done (xs.foldl add p).result ys := by
  induction xs generalizing p
  case nil =>
    have h : ¬p.digits < target := by simp at h; omega
    cases ys <;> rw [List.nil_append, parse, if_neg h] <;> rfl
  case cons x xs ih =>
    have hl : p.digits < target := by simp at h; omega
    rw [List.cons_append, parse, if_pos hl, ih (by simp [add] at h ⊢; omega), List.foldl_cons]

theorem foldl_add_digits (p : Digits) (xs : Bytes) : (xs.foldl add p).digits = p.digits + xs.length := by
  induction xs generalizing p
  case nil          => rfl
  case cons x xs ih => rw [List.foldl_cons, ih, List.length_cons, add, Nat.add_right_comm, Nat.add_assoc]

-- Some of the digits that are missing.
theorem parse_short {p : Digits} {xs : Bytes} (h : p.digits + xs.length < target) :
    p.parse target xs = .more (xs.foldl add p) [] := by
  induction xs generalizing p
  case nil => rw [parse, if_pos (by simpa using h), List.foldl_nil]
  case cons x xs ih =>
    rw [List.length_cons] at h
    rw [parse, if_pos (by omega), ih (by simp only [add]; omega), List.foldl_cons]

theorem shrinks : Shrinks (parse target) := by
  intro p bs
  induction bs generalizing p <;> rw [parse] <;> split
  case cons.isTrue ih _ => exact (ih _).trans (List.suffix_cons ..)
  all_goals exact List.suffix_refl _

theorem parse_done {p : Digits} {bs r : Bytes} {v : Nat} (h : p.parse target bs = .done v r) :
    ∃ xs, bs = xs ++ r ∧ p.parse target xs = .done v [] := by
  induction bs generalizing p <;> rw [parse] at h <;> split at h
  case nil.isTrue => cases h
  case nil.isFalse hn => cases h; exact ⟨[], rfl, by rw [parse, if_neg hn]⟩
  case cons.isFalse hn => cases h; exact ⟨[], rfl, by rw [parse, if_neg hn]⟩
  case cons.isTrue b bs ih hn =>
    have ⟨xs, hb, hp⟩ := ih h
    exact ⟨b :: xs, by rw [hb]; rfl, by rw [parse, if_pos hn, hp]⟩

-- The digits that have been read.
theorem exists_of_parse {p : Digits} {bs r : Bytes} {v : Nat} (hp : p.digits ≤ target)
    (h : p.parse target bs = .done v r) : ∃ xs, bs = xs ++ r ∧ p.digits + xs.length = target := by
  induction bs generalizing p <;> rw [parse] at h <;> split at h
  case nil.isTrue => cases h
  case nil.isFalse hn => cases h; exact ⟨[], rfl, by simp; omega⟩
  case cons.isFalse hn => cases h; exact ⟨[], rfl, by simp; omega⟩
  case cons.isTrue b bs ih hn =>
    have ⟨xs, he, hl⟩ := ih (p := p.add b) (by simp [add]; omega) h
    exact ⟨b :: xs, by rw [he]; rfl, by simp [add] at hl ⊢; omega⟩

end Digits

-- `fixed_length_integer<N>`
structure FixedLengthInteger (size : Nat) where
  digits : Digits := {}
  deriving DecidableEq

namespace FixedLengthInteger

variable {n : Nat}

def parse (p : FixedLengthInteger n) (bs : Bytes) :
    Step Byte (FixedLengthInteger n) Nat PayloadFailure :=
  (p.digits.parse n bs).andThen .mk .done

theorem resumable : Resumable (parse (n := n)) :=
  .of_extends fun _ xs ys => (Digits.resumable.extend trivial xs ys).andThen
    (fun _ _ => trivial) (fun _ _ => rfl) (fun _ _ => .done)

theorem parse_ne_fail {p : FixedLengthInteger n} {bs e r} : p.parse bs ≠ .fail e r := by
  cases hp : p.digits.parse n bs
  case fail => exact absurd hp Digits.parse_ne_fail
  all_goals simp [parse, hp, Step.andThen]

theorem shrinks : Shrinks (parse (n := n)) :=
  fun p bs => Step.rest_andThen_suffix (Digits.shrinks p.digits bs) fun _ r => List.suffix_refl r

theorem exists_of_parse {bs r : Bytes} {v : Nat}
    (h : ({} : FixedLengthInteger n).parse bs = .done v r) : ∃ xs, bs = xs ++ r ∧ xs.length = n := by
  cases hp : ({} : Digits).parse n bs <;> simp only [parse, hp, Step.andThen, reduceCtorEq] at h
  cases h
  obtain ⟨xs, he, hl⟩ := Digits.exists_of_parse (Nat.zero_le n) hp
  exact ⟨xs, he, by simpa using hl⟩

-- The value of the digits of a number. Up to three digits it is the number.
theorem parse_digits {v : Nat} (h : v < 256 ^ n) (hn : n ≤ 3) (ys : Bytes) :
    ({} : FixedLengthInteger n).parse (toLittleEndian n v ++ ys) = .done v ys := by
  have hd := Digits.parse_full (p := {}) (show 0 + (toLittleEndian n v).length = n by simp) ys
  rw [parse, hd, Step.andThen]
  congr 1
  obtain rfl | rfl | rfl | rfl : n = 0 ∨ n = 1 ∨ n = 2 ∨ n = 3 := by omega
  case inl => simp at h; simp [toLittleEndian, h]
  all_goals
    simp [toLittleEndian, Digits.add, shiftLeft_eq] at h ⊢
    omega

theorem parse_uint8 (v : UInt8) (ys : Bytes) :
    ({} : FixedLengthInteger 1).parse (toLittleEndian 1 v.toNat ++ ys) = .done v.toNat ys :=
  parse_digits v.toNat_lt (by decide) ys

theorem parse_uint16 (v : UInt16) (ys : Bytes) :
    ({} : FixedLengthInteger 2).parse (toLittleEndian 2 v.toNat ++ ys) = .done v.toNat ys :=
  parse_digits v.toNat_lt (by decide) ys

-- Four digits are taken for a number with a sign.
theorem parse_uint32 (v : UInt32) (ys : Bytes) :
    ({} : FixedLengthInteger 4).parse (toLittleEndian 4 v.toNat ++ ys) =
      .done (signExtend v.toNat) ys := by
  have hv : v.toNat < 2 ^ 32 := v.toNat_lt
  have hr : ((toLittleEndian 4 v.toNat).foldl Digits.add {}).result = signExtend v.toNat := by
    have h₂₄ (b : Byte) : shiftLeft b 24 = signExtend (b.toNat * 16777216 % 4294967296) := rfl
    have hs := signExtend_digits v.toNat
    rw [Nat.mod_eq_of_lt hv] at hs
    simpa [toLittleEndian, Digits.add, h₂₄, shiftLeft_eq, Nat.div_div_eq_div_mul, hs] using
      signExtend_lt hv
  have hd := Digits.parse_full (p := {}) (show 0 + (toLittleEndian 4 v.toNat).length = 4 by simp) ys
  rw [parse, hd, Step.andThen, hr]

-- The sign is lost again when the number is stored.
theorem ofNat_signExtend (v : UInt32) : UInt32.ofNat (signExtend v.toNat) = v := by
  apply UInt32.toNat.inj
  rw [UInt32.toNat_ofNat', signExtend_mod v.toNat_lt]

end FixedLengthInteger

end ChxSql.Mysql

import Mathlib

namespace Incremental

abbrev Byte := UInt8

abbrev Bytes := List Byte

-- The number whose base 256 digits are the given bytes, least significant byte first.
def ofLittleEndian : Bytes → Nat
  | []      => 0
  | b :: bs => b.toNat + 256 * ofLittleEndian bs

-- The `k` least significant base 256 digits of a number, least significant byte first.
def toLittleEndian : Nat → Nat → Bytes
  | 0,     _ => []
  | k + 1, n => UInt8.ofNat n :: toLittleEndian k (n / 256)

def ofBigEndian (bs : Bytes) : Nat :=
  ofLittleEndian bs.reverse

def toBigEndian (k n : Nat) : Bytes :=
  (toLittleEndian k n).reverse

@[simp]
theorem toLittleEndian_length (k n : Nat) : (toLittleEndian k n).length = k := by
  induction k generalizing n <;> simp [toLittleEndian, *]

@[simp]
theorem toBigEndian_length (k n : Nat) : (toBigEndian k n).length = k := by
  simp [toBigEndian]

theorem ofLittleEndian_lt (bs : Bytes) : ofLittleEndian bs < 256 ^ bs.length := by
  induction bs <;> simp only [ofLittleEndian, List.length_nil, List.length_cons, Nat.pow_succ]
  case nil          => decide
  case cons b bs ih => have := b.toNat_lt; omega

theorem ofBigEndian_lt (bs : Bytes) : ofBigEndian bs < 256 ^ bs.length := by
  simpa [ofBigEndian] using ofLittleEndian_lt bs.reverse

theorem ofLittleEndian_toLittleEndian {k n : Nat} (h : n < 256 ^ k) :
    ofLittleEndian (toLittleEndian k n) = n := by
  induction k generalizing n <;> simp only [toLittleEndian, ofLittleEndian]
  case zero      => rw [Nat.pow_zero] at h; omega
  case succ k ih =>
    rw [ih (by rw [Nat.pow_succ] at h; omega)]
    simp only [UInt8.toNat_ofNat']
    omega

theorem ofBigEndian_toBigEndian {k n : Nat} (h : n < 256 ^ k) :
    ofBigEndian (toBigEndian k n) = n := by
  simp [ofBigEndian, toBigEndian, ofLittleEndian_toLittleEndian h]

theorem toLittleEndian_mod (k n : Nat) : toLittleEndian k (n % 256 ^ k) = toLittleEndian k n := by
  induction k generalizing n <;> simp only [toLittleEndian]
  case succ k ih =>
    have hb : n % 256 ^ (k + 1) % 256 = n % 256 := Nat.mod_mod_of_dvd n ⟨256 ^ k, by rw [Nat.pow_succ, Nat.mul_comm]⟩
    have hd : n % 256 ^ (k + 1) / 256 = n / 256 % 256 ^ k := by
      rw [Nat.pow_succ, Nat.mul_comm, Nat.mod_mul_right_div_self]
    rw [hd, ih, List.cons.injEq]
    refine ⟨UInt8.toNat_inj.mp ?_, rfl⟩
    rw [UInt8.toNat_ofNat', UInt8.toNat_ofNat', hb]

-- Only the digits that there is room for are written.
theorem toBigEndian_mod (k n : Nat) : toBigEndian k (n % 256 ^ k) = toBigEndian k n := by
  rw [toBigEndian, toLittleEndian_mod, toBigEndian]

theorem ofBigEndian_toBigEndian_mod (k n : Nat) : ofBigEndian (toBigEndian k n) = n % 256 ^ k := by
  rw [← toBigEndian_mod, ofBigEndian_toBigEndian (Nat.mod_lt _ (Nat.pow_pos (by decide)))]

theorem toLittleEndian_ofLittleEndian (bs : Bytes) :
    toLittleEndian bs.length (ofLittleEndian bs) = bs := by
  induction bs <;> simp only [List.length_nil, List.length_cons, toLittleEndian, ofLittleEndian]
  case cons b bs ih =>
    have hb : b.toNat < 256 := b.toNat_lt
    have hd : (b.toNat + 256 * ofLittleEndian bs) / 256 = ofLittleEndian bs := by omega
    rw [hd, ih, List.cons.injEq]
    refine ⟨UInt8.toNat_inj.mp ?_, rfl⟩
    rw [UInt8.toNat_ofNat', Nat.add_mul_mod_self_left, Nat.mod_eq_of_lt hb]

theorem toBigEndian_ofBigEndian (bs : Bytes) : toBigEndian bs.length (ofBigEndian bs) = bs := by
  have h := toLittleEndian_ofLittleEndian bs.reverse
  rw [List.length_reverse] at h
  rw [toBigEndian, ofBigEndian, h, List.reverse_reverse]

theorem ofBigEndian_concat (bs : Bytes) (b : Byte) :
    ofBigEndian (bs ++ [b]) = b.toNat + 256 * ofBigEndian bs := by
  simp [ofBigEndian, ofLittleEndian]

-- The bytes before the first zero byte.
theorem takeWhile_ne_zero_append {xs : Bytes} (h : 0 ∉ xs) (ys : Bytes) :
    (xs ++ 0 :: ys).takeWhile (· != 0) = xs := by
  rw [List.takeWhile_append_of_pos (by grind)]
  simp

-- The containers that parsers store bytes in: either the bytes themselves or only their number.
class Container (C : Type) where
  empty         : C
  insert        : C → Bytes → C
  size          : C → Nat
  insert_nil    : ∀ c, insert c [] = c
  insert_append : ∀ c xs ys, insert c (xs ++ ys) = insert (insert c xs) ys
  size_empty    : size empty = 0
  size_insert   : ∀ c xs, size (insert c xs) = size c + xs.length

attribute [simp] Container.insert_nil Container.size_empty Container.size_insert

instance : Container Bytes where
  empty         := []
  insert c xs   := c ++ xs
  size c        := c.length
  insert_nil    := by simp
  insert_append := by simp
  size_empty    := rfl
  size_insert   := by simp

@[simp]
theorem Container.insert_empty_bytes (xs : Bytes) :
    Container.insert (Container.empty : Bytes) xs = xs := rfl

-- A container that forgets the bytes.
structure NopContainer where
  sz : Nat := 0
  deriving DecidableEq, Repr

instance : Container NopContainer where
  empty         := {}
  insert c xs   := ⟨c.sz + xs.length⟩
  size c        := c.sz
  insert_nil    := by simp
  insert_append := by simp [Nat.add_assoc]
  size_empty    := rfl
  size_insert   := by simp

end Incremental

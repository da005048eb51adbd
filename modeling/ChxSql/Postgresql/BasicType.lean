import ChxSql.Incremental.Fill
import ChxSql.Incremental.Loop
import ChxSql.Incremental.Terminated

namespace ChxSql.Postgresql

open Incremental

-- The results of a parser call (cf. detail/result.hpp). The constructor `undefined` is not in the
-- source: it marks that the call ran into an `assert(false)` or has no defined behaviour.
inductive ParseResult where
  | success
  | needMore
  | malformed
  | malformedIncomplete
  | malformedTrailingData
  | internalError
  | undefined
  deriving DecidableEq, Repr

-- `integer<T>` where `T` has `size` bytes.
structure Integer (size : Nat) where
  digits : Filling Bytes size := .empty
  deriving DecidableEq

namespace Integer

variable {n : Nat}

-- The result is `value()` of the filled integer, converted from network byte order.
def parse (p : Integer n) (bs : Bytes) : Step Byte (Integer n) Nat ParseResult :=
  (p.digits.fill bs).andThen .mk fun digits rest => .done (ofBigEndian digits) rest

theorem resumable : Resumable (parse (n := n)) :=
  .of_extends fun _ xs ys => (Filling.resumable.extend trivial xs ys).andThen
    (fun _ _ => trivial) (fun _ _ => rfl) (fun _ _ => .done)

theorem shrinks : Shrinks (parse (n := n)) :=
  fun p bs => Step.rest_andThen_suffix (Filling.shrinks p.digits bs) fun _ r => List.suffix_refl r

theorem parse_bytes {xs : Bytes} (h : xs.length = n) (ys : Bytes) :
    ({} : Integer n).parse (xs ++ ys) = .done (ofBigEndian xs) ys := by
  have hf := Filling.fill_full (ε := ParseResult) (p := (.empty : Filling Bytes n))
    (show Container.size (Container.empty : Bytes) + xs.length = n by simpa) ys
  simp [parse, hf, Step.andThen]

theorem parse_digits {v k : Nat} (h : v < 256 ^ k) (bs : Bytes) :
    ({} : Integer k).parse (toBigEndian k v ++ bs) = .done v bs := by
  rw [parse_bytes (toBigEndian_length ..), ofBigEndian_toBigEndian h]

theorem parse_ne_fail {p : Integer n} {bs e r} : p.parse bs ≠ .fail e r := by
  simp only [parse, Filling.fill]
  split <;> rintro ⟨⟩

theorem parse_done {p : Integer n} {bs v r} (h : p.parse bs = .done v r) :
    ∃ digits, p.digits.fill bs = (.done digits r : Step _ _ _ ParseResult) ∧
      v = ofBigEndian digits := by
  cases hf : (p.digits.fill bs : Step _ _ _ ParseResult) <;>
    simp only [parse, hf, Step.andThen, reduceCtorEq, Step.done.injEq] at h
  exact ⟨_, h.right ▸ rfl, h.left.symm⟩

-- A fresh integer reads all of its bytes.
theorem parse_length {bs v r} (h : ({} : Integer n).parse bs = .done v r) :
    bs.length = r.length + n := by
  have ⟨_, hf, _⟩ := parse_done h
  simpa using Filling.fill_length hf

-- What an integer that is done has read.
theorem exists_of_parse {bs v r} (h : ({} : Integer n).parse bs = .done v r) :
    v < 256 ^ n ∧ bs = toBigEndian n v ++ r := by
  have ⟨digits, hf, hv⟩ := parse_done h
  have ⟨xs, hb, hx, hl⟩ := Filling.fill_done hf
  rw [Container.insert_empty_bytes] at hx
  have hn : xs.length = n := by simpa using hl
  cases hx
  cases hn
  rw [hv, toBigEndian_ofBigEndian]
  exact ⟨ofBigEndian_lt digits, hb⟩

theorem parse_lt {p : Integer n} {bs v r} (h : p.parse bs = .done v r) : v < 256 ^ n := by
  have ⟨digits, hf, hv⟩ := parse_done h
  have hs : digits.length = n := Filling.fill_size hf
  exact hv ▸ hs ▸ ofBigEndian_lt digits

end Integer

-- `integer_array<char>`
structure IntegerArray where
  target : Nat
  result : Bytes := []
  deriving DecidableEq

namespace IntegerArray

def parse (p : IntegerArray) : Bytes → Step Byte IntegerArray Bytes ParseResult
  | []      => if p.result.length < p.target then .more p [] else .done p.result []
  | b :: bs =>
    if p.result.length < p.target then
      { p with result := p.result ++ [b] }.parse bs
    else
      .done p.result (b :: bs)

theorem resumable : Resumable parse := by
  refine .of_extends fun p xs ys => ?_
  induction xs generalizing p <;> rw [parse] <;> split
  case nil.isTrue      => exact .of_eq_more trivial rfl
  case nil.isFalse h   => cases ys <;> simpa [parse, h] using Step.Extends.done (r := [])
  case cons.isTrue ih h => simpa [parse, h] using ih _
  case cons.isFalse h  => rw [List.cons_append, parse, if_neg h]; exact .done

theorem shrinks : Shrinks parse := by
  intro p bs
  induction bs generalizing p <;> rw [parse] <;> split
  case cons.isTrue ih _ => exact (ih _).trans (List.suffix_cons ..)
  all_goals exact List.suffix_refl _

theorem parse_ne_fail {p : IntegerArray} {bs e r} : p.parse bs ≠ .fail e r := by
  induction bs generalizing p <;> rw [parse] <;> split
  case cons.isTrue ih _ => exact ih
  all_goals nofun

theorem parse_full {p : IntegerArray} {xs : Bytes} (h : p.result.length + xs.length = p.target)
    (ys : Bytes) : p.parse (xs ++ ys) = .done (p.result ++ xs) ys := by
  induction xs generalizing p
  case nil =>
    cases ys <;> simp_all [parse]
  case cons x xs ih =>
    simp only [List.length_cons] at h
    rw [List.cons_append, parse, if_pos (by omega), ih (by simp; omega)]
    simp

theorem parse_short {p : IntegerArray} {xs : Bytes} (h : p.result.length + xs.length < p.target) :
    ∃ p', p.parse xs = .more p' [] := by
  induction xs generalizing p
  case nil => exact ⟨p, by rw [parse, if_pos (by simpa using h)]⟩
  case cons x xs ih =>
    simp only [List.length_cons] at h
    rw [parse, if_pos (by omega)]
    exact ih (by simp only [List.length_append, List.length_cons, List.length_nil]; omega)

end IntegerArray

-- `string<Container>`
abbrev Str := Terminated

-- `byte<Container>`
abbrev ByteN := Sized

end ChxSql.Postgresql

import Mathlib

namespace Incremental

-- A buffer and a pointer that runs over it. It is not possible to write, or to move the pointer,
-- beyond the end of the buffer.
structure Writer (β : Type*) where
  raw : List β
  ptr : Nat
  deriving DecidableEq

namespace Writer

variable {β : Type*}

def ofLength (zero : β) (n : Nat) : Writer β :=
  { raw := .replicate n zero, ptr := 0 }

def put (w : Writer β) (bs : List β) : Option (Writer β) :=
  if w.ptr + bs.length ≤ w.raw.length then
    some {
      raw := w.raw.take w.ptr ++ bs ++ w.raw.drop (w.ptr + bs.length)
      ptr := w.ptr + bs.length
    }
  else
    none

def skip (w : Writer β) (n : Nat) : Option (Writer β) :=
  if w.ptr + n ≤ w.raw.length then some { w with ptr := w.ptr + n } else none

-- A buffer that is filled up to the pointer, with some room after it.
def filled (zero : β) (bs : List β) (room : Nat) : Writer β :=
  { raw := bs ++ .replicate room zero, ptr := bs.length }

variable {zero : β} {room : Nat}

@[simp]
theorem raw_filled (bs : List β) : (filled zero bs 0).raw = bs := by
  simp [filled]

@[simp]
theorem ptr_filled (bs : List β) : (filled zero bs room).ptr = bs.length := rfl

theorem ofLength_eq_filled (n : Nat) : ofLength zero n = filled zero [] n := rfl

theorem put_filled (xs : List β) {bs : List β} (h : bs.length ≤ room) :
    (filled zero xs room).put bs = some (filled zero (xs ++ bs) (room - bs.length)) := by
  simp [put, filled, h]

theorem skip_filled (xs : List β) {n : Nat} (h : n ≤ room) : (filled zero xs room).skip n =
    some (filled zero (xs ++ .replicate n zero) (room - n)) := by
  simp [skip, filled, h, Nat.add_sub_cancel' h]

-- What a program writes to a buffer, one after another: some bytes, or a gap that it leaves as it is.
inductive Piece (β : Type*) where
  | put (bs : List β)
  | skip (n : Nat)

namespace Piece

def write (w : Writer β) : Piece β → Option (Writer β)
  | put bs => w.put bs
  | skip n => w.skip n

-- What a piece leaves in a buffer that has been filled with `zero` before.
def content (zero : β) : Piece β → List β
  | put bs => bs
  | skip n => .replicate n zero

theorem write_filled (xs : List β) {p : Piece β} (h : (p.content zero).length ≤ room) :
    p.write (filled zero xs room) =
      some (filled zero (xs ++ p.content zero) (room - (p.content zero).length)) := by
  cases p
  case put bs => exact put_filled xs h
  case skip n =>
    rw [content, List.length_replicate] at h ⊢
    exact skip_filled xs h

theorem write_filled_none (xs : List β) {p : Piece β} (h : room < (p.content zero).length) :
    p.write (filled zero xs room) = none := by
  cases p
  case put bs => simpa [write, Writer.put, filled, content] using h
  case skip n => simpa [write, Writer.skip, filled, content] using h

end Piece

def writeAll (w : Writer β) (ps : List (Piece β)) : Option (Writer β) :=
  ps.foldlM Piece.write w

-- The pieces are written if there is room for all of them. The induction is on the pieces.
theorem writeAll_filled (xs : List β) {ps : List (Piece β)}
    (h : (ps.flatMap (·.content zero)).length ≤ room) :
    (filled zero xs room).writeAll ps = some (filled zero (xs ++ ps.flatMap (·.content zero))
      (room - (ps.flatMap (·.content zero)).length)) := by
  induction ps generalizing xs room
  case nil => simp [writeAll]
  case cons p ps ih =>
    rw [List.flatMap_cons, List.length_append] at h ⊢
    rw [writeAll, List.foldlM_cons, Piece.write_filled xs (by omega), Option.bind_eq_bind, Option.bind_some]
    exact (ih (xs ++ p.content zero) (by omega)).trans (by rw [List.append_assoc, Nat.sub_sub])

theorem writeAll_filled_none (xs : List β) {ps : List (Piece β)}
    (h : room < (ps.flatMap (·.content zero)).length) : (filled zero xs room).writeAll ps = none := by
  induction ps generalizing xs room
  case nil => cases h
  case cons p ps ih =>
    rw [List.flatMap_cons, List.length_append] at h
    rw [writeAll, List.foldlM_cons]
    by_cases hp : (p.content zero).length ≤ room
    case neg => rw [Piece.write_filled_none xs (by omega)]; rfl
    case pos =>
      rw [Piece.write_filled xs hp, Option.bind_eq_bind, Option.bind_some]
      exact ih (xs ++ p.content zero) (by omega)

end Writer

end Incremental

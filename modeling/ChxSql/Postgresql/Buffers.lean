import ChxSql.Postgresql.CreateMsg
import ChxSql.Postgresql.Frame

namespace ChxSql.Postgresql

open Incremental Msg Writer

@[simp]
theorem assertFull_filled {zero : Byte} (bs : Bytes) : assertFull (filled zero bs 0) = some () := by
  simp [assertFull, filled]

theorem toNat_ofNat_sub_one (n : Nat) : (UInt32.ofNat (n + 1) - 1).toNat = n % 2 ^ 32 := by
  rw [UInt32.ofNat_add]
  exact (congrArg UInt32.toNat (UInt32.add_sub_cancel ..)).trans (UInt32.toNat_ofNat' ..)

theorem toBigEndian_mod_two_pow (n : Nat) : toBigEndian 4 (n % 2 ^ 32) = toBigEndian 4 n :=
  toBigEndian_mod 4 n

-- Pieces for which a buffer has been made whose size is computed in 32 bits. There may be some room
-- after them.
theorem writeAll_bind {γ : Type} {zero : Byte} {ps : List (Piece Byte)} {total : Nat} (room : Nat)
    {k : Writer Byte → Option γ} (h : (ps.flatMap (·.content zero)).length + room = total)
    (hr : room < 2 ^ 32) : (ofLength zero (UInt32.ofNat total).toNat).writeAll ps >>= k =
      if total < 2 ^ 32 then k (filled zero (ps.flatMap (·.content zero)) room) else none := by
  rw [ofLength_eq_filled, UInt32.toNat_ofNat']
  split
  case isTrue ht =>
    rw [Nat.mod_eq_of_lt ht, writeAll_filled [] (by omega), List.nil_append, ← h, Nat.add_sub_cancel_left]
    rfl
  case isFalse =>
    rw [writeAll_filled_none [] (by omega)]
    rfl

variable {α : Type} {toString : α → Bytes} {name query username password database : Bytes}
variable {tp : List (Param α)}

-- The bodies of a Parse message and of a Bind message.
def parseBody (name query : Bytes) : Bytes :=
  name ++ [0] ++ (query ++ [0] ++ [0, 0])

variable (toString) in
def bindBody (name : Bytes) (tp : List (Param α)) : Bytes :=
  [0] ++ (name ++ [0] ++ ([0, 0] ++ (toBigEndian 2 tp.length ++ tp.flatMap (encodeParam toString) ++
    [0, 0])))

theorem length_parseBody : (parseBody name query).length = name.length + query.length + 4 := by
  simp only [parseBody, List.length_append, List.length_cons, List.length_nil]
  omega

theorem length_bindBody : (bindBody toString name tp).length =
    name.length + (tp.flatMap (encodeParam toString)).length + 8 := by
  simp only [bindBody, List.length_append, List.length_cons, List.length_nil, toBigEndian_length]
  omega

-- Each message is written if its buffer is as large as it is meant to be, and otherwise the end of
-- the buffer is overrun.
theorem createParseMsg_eq_ite : createParseMsg query =
    if query.length + 9 < 2 ^ 32 then some (frame (letter 'P') (parseBody [] query)) else none := by
  have hn : 5 + 1 + query.length + 1 + 2 = query.length + 8 + 1 := by omega
  have he : createParseMsg query = (ofLength 0 (UInt32.ofNat (query.length + 8 + 1)).toNat).writeAll [
      .put [letter 'P'], .put (toBigEndian 4 (query.length + 8)), .skip 1, .put query, .put [0],
      .skip 2] >>= fun ptr => some ptr.raw := by
    simp only [createParseMsg, integerToNetwork, stringToNetwork, hn, toNat_ofNat_sub_one,
      toBigEndian_mod_two_pow, writeAll, Piece.write, List.foldlM_cons, List.foldlM_nil, bind_assoc,
      pure_bind]
    rfl
  rw [he, writeAll_bind 0 (by simp [Piece.content]; omega) (by decide)]
  congr 1
  simp [frame, parseBody, Piece.content]

theorem ParseQuery.request_eq_ite : request name query =
    if name.length + query.length + 14 < 2 ^ 32 then
      some (frame (letter 'P') (parseBody name query) ++ frame (letter 'S') []) else none := by
  have hn : 5 + name.length + query.length + 2 + 2 = name.length + query.length + 8 + 1 := by omega
  have hs : UInt32.ofNat (name.length + query.length + 8 + 1) + 5 =
    UInt32.ofNat (name.length + query.length + 14) := (UInt32.ofNat_add _ 5).symm
  have he : request name query =
      (ofLength 0 (UInt32.ofNat (name.length + query.length + 14)).toNat).writeAll [
        .put [letter 'P'], .put (toBigEndian 4 (name.length + query.length + 8)), .put name, .put [0],
        .put query, .put [0], .skip 2, .put [letter 'S'], .put (toBigEndian 4 4)] >>=
      fun ptr => do assertFull ptr; return ptr.raw := by
    simp only [request, integerToNetwork, stringToNetwork, hn, hs, toNat_ofNat_sub_one,
      toBigEndian_mod_two_pow, writeAll, Piece.write, List.foldlM_cons, List.foldlM_nil, bind_assoc,
      pure_bind]
  rw [he, writeAll_bind 0 (by simp [Piece.content]; omega) (by decide)]
  have hb : (parseBody name query).length + 4 = name.length + query.length + 8 := by rw [length_parseBody]
  simp only [frame, hb]
  simp [parseBody, Piece.content]

-- The buffer of the header does not hold the parameters, but the length in it counts them.
theorem createBindMsg_eq_ite : createBindMsg toString name tp =
    if name.length + 11 < 2 ^ 32 then some (frame (letter 'B') (bindBody toString name tp)) else none := by
  have hn : 5 + 1 + name.length + 1 + 2 + 2 = name.length + 10 + 1 := by omega
  have hs : (UInt32.ofNat (name.length + 10 + 1) - 1 +
      UInt32.ofNat (tp.flatMap (encodeParam toString)).length + 2).toNat =
      (name.length + (tp.flatMap (encodeParam toString)).length + 12) % 2 ^ 32 := by
    rw [UInt32.toNat_add, UInt32.toNat_add, toNat_ofNat_sub_one, UInt32.toNat_ofNat']
    simp
    omega
  have he : createBindMsg toString name tp =
      (ofLength 0 (UInt32.ofNat (name.length + 10 + 1)).toNat).writeAll [
        .put [letter 'B'],
        .put (toBigEndian 4 (name.length + (tp.flatMap (encodeParam toString)).length + 12)), .skip 1,
        .put name, .put [0], .skip 2, .put (toBigEndian 2 tp.length)] >>=
      fun ptr => do assertFull ptr; return ptr.raw ++ tp.flatMap (encodeParam toString) ++ [0, 0] := by
    simp only [createBindMsg, integerToNetwork, stringToNetwork, hn, hs, toBigEndian_mod_two_pow, writeAll,
      Piece.write, List.foldlM_cons, List.foldlM_nil, bind_assoc, pure_bind]
  rw [he, writeAll_bind 0 (by simp [Piece.content]; omega) (by decide)]
  have hb : (bindBody toString name tp).length + 4 =
      name.length + (tp.flatMap (encodeParam toString)).length + 12 := by rw [length_bindBody]
  simp only [frame, hb]
  simp [bindBody, Piece.content]

theorem SimpleQuery.request_eq_ite : request query =
    if query.length + 6 < 2 ^ 32 then some (frame (letter 'Q') (query ++ [0])) else none := by
  have hn : 5 + query.length + 1 = query.length + 5 + 1 := by omega
  have he : request query = (ofLength 0 (UInt32.ofNat (query.length + 5 + 1)).toNat).writeAll [
      .put [letter 'Q'], .put (toBigEndian 4 (query.length + 5)), .put query, .put [0]] >>=
      fun ptr => do assertFull ptr; return ptr.raw := by
    simp only [request, integerToNetwork, stringToNetwork, hn, toNat_ofNat_sub_one, toBigEndian_mod_two_pow,
      writeAll, Piece.write, List.foldlM_cons, List.foldlM_nil, bind_assoc, pure_bind]
  rw [he, writeAll_bind 0 (by simp [Piece.content]; omega) (by decide)]
  simp [frame, Piece.content]

theorem Connect.cleartextPassword_eq_ite : cleartextPassword password =
    if password.length + 6 < 2 ^ 32 then some (frame (letter 'p') (password ++ [0])) else none := by
  have hn : 5 + password.length + 1 = password.length + 5 + 1 := by omega
  have he : cleartextPassword password =
      (ofLength 0 (UInt32.ofNat (password.length + 5 + 1)).toNat).writeAll [
        .put [letter 'p'], .put (toBigEndian 4 (password.length + 5)), .put password, .put [0]] >>=
      fun ptr => do assertFull ptr; return ptr.raw := by
    simp only [cleartextPassword, integerToNetwork, stringToNetwork, hn, toNat_ofNat_sub_one,
      toBigEndian_mod_two_pow, writeAll, Piece.write, List.foldlM_cons, List.foldlM_nil, bind_assoc, pure_bind]
  rw [he, writeAll_bind 0 (by simp [Piece.content]; omega) (by decide)]
  simp [frame, Piece.content]

-- What comes after the length of the start-up packet.
def Connect.startupBody (username database : Bytes) : Bytes :=
  toBigEndian 4 196608 ++ (['u', 's', 'e', 'r'].map letter ++ [0] ++ (username ++ [0] ++
    (['d', 'a', 't', 'a', 'b', 'a', 's', 'e'].map letter ++ [0] ++ (database ++ [0] ++ [0]))))

theorem Connect.length_startupBody :
    (startupBody username database).length = username.length + database.length + 21 := by
  simp [startupBody]
  omega

theorem Connect.startup_eq_ite : startup username database =
    if username.length + database.length + 25 < 2 ^ 32 then
      some (toBigEndian 4 (username.length + database.length + 25) ++ startupBody username database)
    else none := by
  have hn : 4 + 4 + 5 + username.length + 1 + 9 + database.length + 1 + 1 =
    username.length + database.length + 25 := by omega
  have he : startup username database =
      (ofLength 0 (UInt32.ofNat (username.length + database.length + 25)).toNat).writeAll [
        .put (toBigEndian 4 (username.length + database.length + 25)), .put (toBigEndian 4 196608),
        .put (['u', 's', 'e', 'r'].map letter), .put [0], .put username, .put [0],
        .put (['d', 'a', 't', 'a', 'b', 'a', 's', 'e'].map letter), .put [0], .put database, .put [0]] >>=
      fun ptr => do
        guard (ptr.ptr + 1 = (UInt32.ofNat (username.length + database.length + 25)).toNat)
        return ptr.raw := by
    simp only [startup, integerToNetwork, stringToNetwork, hn, UInt32.toNat_ofNat', toBigEndian_mod_two_pow,
      writeAll, Piece.write, List.foldlM_cons, List.foldlM_nil, bind_assoc, pure_bind]
  rw [he, writeAll_bind 1 (by simp [Piece.content]; omega) (by decide)]
  split
  case isFalse => rfl
  case isTrue h =>
    simp [filled, Piece.content, startupBody]
    rw [guard, if_pos (by omega)]
    rfl

-- The number in the length field of a message. It comes after the type, if there is one.
def lengthField (offset : Nat) (message : Bytes) : Nat :=
  ofBigEndian ((message.drop offset).take 4)

-- A message is written without an overrun, and its length field tells how long it is. There may be
-- other messages after it in the same buffer.
def Sound (offset : Nat) (after : Bytes) (written : Option Bytes) : Prop :=
  ∃ message, written = some (message ++ after) ∧ lengthField offset message + offset = message.length

theorem lengthField_eq (pre rest : Bytes) (n : Nat) :
    lengthField pre.length (pre ++ (toBigEndian 4 n ++ rest)) = n % 2 ^ 32 := by
  have ht : (toBigEndian 4 n ++ rest).take 4 = toBigEndian 4 n := List.take_left' (by simp)
  rw [lengthField, List.drop_left, ht]
  exact ofBigEndian_toBigEndian_mod 4 n

theorem sound_ite {c : Prop} [Decidable c] {offset : Nat} {after message : Bytes} :
    Sound offset after (if c then some (message ++ after) else none) ↔
      c ∧ lengthField offset message + offset = message.length := by
  by_cases hc : c <;> simp only [hc, if_true, if_false, Sound, true_and, false_and]
  case neg => simp
  case pos =>
    constructor <;> intro h
    case mp =>
      obtain ⟨message', he, hl⟩ := h
      rw [Option.some.injEq, List.append_cancel_right_eq] at he
      rwa [he]
    case mpr => exact ⟨message, rfl, h⟩

theorem sound_frame {c : Prop} [Decidable c] {type : Byte} {body : Bytes} (after : Bytes) :
    Sound 1 after (if c then some (frame type body ++ after) else none) ↔ c ∧ body.length + 4 < 2 ^ 32 := by
  have hf : lengthField 1 (frame type body) = (body.length + 4) % 2 ^ 32 := lengthField_eq [type] body _
  have hl : (frame type body).length = body.length + 5 := by simp [frame]; omega
  rw [sound_ite, hf, hl]
  refine and_congr_right fun _ => ?_
  omega

theorem sound_frame_last {c : Prop} [Decidable c] {type : Byte} {body : Bytes} :
    Sound 1 [] (if c then some (frame type body) else none) ↔ c ∧ body.length + 4 < 2 ^ 32 := by
  simpa only [List.append_nil] using sound_frame (c := c) []

-- No buffer is overrun and no length is wrong if and only if the sizes do not wrap around.
theorem SimpleQuery.request_sound : Sound 1 [] (request query) ↔ query.length + 6 < 2 ^ 32 := by
  rw [request_eq_ite, sound_frame_last, List.length_append, List.length_singleton]
  omega

theorem Connect.startup_sound :
    Sound 0 [] (startup username database) ↔ username.length + database.length + 25 < 2 ^ 32 := by
  have hf := lengthField_eq [] (startupBody username database) (username.length + database.length + 25)
  rw [startup_eq_ite, ← List.append_nil (_ ++ startupBody username database), sound_ite]
  refine and_iff_left_of_imp fun h => ?_
  rw [List.length_nil, List.nil_append, Nat.mod_eq_of_lt h] at hf
  rw [hf, List.length_append, length_startupBody, toBigEndian_length]
  omega

theorem Connect.cleartextPassword_sound :
    Sound 1 [] (cleartextPassword password) ↔ password.length + 6 < 2 ^ 32 := by
  rw [cleartextPassword_eq_ite, sound_frame_last, List.length_append, List.length_singleton]
  omega

theorem ParseQuery.request_sound : Sound 1 (frame (letter 'S') []) (request name query) ↔
    name.length + query.length + 14 < 2 ^ 32 := by
  rw [request_eq_ite, sound_frame, length_parseBody]
  omega

theorem createBindMsg_sound : Sound 1 [] (createBindMsg toString name tp) ↔
    name.length + (tp.flatMap (encodeParam toString)).length + 12 < 2 ^ 32 := by
  rw [createBindMsg_eq_ite, sound_frame_last, length_bindBody]
  omega

theorem createParseMsg_sound : Sound 1 [] (createParseMsg query) ↔ query.length + 9 < 2 ^ 32 := by
  rw [createParseMsg_eq_ite, sound_frame_last, length_parseBody, List.length_nil]
  omega

theorem requests_sound_iff (toString : α → Bytes) (query name username password database : Bytes)
    (tp : List (Param α)) :
    (Sound 1 [] (SimpleQuery.request query) ↔ query.length + 6 < 2 ^ 32) ∧
    (Sound 0 [] (Connect.startup username database) ↔
      username.length + database.length + 25 < 2 ^ 32) ∧
    (Sound 1 [] (Connect.cleartextPassword password) ↔ password.length + 6 < 2 ^ 32) ∧
    (Sound 1 (frame (letter 'S') []) (ParseQuery.request name query) ↔
      name.length + query.length + 14 < 2 ^ 32) ∧
    (Sound 1 [] (createBindMsg toString name tp) ↔
      name.length + (tp.flatMap (encodeParam toString)).length + 12 < 2 ^ 32) ∧
    (Sound 1 [] (createParseMsg query) ↔ query.length + 9 < 2 ^ 32) :=
  ⟨SimpleQuery.request_sound, Connect.startup_sound, Connect.cleartextPassword_sound,
    ParseQuery.request_sound, createBindMsg_sound, createParseMsg_sound⟩

-- The size of the buffer is 0 for a query of 2^32 - 6 bytes.
theorem not_requests_sound : ¬∀ query, Sound 1 [] (SimpleQuery.request query) := by
  intro h
  have hs := SimpleQuery.request_sound.mp (h (List.replicate (2 ^ 32 - 6) 0))
  rw [List.length_replicate] at hs
  omega

end ChxSql.Postgresql

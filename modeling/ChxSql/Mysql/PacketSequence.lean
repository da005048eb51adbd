import ChxSql.Mysql.BasicPacket

namespace ChxSql.Mysql

open Incremental

-- The number of bytes that make a packet one that is continued by the next packet.
def maxPayload : Nat := 2 ^ 24 - 1

def encodePacket (id : UInt8) (payload : Bytes) : Bytes :=
  toLittleEndian 3 payload.length ++ id :: payload

-- Packets with consecutive sequence ids.
def encodePackets : UInt8 → List Bytes → Bytes
  | _, []              => []
  | id, payload :: payloads => encodePacket id payload ++ encodePackets (id + 1) payloads

-- The payloads of the packets that carry a payload. The last one is shorter than the others.
def pieces (payload : Bytes) : List Bytes :=
  if payload.length < maxPayload then
    [payload]
  else
    payload.take maxPayload :: pieces (payload.drop maxPayload)
termination_by payload.length
decreasing_by
  simp only [maxPayload, List.length_drop] at *
  omega

theorem pieces_of_lt {payload : Bytes} (h : payload.length < maxPayload) : pieces payload = [payload] := by
  rw [pieces, if_pos h]

theorem pieces_of_le {payload : Bytes} (h : maxPayload ≤ payload.length) :
    pieces payload = payload.take maxPayload :: pieces (payload.drop maxPayload) := by
  rw [pieces, if_neg (Nat.not_lt.mpr h)]

theorem flatMap_pieces {payloads : List Bytes} (h : ∀ payload ∈ payloads, payload.length < maxPayload) :
    payloads.flatMap pieces = payloads := by
  induction payloads
  case nil => rfl
  case cons payload payloads ih =>
    rw [List.flatMap_cons, pieces_of_lt (h _ (by simp)), ih fun _ hp => h _ (by simp [hp])]
    rfl

theorem flatten_pieces (payload : Bytes) : (pieces payload).flatten = payload := by
  induction payload using pieces.induct
  case case1 payload hl => rw [pieces_of_lt hl, List.flatten_singleton]
  case case2 payload hl ih =>
    rw [pieces_of_le (Nat.not_lt.mp hl), List.flatten_cons, ih, List.take_append_drop]

theorem lt_of_mem_pieces {payload piece : Bytes} (h : piece ∈ pieces payload) :
    piece.length < 2 ^ 24 := by
  induction payload using pieces.induct
  case case1 payload hl =>
    rw [pieces_of_lt hl, List.mem_singleton] at h
    exact h ▸ hl.trans (by decide)
  case case2 payload hl ih =>
    rw [pieces_of_le (Nat.not_lt.mp hl), List.mem_cons] at h
    obtain rfl | h := h
    case inl => exact (List.length_take_le ..).trans_lt (by decide)
    case inr => exact ih h

theorem pieces_ne_nil (payload : Bytes) : pieces payload ≠ [] := by
  rw [pieces]
  split <;> exact List.cons_ne_nil _ _

theorem length_pieces_le_one_iff {payload : Bytes} :
    (pieces payload).length ≤ 1 ↔ payload.length < maxPayload := by
  constructor <;> intro h
  case mpr => rw [pieces_of_lt h]; rfl
  case mp =>
    by_contra hl
    rw [pieces_of_le (Nat.not_lt.mp hl), List.length_cons] at h
    have hn : (pieces (payload.drop maxPayload)).length = 0 := by omega
    exact pieces_ne_nil _ (List.length_eq_zero_iff.mp hn)

-- There are as many packets as payloads only if each payload goes into one packet.
theorem length_le_flatMap_pieces (payloads : List Bytes) :
    payloads.length ≤ (payloads.flatMap pieces).length ∧
      ((payloads.flatMap pieces).length ≤ payloads.length →
        ∀ payload ∈ payloads, payload.length < maxPayload) := by
  induction payloads
  case nil => exact ⟨le_rfl, nofun⟩
  case cons payload payloads ih =>
    have hp := List.length_pos_of_ne_nil (pieces_ne_nil payload)
    simp only [List.flatMap_cons, List.length_append, List.length_cons]
    refine ⟨by omega, fun h piece hm => ?_⟩
    obtain rfl | hm := List.mem_cons.mp hm
    case inl => exact length_pieces_le_one_iff.mp (by omega)
    case inr => exact ih.right (by omega) piece hm

theorem add_ofNat_succ (id : UInt8) (n : Nat) : id + .ofNat (n + 1) = id + 1 + .ofNat n := by
  rw [UInt8.ofNat_add, UInt8.add_comm (.ofNat n), UInt8.add_assoc]
  rfl

theorem encodePackets_append (id : UInt8) (xs ys : List Bytes) :
    encodePackets id (xs ++ ys) = encodePackets id xs ++ encodePackets (id + .ofNat xs.length) ys := by
  induction xs generalizing id
  case nil => simp [encodePackets]
  case cons x xs ih =>
    rw [List.cons_append, encodePackets, encodePackets, ih, List.append_assoc, List.length_cons,
      add_ofNat_succ]

theorem encodePackets_ne_nil {id : UInt8} {payloads : List Bytes} (h : payloads ≠ []) :
    encodePackets id payloads ≠ [] := by
  cases payloads
  case nil  => exact absurd rfl h
  case cons => simp [encodePackets, encodePacket, toLittleEndian]

-- Each packet has a header of four bytes.
theorem length_encodePackets (id : UInt8) (payloads : List Bytes) :
    (encodePackets id payloads).length = 4 * payloads.length + payloads.flatten.length := by
  induction payloads generalizing id
  case nil => rfl
  case cons payload payloads ih =>
    simp only [encodePackets, encodePacket, List.length_append, List.length_cons, List.flatten_cons,
      toLittleEndian_length, ih]
    omega

namespace BasicPacket

variable {ι : Type} {i : Impl ι} {s s₁ s₂ s' : ι} {id : UInt8} {payload rest : Bytes}

-- Reading a header that the operation accepts.
theorem feed_header (hl : i.onPacketLengthComplete s payload.length = (.success, s₁))
    (hi : i.onSequenceIdComplete s₁ id = (.success, s₂)) (hp : payload.length < 2 ^ 24) :
    feed i { impl := s } (encodePacket id payload ++ rest) =
      feed i ⟨.payload payload.length payload.length, s₂⟩ (payload ++ rest) := by
  have hf := Filling.fill_full (ε := PacketResult × ι) (p := ({} : Filling Bytes 3))
    (show 0 + (toLittleEndian 3 payload.length).length = 3 by simp) (id :: (payload ++ rest))
  have he : ofLittleEndian (toLittleEndian 3 payload.length) = payload.length :=
    ofLittleEndian_toLittleEndian hp
  have hh : turn i { impl := s } (encodePacket id payload ++ rest) =
      .goto ⟨.sequenceId payload.length, s₁⟩ (id :: (payload ++ rest)) := by
    simp [turn, encodePacket, hf, Step.turn, he, hl, onHeader]
  have hs : turn i ⟨.sequenceId payload.length, s₁⟩ (id :: (payload ++ rest)) =
      .goto ⟨.payload payload.length payload.length, s₂⟩ (payload ++ rest) := by
    simp [turn, hi, onHeader]
  rw [feed_goto hh, feed_goto hs]

-- Reading a payload that is all there. An empty one waits for another byte.
theorem turn_whole (hr : payload ++ rest ≠ []) :
    turn i ⟨.payload payload.length payload.length, s⟩ (payload ++ rest) =
      onPart payload.length 0 (i.onPayloadData payload.length 0 s payload) rest := by
  rw [turn_payload hr, List.length_append, Nat.sub_eq_zero_of_le (Nat.le_add_right ..),
    List.take_left', List.drop_left'] <;> rfl

section Packet

variable (hl : i.onPacketLengthComplete s payload.length = (.success, s₁))
  (hi : i.onSequenceIdComplete s₁ id = (.success, s₂)) (hp : payload.length < 2 ^ 24)
  (hr : payload ++ rest ≠ [])

include hl hi hp hr

theorem feed_success (h : i.onPayloadData payload.length 0 s₂ payload = (.success, s')) :
    feed i { impl := s } (encodePacket id payload ++ rest) = feed i { impl := s' } rest := by
  rw [feed_header hl hi hp]
  exact feed_goto (by rw [turn_whole hr, h]; rfl)

theorem feed_pause (h : i.onPayloadData payload.length 0 s₂ payload = (.pause, s')) :
    feed i { impl := s } (encodePacket id payload ++ rest) = .done s' rest := by
  rw [feed_header hl hi hp]
  exact feed_done (by rw [turn_whole hr, h]; rfl)

end Packet

section Inversion

variable {bs : Bytes}

theorem cases_of_done {p : BasicPacket ι} (h : p.feed i bs = .done s' rest) :
    p.turn i bs = .done s' rest ∨ ∃ p' r, p.turn i bs = .goto p' r ∧ p'.feed i r = .done s' rest :=
  Loop.cases_of_done h

-- Reading what comes after a header that is done.
theorem feed_of_onHeader {next answer} {t : Turn Byte (BasicPacket ι) ι (PacketResult × ι)} {r : Bytes}
    (ht : t = onHeader next answer r)
    (h : t = .done s' rest ∨ ∃ p' r', t = .goto p' r' ∧ p'.feed i r' = .done s' rest) :
    ∃ s, answer = (.success, s) ∧ feed i ⟨next, s⟩ r = .done s' rest := by
  obtain ⟨a, s⟩ := answer
  subst ht
  cases a
  case success =>
    obtain h | ⟨_, _, h, hf⟩ := h
    case inl => cases h
    case inr => cases h; exact ⟨s, rfl, hf⟩
  all_goals obtain h | ⟨_, _, h, _⟩ := h <;> cases h

theorem eq_of_payload {len : Nat} (hi : ∀ {s len bs}, (i.onPayloadData len 0 s bs).1 ≠ .success)
    (h : feed i ⟨.payload len len, s⟩ bs = .done s' rest) :
    i.onPayloadData len 0 s (bs.take len) = (.pause, s') ∧ bs.drop len = rest ∧ (bs.take len).length = len := by
  by_cases hb : bs = []
  case pos => rw [hb, feed_nil] at h; cases h
  case neg =>
    have h := cases_of_done h
    rw [turn_payload hb] at h
    by_cases hr : len - bs.length = 0
    case pos =>
      have hl : (bs.take len).length = len := by rw [List.length_take]; omega
      rw [hr] at h
      have hs : (i.onPayloadData len 0 s (bs.take len)).1 ≠ .success := hi
      generalize i.onPayloadData len 0 s (bs.take len) = answer at h hs ⊢
      obtain ⟨a, s⟩ := answer
      cases a
      case success => exact absurd rfl hs
      case pause =>
        obtain h | ⟨_, _, h, _⟩ := h <;> cases h
        exact ⟨rfl, rfl, hl⟩
      all_goals obtain h | ⟨_, _, h, _⟩ := h <;> cases h
    case neg =>
      generalize i.onPayloadData len (len - bs.length) s (bs.take len) = answer at h
      obtain ⟨a, s⟩ := answer
      cases a <;> simp only [onPart, if_neg hr] at h
      all_goals obtain h | ⟨_, _, h, _⟩ := h <;> cases h

-- An operation that pauses and has not been content with a packet before has read one packet.
theorem exists_packet (hi : ∀ {s len bs}, (i.onPayloadData len 0 s bs).1 ≠ .success)
    (h : feed i { impl := s } bs = .done s' rest) :
    ∃ id payload s₁ s₂, bs = encodePacket id payload ++ rest ∧ payload.length < 2 ^ 24 ∧
      i.onPacketLengthComplete s payload.length = (.success, s₁) ∧
      i.onSequenceIdComplete s₁ id = (.success, s₂) ∧
      i.onPayloadData payload.length 0 s₂ payload = (.pause, s') := by
  obtain hs | ⟨header, bs, rfl, hl⟩ := ({} : Filling Bytes 3).cases_on_chunk bs
  case inl =>
    have hf := Filling.fill_short (ε := PacketResult × ι) hs
    have ht : ∃ p r, turn i { impl := s } bs = .more p r := by
      simp only [turn]
      split
      case isTrue  => exact ⟨_, _, rfl⟩
      case isFalse => rw [hf]; exact ⟨_, _, rfl⟩
    obtain ⟨_, _, ht⟩ := ht
    rw [feed, Loop.run_more ht] at h
    cases h
  case inr =>
    have hf := Filling.fill_full (ε := PacketResult × ι) hl bs
    have hx : header.length = 3 := by simpa using hl
    have hn : header ++ bs ≠ [] := List.append_ne_nil_of_left_ne_nil (List.ne_nil_of_length_pos (by omega)) bs
    have he : toLittleEndian 3 (ofLittleEndian header) = header := hx ▸ toLittleEndian_ofLittleEndian header
    have hlt : ofLittleEndian header < 2 ^ 24 :=
      calc
        ofLittleEndian header < 256 ^ header.length := ofLittleEndian_lt header
        _ = 256 ^ 3 := congrArg _ hx
        _ = 2 ^ 24  := rfl
    have ht : turn i { impl := s } (header ++ bs) = onHeader (.sequenceId (ofLittleEndian header))
        (i.onPacketLengthComplete s (ofLittleEndian header)) bs := by
      simp only [turn, if_neg hn, hf, Step.turn]
      rfl
    generalize ofLittleEndian header = len at he hlt ht
    obtain ⟨s₁, h₁, h⟩ := feed_of_onHeader ht (cases_of_done h)
    obtain _ | ⟨id, bs⟩ := bs
    case nil => rw [feed_nil] at h; cases h
    case cons =>
      obtain ⟨s₂, h₂, h⟩ := feed_of_onHeader rfl (cases_of_done h)
      have h : feed i ⟨.payload len len, s₂⟩ bs = .done s' rest := h
      obtain ⟨hp, hr, hl⟩ := eq_of_payload hi h
      refine ⟨id, bs.take len, s₁, s₂, ?_, hl.trans_lt hlt, hl.symm ▸ h₁, h₂, hl.symm ▸ hp⟩
      rw [encodePacket, hl, he, List.append_assoc, List.cons_append, ← hr, List.take_append_drop]

end Inversion

end BasicPacket

end ChxSql.Mysql

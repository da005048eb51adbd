import ChxSql.Mysql.PacketOperation
import ChxSql.Mysql.PacketSequence

namespace ChxSql.Mysql

open Incremental

structure Packet where
  id       : Byte
  payload  : Bytes
  nonempty : payload ≠ []
  fits     : payload.length < 2 ^ 24

def Packet.encode (p : Packet) : Bytes :=
  encodePacket p.id p.payload

-- What a handler is told about a part of a payload.
structure Part where
  payloadLength : Nat
  remainBytes   : Nat
  range         : Bytes
  deriving DecidableEq

-- The calls of a handler.
inductive Call where
  | packetLength (payloadLength : Nat)
  | sequenceId (id : Byte)
  | payload (part : Part)
  deriving DecidableEq

namespace Impl

variable {ι : Type}

-- The handler that also remembers its calls.
def recorded (i : Impl ι) : Impl (ι × List Call) where
  onPacketLengthComplete s n :=
    let (r, s') := i.onPacketLengthComplete s.1 n
    (r, s', s.2 ++ [.packetLength n])
  onSequenceIdComplete s id :=
    let (r, s') := i.onSequenceIdComplete s.1 id
    (r, s', s.2 ++ [.sequenceId id])
  onPayloadData payloadLength remainBytes s range :=
    let (r, s') := i.onPayloadData payloadLength remainBytes s.1 range
    (r, s', s.2 ++ [.payload { payloadLength, remainBytes, range }])

-- A handler accepts headers, wants more after each part of a payload that is not the final one and is
-- content with that.
structure Accepts (i : Impl ι) (I : ι → Prop) : Prop where
  length     : ∀ {s} n, I s → ∃ s', i.onPacketLengthComplete s n = (.success, s') ∧ I s'
  sequenceId : ∀ {s} id, I s → ∃ s', i.onSequenceIdComplete s id = (.success, s') ∧ I s'
  needMore   : ∀ {s remain} len range, I s → remain ≠ 0 →
    ∃ s', i.onPayloadData len remain s range = (.needMore, s') ∧ I s'
  success    : ∀ {s} len range, I s → ∃ s', i.onPayloadData len 0 s range = (.success, s') ∧ I s'

end Impl

-- The parts in which a payload of `len` bytes is passed, from the byte `read` on. No bytes remain in the
-- last of them only.
structure Passed (len read : Nat) (payload : Bytes) (parts : List Part) : Prop where
  ranges : parts.flatMap (·.range) = payload
  counts : ∀ pre part post, parts = pre ++ part :: post → part.payloadLength = len ∧
    part.remainBytes + (read + (pre.flatMap (·.range)).length + part.range.length) = part.payloadLength ∧
    (part.remainBytes = 0 ↔ post = [])

-- The calls for some packets.
inductive Log : List Packet → List Call → Prop
  | nil : Log [] []
  | concat {ps p log parts} : Log ps log → Passed p.payload.length 0 p.payload parts →
    Log (ps ++ [p]) (log ++ .packetLength p.payload.length :: .sequenceId p.id :: parts.map .payload)

namespace Passed

variable {len read : Nat} {range left : Bytes} {parts : List Part}

theorem last (h : read + left.length = len) : Passed len read left [⟨len, 0, left⟩] where
  ranges := by simp
  counts pre part post hp := by
    obtain ⟨rfl, he⟩ | ⟨_, _, hn⟩ := List.cons_eq_append_iff.mp hp
    case inr => simp at hn
    case inl =>
      cases he
      simp [h]

theorem part (h : Passed len (read + range.length) left parts) (hn : left ≠ [])
    (hl : read + range.length + left.length = len) :
    Passed len read (range ++ left) (⟨len, left.length, range⟩ :: parts) where
  ranges := by rw [List.flatMap_cons, h.ranges]
  counts pre part post hp := by
    cases pre
    case nil =>
      cases hp
      have hp : parts ≠ [] := fun hp => hn (h.ranges.symm.trans (hp ▸ rfl))
      refine ⟨rfl, ?_, by simp [hn, hp]⟩
      rw [List.flatMap_nil, List.length_nil]
      dsimp only
      omega
    case cons x pre =>
      have ⟨hx, hp⟩ := List.cons.inj hp
      have ⟨h₁, h₂, h₃⟩ := h.counts pre part post hp
      refine ⟨h₁, ?_, h₃⟩
      rw [← hx, List.flatMap_cons, List.length_append]
      dsimp only
      omega

end Passed

namespace BasicPacket

variable {ι : Type} {i : Impl ι} {I : ι → Prop} {s : ι} {log : List Call}

-- Reading what is missing of a length.
theorem reads_packetLength (hi : i.Accepts I) (hs : I s) {header : Filling Bytes 3} {xs : Bytes}
    (hx : xs ≠ []) (hl : header.held.length + xs.length = 3) :
    (loop i.recorded).Reads ⟨.packetLength header, s, log⟩ xs fun p => ∃ s', I s' ∧
      p = ⟨.sequenceId (ofLittleEndian (header.held ++ xs)), s',
        log ++ [.packetLength (ofLittleEndian (header.held ++ xs))]⟩ := by
  induction hn : xs.length using Nat.strong_induction_on generalizing header xs
  case h n ih =>
    have ⟨s', ha, hs'⟩ := hi.length (ofLittleEndian (header.held ++ xs)) hs
    refine .of_turns rfl (fun r => ?_) fun ys zs hy hz he => ?_
    case refine_1 =>
      have hs : Container.size header.held + xs.length = 3 := hl
      have hf := Filling.fill_full (ε := PacketResult × ι × List Call) hs r
      refine ⟨_, ?_, s', hs', rfl⟩
      simp only [loop, turn, if_neg (List.append_ne_nil_of_left_ne_nil hx r), hf, Step.turn]
      simp only [Impl.recorded, Container.insert, ha, onHeader]
    case refine_2 =>
      subst he
      rw [List.length_append] at hl hn
      have hy' := List.length_pos_of_ne_nil hy
      have hz' := List.length_pos_of_ne_nil hz
      have hs : Container.size header.held + ys.length < 3 := by
        change header.held.length + ys.length < 3
        omega
      have hf := Filling.fill_short (ε := PacketResult × ι × List Call) hs
      have hl' : (header.held ++ ys).length + zs.length = 3 := by
        rw [List.length_append]
        omega
      have hle : Container.size (header.held ++ ys) ≤ 3 := by
        change (header.held ++ ys).length ≤ 3
        omega
      have hr : (loop i.recorded).Reads ⟨.packetLength ⟨header.held ++ ys, hle⟩, s, log⟩ zs _ :=
        ih zs.length (by omega) hz hl' rfl
      rw [List.append_assoc] at hr
      refine ⟨_, ?_, hr⟩
      simp only [loop, turn, if_neg hy, hf, Step.turn]
      rfl

-- Reading the byte after a length.
theorem reads_sequenceId (hi : i.Accepts I) (hs : I s) {len : Nat} {id : Byte} :
    (loop i.recorded).Reads ⟨.sequenceId len, s, log⟩ [id] fun p => ∃ s', I s' ∧
      p = ⟨.payload len len, s', log ++ [.sequenceId id]⟩ := by
  have ⟨s', ha, hs'⟩ := hi.sequenceId id hs
  refine .of_turns rfl (fun r => ?_) fun ys zs hy hz he => ?_
  case refine_1 =>
    refine ⟨_, ?_, s', hs', rfl⟩
    simp [loop, turn, Impl.recorded, ha, onHeader]
  case refine_2 =>
    have := List.length_pos_of_ne_nil hy
    have := List.length_pos_of_ne_nil hz
    have := congrArg List.length he
    simp only [List.length_append, List.length_singleton] at this
    omega

-- Reading what remains of a payload.
theorem reads_payload (hi : i.Accepts I) (hs : I s) {len read : Nat} {left : Bytes} (hn : left ≠ [])
    (hl : read + left.length = len) :
    (loop i.recorded).Reads ⟨.payload len left.length, s, log⟩ left fun p => ∃ s' parts, I s' ∧
      Passed len read left parts ∧ p = { impl := (s', log ++ parts.map .payload) } := by
  induction hm : left.length using Nat.strong_induction_on generalizing s log read left
  case h n ih =>
    subst hm
    refine .of_turns rfl (fun r => ?_) fun ys zs hy hz he => ?_
    case refine_1 =>
      obtain ⟨s', ha, hs'⟩ := hi.success len left hs
      refine ⟨_, ?_, s', _, hs', .last hl, rfl⟩
      have hr : left.length - (left ++ r).length = 0 := by
        rw [List.length_append]
        omega
      simp only [loop, turn_payload (List.append_ne_nil_of_left_ne_nil hn r), hr, List.take_left',
        List.drop_left', Impl.recorded, ha, onPart, if_pos]
      rfl
    case refine_2 =>
      subst he
      rw [List.length_append] at hl ih
      have hy' := List.length_pos_of_ne_nil hy
      have hz' : zs.length ≠ 0 := (List.length_pos_of_ne_nil hz).ne'
      obtain ⟨s₁, ha, hs₁⟩ := hi.needMore len ys hs hz'
      have hl : read + ys.length + zs.length = len := by omega
      have hr : (loop i.recorded).Reads
          ⟨.payload len zs.length, s₁, log ++ [.payload ⟨len, zs.length, ys⟩]⟩ zs _ :=
        ih zs.length (by omega) hs₁ hz hl rfl
      refine ⟨_, ?_, hr.mono ?_⟩
      case refine_1 =>
        have hz : ys.length + zs.length - ys.length = zs.length := by omega
        simp only [loop, turn_payload hy, List.length_append, hz, List.take_of_length_le (Nat.le_add_right ..),
          List.drop_of_length_le (Nat.le_add_right ..), Impl.recorded, ha, onPart, if_neg hz']
      case refine_2 =>
        rintro _ ⟨s', parts, hs', hp, rfl⟩
        refine ⟨s', _, hs', hp.part hz (by omega), ?_⟩
        rw [List.map_cons, List.append_assoc]
        rfl

theorem reads_packet (hi : i.Accepts I) (hs : I s) (p : Packet) :
    (loop i.recorded).Reads { impl := (s, log) } p.encode fun q => ∃ s' parts, I s' ∧
      Passed p.payload.length 0 p.payload parts ∧ q = { impl := (s', log ++ .packetLength p.payload.length ::
        .sequenceId p.id :: parts.map .payload) } := by
  have he : p.encode = toLittleEndian 3 p.payload.length ++ ([p.id] ++ p.payload) := rfl
  have hx : toLittleEndian 3 p.payload.length ≠ [] := by simp [toLittleEndian]
  have hl : (Container.empty : Bytes).length + (toLittleEndian 3 p.payload.length).length = 3 :=
    (Nat.zero_add _).trans (toLittleEndian_length ..)
  have hd : ofLittleEndian ((Container.empty : Bytes) ++ toLittleEndian 3 p.payload.length) = p.payload.length :=
    ofLittleEndian_toLittleEndian p.fits
  rw [he]
  refine (reads_packetLength hi hs hx hl).append ?_
  rintro _ ⟨s₁, hs₁, rfl⟩
  refine (reads_sequenceId hi hs₁).append ?_
  rintro _ ⟨s₂, hs₂, rfl⟩
  simp only [hd]
  refine (reads_payload hi hs₂ p.nonempty (Nat.zero_add _)).mono ?_
  rintro _ ⟨s', parts, hs', hp, rfl⟩
  refine ⟨s', parts, hs', hp, ?_⟩
  simp only [List.append_assoc, List.cons_append, List.nil_append]

-- The induction is on the packets, the last of them first.
theorem reads_packets (hi : i.Accepts I) (hs : I s) (ps : List Packet) :
    (loop i.recorded).Reads { impl := (s, []) } (ps.flatMap Packet.encode) fun q => ∃ s' log, I s' ∧
      Log ps log ∧ q = { impl := (s', log) } := by
  induction ps using List.reverseRecOn
  case nil => exact .nil ⟨s, [], hs, .nil, rfl⟩
  case append_singleton ps p ih =>
    rw [List.flatMap_append, List.flatMap_singleton]
    refine ih.append ?_
    rintro _ ⟨s₁, log, hs₁, hl, rfl⟩
    refine (reads_packet hi hs₁ p).mono ?_
    rintro _ ⟨s', parts, hs', hp, rfl⟩
    exact ⟨s', _, hs', .concat hl hp, rfl⟩

namespace Operation

-- The operation without what was remembered.
def forget (o : Operation (ι × List Call)) : Operation ι :=
  { o with impl := o.impl.1 }

-- What comes of the answers of a handler and of those of the handler that remembers its calls.
def Forgets (ι : Type) : Turned (ι × List Call) → Turned ι → Prop :=
  Turn.Related (fun o o' => o' = o.forget) (fun o o' => o' = o.forget) fun e e' => e' = (e.1, e.2.forget)

theorem forgets_onHeader {o : Operation (ι × List Call)} {bs : Bytes} (answer : PayloadResult × ι) :
    Forgets ι (o.onHeader (answer.1, answer.2, log) bs) (o.forget.onHeader answer bs) := by
  have ⟨a, impl⟩ := answer
  cases a
  case success => exact .goto rfl
  all_goals exact .fail rfl

theorem forgets_onPart {o : Operation (ι × List Call)} {bs : Bytes} (answer : PayloadResult × ι) :
    Forgets ι (o.onPart (answer.1, answer.2, log) bs) (o.forget.onPart answer bs) := by
  have ⟨a, impl⟩ := answer
  have hr : o.forget.stageRemain = o.stageRemain := rfl
  by_cases h : o.stageRemain = 0
  case pos =>
    cases a <;> simp only [onPart, hr, if_pos h]
    case success => exact .goto rfl
    case pause   => exact .done rfl
    all_goals exact .fail rfl
  case neg =>
    cases a <;> simp only [onPart, hr, if_neg h]
    case needMore => exact .more rfl
    all_goals exact .fail rfl

theorem forgets_turn (o : Operation (ι × List Call)) (bs : Bytes) :
    Forgets ι (o.turn i.recorded bs) (o.forget.turn i bs) := by
  have ⟨stage, header, stageRemain, impl, log⟩ := o
  change Forgets ι _ (turn ⟨stage, header, stageRemain, impl⟩ i bs)
  by_cases hb : bs = []
  case pos => subst hb; exact .more rfl
  case neg =>
    cases stage <;> simp only [turn, if_neg hb]
    case sequenceId => exact forgets_onHeader (i.onSequenceIdComplete impl _)
    case payload    => exact forgets_onPart (i.onPayloadData _ _ impl _)
    case packetLength =>
      by_cases hr : stageRemain - min stageRemain bs.length = 0
      case pos => simp only [if_pos hr]; exact forgets_onHeader (i.onPacketLengthComplete impl _)
      case neg => simp only [if_neg hr]; exact .more rfl

theorem forgets_feed {o : Operation (ι × List Call)} {o' : Operation ι} (h : o' = o.forget) (bs : Bytes) :
    (o.feed i.recorded bs).Related (fun o o' => o' = o.forget) (fun o o' => o' = o.forget)
      (fun e e' => e' = (e.1, e.2.forget)) (o'.feed i bs) :=
  Loop.run_related (R := fun (o : Operation (ι × List Call)) o' => o' = o.forget)
    (fun h bs => h ▸ forgets_turn _ bs) h bs

theorem feed_forget {o o' : Operation (ι × List Call)} {cs : List Bytes}
    (h : Incremental.feed (feed i.recorded) o cs = (.more o' [], [])) :
    Incremental.feed (feed i) o.forget cs = (.more o'.forget [], []) := by
  have hc := calls_related (R := fun (o : Operation (ι × List Call)) o' => o' = o.forget)
    (forgets_feed (i := i)) (s := o) rfl cs
  have ⟨hr, hu⟩ := feed_related hc rfl
  rw [h] at hr hu
  generalize Incremental.feed (feed i) o.forget cs = q at hr hu
  have ⟨st, unfed⟩ := q
  cases hr with | more ho =>
  obtain rfl : [] = unfed := hu
  rw [ho]

theorem onHeader_ne_more {o o' : Operation ι} {answer bs r} : o.onHeader answer bs ≠ .more o' r := by
  have ⟨a, impl⟩ := answer
  cases a <;> nofun

theorem onPart_more {o o' : Operation ι} {answer bs r} (h : o.onPart answer bs = .more o' r) :
    o.stageRemain ≠ 0 ∧ r = bs := by
  have ⟨a, impl⟩ := answer
  cases a <;> simp only [onPart, reduceCtorEq] at h <;> split at h <;> cases h
  exact ⟨‹_›, rfl⟩

-- A turn that wants more has read its chunk.
theorem turn_more {o o' : Operation ι} {bs r : Bytes} (h : o.turn i bs = .more o' r) : r = [] := by
  obtain ⟨stage, header, stageRemain, impl⟩ := o
  have hd (hr : stageRemain - min stageRemain bs.length ≠ 0) : bs.drop (min stageRemain bs.length) = [] := by
    rw [List.drop_eq_nil_iff]
    omega
  by_cases hb : bs = []
  case pos => subst hb; cases h; rfl
  case neg =>
    cases stage <;> simp only [turn, if_neg hb] at h
    case sequenceId => exact absurd h onHeader_ne_more
    case payload    => obtain ⟨hr, he⟩ := onPart_more h; exact he.trans (hd hr)
    case packetLength =>
      split at h
      case isTrue => exact absurd h onHeader_ne_more
      case isFalse hr => cases h; exact hd hr

theorem Represents.eq_initial {o : Operation ι} {impl : ι} (h : o.Represents { impl }) : o = { impl } := by
  cases h
  rfl

theorem reads_packets (hi : i.Accepts I) (hs : I s) (ps : List Packet) :
    (loop i.recorded).Reads { impl := (s, []) } (ps.flatMap Packet.encode) fun o => ∃ s' log,
      Log ps log ∧ o = { impl := (s', log) } := by
  refine (Loop.Reads.related relates_turn .initial (BasicPacket.reads_packets hi hs ps)).mono ?_
  rintro o ⟨_, ⟨s', log, _, hl, rfl⟩, ho⟩
  exact ⟨s', log, hl, ho.eq_initial⟩

-- What comes of feeding some packets. Each call wants more and has read its chunk. The handler was told of
-- the packets in the end, and of those before each point between two packets when the operation got there,
-- where it was as in the beginning.
structure Transparent (i : Impl ι) (s : ι) (packets : List Packet) (chunks : List Bytes) : Prop where
  count    : (calls (feed i) { impl := s } chunks).length = chunks.length
  needMore : ∀ st ∈ calls (feed i) { impl := s } chunks, ∃ o, st = .more o []
  told     : ∃ s' log, Incremental.feed (feed i.recorded) { impl := (s, []) } chunks =
    (.more { impl := (s', log) } [], []) ∧ Log packets log
  resets   : ∀ xs ys, packets = xs ++ ys → ∃ s' log r ds,
    (loop i.recorded).Leads { impl := (s, []) } [] chunks { impl := (s', log) } r ds ∧
    r ++ ds.flatten = ys.flatMap Packet.encode ∧ Log xs log

-- What holds for all handlers that accept the parts of all packets, all packets and all chunks.
theorem feed_transparent (hi : i.Accepts I) (hs : I s) {packets : List Packet} {chunks : List Bytes}
    (h : chunks.flatten = packets.flatMap Packet.encode) : Transparent i s packets chunks := by
  have hn (o : Operation (ι × List Call)) : (loop i.recorded).body o [] = .more o [] := rfl
  have ⟨_, ⟨s', log, hl, rfl⟩, hf⟩ := (reads_packets hi hs packets).feed_eq hn h
  have ⟨hc, hm⟩ := calls_of_feed_more (Loop.run_exhausts turn_more) (feed_forget hf)
  refine ⟨hc, hm, ⟨s', log, hf, hl⟩, fun xs ys hp => ?_⟩
  have he : [] ++ chunks.flatten = xs.flatMap Packet.encode ++ ys.flatMap Packet.encode := by
    rw [List.nil_append, h, hp, List.flatMap_append]
  have ⟨_, r, ds, ⟨s', log, hl, rfl⟩, hd, hr⟩ := reads_packets hi hs xs [] chunks _ he
  exact ⟨s', log, r, ds, hd, hr, hl⟩

-- An operation that reads the payloads of two packets and keeps them.
def keepPayloads : Impl Bytes where
  onPacketLengthComplete s _      := (.success, s)
  onSequenceIdComplete s _        := (.success, s)
  onPayloadData _ remain s range  := (if remain = 0 then .success else .needMore, s ++ range)

theorem feed_transparent_two : Transparent keepPayloads [] [⟨7, [1, 2, 3], by decide, by decide⟩,
    ⟨0, [9], by decide, by decide⟩] [[3, 0], [0, 7, 1], [], [2, 3, 1, 0, 0, 0], [9]] :=
  feed_transparent (I := fun _ => True) {
    length     := fun _ _ => ⟨_, rfl, trivial⟩
    sequenceId := fun _ _ => ⟨_, rfl, trivial⟩
    needMore   := fun _ _ _ h => ⟨_, by simp only [keepPayloads, if_neg h]; rfl, trivial⟩
    success    := fun _ _ _ => ⟨_, rfl, trivial⟩
  } trivial (by decide)

end Operation

end BasicPacket

end ChxSql.Mysql

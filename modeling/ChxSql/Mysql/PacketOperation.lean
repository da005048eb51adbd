import ChxSql.Incremental.Passage
import ChxSql.Mysql.BasicPacket

namespace ChxSql.Mysql

open Incremental

namespace BasicPacket

-- The bytes of `xs` from `i` on are replaced by `ys` (cf. `std::copy`).
def overwrite (xs : Bytes) (i : Nat) (ys : Bytes) : Bytes :=
  xs.take i ++ ys ++ xs.drop (i + ys.length)

theorem overwrite_filled (xs ys : Bytes) (n : Nat) :
    overwrite (xs ++ .replicate n 0) xs.length ys = xs ++ ys ++ .replicate (n - ys.length) 0 := by
  simp [overwrite]

inductive Operation.Stage where
  | packetLength
  | sequenceId
  | payload
  deriving DecidableEq, Repr

-- The members of `operation`, and the state of the class that is derived from it.
structure Operation (ι : Type) where
  stage       : Operation.Stage := .packetLength
  header      : Bytes := [0, 0, 0, 0]
  stageRemain : Nat := 3
  impl        : ι
  deriving DecidableEq

namespace Operation

variable {ι : Type} (o : Operation ι)

abbrev Turned (ι : Type) := Turn Byte (Operation ι) (Operation ι) (PacketResult × Operation ι)

def reset : Operation ι :=
  { impl := o.impl }

def payloadLength : Nat :=
  (o.header.getD 0 0).toNat + (o.header.getD 1 0).toNat <<< 8 + (o.header.getD 2 0).toNat <<< 16

def sequenceId : Byte :=
  o.header.getD 3 0

def remainBytes : Nat :=
  o.stageRemain

-- What comes of the answers to a header.
def onHeader (answer : PayloadResult × ι) (bs : Bytes) : Turned ι :=
  let o := { o with impl := answer.2 }
  match answer.1 with
  | .success   => .goto o bs
  | .malformed => .fail (.malformed, o) bs
  | _          => .fail (.internalError, o) bs

-- What comes of the answers to a part of a payload.
def onPart (answer : PayloadResult × ι) (bs : Bytes) : Turned ι :=
  let isFinal := o.stageRemain = 0
  let o := { o with impl := answer.2 }
  let o := if isFinal then o.reset else o
  match answer.1 with
  | .success         => if isFinal then .goto o bs else .fail (.trailingData, o) bs
  | .pause           => if isFinal then .done o bs else .fail (.trailingData, o) bs
  | .needMore        => if isFinal then .fail (.incomplete, o) bs else .more o bs
  | .trailingData    => .fail (.trailingData, o) bs
  | .malformed       => .fail (.malformed, o) bs
  | .malformedHeader => .fail (.malformed, o) bs
  | .internalError   => .fail (.internalError, o) bs
  | .undefined       => .fail (.undefined, o) bs

-- One turn of the loop of `feed`. A header that is not complete has taken all of the chunk.
def turn (i : Impl ι) (bs : Bytes) : Turned ι :=
  if bs = [] then
    .more o []
  else
    match o.stage with
    | .packetLength =>
      let consumed := min o.stageRemain bs.length
      let o := { o with
        header      := overwrite o.header (3 - o.stageRemain) (bs.take consumed)
        stageRemain := o.stageRemain - consumed
      }
      if o.stageRemain = 0 then
        let o := { o with stage := .sequenceId, stageRemain := 1 }
        o.onHeader (i.onPacketLengthComplete o.impl o.payloadLength) (bs.drop consumed)
      else
        .more o (bs.drop consumed)
    | .sequenceId =>
      let o := { o with header := overwrite o.header 3 [bs.headI] }
      let o := { o with stageRemain := o.payloadLength, stage := .payload }
      o.onHeader (i.onSequenceIdComplete o.impl o.sequenceId) bs.tail
    | .payload =>
      let consumed := min o.stageRemain bs.length
      let o := { o with stageRemain := o.stageRemain - consumed }
      o.onPart (i.onPayloadData o.payloadLength o.remainBytes o.impl (bs.take consumed)) (bs.drop consumed)

def rank : Nat :=
  match o.stage with
  | .payload      => 3
  | .packetLength => 2
  | .sequenceId   => 1

variable {o} {i : Impl ι}

theorem onHeader_goto {answer bs r} {o' : Operation ι} (h : o.onHeader answer bs = .goto o' r) :
    o'.stage = o.stage ∧ r = bs := by
  have ⟨a, impl⟩ := answer
  cases a <;> cases h
  exact ⟨rfl, rfl⟩

theorem onPart_goto {answer bs r} {o' : Operation ι} (h : o.onPart answer bs = .goto o' r) :
    o'.stage = .packetLength ∧ r = bs := by
  have ⟨a, impl⟩ := answer
  cases a <;> simp only [onPart, reduceCtorEq] at h <;> split at h <;> cases h
  exact ⟨rfl, rfl⟩

theorem turn_progress {o o' : Operation ι} {bs r} (h : o.turn i bs = .goto o' r) :
    r.length * 3 + o'.rank < bs.length * 3 + o.rank := by
  have ⟨stage, header, stageRemain, impl⟩ := o
  simp only [turn] at h
  split at h
  case isTrue => cases h
  case isFalse hb =>
    cases stage <;> dsimp only at h
    case packetLength =>
      split at h
      case isFalse => cases h
      case isTrue =>
        have ⟨hs, hr⟩ := onHeader_goto h
        simp only [rank, hs, hr, List.length_drop]
        omega
    case sequenceId =>
      have ⟨hs, hr⟩ := onHeader_goto h
      have := List.length_pos_of_ne_nil hb
      simp only [rank, hs, hr, List.length_tail]
      omega
    case payload =>
      have ⟨hs, hr⟩ := onPart_goto h
      simp only [rank, hs, hr, List.length_drop]
      omega

def loop (i : Impl ι) : Loop Byte (Operation ι) (Operation ι) (PacketResult × Operation ι) where
  body o   := o.turn i
  weight   := 3
  rank     := rank
  progress := turn_progress

def feed (i : Impl ι) (o : Operation ι) (bs : Bytes) :
    Step Byte (Operation ι) (Operation ι) (PacketResult × Operation ι) :=
  (loop i).run o bs

-- The members that an operation has in a stage.
inductive Represents : Operation ι → BasicPacket ι → Prop
  | packetLength {held : Filling Bytes 3} {impl} : held.held.length < 3 → Represents
    ⟨.packetLength, held.held ++ .replicate (4 - held.held.length) 0, 3 - held.held.length, impl⟩
    ⟨.packetLength held, impl⟩
  | sequenceId {h : Bytes} {impl} : h.length = 3 →
    Represents ⟨.sequenceId, h ++ [0], 1, impl⟩ ⟨.sequenceId (ofLittleEndian h), impl⟩
  | payload {h : Bytes} {id remain impl} : h.length = 3 →
    Represents ⟨.payload, h ++ [id], remain, impl⟩ ⟨.payload (ofLittleEndian h) remain, impl⟩

theorem Represents.initial {impl : ι} : Represents { impl } { impl } :=
  have h : ({} : Filling Bytes 3).held.length < 3 := by decide
  .packetLength h

theorem payloadLength_of_header {h : Bytes} (hl : h.length = 3) {stage id stageRemain} {impl : ι} :
    payloadLength ⟨stage, h ++ [id], stageRemain, impl⟩ = ofLittleEndian h := by
  match h, hl with
  | [a, b, c], _ =>
    change a.toNat + b.toNat <<< 8 + c.toNat <<< 16 = a.toNat + 256 * (b.toNat + 256 * (c.toNat + 256 * 0))
    rw [Nat.shiftLeft_eq, Nat.shiftLeft_eq]
    omega

-- The turns of the packet parser and of the operation come to the same.
def Relates (ι : Type) : Turn Byte (BasicPacket ι) ι (PacketResult × ι) → Turned ι → Prop :=
  Turn.Related (fun p o => o.Represents p) (fun impl o => o.impl = impl) fun e e' => e'.1 = e.1 ∧ e'.2.impl = e.2

theorem relates_onHeader {next : BasicPacket.Stage} {answer : PayloadResult × ι} {bs : Bytes}
    (h : ∀ impl : ι, Represents { o with impl } ⟨next, impl⟩) :
    Relates ι (BasicPacket.onHeader next answer bs) (o.onHeader answer bs) := by
  have ⟨a, impl⟩ := answer
  cases a
  case success => exact .goto (h impl)
  all_goals exact .fail ⟨rfl, rfl⟩

theorem relates_onPart {h : Bytes} {id : Byte} {remain : Nat} {impl : ι} (hl : h.length = 3)
    {answer : PayloadResult × ι} {bs : Bytes} :
    Relates ι (BasicPacket.onPart (ofLittleEndian h) remain answer bs)
      (onPart ⟨.payload, h ++ [id], remain, impl⟩ answer bs) := by
  have ⟨a, impl⟩ := answer
  by_cases hr : remain = 0
  case pos =>
    subst hr
    cases a
    case success => exact .goto .initial
    case pause   => exact .done rfl
    all_goals exact .fail ⟨rfl, rfl⟩
  case neg =>
    cases a <;> simp only [onPart, BasicPacket.onPart, if_neg hr]
    case needMore => exact .more (.payload hl)
    all_goals exact .fail ⟨rfl, rfl⟩

theorem relates_packetLength {held : Filling Bytes 3} {impl : ι} (h : held.held.length < 3) {bs : Bytes}
    (hb : bs ≠ []) {header : Bytes} (hh : header = held.held ++ .replicate (4 - held.held.length) 0) :
    Relates ι (BasicPacket.turn i ⟨.packetLength held, impl⟩ bs)
      (Operation.turn ⟨.packetLength, header, 3 - held.held.length, impl⟩ i bs) := by
  have ho : 3 - (3 - held.held.length) = held.held.length := by omega
  simp only [turn, BasicPacket.turn, if_neg hb, ho, hh, overwrite_filled]
  obtain hs | ⟨xs, ys, rfl, hl⟩ := held.cases_on_chunk bs
  case inl =>
    have hs' : held.held.length + bs.length < 3 := hs
    have hc : min (3 - held.held.length) bs.length = bs.length := by omega
    rw [Filling.fill_short hs, Step.turn, hc, if_neg (by omega), List.take_length, List.drop_length]
    refine .more ?_
    have hi : held.held.length + bs.length = (held.held ++ bs).length := List.length_append.symm
    rw [Nat.sub_sub, Nat.sub_sub, hi]
    have hl : (held.held ++ bs).length < 3 := hi ▸ hs'
    let held : Filling Bytes 3 := ⟨held.held ++ bs, hl.le⟩
    have hl : held.held.length < 3 := hl
    exact .packetLength hl
  case inr =>
    have hl' : held.held.length + xs.length = 3 := hl
    have hc : min (3 - held.held.length) (xs ++ ys).length = xs.length := by simp; omega
    rw [Filling.fill_full hl, Step.turn, hc, if_pos (by omega), List.take_left, List.drop_left]
    have hi : (held.held ++ xs).length = 3 := by rw [List.length_append, hl']
    have hz : List.replicate (4 - 3) (0 : Byte) = [0] := rfl
    rw [Nat.sub_sub, hl', hz, payloadLength_of_header hi]
    exact relates_onHeader fun impl => .sequenceId hi

theorem relates_turn {p : BasicPacket ι} (h : Represents o p) (bs : Bytes) :
    Relates ι (p.turn i bs) (o.turn i bs) := by
  by_cases hb : bs = []
  case pos => subst hb; exact .more h
  case neg =>
    cases h
    case packetLength held impl hl => exact relates_packetLength hl hb rfl
    case sequenceId h impl hl =>
      have hw : overwrite (h ++ [0]) 3 [bs.headI] = h ++ [bs.headI] := by simp [overwrite, ← hl]
      have hi : (h ++ [bs.headI]).getD 3 0 = bs.headI := by simp [← hl]
      simp only [turn, BasicPacket.turn, if_neg hb, hw, payloadLength_of_header hl, Operation.sequenceId, hi]
      exact relates_onHeader fun impl => .payload hl
    case payload h id remain impl hl =>
      simp only [turn, BasicPacket.turn, if_neg hb, payloadLength_of_header hl]
      exact relates_onPart hl

end Operation

end BasicPacket

end ChxSql.Mysql

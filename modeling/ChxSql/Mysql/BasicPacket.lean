import ChxSql.Incremental.Chunks
import ChxSql.Mysql.BasicTypes

namespace ChxSql.Mysql

open Incremental

-- The results of `feed` (cf. detail/result.hpp). As for `undefined` see `PayloadResult`.
inductive PacketResult where
  | paused
  | needMore
  | incomplete
  | trailingData
  | malformed
  | internalError
  | undefined
  deriving DecidableEq, Repr

-- `Impl`: what an operation does with the parts of a packet. While it looks at the payload, the
-- operation may ask for `payload_length()` and for `remain_bytes()`.
structure Impl (ι : Type) where
  onPacketLengthComplete : ι → Nat → PayloadResult × ι
  onSequenceIdComplete   : ι → Byte → PayloadResult × ι
  onPayloadData          : (payloadLength remainBytes : Nat) → ι → Bytes → PayloadResult × ι

-- The answer of an operation that calls a packet parser. If the parser is done, then the packet has
-- to end where the part of the payload does: in that case the answer is `ok` (cf. `make_success` and
-- `make_pause`). Nothing reads a parser that has failed.
def PayloadResult.ofStep {π α ι : Type} (st : Step Byte π α PayloadFailure) (ok : PayloadResult)
    (more : π → ι) (done : α → ι) (failed : ι) : PayloadResult × ι :=
  match st with
  | .more p _        => (.needMore, more p)
  | .done a []       => (ok, done a)
  | .done a (_ :: _) => (.trailingData, done a)
  | .fail e _        => (e.result, failed)

-- The stages, each with what `header` and `stage_remain` hold.
inductive BasicPacket.Stage where
  | packetLength (header : Filling Bytes 3)
  | sequenceId (payloadLength : Nat)
  | payload (payloadLength remain : Nat)
  deriving DecidableEq

-- The state of an operation together with the state of its packet parser.
structure BasicPacket (ι : Type) where
  stage : BasicPacket.Stage := .packetLength .empty
  impl  : ι
  deriving DecidableEq

namespace BasicPacket

variable {ι : Type}

-- What comes of the answers to a header.
def onHeader (next : Stage) (answer : PayloadResult × ι) (bs : Bytes) :
    Turn Byte (BasicPacket ι) ι (PacketResult × ι) :=
  match answer with
  | (.success, impl)   => .goto ⟨next, impl⟩ bs
  | (.malformed, impl) => .fail (.malformed, impl) bs
  | (_, impl)          => .fail (.internalError, impl) bs

-- What comes of the answers to a part of a payload. The part is final if no bytes remain.
def onPart (payloadLength remain : Nat) (answer : PayloadResult × ι) (bs : Bytes) :
    Turn Byte (BasicPacket ι) ι (PacketResult × ι) :=
  match answer with
  | (.success, impl) =>
    if remain = 0 then .goto { impl } bs else .fail (.trailingData, impl) bs
  | (.pause, impl) =>
    if remain = 0 then .done impl bs else .fail (.trailingData, impl) bs
  | (.needMore, impl) =>
    if remain = 0 then .fail (.incomplete, impl) bs else .more ⟨.payload payloadLength remain, impl⟩ bs
  | (.trailingData, impl)    => .fail (.trailingData, impl) bs
  | (.malformed, impl)       => .fail (.malformed, impl) bs
  | (.malformedHeader, impl) => .fail (.malformed, impl) bs
  | (.internalError, impl)   => .fail (.internalError, impl) bs
  | (.undefined, impl)       => .fail (.undefined, impl) bs

def turn (i : Impl ι) (p : BasicPacket ι) (bs : Bytes) :
    Turn Byte (BasicPacket ι) ι (PacketResult × ι) :=
  if bs = [] then
    .more p []
  else
    match p.stage with
    | .packetLength header =>
      (header.fill bs).turn ({ p with stage := .packetLength · }) fun header bs =>
        let payloadLength := ofLittleEndian header
        onHeader (.sequenceId payloadLength) (i.onPacketLengthComplete p.impl payloadLength) bs
    | .sequenceId payloadLength =>
      onHeader (.payload payloadLength payloadLength) (i.onSequenceIdComplete p.impl bs.headI) bs.tail
    | .payload payloadLength remain =>
      let consumed := min remain bs.length
      let remain := remain - consumed
      let answer := i.onPayloadData payloadLength remain p.impl (bs.take consumed)
      onPart payloadLength remain answer (bs.drop consumed)

def rank (p : BasicPacket ι) : Nat :=
  match p.stage with
  | .payload _ _    => 3
  | .packetLength _ => 2
  | .sequenceId _   => 1

variable {i : Impl ι}

theorem onHeader_goto {next answer bs r} {p : BasicPacket ι} (h : onHeader next answer bs = .goto p r) :
    p.stage = next ∧ r = bs := by
  have ⟨a, impl⟩ := answer
  cases a <;> cases h
  exact ⟨rfl, rfl⟩

theorem onPart_goto {len remain answer bs r} {p : BasicPacket ι}
    (h : onPart len remain answer bs = .goto p r) : p.stage = .packetLength .empty ∧ r = bs := by
  have ⟨a, impl⟩ := answer
  cases a <;> simp only [onPart, reduceCtorEq] at h <;> split at h <;> cases h
  exact ⟨rfl, rfl⟩

theorem turn_progress {p p' : BasicPacket ι} {bs r} (h : p.turn i bs = .goto p' r) :
    r.length * 3 + p'.rank < bs.length * 3 + p.rank := by
  obtain ⟨stage, impl⟩ := p
  simp only [turn] at h
  split at h
  case isTrue => cases h
  case isFalse hb =>
    cases stage <;> dsimp only at h
    case packetLength header =>
      cases hp : (header.fill bs : Step _ _ _ (PacketResult × ι)) <;>
        simp only [hp, Step.turn, reduceCtorEq] at h
      obtain ⟨hs, hr⟩ := onHeader_goto h
      have := Filling.shrinks.length_le hp
      simp only [rank, hs, hr]
      omega
    case sequenceId =>
      obtain ⟨hs, hr⟩ := onHeader_goto h
      have := List.length_pos_of_ne_nil hb
      simp only [rank, hs, hr, List.length_tail]
      omega
    case payload =>
      obtain ⟨hs, hr⟩ := onPart_goto h
      simp only [rank, hs, hr, List.length_drop]
      omega

def loop (i : Impl ι) : Loop Byte (BasicPacket ι) ι (PacketResult × ι) where
  body     := turn i
  weight   := 3
  rank     := rank
  progress := turn_progress

-- A call that returns `PacketNeedMore` is `more`, one that returns `PacketPaused` is `done`, and the
-- others fail.
def feed (i : Impl ι) (p : BasicPacket ι) (bs : Bytes) :
    Step Byte (BasicPacket ι) ι (PacketResult × ι) :=
  (loop i).run p bs

theorem feed_goto {p p' : BasicPacket ι} {bs r} (h : p.turn i bs = .goto p' r) :
    p.feed i bs = p'.feed i r :=
  Loop.run_goto h

theorem feed_done {p : BasicPacket ι} {bs impl r} (h : p.turn i bs = .done impl r) :
    p.feed i bs = .done impl r :=
  Loop.run_done h

theorem feed_fail {p : BasicPacket ι} {bs e r} (h : p.turn i bs = .fail e r) :
    p.feed i bs = .fail e r :=
  Loop.run_fail h

theorem turn_nil (i : Impl ι) (p : BasicPacket ι) : p.turn i [] = .more p [] := rfl

theorem feed_nil (p : BasicPacket ι) : p.feed i [] = .more p [] :=
  Loop.run_more (turn_nil i p)

theorem onHeader_extends {I : ι → Prop} {g next answer xs} (ys : Bytes) (h : I answer.2) :
    (onHeader next answer xs).Extends (fun p => I p.impl) g ys (onHeader next answer (xs ++ ys)) := by
  have ⟨a, impl⟩ := answer
  cases a
  case success => exact .goto h
  all_goals exact .fail

-- A part that reaches to the end of the payload.
theorem onPart_zero_extends {I : ι → Prop} {g len answer xs} (ys : Bytes) (h : I answer.2) :
    (onPart len 0 answer xs).Extends (fun p => I p.impl) g ys (onPart len 0 answer (xs ++ ys)) := by
  have ⟨a, impl⟩ := answer
  cases a
  case success => exact .goto h
  case pause   => exact .done
  all_goals exact .fail

-- A part that does not, without any further input.
theorem onPart_nil_extends {I : ι → Prop} {len remain answer} (hr : remain ≠ 0) (h : I answer.2) :
    (onPart len remain answer []).Extends (fun p => I p.impl) (turn i) []
      (onPart len remain answer []) := by
  have ⟨a, impl⟩ := answer
  cases a <;> simp only [onPart, if_neg hr]
  case needMore => exact .of_eq_more h rfl
  all_goals exact .fail

-- What a call of `feed` returns, and the state of the operation afterwards.
def outcome : Step Byte (BasicPacket ι) ι (PacketResult × ι) → PacketResult × ι
  | .more p _    => (.needMore, p.impl)
  | .done impl _ => (.paused, impl)
  | .fail e _    => e

end BasicPacket

-- How the answer to a part of a payload relates to the answer to a longer part, if `g` gives the
-- answer to the bytes in between from the state that the first answer left. An operation that is
-- content with the shorter part finds that the longer one has too many bytes.
inductive PayloadResult.Joins {ι : Type} (g : ι → PayloadResult × ι) :
    PayloadResult × ι → PayloadResult × ι → Prop
  | needMore {s} : Joins g (.needMore, s) (g s)
  | success {s}  : Joins g (.success, s) (.trailingData, s)
  | pause {s}    : Joins g (.pause, s) (.trailingData, s)
  | stop {r s}   : r ≠ .success → r ≠ .pause → r ≠ .needMore → Joins g (r, s) (r, s)

namespace PayloadResult

variable {π α ι : Type} {st st' : Step Byte π α PayloadFailure} {ok : PayloadResult}
  {more : π → ι} {done : α → ι} {failed : ι}

theorem ofStep_done {a} (h : st = .done a []) : ofStep st ok more done failed = (ok, done a) :=
  h ▸ rfl

theorem ofStep_satisfies {P : PayloadResult × ι → Prop} (hm : ∀ p r, st = .more p r → P (.needMore, more p))
    (hd : ∀ a r, st = .done a r → P (ok, done a) ∧ P (.trailingData, done a))
    (hf : ∀ e r, st = .fail e r → P (e.result, failed)) : P (ofStep st ok more done failed) := by
  cases st
  case more p r => exact hm p r rfl
  case done a r => cases r; exacts [(hd a _ rfl).left, (hd a _ rfl).right]
  case fail e r => exact hf e r rfl

theorem ofStep_ne_success (ho : ok ≠ .success) : (ofStep st ok more done failed).1 ≠ .success := by
  refine ofStep_satisfies (P := (·.1 ≠ .success)) (fun _ _ _ => by simp) (fun _ _ _ => ⟨ho, by simp⟩) ?_
  intro e _ _
  cases e <;> rintro ⟨⟩

theorem ofStep_invariant {I : ι → Prop} (hm : ∀ {p r}, st = .more p r → I (more p))
    (hd : ∀ a, I (done a)) (hf : I failed) : I (ofStep st ok more done failed).2 := by
  cases st
  case more => exact hm rfl
  case done a r => cases r <;> exact hd a
  case fail => exact hf

-- The law of a packet parser gives the law of the answer.
theorem joins_ofStep {I : π → Prop} {g : π → Bytes → Step Byte π α PayloadFailure} {ys : Bytes}
    {f : ι → PayloadResult × ι} (h : st.Extends I g ys st') (hy : ys ≠ [])
    (hok : ok = .success ∨ ok = .pause)
    (hm : ∀ {p}, I p → f (more p) = ofStep (g p ys) ok more done failed) :
    Joins f (ofStep st ok more done failed) (ofStep st' ok more done failed) := by
  cases h
  case more p hp => rw [← hm hp]; exact .needMore
  case fail e _ _ => cases e <;> exact .stop nofun nofun nofun
  case done a r =>
    cases ys
    case nil => exact absurd rfl hy
    case cons y ys =>
      cases r
      case nil  => obtain rfl | rfl := hok <;> first | exact .success | exact .pause
      case cons => exact .stop nofun nofun nofun

end PayloadResult

-- An operation reads a payload alike in one or in two parts, as long as `I` holds of its state.
structure Impl.Lawful {ι : Type} (i : Impl ι) (I : ι → Prop) : Prop where
  length     : ∀ {s n}, I s → I (i.onPacketLengthComplete s n).2
  sequenceId : ∀ {s b}, I s → I (i.onSequenceIdComplete s b).2
  payload    : ∀ {s len remain bs}, I s → I (i.onPayloadData len remain s bs).2
  joins      : ∀ {s} len remain xs ys, I s → ys ≠ [] →
    PayloadResult.Joins (i.onPayloadData len remain · ys)
      (i.onPayloadData len (remain + ys.length) s xs) (i.onPayloadData len remain s (xs ++ ys))

namespace BasicPacket

variable {ι : Type} {i : Impl ι} {I : ι → Prop}

theorem turn_payload {len remain : Nat} {impl : ι} {bs : Bytes} (h : bs ≠ []) :
    turn i ⟨.payload len remain, impl⟩ bs =
      onPart len (remain - bs.length) (i.onPayloadData len (remain - bs.length) impl (bs.take remain))
        (bs.drop remain) := by
  simp only [turn, if_neg h]
  obtain hl | hl := Nat.le_total remain bs.length
  case inl => rw [Nat.min_eq_left hl, Nat.sub_self, Nat.sub_eq_zero_of_le hl]
  case inr => rw [Nat.min_eq_right hl, List.take_of_length_le hl, List.drop_of_length_le hl,
    List.take_length, List.drop_length]

theorem turn_payload_extends (hi : i.Lawful I) {len remain : Nat} {impl : ι} (hs : I impl)
    {xs : Bytes} (hx : xs ≠ []) (ys : Bytes) :
    (turn i ⟨.payload len remain, impl⟩ xs).Extends (fun p => I p.impl) (turn i) ys
      (turn i ⟨.payload len remain, impl⟩ (xs ++ ys)) := by
  rw [turn_payload hx, turn_payload (List.append_ne_nil_of_left_ne_nil hx ys)]
  by_cases hr : remain ≤ xs.length
  case pos =>
    rw [List.take_append_of_le_length hr, List.drop_append_of_le_length hr, List.length_append,
      Nat.sub_eq_zero_of_le hr, Nat.sub_eq_zero_of_le (Nat.le_add_right_of_le hr)]
    exact onPart_zero_extends ys (hi.payload hs)
  case neg =>
    have hl : xs.length < remain := Nat.lt_of_not_le hr
    have hn : remain - xs.length ≠ 0 := Nat.sub_ne_zero_of_lt hl
    rw [List.take_of_length_le hl.le, List.drop_of_length_le hl.le]
    by_cases hy : ys = []
    case pos =>
      subst hy
      rw [List.append_nil, List.take_of_length_le hl.le, List.drop_of_length_le hl.le]
      exact onPart_nil_extends hn (hi.payload hs)
    case neg =>
      -- The part of the second chunk that belongs to the payload.
      have hp : remain - xs.length = remain - (xs ++ ys).length + (ys.take (remain - xs.length)).length := by
        simp only [List.length_append, List.length_take]
        omega
      have ht : (xs ++ ys).take remain = xs ++ ys.take (remain - xs.length) := by
        rw [List.take_append, List.take_of_length_le hl.le]
      have hd : (xs ++ ys).drop remain = ys.drop (remain - xs.length) := by
        rw [List.drop_append, List.drop_of_length_le hl.le, List.nil_append]
      have hj := hi.joins len (remain - (xs ++ ys).length) xs (ys.take (remain - xs.length)) hs
        (by simp [hy, hn])
      rw [ht, hd]
      rw [← hp] at hj
      have hm : I (i.onPayloadData len (remain - xs.length) impl xs).2 := hi.payload hs
      generalize i.onPayloadData len (remain - (xs ++ ys).length) impl _ = whole at hj ⊢
      generalize i.onPayloadData len (remain - xs.length) impl xs = part at hj hm ⊢
      cases hj
      case needMore s =>
        have hs : onPart len (remain - xs.length) (.needMore, s) [] =
            .more ⟨.payload len (remain - xs.length), s⟩ [] := if_neg hn
        rw [hs]
        refine .of_eq_more hm ?_
        rw [turn_payload hy, List.length_append, Nat.sub_sub]
      case success => simp only [onPart, if_neg hn]; exact .fail
      case pause   => simp only [onPart, if_neg hn]; exact .fail
      case stop r s h₁ h₂ h₃ => cases r <;> first | contradiction | exact .fail

theorem turn_packetLength_extends (hi : i.Lawful I) {header : Filling Bytes 3} {impl : ι}
    (hs : I impl) {xs : Bytes} (hx : xs ≠ []) (ys : Bytes) :
    (turn i ⟨.packetLength header, impl⟩ xs).Extends (fun p => I p.impl) (turn i) ys
      (turn i ⟨.packetLength header, impl⟩ (xs ++ ys)) := by
  by_cases hy : ys = []
  case pos =>
    subst hy
    simp only [turn, List.append_nil, if_neg hx]
    cases hf : (header.fill xs : Step _ _ _ (PacketResult × ι))
    case more => cases Filling.resumable.exhausts trivial hf; exact .of_eq_more hs rfl
    case done => simpa [Step.turn] using onHeader_extends [] (hi.length hs)
    case fail => exact .fail
  case neg =>
    simp only [turn, if_neg hx, if_neg (List.append_ne_nil_of_left_ne_nil hx ys)]
    exact (Filling.resumable.extend trivial xs ys).turn (fun _ _ => hs)
      (fun _ _ => by simp only [turn, if_neg hy]) (fun _ r => onHeader_extends ys (hi.length hs))

theorem turn_extends (hi : i.Lawful I) {p : BasicPacket ι} (hp : I p.impl) (xs ys : Bytes) :
    (p.turn i xs).Extends (fun p => I p.impl) (turn i) ys (p.turn i (xs ++ ys)) := by
  by_cases hx : xs = []
  case pos => subst hx; exact .of_eq_more hp rfl
  case neg =>
    have ⟨stage, impl⟩ := p
    cases stage
    case payload      => exact turn_payload_extends hi hp hx ys
    case packetLength => exact turn_packetLength_extends hi hp hx ys
    case sequenceId =>
      cases xs
      case nil  => exact absurd rfl hx
      case cons => exact onHeader_extends ys (hi.sequenceId hp)

-- The law of the packet parser follows from the law of the operation.
theorem resumes (hi : i.Lawful I) : Resumes (fun p => I p.impl) (feed i) (feed i) :=
  Loop.resumes fun _ hp => turn_extends hi hp

-- Feeding chunks comes to the same as one call on all of them.
theorem feed_agrees (hi : i.Lawful I) {p : BasicPacket ι} (hp : I p.impl) (cs : List Bytes) :
    Agrees (Incremental.feed (feed i) p cs) (p.feed i cs.flatten) :=
  (resumes hi).feed_agrees_flatten hp fun _ => feed_nil p

theorem outcome_of_agrees {q : Step Byte (BasicPacket ι) ι (PacketResult × ι) × List Bytes}
    {st : Step Byte (BasicPacket ι) ι (PacketResult × ι)} (h : Agrees q st) :
    outcome q.1 = outcome st := by
  cases h <;> rfl

-- What the states between the calls have in common.
theorem feed_keeps (hi : i.Lawful I) {p p' : BasicPacket ι} (hp : I p.impl) {cs unfed r}
    (hm : Incremental.feed (feed i) p cs = (.more p' r, unfed)) : I p'.impl := by
  induction cs generalizing p
  case nil => cases hm; exact hp
  case cons c cs ih =>
    rw [Incremental.feed] at hm
    cases hf : p.feed i c <;> rw [hf] at hm
    case more => exact ih ((resumes hi).keeps hp hf) hm
    all_goals cases hm

end BasicPacket

-- What lasts as long as an operation reads, and what holds when it pauses. Each answer is defined.
structure Impl.Keeps {ι : Type} (i : Impl ι) (I Q : ι → Prop) : Prop where
  length     : ∀ {s n}, I s → I (i.onPacketLengthComplete s n).2
  sequenceId : ∀ {s b}, I s → I (i.onSequenceIdComplete s b).2
  payload    : ∀ {s len remain bs}, I s → (i.onPayloadData len remain s bs).1 = .success ∨
    (i.onPayloadData len remain s bs).1 = .needMore → I (i.onPayloadData len remain s bs).2
  defined    : ∀ {s len remain bs}, I s → (i.onPayloadData len remain s bs).1 ≠ .undefined
  pause      : ∀ {s len remain bs}, I s → (i.onPayloadData len remain s bs).1 = .pause →
    Q (i.onPayloadData len remain s bs).2

namespace BasicPacket

variable {ι : Type} {i : Impl ι} {I Q : ι → Prop}

theorem onHeader_satisfies {next bs} {answer : PayloadResult × ι} (h : I answer.2) :
    (onHeader next answer bs).Satisfies (fun p => I p.impl) Q (fun e => e.1 ≠ .undefined) := by
  obtain ⟨a, impl⟩ := answer
  cases a
  case success => exact h
  all_goals exact nofun

theorem onPart_satisfies {len remain bs} {answer : PayloadResult × ι}
    (h : answer.1 = .success ∨ answer.1 = .needMore → I answer.2) (hd : answer.1 ≠ .undefined)
    (hq : answer.1 = .pause → Q answer.2) :
    (onPart len remain answer bs).Satisfies (fun p => I p.impl) Q (fun e => e.1 ≠ .undefined) := by
  obtain ⟨a, impl⟩ := answer
  cases a <;> simp only [onPart]
  case success   => split; exacts [h (.inl rfl), nofun]
  case needMore  => split; exacts [nofun, h (.inr rfl)]
  case pause     => split; exacts [hq rfl, nofun]
  case undefined => exact absurd rfl hd
  all_goals exact nofun

theorem turn_satisfies (hi : i.Keeps I Q) {p : BasicPacket ι} (hp : I p.impl) (bs : Bytes) :
    (p.turn i bs).Satisfies (fun p => I p.impl) Q (fun e => e.1 ≠ .undefined) := by
  simp only [turn]
  split
  case isTrue => exact hp
  case isFalse =>
    split
    case h_1 header _ =>
      cases hf : (header.fill bs : Step _ _ _ (PacketResult × ι))
      case more => exact hp
      case done => exact onHeader_satisfies (hi.length hp)
      case fail => exact absurd hf Filling.fill_ne_fail
    case h_2 => exact onHeader_satisfies (hi.sequenceId hp)
    case h_3 => exact onPart_satisfies (hi.payload hp) (hi.defined hp) (hi.pause hp)

theorem feed_satisfies (hi : i.Keeps I Q) {p : BasicPacket ι} (hp : I p.impl) (bs : Bytes) :
    (p.feed i bs).Satisfies (fun p => I p.impl) Q (fun e => e.1 ≠ .undefined) :=
  Loop.run_satisfies (turn_satisfies hi) hp

end BasicPacket

end ChxSql.Mysql

import ChxSql.Incremental.Chunks
import ChxSql.Postgresql.Dialogue

namespace ChxSql.Postgresql

open Incremental Msg

-- A message of the server as it goes over the wire. Its length has to fit in four bytes.
structure Frame where
  type : Byte
  body : Bytes
  fits : body.length + 4 < 256 ^ 4
  deriving DecidableEq

namespace Frame

theorem fits_nil : ([] : Bytes).length + 4 < 256 ^ 4 := by decide

def encode (f : Frame) : Bytes :=
  frame f.type f.body

def encodeAll (fs : List Frame) : Bytes :=
  fs.flatMap encode

@[simp]
theorem encodeAll_nil : encodeAll [] = [] := rfl

@[simp]
theorem encodeAll_cons {f : Frame} {fs : List Frame} :
    encodeAll (f :: fs) = f.encode ++ encodeAll fs := rfl

@[simp]
theorem encodeAll_append {fs fs' : List Frame} :
    encodeAll (fs ++ fs') = encodeAll fs ++ encodeAll fs' := by
  simp [encodeAll]

theorem encode_ne_nil {f : Frame} : f.encode ≠ [] := by
  simp [encode, frame]

theorem encodeAll_eq_nil {fs : List Frame} (h : encodeAll fs = []) : fs = [] := by
  cases fs
  case nil  => rfl
  case cons => exact absurd (List.append_eq_nil_iff.mp h).left encode_ne_nil

end Frame

section

variable {σ κ S : Type}

-- Reading messages one after another until an operation ends. The second component is the messages
-- that it leaves unread then.
def onFrames (onFrame : σ → Frame → Move σ κ) : σ → List Frame → Move σ κ × List Frame
  | s, []      => (.goto s, [])
  | s, f :: fs =>
    match onFrame s f with
    | .goto s     => onFrames onFrame s fs
    | .complete k => (.complete k, fs)
    | .fail e     => (.fail e, fs)

-- An operation that reads bytes refines one that reads whole messages: between messages they are in
-- corresponding states, and the bytes of a message have the effect that the message has.
structure Refines (parse : S → Bytes → Step Byte S κ (Failure κ)) (onFrame : σ → Frame → Move σ κ)
    (embed : σ → S) : Prop where
  idle : ∀ s, parse (embed s) [] = .more (embed s) []
  goto : ∀ {s f s'}, onFrame s f = .goto s' →
    ∀ rest, parse (embed s) (f.encode ++ rest) = parse (embed s') rest
  complete : ∀ {s f k}, onFrame s f = .complete k →
    ∀ rest, parse (embed s) (f.encode ++ rest) = .done k rest
  fail : ∀ {s f e}, onFrame s f = .fail e →
    ∀ rest, ∃ r, parse (embed s) (f.encode ++ rest) = .fail e r

-- What the user of an operation sees of it, if its messages come in chunks of bytes.
inductive Shows (embed : σ → S) :
    Move σ κ × List Frame → Step Byte S κ (Failure κ) × List Bytes → Prop
  | goto {s} : Shows embed (.goto s, []) (.more (embed s) [], [])
  | complete {k fs left unfed} : left ++ unfed.flatten = Frame.encodeAll fs →
    Shows embed (.complete k, fs) (.done k left, unfed)
  | fail {e fs left unfed} : Shows embed (.fail e, fs) (.fail e left, unfed)

variable {parse : S → Bytes → Step Byte S κ (Failure κ)} {onFrame : σ → Frame → Move σ κ}
variable {embed : σ → S} {s s' : σ} {fs left : List Frame} {k : κ} {e : Failure κ}

-- A list of messages that does not end the operation is read up.
theorem onFrames_append (h : onFrames onFrame s fs = (.goto s', left)) (fs' : List Frame) :
    onFrames onFrame s (fs ++ fs') = onFrames onFrame s' fs' := by
  induction fs generalizing s
  case nil => cases h; rfl
  case cons f fs ih =>
    simp only [onFrames, List.cons_append] at h ⊢
    cases hf : onFrame s f <;> rw [hf] at h
    case goto => exact ih h
    all_goals cases h

-- Once the operation has ended it leaves what follows unread.
theorem onFrames_append_of_ended {mv : Move σ κ} (h : onFrames onFrame s fs = (mv, left))
    (hn : ∀ s', mv ≠ .goto s') (fs' : List Frame) :
    onFrames onFrame s (fs ++ fs') = (mv, left ++ fs') := by
  induction fs generalizing s
  case nil => cases h; exact absurd rfl (hn s)
  case cons f fs ih =>
    simp only [onFrames, List.cons_append] at h ⊢
    cases hf : onFrame s f <;> rw [hf] at h
    case goto => exact ih h
    all_goals cases h; rfl

-- The operation completes at one of the messages.
theorem onFrames_complete (h : onFrames onFrame s fs = (.complete k, left)) :
    ∃ pre f s', fs = pre ++ f :: left ∧ onFrames onFrame s pre = (.goto s', []) ∧
      onFrame s' f = .complete k := by
  induction fs generalizing s
  case nil => cases h
  case cons f fs ih =>
    simp only [onFrames] at h
    cases hf : onFrame s f <;> rw [hf] at h
    case fail     => cases h
    case complete => cases h; exact ⟨[], f, s, rfl, rfl, hf⟩
    case goto s₁  =>
      have ⟨pre, g, s', hfs, hp, hg⟩ := ih h
      exact ⟨f :: pre, g, s', by rw [hfs, List.cons_append], by simp [onFrames, hf, hp], hg⟩

theorem onFrames_goto (h : onFrames onFrame s fs = (.goto s', left)) : left = [] := by
  induction fs generalizing s
  case nil => cases h; rfl
  case cons f fs ih =>
    simp only [onFrames] at h
    cases hf : onFrame s f <;> rw [hf] at h
    case goto => exact ih h
    all_goals cases h

namespace Refines

variable (h : Refines parse onFrame embed)

include h

theorem frames_goto (hf : onFrames onFrame s fs = (.goto s', left)) (rest : Bytes) :
    parse (embed s) (Frame.encodeAll fs ++ rest) = parse (embed s') rest := by
  induction fs generalizing s
  case nil => cases hf; rfl
  case cons f fs ih =>
    simp only [onFrames] at hf
    cases hm : onFrame s f <;> rw [hm] at hf
    case goto => rw [Frame.encodeAll_cons, List.append_assoc, h.goto hm, ih hf]
    all_goals cases hf

theorem frames_complete (hf : onFrames onFrame s fs = (.complete k, left)) (rest : Bytes) :
    parse (embed s) (Frame.encodeAll fs ++ rest) = .done k (Frame.encodeAll left ++ rest) := by
  induction fs generalizing s
  case nil => cases hf
  case cons f fs ih =>
    simp only [onFrames] at hf
    rw [Frame.encodeAll_cons, List.append_assoc]
    cases hm : onFrame s f <;> rw [hm] at hf
    case goto     => rw [h.goto hm, ih hf]
    case complete => cases hf; exact h.complete hm _
    case fail     => cases hf

theorem frames_fail (hf : onFrames onFrame s fs = (.fail e, left)) (rest : Bytes) :
    ∃ r, parse (embed s) (Frame.encodeAll fs ++ rest) = .fail e r := by
  induction fs generalizing s
  case nil => cases hf
  case cons f fs ih =>
    simp only [onFrames] at hf
    rw [Frame.encodeAll_cons, List.append_assoc]
    cases hm : onFrame s f <;> rw [hm] at hf
    case goto     => rw [h.goto hm]; exact ih hf
    case complete => cases hf
    case fail     => cases hf; exact h.fail hm _

theorem feed_agrees (hr : Resumable parse) (chunks : List Bytes) :
    Agrees (feed parse (embed s) chunks) (parse (embed s) chunks.flatten) :=
  hr.feed_agrees_flatten trivial fun _ => h.idle s

-- It does not matter how the bytes of messages come in chunks.
theorem feed_frames (hr : Resumable parse) {chunks : List Bytes}
    (hc : chunks.flatten = Frame.encodeAll fs) :
    Shows embed (onFrames onFrame s fs) (feed parse (embed s) chunks) := by
  have ha := h.feed_agrees (s := s) hr chunks
  rw [hc, ← List.append_nil (Frame.encodeAll fs)] at ha
  generalize ho : onFrames onFrame s fs = out
  have ⟨mv, left⟩ := out
  cases mv
  case goto s' =>
    rw [h.frames_goto ho, h.idle] at ha
    rw [ha.of_more.left, onFrames_goto ho]
    exact .goto
  case complete k =>
    rw [h.frames_complete ho, List.append_nil] at ha
    have ⟨l, unfed, hf, hl⟩ := ha.of_done
    exact hf ▸ .complete hl
  case fail e =>
    have ⟨r, hf⟩ := h.frames_fail ho []
    rw [hf] at ha
    have ⟨l, unfed, hf⟩ := ha.of_fail
    exact hf ▸ .fail

end Refines

end

namespace Dialogue

variable {σ : Type} (d : Dialogue σ)

-- The view of a query operation that does not see bytes: what it does with a whole message.
def onFrame (s : σ) (f : Frame) : Move σ Report :=
  match d.select s f.type with
  | .malformed => .fail (d.malformed s)
  | .undefined => .fail .undefined
  | .parse m s =>
    match Message.receive m f.type f.body with
    | none   => .fail (d.malformed s)
    | some m => d.accept s m

variable {d} {s s' : σ} {f : Frame}

theorem onFrame_eq {m} (hs : d.select s f.type = .parse m s') {m'}
    (hm : Message.receive m f.type f.body = some m') : d.onFrame s f = d.accept s' m' := by
  simp [onFrame, hs, hm]

theorem onFrame_malformed (h : d.select s f.type = .malformed) :
    d.onFrame s f = .fail (d.malformed s) := by
  simp [onFrame, h]

-- What does not fail has received the message.
theorem onFrame_inv {mv : Move σ Report} (h : d.onFrame s f = mv) (hm : ∀ e, mv ≠ .fail e) :
    ∃ m s' m', d.select s f.type = .parse m s' ∧ Message.receive m f.type f.body = some m' ∧
      d.accept s' m' = mv := by
  simp only [onFrame] at h
  cases hs : d.select s f.type <;> rw [hs] at h
  case malformed | undefined => exact absurd h.symm (hm _)
  case parse m s' =>
    dsimp only at h
    cases hr : Message.receive m f.type f.body <;> rw [hr] at h
    case none    => exact absurd h.symm (hm _)
    case some m' => exact ⟨m, s', m', rfl, hr, h⟩

-- A parser that is given a whole message.
theorem turn_parsing {m : AnyMessage} (rest : Bytes) :
    (∃ m', Message.receive m f.type f.body = some m' ∧
      d.turn ⟨s, some { result := m }⟩ (f.encode ++ rest) = d.finish s m' rest) ∨
    (Message.receive m f.type f.body = none ∧
      ∃ r, d.turn ⟨s, some { result := m }⟩ (f.encode ++ rest) = .fail (d.malformed s) r) := by
  cases BasicParser.parse_frame (M := AnyMessage) m f.type f.fits rest
  case inl h =>
    obtain ⟨m', hm, hp⟩ := h
    exact .inl ⟨m', hm, by simp [turn, Frame.encode, hp]⟩
  case inr h =>
    obtain ⟨hm, e, r, hp⟩ := h
    refine .inr ⟨hm, r, ?_⟩
    simp only [turn, Frame.encode, hp]
    cases e
    case undefined => exact absurd hp BasicParser.parse_ne_undefined
    all_goals rfl

theorem doParse_frame (rest : Bytes) :
    match d.onFrame s f with
    | .goto s'    => d.doParse ⟨s, none⟩ (f.encode ++ rest) = d.doParse ⟨s', none⟩ rest
    | .complete r => d.doParse ⟨s, none⟩ (f.encode ++ rest) = .done r rest
    | .fail e     => ∃ r, d.doParse ⟨s, none⟩ (f.encode ++ rest) = .fail e r := by
  have hg : d.loop.body ⟨s, none⟩ (f.encode ++ rest) = _ := body_of_head rfl
  cases hs : d.select s f.type <;> rw [hs] at hg
  case malformed => rw [onFrame_malformed hs]; exact ⟨_, Loop.run_fail hg⟩
  case undefined => simp only [onFrame, hs]; exact ⟨_, Loop.run_fail hg⟩
  case parse m s' =>
    rw [doParse, Loop.run_goto hg]
    cases turn_parsing (d := d) (s := s') (m := m) (f := f) rest
    case inr h =>
      obtain ⟨hm, r, hb⟩ := h
      simp only [onFrame, hs, hm]
      exact ⟨r, Loop.run_fail hb⟩
    case inl h =>
      obtain ⟨m', hm, hb⟩ := h
      rw [onFrame_eq hs hm]
      cases ha : d.accept s' m' <;> simp only [finish, ha] at hb
      case goto     => exact Loop.run_goto hb
      case complete => exact Loop.run_done hb
      case fail     => exact ⟨_, Loop.run_fail hb⟩

theorem doParse_nil (s : σ) : d.doParse ⟨s, none⟩ [] = .more ⟨s, none⟩ [] := by
  have hm : d.loop.body ⟨s, none⟩ [] = .more ⟨s, none⟩ [] := rfl
  exact Loop.run_more hm

theorem refines : Refines d.doParse d.onFrame (fun s => ⟨s, none⟩) where
  idle s := doParse_nil s
  goto {s f _} h rest := by
    have := doParse_frame (d := d) (s := s) (f := f) rest
    rwa [h] at this
  complete {s f _} h rest := by
    have := doParse_frame (d := d) (s := s) (f := f) rest
    rwa [h] at this
  fail {s f _} h rest := by
    have := doParse_frame (d := d) (s := s) (f := f) rest
    rwa [h] at this

end Dialogue

end ChxSql.Postgresql

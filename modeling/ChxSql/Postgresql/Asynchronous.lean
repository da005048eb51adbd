import ChxSql.Postgresql.Operation
import ChxSql.Postgresql.Startup

namespace ChxSql.Postgresql

open Incremental Msg ServerMessage

-- A message of the server and the messages of the kinds that may come at any time which the server
-- puts in before it.
structure Interspersed where
  before      : List ServerMessage
  dismissable : ∀ m ∈ before, m.content.Dismissable
  frame       : Frame

namespace Interspersed

theorem dismissable_nil : ∀ m ∈ ([] : List ServerMessage), m.content.Dismissable := nofun

-- The messages without and with the ones that are put in.
def plain (xs : List Interspersed) : List Frame :=
  xs.map (·.frame)

def full (xs : List Interspersed) : List Frame :=
  xs.flatMap fun x => frames x.before ++ [x.frame]

variable {x : Interspersed} {xs : List Interspersed}

@[simp]
theorem plain_cons : plain (x :: xs) = x.frame :: plain xs := rfl

@[simp]
theorem full_cons : full (x :: xs) = frames x.before ++ x.frame :: full xs := by
  simp [full]

theorem eq_nil_of_plain (h : plain xs = []) : xs = [] :=
  List.map_eq_nil_iff.mp h

end Interspersed

theorem Content.not_notice {c : Content} (h : c.Dismissable) (hn : ∀ fields, c ≠ .noticeResponse fields) :
    ∃ name value, c = .parameterStatus name value := by
  cases c <;> try exact h.elim
  case parameterStatus   => exact ⟨_, _, rfl⟩
  case noticeResponse fs => exact absurd rfl (hn fs)

-- A message that is a NoticeResponse.
def ServerMessage.IsNotice (m : ServerMessage) : Prop :=
  ∃ fields, m.content = .noticeResponse fields

section

open Interspersed

variable {σ κ : Type} {onFrame : σ → Frame → Move σ κ} {s s' : σ} {k k' : κ} {xs : List Interspersed}
variable {ms : List ServerMessage} {fs left : List Frame}

-- Reading messages that do not matter.
theorem onFrames_skip (h : ∀ m ∈ ms, ∀ s, onFrame s m.frame = .goto s) :
    onFrames onFrame s (frames ms ++ fs) = onFrames onFrame s fs := by
  induction ms
  case nil => rfl
  case cons m ms ih =>
    rw [frames_cons, List.cons_append, onFrames, h m (by simp)]
    exact ih fun m hm => h m (by simp [hm])

-- If the messages that are put in do not matter, then the operation completes as it does without
-- them.
theorem onFrames_full (hs : ∀ x ∈ xs, ∀ m ∈ x.before, ∀ s, onFrame s m.frame = .goto s)
    (h : onFrames onFrame s (plain xs) = (.complete k, [])) :
    onFrames onFrame s (full xs) = (.complete k, []) := by
  induction xs generalizing s
  case nil => cases h
  case cons x xs ih =>
    rw [full_cons, onFrames_skip (hs x (by simp))]
    rw [plain_cons, onFrames] at h
    rw [onFrames]
    cases hf : onFrame s x.frame <;> rw [hf] at h
    case goto     => exact ih (fun x hx => hs x (by simp [hx])) h
    case fail     => cases h
    case complete =>
      obtain ⟨hk, hx⟩ := Prod.ext_iff.mp h
      rw [eq_nil_of_plain hx, show Move.complete _ = _ from hk]
      rfl

-- Reading messages of which the operation fails at some and does not care for the others.
theorem onFrames_fails {P : ServerMessage → Prop} (hp : ∀ m, P m → ∀ s, onFrame s m.frame = .goto s)
    (hn : ∀ m, m.content.Dismissable → ¬P m → ∀ s, ∃ e, onFrame s m.frame = .fail e)
    (hd : ∀ m ∈ ms, m.content.Dismissable) (h : ¬∀ m ∈ ms, P m) (s : σ) (fs : List Frame) :
    ∃ e left, onFrames onFrame s (frames ms ++ fs) = (.fail e, left) := by
  induction ms
  case nil => exact absurd (by simp) h
  case cons m ms ih =>
    rw [frames_cons, List.cons_append, onFrames]
    by_cases hm : P m
    case pos =>
      rw [hp m hm]
      exact ih (fun m hm => hd m (by simp [hm])) fun hx => h (by simpa [hm] using hx)
    case neg =>
      obtain ⟨e, he⟩ := hn m (hd m (by simp)) hm s
      exact ⟨e, _, by rw [he]⟩

-- So if it completes, then there are none at which it fails. The induction is on the messages at
-- which it completes without the ones that are put in.
theorem onFrames_full_inv {P : ServerMessage → Prop} (hp : ∀ m, P m → ∀ s, onFrame s m.frame = .goto s)
    (hn : ∀ m, m.content.Dismissable → ¬P m → ∀ s, ∃ e, onFrame s m.frame = .fail e)
    (h : onFrames onFrame s (plain xs) = (.complete k, []))
    (hf : onFrames onFrame s (full xs) = (.complete k', left)) :
    ∀ x ∈ xs, ∀ m ∈ x.before, P m := by
  induction xs generalizing s
  case nil => simp
  case cons x xs ih =>
    rw [full_cons] at hf
    have hx : ∀ m ∈ x.before, P m := by
      by_contra hc
      have ⟨e, left, he⟩ := onFrames_fails hp hn x.dismissable hc s (x.frame :: full xs)
      rw [he] at hf
      cases hf
    rw [onFrames_skip fun m hm => hp m (hx m hm), onFrames] at hf
    rw [plain_cons, onFrames] at h
    have hr : ∀ y ∈ xs, ∀ m ∈ y.before, P m := by
      cases he : onFrame s x.frame <;> rw [he] at h hf
      case goto     => exact ih h hf
      case fail     => cases h
      case complete => rw [eq_nil_of_plain (Prod.ext_iff.mp h).right]; simp
    simpa using ⟨hx, hr⟩

end

theorem Frame.append_right_cancel {fs fs' gs gs' : List Frame} (h : fs ++ gs = fs' ++ gs')
    (he : encodeAll gs = encodeAll gs') : fs = fs' ∧ gs = gs' := by
  have hn {as bs : List Frame} (he : encodeAll (as ++ bs) = encodeAll bs) : as = [] := by
    rw [encodeAll_append, List.append_left_eq_self] at he
    exact encodeAll_eq_nil he
  rcases List.append_eq_append_iff.mp h with ⟨as, rfl, rfl⟩ | ⟨as, rfl, rfl⟩
  · simp [hn he]
  · simp [hn he.symm]

-- In whatever chunks the messages come, the operation completes at the last one of the first ones.
def Dialogue.Completes {σ : Type} (d : Dialogue σ) (fs tail : List Frame) (r : Report) : Prop :=
  ∀ chunks : List Bytes, chunks.flatten = Frame.encodeAll (fs ++ tail) → ∃ left unfed,
    feed d.doParse d.fresh chunks = (.done r left, unfed) ∧
      left ++ unfed.flatten = Frame.encodeAll tail

theorem Dialogue.completes_iff_onFrames {σ : Type} {d : Dialogue σ} {fs tail : List Frame} {r : Report} :
    d.Completes fs tail r ↔ onFrames d.onFrame d.start fs = (.complete r, []) := by
  have hs {chunks : List Bytes} (hc : chunks.flatten = Frame.encodeAll (fs ++ tail)) :=
    (refines (d := d)).feed_frames (s := d.start) resumable hc
  constructor
  case mp =>
    intro h
    have hc : [Frame.encodeAll (fs ++ tail)].flatten = _ := List.flatten_singleton
    obtain ⟨left, unfed, hf, hl⟩ := h _ hc
    have hs := hs hc
    rw [show feed d.doParse ⟨d.start, none⟩ _ = _ from hf] at hs
    generalize ho : onFrames d.onFrame d.start (fs ++ tail) = out at hs
    cases hs
    case complete gs hg =>
      obtain ⟨pre, f, s', hfs, hp, hc⟩ := onFrames_complete ho
      rw [List.append_cons] at hfs
      rw [(Frame.append_right_cancel hfs (hl.symm.trans hg)).left, onFrames_append hp, onFrames, hc]
  case mpr =>
    intro h chunks hc
    have hs := hs hc
    rw [onFrames_append_of_ended h (by simp) tail, List.nil_append] at hs
    generalize hf : feed d.doParse ⟨d.start, none⟩ chunks = out at hs
    cases hs
    case complete hl => exact ⟨_, _, hf, hl⟩

-- The operations that send a query or prepare one.
inductive QueryOperation where
  | simpleQuery
  | parseQuery
  | execute
  | oneshot
  deriving DecidableEq

namespace QueryOperation

def State : QueryOperation → Type
  | simpleQuery => SimpleQuery.State
  | parseQuery  => ParseQuery.Stage
  | execute     => Execute.State
  | oneshot     => Oneshot.State

def dialogue : (q : QueryOperation) → Dialogue q.State
  | simpleQuery => Postgresql.simpleQuery
  | parseQuery  => Postgresql.parseQuery
  | execute     => Postgresql.execute
  | oneshot     => Postgresql.oneshot

variable {m : ServerMessage}

-- None of them cares for notices.
theorem onFrame_notice {q : QueryOperation} (h : m.IsNotice) (s : q.State) :
    q.dialogue.onFrame s m.frame = .goto s := by
  have ⟨content, valid, fits⟩ := m
  have ⟨fields, hc⟩ := h
  cases hc
  have hr := AnyMessage.receive_map .noticeResponse (NoticeResponse.receive valid)
  cases q <;> exact Dialogue.onFrame_eq (f := ⟨letter 'N', fields.encode, fits⟩) rfl hr

-- Only `simpleQuery` knows of a ParameterStatus.
theorem onFrame_simpleQuery (h : m.content.Dismissable) (s : SimpleQuery.State) :
    Postgresql.simpleQuery.onFrame s m.frame = .goto s := by
  by_cases hn : m.IsNotice
  case pos => exact onFrame_notice (q := .simpleQuery) hn s
  case neg =>
    have ⟨content, valid, fits⟩ := m
    have ⟨name, value, hc⟩ := Content.not_notice h fun fields hf => hn ⟨fields, hf⟩
    cases hc
    have ⟨m, hm⟩ := ParameterStatus.receive valid.left valid.right
    exact Dialogue.onFrame_eq rfl (AnyMessage.receive_map .parameterStatus hm)

theorem onFrame_status {q : QueryOperation} (hq : q ≠ .simpleQuery) (h : m.content.Dismissable)
    (hn : ¬m.IsNotice) (s : q.State) : ∃ e, q.dialogue.onFrame s m.frame = .fail e := by
  have ⟨content, valid, fits⟩ := m
  have ⟨name, value, hc⟩ := Content.not_notice h fun fields hf => hn ⟨fields, hf⟩
  cases hc
  cases q
  case simpleQuery => exact absurd rfl hq
  all_goals exact ⟨_, Dialogue.onFrame_malformed rfl⟩

variable {q : QueryOperation} {xs : List Interspersed} {tail : List Frame} {r : Report}

open Interspersed

theorem completes_full (h : q.dialogue.Completes (plain xs) tail r)
    (hx : q = .simpleQuery ∨ ∀ x ∈ xs, ∀ m ∈ x.before, m.IsNotice) :
    q.dialogue.Completes (full xs) tail r := by
  rw [Dialogue.completes_iff_onFrames] at h ⊢
  refine onFrames_full (fun x hm m hb s => ?_) h
  cases hx
  case inl hq => cases hq; exact onFrame_simpleQuery (x.dismissable m hb) s
  case inr hn => exact onFrame_notice (hn x hm m hb) s

theorem notices_of_completes (h : q.dialogue.Completes (plain xs) tail r)
    (hf : q.dialogue.Completes (full xs) tail r) (hq : q ≠ .simpleQuery) :
    ∀ x ∈ xs, ∀ m ∈ x.before, m.IsNotice := by
  rw [Dialogue.completes_iff_onFrames] at h hf
  exact onFrames_full_inv (fun m hm => onFrame_notice hm) (fun m => onFrame_status hq) h hf

-- Where an operation completes regularly, there it completes alike with notices and parameter
-- statuses put in before, as long as these are notices or the operation is `simpleQuery`.
theorem completes_full_iff (h : q.dialogue.Completes (plain xs) tail r) :
    q.dialogue.Completes (full xs) tail r ↔
      q = .simpleQuery ∨ ∀ x ∈ xs, ∀ m ∈ x.before, m.IsNotice := by
  refine ⟨fun hf => ?_, completes_full h⟩
  by_cases hq : q = .simpleQuery
  case pos => exact .inl hq
  case neg => exact .inr (notices_of_completes h hf hq)

-- The answer to a Parse, with a ParameterStatus put in before the ReadyForQuery.
def parsed : List Interspersed := [
  ⟨[], dismissable_nil, ⟨letter '1', [], Frame.fits_nil⟩⟩,
  ⟨[⟨.parameterStatus [97] [98], by decide, by decide⟩], by simp [Content.Dismissable],
    readyForQuery.frame⟩
]

theorem parsed_completes : QueryOperation.parseQuery.dialogue.Completes (plain parsed) [] { ec := .none } :=
  Dialogue.completes_iff_onFrames.mpr rfl

theorem completes_full_iff_parsed :
    QueryOperation.parseQuery.dialogue.Completes (full parsed) [] { ec := .none } ↔
      QueryOperation.parseQuery = .simpleQuery ∨ ∀ x ∈ parsed, ∀ m ∈ x.before, m.IsNotice :=
  completes_full_iff parsed_completes

-- It is rejected.
theorem parsed_not_completes :
    QueryOperation.parseQuery.dialogue.Completes (plain parsed) [] { ec := .none } ∧
    ¬QueryOperation.parseQuery.dialogue.Completes (full parsed) [] { ec := .none } := by
  refine ⟨parsed_completes, fun hf => ?_⟩
  have hn := notices_of_completes parsed_completes hf nofun
  simp [parsed, IsNotice] at hn

end QueryOperation

end ChxSql.Postgresql

import ChxSql.Postgresql.OneshotCompletion
import ChxSql.Postgresql.PreparedStreams

namespace ChxSql.Postgresql

open Incremental Msg ServerMessage

namespace ServerMessage

variable {pre ms xs zs : List ServerMessage} {m : ServerMessage} {fs : List Frame} {part : Bytes}

-- Whole messages at the beginning of the bytes of some messages are the first ones of these.
theorem exists_split (h : Frame.encodeAll fs ++ part <+: encode ms) :
    ∃ xs zs, ms = xs ++ zs ∧ fs = frames xs ∧ part <+: encode zs := by
  induction fs generalizing ms
  case nil => exact ⟨[], ms, rfl, rfl, h⟩
  case cons f fs ih =>
    obtain ⟨rest, hr⟩ := h
    cases ms
    case nil =>
      have hn := (List.append_eq_nil_iff.mp (List.append_eq_nil_iff.mp hr).left).left
      exact absurd hn (by simp [Frame.encode_ne_nil])
    case cons m ms =>
      rw [Frame.encodeAll_cons, List.append_assoc, List.append_assoc] at hr
      obtain ⟨rfl, hs⟩ := Frame.encode_append_inj (hr : _ = m.frame.encode ++ encode ms)
      obtain ⟨xs, zs, rfl, rfl, hp⟩ := ih ⟨rest, (List.append_assoc ..).trans hs⟩
      exact ⟨m :: xs, zs, rfl, rfl, hp⟩

-- A beginning of the bytes of some messages in which there is no whole message is a part of the first one.
theorem exists_part (h : part <+: encode ms) (hw : ∀ f r, part ≠ Frame.encode f ++ r) (hp : part ≠ []) :
    ∃ m zs ys, ms = m :: zs ∧ part ++ ys = m.frame.encode ∧ ys ≠ [] := by
  obtain ⟨rest, hr⟩ := h
  cases ms
  case nil => exact absurd (List.append_eq_nil_iff.mp hr).left hp
  case cons m ms =>
    rcases List.append_eq_append_iff.mp (hr : part ++ rest = m.frame.encode ++ encode ms)
      with ⟨ys, hm, _⟩ | ⟨bs, hb, _⟩
    case inr => exact absurd hb (hw _ _)
    case inl =>
      refine ⟨m, ms, ys, rfl, hm.symm, ?_⟩
      rintro rfl
      exact hw m.frame [] (by rw [hm, List.append_nil, List.append_nil])

theorem RowsFit.cellsFit (h : RowsFit (columns pre) (xs ++ m :: zs)) :
    CellsFit (columns (pre ++ xs)) m.content.cells? := by
  induction xs generalizing pre
  case nil => rw [List.append_nil]; exact h.left
  case cons x xs ih =>
    rw [List.append_cons]
    refine ih ?_
    rw [columns_concat]
    exact h.right

-- An error without a text.
def internalError : ServerMessage := ⟨.errorResponse [(letter 'C', ascii "XX000")], by decide, by decide⟩

end ServerMessage

namespace Oneshot

-- The responses of a server: they end with their only ReadyForQuery, there are as many cells in a row as there are
-- columns in the description before it, and nothing comes after a CommandComplete that would belong to a result set.
structure ServerResponse (ms : List ServerMessage) : Prop where
  rows  : RowsFit none ms
  ready : ∃ xs z, ms = xs ++ [z] ∧ z.content.kind = some .readyForQuery ∧ .readyForQuery ∉ kinds xs
  once  : ms.Pairwise fun m m' => m.content.isTag →
    m'.content.columns? = none ∧ m'.content.cells? = none ∧ m'.content.isTag = false

-- What has been read is not all of the response, and its messages, also the one that has been begun, may be the
-- first ones of a response that the reading side accepts.
def Reading (ms : List ServerMessage) (bs : Bytes) : Prop :=
  bs ≠ encode ms ∧ ∃ xs ys, xs <+: ms ∧ bs <+: encode xs ∧ Response (xs ++ ys)

variable {ms xs zs : List ServerMessage} {m : ServerMessage} {s : State} {bs part : Bytes} {k : Report}

theorem Response.exists_ready (h : Response ms) : ∃ xs z, ms = xs ++ [z] ∧ z.content.kind = some .readyForQuery := by
  cases h
  case parsed ns ms xs z _ _ _ h => exact ⟨ns ++ .parseComplete :: xs, z, by simp [h.split], h.ready⟩
  case refused xs z _ _ _ h      => exact ⟨xs, z, h.split, h.ready⟩

-- An accepted response at the beginning of a response is all of it.
theorem ServerResponse.eq_of_prefix (h : ServerResponse ms) (hx : xs <+: ms) (hr : Response xs) : xs = ms := by
  obtain ⟨as, z, rfl, hz⟩ := hr.exists_ready
  obtain ⟨bs, z', rfl, _, hn⟩ := h.ready
  rcases List.prefix_concat_iff.mp hx with hx | ⟨ys, hy⟩
  case inl => exact hx
  case inr =>
    refine absurd ?_ hn
    rw [← hy, kinds_append, kinds_concat, hz]
    simp

-- The messages after which the operation goes on: nothing that matters, and then what `execute` goes on after.
inductive Going : List ServerMessage → State → Prop
  | start {ns : List ServerMessage} : (∀ n ∈ ns, n.IsNotice) → Going ns {}
  | executing {ns ys : List ServerMessage} {p : ExtendedQuery.Progress} {t : Execute.State} :
    (∀ n ∈ ns, n.content.Plain ∧ n.content.kind = none) → Execute.Matches ys p t → Execute.Holds t none →
    Going (ns ++ ys) (ofExecute t)

theorem Going.cons {t : Execute.State} (hm : m.content.Plain ∧ m.content.kind = none)
    (h : ∃ p, Execute.Matches ms p t) (ht : Execute.Holds t none) : Going (m :: ms) (ofExecute t) := by
  obtain ⟨p, h⟩ := h
  exact show Going ([m] ++ ms) _ from .executing (List.forall_mem_singleton.mpr hm) h ht

-- The result sets of the messages have been put together.
theorem Going.result_eq (h : Going ms s) : s.result = (delivered ms).resultSets := by
  cases h
  case start hn =>
    have hd : delivered (ms ++ []) = delivered [] := delivered_append fun n hm => plain_of_notice (hn n hm)
    rw [List.append_nil] at hd
    rw [hd]
    rfl
  case executing hn hm _ =>
    rw [delivered_append fun n hm => (hn n hm).left]
    exact congrArg (·.resultSets) hm.report_eq

theorem Going.holds (h : Going ms s) : Holds s none := by
  cases h
  case start => nofun
  case executing t _ _ ht => exact fun he => ht (ofExecute_expect.mp he)

-- Where a row is expected, a row that is as wide as the description says is as wide as the operation thinks.
theorem Going.rowFits (h : Going ms s) (hf : CellsFit (columns ms) m.content.cells?) (he : s.expect = .dataRow) :
    ∃ curr, s.curr = some curr ∧ curr.desc.length < 2 ^ 16 ∧
      ∀ cells, m.content.cells? = some cells → cells.length = curr.desc.length := by
  cases h
  case start => cases he
  case executing ns ys p t hn hm _ =>
    have hc : columns (ns ++ ys) = columns ys := by
      have hns : ns.filterMap (·.content.columns?) = [] :=
        List.filterMap_eq_nil_iff.mpr fun n hm => (hn n hm).left.columns
      rw [columns, List.filterMap_append, hns, List.nil_append, columns]
    exact hm.rowFits ⟨hc ▸ hf, trivial⟩ (ofExecute_expect.mp he)

-- The parser that is selected for a message is for it.
theorem expects_of_select {p : AnyMessage} {s' : State} (hs : select s m.frame.type = .parse p s')
    (hf : s.expect = .dataRow → ∃ curr, s.curr = some curr ∧ curr.desc.length < 2 ^ 16 ∧
      ∀ cells, m.content.cells? = some cells → cells.length = curr.desc.length) : p.Expects m.content := by
  have of_select {type : Byte} {p' : AnyMessage} {s'' : State} {c : Prop} [Decidable c]
      (h : select s type = if c then .parse p' s'' else .malformed) (hs : select s type = .parse p s') : p = p' := by
    rw [h] at hs
    split at hs <;> cases hs
    rfl
  obtain ⟨content, valid, fits⟩ := m
  cases content
  case parseComplete      => cases of_select select_parseComplete hs; trivial
  case bindComplete       => cases of_select select_bindComplete hs; trivial
  case noData             => cases of_select select_noData hs; trivial
  case emptyQueryResponse => cases of_select select_emptyQueryResponse hs; trivial
  case rowDescription     => cases of_select select_rowDescription hs; trivial
  case commandComplete    => cases of_select select_commandComplete hs; trivial
  case readyForQuery      => cases of_select select_readyForQuery hs; trivial
  case errorResponse      => cases select_errorResponse.symm.trans hs; trivial
  case noticeResponse     => cases select_noticeResponse.symm.trans hs; trivial
  case dataRow cells =>
    have he : s.expect = .dataRow := by
      by_contra he
      cases (select_dataRow.trans (if_neg he)).symm.trans hs
    obtain ⟨curr, hc, hl, hn⟩ := hf he
    have hd : select s (letter 'D') = .parse (.dataRow (.ofColumns curr.desc.length)) s := by
      rw [select_dataRow, if_pos he, hc]
      simp only [Nat.mod_eq_of_lt hl]
    cases hd.symm.trans hs
    exact (hn cells rfl).trans (List.length_replicate ..).symm
  all_goals cases (show select s _ = .malformed from rfl).symm.trans hs

theorem Going.taken {p : AnyMessage} {s' : State} (h : Going ms s) (hf : CellsFit (columns ms) m.content.cells?)
    (hs : oneshot.select s m.frame.type = .parse p s') (e : Failure Report) : oneshot.onFrame s m.frame ≠ .fail e := by
  have hfresh : p.Fresh := (prepared s _).of_parse hs
  obtain ⟨a, hr⟩ := AnyMessage.receive_of_expects hfresh (expects_of_select hs (h.rowFits hf))
  rw [Dialogue.onFrame_eq hs hr]
  cases e
  case malformed => exact accept_ne_malformed
  case undefined =>
    have hp : (oneshot.select s m.frame.type).All _ := holds_select h.holds
    rw [hs] at hp
    have ha : (accept s' a).All _ := holds_accept ((AnyMessage.messageType_receive hr).right ▸ hp)
    intro hu
    rw [show accept s' a = _ from hu] at ha
    exact ha rfl

-- The operation wants more as long as an accepted response may follow.
theorem more_of_reading (h : ServerResponse ms) (hr : Reading ms bs) :
    ∃ s, oneshot.doParse oneshot.fresh bs = .more s [] := by
  obtain ⟨hn, xs, ys, hx, hb, hr⟩ := hr
  obtain ⟨rest, hrest⟩ := hb.trans (⟨encode ys, encode_append.symm⟩ : encode xs <+: encode (xs ++ ys))
  have hd := doParse_response hr
  rw [← hrest] at hd
  have hne : rest ≠ [] := by
    rintro rfl
    have hl := hb.length_le
    have hle := congrArg List.length hrest
    rw [encode_append, List.append_nil, List.length_append] at hle
    have hl : (encode ys).length = 0 := by omega
    obtain rfl : ys = [] := List.map_eq_nil_iff.mp (Frame.encodeAll_eq_nil (List.length_eq_zero_iff.mp hl))
    rw [List.append_nil] at hr hrest
    rw [List.append_nil, h.eq_of_prefix hx hr] at hrest
    exact hn hrest
  obtain ⟨s, hm, _⟩ := Resumes.more_of_done Dialogue.resumable trivial hd hne
  exact ⟨s, hm⟩

-- Where the operation completes regularly, there is the end of the response.
theorem eq_of_done {left : Bytes} (h : ServerResponse ms) (hb : bs <+: encode ms)
    (hd : oneshot.doParse oneshot.fresh bs = .done k left) : Response ms ∧ k = delivered ms ∧ bs = encode ms := by
  have hp : Refines oneshot.doParse oneshot.onFrame fun s => (⟨s, none⟩ : Dialogue.State State) := Dialogue.refines
  obtain ⟨fs, rfl, hc⟩ := hp.exists_frames Dialogue.resumable oneshot.rejectsShort hd
  obtain ⟨xs, zs, rfl, rfl, hl⟩ := exists_split hb
  obtain ⟨hr, rfl⟩ := onFrames_complete_iff.mp hc
  have he := h.eq_of_prefix (List.prefix_append ..) hr
  obtain rfl : zs = [] := List.append_right_eq_self.mp he.symm
  rw [List.append_nil]
  exact ⟨hr, rfl, by rw [List.prefix_nil.mp hl, List.append_nil]; rfl⟩

theorem not_response_of_fail {e : Failure Report} {left : Bytes} (hb : bs <+: encode ms)
    (hf : oneshot.doParse oneshot.fresh bs = .fail e left) : ¬Response ms := by
  intro hr
  obtain ⟨rest, hrest⟩ := hb
  have hd := doParse_response hr
  obtain ⟨_, hx⟩ := Dialogue.resumable.fails trivial hf rest
  rw [← hrest, hx] at hd
  cases hd

end Oneshot

end ChxSql.Postgresql

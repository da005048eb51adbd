import ChxSql.Postgresql.Asynchronous
import ChxSql.Postgresql.ExecuteLanguage
import ChxSql.Postgresql.MessageExactness

namespace ChxSql.Postgresql

open Incremental Msg ServerMessage

theorem Frame.StandsFor.type_eq {f : Frame} {m : ServerMessage} (h : f.StandsFor m) : f.type = m.frame.type := by
  cases h
  case same                        => rfl
  case error fs fields _ _ ht _ hc => exact ht.trans (ServerMessage.frame_of_content hc).left.symm
  case notice fs fields _ ht _ hc  => exact ht.trans (ServerMessage.frame_of_content hc).left.symm

section

variable {σ κ S : Type} {onFrame : σ → Frame → Move σ κ} {parse : S → Bytes → Step Byte S κ (Failure κ)}
variable {embed : σ → S} {s s' : σ} {f : Frame} {fs : List Frame} {m : ServerMessage}
variable {ms : List ServerMessage} {k : κ} {bs rest : Bytes}

-- An operation takes nothing but messages, and it does not see more of them than what they stand for.
structure Understands (onFrame : σ → Frame → Move σ κ) : Prop where
  onFrame_eq : ∀ {s f m}, f.StandsFor m → onFrame s f = onFrame s m.frame
  exists_message : ∀ {s f}, (∀ e, onFrame s f ≠ .fail e) → ∃ m, f.StandsFor m

namespace Understands

theorem complete_of_standsFor (h : Understands onFrame) (hs : List.Forall₂ Frame.StandsFor fs ms)
    (hc : onFrames onFrame s (frames ms) = (.complete k, [])) : onFrames onFrame s fs = (.complete k, []) := by
  induction hs generalizing s
  case nil => exact hc
  case cons f m fs ms hf hfs ih =>
    rw [frames_cons, onFrames] at hc
    rw [onFrames, h.onFrame_eq hf]
    cases hm : onFrame s m.frame <;> rw [hm] at hc
    case goto     => exact ih hc
    case fail     => cases hc
    case complete =>
      cases ms
      case cons => cases hc
      case nil  => cases hfs; exact hc

theorem exists_complete (h : Understands onFrame) (hc : onFrames onFrame s fs = (.complete k, [])) :
    ∃ ms, List.Forall₂ Frame.StandsFor fs ms ∧ onFrames onFrame s (frames ms) = (.complete k, []) := by
  induction fs generalizing s
  case nil => cases hc
  case cons f fs ih =>
    rw [onFrames] at hc
    cases hm : onFrame s f <;> rw [hm] at hc
    case fail => cases hc
    case goto s' =>
      obtain ⟨m, hf⟩ := h.exists_message (s := s) (f := f) (by simp [hm])
      obtain ⟨ms, hfs, hr⟩ := ih hc
      refine ⟨m :: ms, .cons hf hfs, ?_⟩
      rw [frames_cons, onFrames, ← h.onFrame_eq hf, hm]
      exact hr
    case complete =>
      cases hc
      obtain ⟨m, hf⟩ := h.exists_message (s := s) (f := f) (by simp [hm])
      refine ⟨[m], .cons hf .nil, ?_⟩
      rw [frames_cons, onFrames, ← h.onFrame_eq hf, hm]
      rfl

-- The messages that an operation has read when it wants more.
theorem exists_goto (h : Understands onFrame) (hg : onFrames onFrame s fs = (.goto s', [])) :
    ∃ ms, List.Forall₂ Frame.StandsFor fs ms ∧ onFrames onFrame s (frames ms) = (.goto s', []) := by
  induction fs generalizing s
  case nil => exact ⟨[], .nil, hg⟩
  case cons f fs ih =>
    rw [onFrames] at hg
    cases hm : onFrame s f <;> rw [hm] at hg
    case fail | complete => cases hg
    case goto s' =>
      obtain ⟨m, hf⟩ := h.exists_message (s := s) (f := f) (by simp [hm])
      obtain ⟨ms, hfs, hr⟩ := ih hg
      refine ⟨m :: ms, .cons hf hfs, ?_⟩
      rw [frames_cons, onFrames, ← h.onFrame_eq hf, hm]
      exact hr

-- Whatever bytes come: the operation completes where they are messages at which it does so, and nowhere else.
theorem feed_done_iff (h : Understands onFrame) (hp : Refines parse onFrame embed) (hr : Resumable parse)
    (hs : RejectsShort parse embed) {cs : List Bytes} :
    (∃ left unfed, feed parse (embed s) cs = (.done k left, unfed) ∧ left ++ unfed.flatten = rest) ↔
      ∃ fs ms, cs.flatten = Frame.encodeAll fs ++ rest ∧ List.Forall₂ Frame.StandsFor fs ms ∧
        onFrames onFrame s (frames ms) = (.complete k, []) := by
  have hn : parse (embed s) cs.flatten = .done k rest → cs ≠ [] := by
    rintro hd rfl
    rw [List.flatten_nil, hp.idle] at hd
    cases hd
  rw [hr.feed_done_iff, and_iff_right_of_imp hn]
  constructor
  case mp =>
    intro hd
    have ⟨fs, hfs, hc⟩ := hp.exists_frames hr hs hd
    have ⟨ms, hms, hm⟩ := h.exists_complete hc
    exact ⟨fs, ms, hfs, hms, hm⟩
  case mpr =>
    intro ⟨fs, ms, hfs, hms, hm⟩
    rw [hfs, hp.frames_complete (h.complete_of_standsFor hms hm)]
    rfl

end Understands

-- Any input is whole messages, and after them a part at whose beginning there is not one more that the operation
-- reads and goes on. The induction is on the length of the input.
theorem Refines.exists_part (hp : Refines parse onFrame embed) (s : σ) (bs : Bytes) : ∃ fs part s',
    bs = Frame.encodeAll fs ++ part ∧ onFrames onFrame s fs = (.goto s', []) ∧
      (∀ f r t, part = Frame.encode f ++ r → onFrame s' f ≠ .goto t) ∧ parse (embed s) bs = parse (embed s') part := by
  induction hn : bs.length using Nat.strongRecOn generalizing s bs
  case ind n ih =>
    by_cases hw : ∃ f r t, bs = Frame.encode f ++ r ∧ onFrame s f = .goto t
    case neg =>
      refine ⟨[], bs, s, rfl, rfl, fun f r t hb ho => ?_, rfl⟩
      exact hw ⟨f, r, t, hb, ho⟩
    case pos =>
      obtain ⟨f, r, t, rfl, ho⟩ := hw
      have hl : r.length < n := by
        have := List.length_pos_iff.mpr (Frame.encode_ne_nil (f := f))
        rw [← hn, List.length_append]
        omega
      have ⟨fs, part, s', hb, hg, hw, he⟩ := ih r.length hl t r rfl
      refine ⟨f :: fs, part, s', ?_, ?_, hw, (hp.goto ho r).trans he⟩
      case refine_1 => rw [hb, Frame.encodeAll_cons, List.append_assoc]
      case refine_2 => rw [onFrames, ho]; exact hg

end

namespace Dialogue

variable {σ : Type} {d : Dialogue σ}

-- The operation reads each message with a parser that has not read anything yet.
def Prepared (d : Dialogue σ) : Prop :=
  ∀ s type, (d.select s type).Satisfies fun a _ => a.Fresh

theorem Prepared.understands (hd : d.Prepared) : Understands d.onFrame where
  onFrame_eq {s f m} h := by
    rw [onFrame, onFrame, h.type_eq]
    cases hs : d.select s m.frame.type
    case malformed | undefined => rfl
    case parse a s' =>
      have hr := h.receive_eq ((hd s _).of_parse hs)
      rw [h.type_eq] at hr
      simp only [hr]
  exists_message {s f} hf := by
    obtain ⟨a, s', a', hs, hr, _⟩ := onFrame_inv rfl hf
    obtain ⟨m, hm, _⟩ := AnyMessage.exists_message ((hd s _).of_parse hs) hr
    exact ⟨m, hm⟩

theorem Prepared.feed_done_iff (hd : d.Prepared) {cs : List Bytes} {rest : Bytes} {k : Report} :
    (∃ left unfed, feed d.doParse d.fresh cs = (.done k left, unfed) ∧ left ++ unfed.flatten = rest) ↔
      ∃ fs ms, cs.flatten = Frame.encodeAll fs ++ rest ∧ List.Forall₂ Frame.StandsFor fs ms ∧
        onFrames d.onFrame d.start (frames ms) = (.complete k, []) :=
  hd.understands.feed_done_iff refines resumable d.rejectsShort

end Dialogue

theorem AnyMessage.Fresh.ofColumns (n : Nat) : Fresh (.dataRow (.ofColumns (n % 2 ^ 16))) := by
  have := Fresh.dataRow (UInt16.ofNat n)
  rwa [UInt16.toNat_ofNat'] at this

theorem SimpleQuery.prepared : simpleQuery.Prepared := by
  intro s type
  rw [show simpleQuery.select s type = select s type from rfl, select]
  repeat' apply Selection.satisfies_ite
  all_goals try split
  all_goals first | trivial | exact AnyMessage.Fresh.ofColumns _ | constructor

theorem ParseQuery.prepared : parseQuery.Prepared := by
  intro s type
  rw [show parseQuery.select s type = select s type from rfl, select]
  repeat' apply Selection.satisfies_ite
  all_goals first | trivial | constructor

theorem Execute.prepared : execute.Prepared := by
  intro s type
  rw [show execute.select s type = select s type from rfl, select]
  repeat' apply Selection.satisfies_ite
  all_goals try split
  all_goals first | trivial | exact AnyMessage.Fresh.ofColumns _ | constructor

theorem Oneshot.prepared : oneshot.Prepared := by
  intro s type
  rw [show oneshot.select s type = select s type from rfl, select]
  repeat' apply Selection.satisfies_ite
  all_goals try split
  all_goals first | trivial | exact AnyMessage.Fresh.ofColumns _ | constructor

namespace Execute

variable {pre ms xs ys : List ServerMessage} {m z : ServerMessage} {p : ExtendedQuery.Progress} {s : State}
variable {k : Report} {cs : List Bytes} {rest : Bytes}

theorem Outcome.answered {out} (ho : Outcome [] ms out) (h : Answered ms xs z ys) :
    out = (.complete (delivered xs), frames ys) := by
  cases ho
  case waiting hm => exact absurd (unfinished_split hm.unfinished h.split) h.finished
  case ready he hu hz hl =>
    have ⟨hx, _, hy⟩ := unique_place he hu (ExtendedQuery.Unfinished.not_of_language hl) h.split h.unfinished
      h.finished
    rw [List.nil_append, hx, hy]
  case malformed he hu hv =>
    have ⟨hx, hz, _⟩ := unique_place he hu (fun hu => hv hu.right) h.split h.unfinished h.finished
    exact absurd ⟨[], by simpa [hx, hz] using h.language⟩ hv

theorem cellsFit_none (cols : Option (List ColumnDescription)) : CellsFit cols none := by
  cases cols <;> trivial

-- A row that the operation takes is as wide as the description says.
theorem Matches.cellsFit {cells : Cells} {valid fits} (h : Matches pre p s)
    (hf : ∀ e, execute.onFrame s (ServerMessage.frame ⟨.dataRow cells, valid, fits⟩) ≠ .fail e) :
    CellsFit (columns pre) (some cells) := by
  by_cases he : s.expect = .dataRow
  case neg => exact absurd (Dialogue.onFrame_malformed (select_dataRow.trans (if_neg he))) (hf _)
  case pos =>
    have ⟨curr, hc, hl, _⟩ := h.rowFits (m := .noData) ⟨cellsFit_none _, trivial⟩ he
    have hs : execute.select s (letter 'D') = .parse (.dataRow (.ofColumns curr.desc.length)) s := by
      rw [show execute.select s (letter 'D') = _ from select_dataRow, if_pos he, hc]
      simp only [Nat.mod_eq_of_lt hl]
    have hn : cells.length = curr.desc.length := by
      by_contra hn
      have hr : Message.receive (AnyMessage.dataRow (.ofColumns curr.desc.length)) (letter 'D') (DataRow.encode cells) =
          none := by
        rw [AnyMessage.receive_inj .dataRow, DataRow.receive_mismatch hn valid, Option.map_none]
      refine hf (execute.malformed s) ?_
      simp only [Dialogue.onFrame, ServerMessage.frame, Content.type, Content.body, hs, hr]
    have hd := h.data
    rw [hc] at hd
    generalize s.result = result at hd
    cases hd
    case current hcols _ _ _ =>
      rw [hcols]
      exact hn

-- A message that the operation takes is one of those that may answer it.
theorem answers_of_taken (hf : ∀ e, execute.onFrame s m.frame ≠ .fail e) : m.content.AnswersExecute := by
  have ⟨content, valid, fits⟩ := m
  cases content
  case parseComplete | parameterStatus | backendKeyData | authentication =>
    exact absurd (Dialogue.onFrame_malformed rfl) (hf _)
  all_goals trivial

theorem Matches.fits (h : Matches pre p s) (hf : ∀ e, execute.onFrame s m.frame ≠ .fail e) :
    m.content.AnswersExecute ∧ CellsFit (columns pre) m.content.cells? := by
  refine ⟨answers_of_taken hf, ?_⟩
  have ⟨content, valid, fits⟩ := m
  cases content
  case dataRow => exact h.cellsFit hf
  all_goals exact cellsFit_none _

-- Messages that the operation takes are of the kind that `onFrames_outcome` asks for. The induction is on the
-- messages, `Matches` is the invariant.
theorem Matches.fit {mv : Move State Report} (h : Matches pre p s)
    (hc : onFrames execute.onFrame s (frames ms) = (mv, [])) (hn : ∀ e, mv ≠ .fail e) :
    (∀ m ∈ ms, m.content.AnswersExecute) ∧ RowsFit (columns pre) ms := by
  induction ms generalizing pre p s
  case nil => exact ⟨List.forall_mem_nil _, trivial⟩
  case cons m ms ih =>
    rw [frames_cons, onFrames] at hc
    have hf : ∀ e, execute.onFrame s m.frame ≠ .fail e := by
      intro e he
      rw [he] at hc
      exact hn e (Prod.mk.inj hc).left.symm
    obtain ⟨ha, hw⟩ := h.fits hf
    have hst := h.step_effect ha
    rw [← onFrame_eq_effect (h.rowFits ⟨hw, trivial⟩)] at hst
    generalize execute.onFrame s m.frame = mv at hc hf hst
    cases hst
    case malformed => exact absurd rfl (hf _)
    case goto h' =>
      obtain ⟨has, hws⟩ := ih h' hc
      rw [columns_concat] at hws
      exact ⟨List.forall_mem_cons.mpr ⟨ha, has⟩, hw, hws⟩
    case ready =>
      cases ms
      case cons => cases hc
      case nil  => exact ⟨List.forall_mem_singleton.mpr ha, hw, trivial⟩

theorem matches_of_goto (h : onFrames execute.onFrame execute.start (frames ms) = (.goto s, [])) :
    ∃ p, Matches ms p s := by
  obtain ⟨ha, hf⟩ := Matches.start.fit h (by simp)
  have ho := onFrames_outcome Matches.start ha hf
  rw [show onFrames execute.onFrame {} (frames ms) = _ from h] at ho
  generalize hout : (Move.goto s, ([] : List Frame)) = out at ho
  cases ho
  case ready | malformed => cases hout
  case waiting p s' hm =>
    cases hout
    exact ⟨p, hm⟩

theorem onFrames_complete_iff : onFrames execute.onFrame execute.start (frames ms) = (.complete k, []) ↔
    ∃ xs z, Answered ms xs z [] ∧ (∀ m ∈ ms, m.content.AnswersExecute) ∧ RowsFit none ms ∧ k = delivered xs := by
  constructor
  case mp =>
    intro hc
    have ⟨ha, hf⟩ := Matches.start.fit hc (by simp)
    have ho := onFrames_outcome Matches.start ha hf
    rw [show onFrames execute.onFrame {} (frames ms) = _ from hc] at ho
    generalize hout : (Move.complete k, ([] : List Frame)) = out at ho
    cases ho
    case waiting | malformed => cases hout
    case ready xs z ys he hu hz hl =>
      have ⟨hk, hy⟩ := Prod.mk.inj hout
      cases hk
      obtain rfl : ys = [] := List.map_eq_nil_iff.mp hy.symm
      exact ⟨xs, z, ⟨he, hz, hu.left, hl⟩, ha, hf, rfl⟩
  case mpr =>
    rintro ⟨xs, z, h, ha, hf, rfl⟩
    exact (onFrames_outcome Matches.start ha hf).answered h

-- Whatever bytes a server sends, and in whatever chunks they come: the operation completes regularly if and only if
-- they begin with an answer of the language, in which each row is as wide as its description says, and then it
-- delivers what that answer says and leaves what comes after it.
theorem feed_done_iff_answer (cs : List Bytes) (rest : Bytes) (k : Report) :
    (∃ left unfed, feed execute.doParse execute.fresh cs = (.done k left, unfed) ∧ left ++ unfed.flatten = rest) ↔
      ∃ fs ms xs z, cs.flatten = Frame.encodeAll fs ++ rest ∧ List.Forall₂ Frame.StandsFor fs ms ∧
        Answered ms xs z [] ∧ (∀ m ∈ ms, m.content.AnswersExecute) ∧ RowsFit none ms ∧ k = delivered xs := by
  rw [Execute.prepared.feed_done_iff]
  simp only [onFrames_complete_iff]
  constructor
  case mp =>
    rintro ⟨fs, ms, hc, hs, xs, z, h⟩
    exact ⟨fs, ms, xs, z, hc, hs, h⟩
  case mpr =>
    rintro ⟨fs, ms, xs, z, hc, hs, h⟩
    exact ⟨fs, ms, hc, hs, xs, z, h⟩

end Execute

end ChxSql.Postgresql

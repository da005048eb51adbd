import ChxSql.Postgresql.OneshotResponse
import ChxSql.Postgresql.SimpleQueryStreams

namespace ChxSql.Postgresql

open Incremental Msg ServerMessage

namespace Dialogue

variable {σ σ' : Type} {d : Dialogue σ} {d' : Dialogue σ'} {inv : d.Invariant} {lift : σ → σ'}
variable {s : σ} {fs : List Frame} {k : Report}

theorem Invariant.holds_onFrame (hi : inv.holds s none) (f : Frame) :
    ∀ t, d.onFrame s f = .goto t → inv.holds t none := by
  intro t ht
  obtain ⟨m, s', m', hs, hr, ha⟩ := onFrame_inv ht (by simp)
  have hm : (d.select s f.type).All _ := inv.select hi
  rw [hs] at hm
  have hn : (d.accept s' m').All _ := inv.accept ((AnyMessage.messageType_receive hr).right ▸ hm)
  rw [ha] at hn
  exact hn

theorem Simulation.onFrame (h : Simulation inv d' lift) (hi : inv.holds s none) (f : Frame) :
    d'.onFrame (lift s) f = (d.onFrame s f).map lift := by
  have hs : (d.select s f.type).All _ := inv.select hi
  rw [Dialogue.onFrame, Dialogue.onFrame, h.select]
  cases he : d.select s f.type <;> rw [he] at hs
  case malformed => exact congrArg Move.fail (h.malformed s)
  case undefined => rfl
  case parse m s' =>
    simp only [Selection.map]
    cases hr : Message.receive m f.type f.body
    case none    => exact congrArg Move.fail (h.malformed s')
    case some m' => exact h.accept ((AnyMessage.messageType_receive hr).right ▸ hs)

-- The induction is on the messages.
theorem Simulation.onFrames_map (h : Simulation inv d' lift) (hi : inv.holds s none) : onFrames d'.onFrame (lift s) fs =
    ((onFrames d.onFrame s fs).1.map lift, (onFrames d.onFrame s fs).2) := by
  induction fs generalizing s
  case nil => rfl
  case cons f fs ih =>
    have ht := inv.holds_onFrame hi f
    rw [onFrames, onFrames, h.onFrame hi]
    cases hm : d.onFrame s f <;> rw [hm] at ht
    case goto t => exact ih (ht t rfl)
    all_goals rfl

theorem Simulation.onFrames_complete_iff (h : Simulation inv d' lift) (hi : inv.holds s none) :
    onFrames d'.onFrame (lift s) fs = (.complete k, []) ↔ onFrames d.onFrame s fs = (.complete k, []) := by
  rw [h.onFrames_map hi]
  generalize onFrames d.onFrame s fs = out
  obtain ⟨mv, left⟩ := out
  cases mv <;> simp [Move.map]

end Dialogue

namespace Oneshot

variable {ms : List ServerMessage} {m : ServerMessage} {k : Report}

-- Messages that may come first.
theorem onFrame_first (m : ServerMessage) : m.IsNotice ∨ m = .parseComplete ∨
    m.content.kind = some .errorResponse ∨ ∃ e, oneshot.onFrame {} m.frame = .fail e := by
  have ⟨content, valid, fits⟩ := m
  cases content
  case noticeResponse fields => exact .inl ⟨fields, rfl⟩
  case parseComplete         => exact .inr (.inl rfl)
  case errorResponse         => exact .inr (.inr (.inl rfl))
  all_goals exact .inr (.inr (.inr ⟨_, Dialogue.onFrame_malformed rfl⟩))

-- An answer that begins with an error has nothing but errors.
theorem kinds_of_refused {xs : List ServerMessage} {z : ServerMessage} (hm : m.content.kind = some .errorResponse)
    (h : Execute.Answered (m :: ms) xs z []) : ∃ j, kinds xs = .replicate (j + 1) .errorResponse := by
  have hk : kinds (m :: ms) = .errorResponse :: kinds ms := List.filterMap_cons_some hm
  obtain ⟨u, hu, hw⟩ := h.language
  have hz := h.split ▸ hk
  rw [show z :: [] = [z] from rfl] at hz
  rw [hw] at hz
  rw [kinds_concat, h.ready, Option.toList_some] at hw
  rw [(List.append_inj' hw rfl).left]
  rcases hu with (⟨j, rfl⟩ | rfl) | ⟨u, v, j, hu, ⟨w, hv⟩, rfl⟩
  · cases hz
  · cases hz
  · cases v
    case nil => exact ⟨j, rfl⟩
    case cons x v =>
      obtain ⟨rfl, _⟩ := List.cons.inj hz
      rcases hu with ⟨i, rfl⟩ | rfl <;> cases hv

theorem kinds_notice (h : m.IsNotice) : kinds (m :: ms) = kinds ms := by
  obtain ⟨fields, hc⟩ := h
  exact List.filterMap_cons_none (hc ▸ rfl)

theorem Response.notice (hn : m.IsNotice) (h : Response ms) : Response (m :: ms) := by
  cases h
  case parsed hns ha hf h => exact .parsed (List.forall_mem_cons.mpr ⟨hn, hns⟩) ha hf h
  case refused xs z j hj ha h =>
    have hm : m.content.AnswersExecute := by
      obtain ⟨fields, hc⟩ := hn
      exact hc ▸ trivial
    refine .refused (List.forall_mem_cons.mpr ⟨hm, ha⟩) ⟨?_, h.ready, ?_, ?_⟩ ((kinds_notice hn).trans hj)
    case refine_1 => rw [h.split, List.cons_append]
    case refine_2 => rw [kinds_notice hn]; exact h.first
    case refine_3 => rw [List.cons_append, kinds_notice hn]; exact h.language

theorem onFrames_ofExecute_iff {s : Execute.State} (hs : Execute.Holds s none) :
    onFrames oneshot.onFrame (ofExecute s) (frames ms) = (.complete k, []) ↔
      onFrames execute.onFrame s (frames ms) = (.complete k, []) :=
  simulates_execute.onFrames_complete_iff hs

-- What the operation completes at is a response. The induction is on the notices that come first.
theorem response_of_complete (h : onFrames oneshot.onFrame {} (frames ms) = (.complete k, [])) :
    Response ms ∧ k = delivered ms := by
  induction ms
  case nil => cases h
  case cons m ms ih =>
    rw [frames_cons, onFrames] at h
    rcases onFrame_first m with hn | rfl | he | ⟨e, hf⟩
    case inl =>
      rw [show oneshot.onFrame {} m.frame = _ from QueryOperation.onFrame_notice (q := .oneshot) hn _] at h
      obtain ⟨hr, hk⟩ := ih h
      exact ⟨hr.notice hn, hk.trans (delivered_cons (plain_of_notice hn)).symm⟩
    case inr.inl =>
      have hf : oneshot.onFrame {} ServerMessage.parseComplete.frame = .goto (ofExecute {}) := rfl
      rw [hf] at h
      have hc := (onFrames_ofExecute_iff Execute.invariant.start).mp h
      obtain ⟨xs, z, hx, ha, hw, hk⟩ := Execute.onFrames_complete_iff.mp hc
      refine ⟨.parsed (List.forall_mem_nil _) ha hw hx, hk.trans ?_⟩
      rw [delivered_cons .of_rfl, hx.split, delivered_concat (plain_of_ready hx.ready)]
    case inr.inr.inl =>
      obtain ⟨s, hx, ho, hs⟩ := onFrame_errorResponse he
      rw [ho] at h
      have hc : onFrames execute.onFrame execute.start (frames (m :: ms)) = (.complete k, []) := by
        rw [frames_cons, onFrames, show execute.onFrame execute.start m.frame = _ from hx]
        exact (onFrames_ofExecute_iff hs).mp h
      obtain ⟨xs, z, hx, ha, hw, hk⟩ := Execute.onFrames_complete_iff.mp hc
      obtain ⟨j, hj⟩ := kinds_of_refused he hx
      refine ⟨.refused ha hx hj, hk.trans ?_⟩
      rw [hx.split, delivered_concat (plain_of_ready hx.ready)]
    case inr.inr.inr => rw [hf] at h; cases h

theorem onFrames_complete_iff : onFrames oneshot.onFrame oneshot.start (frames ms) = (.complete k, []) ↔
    Response ms ∧ k = delivered ms := by
  refine ⟨response_of_complete, ?_⟩
  rintro ⟨hr, rfl⟩
  have hp : Refines oneshot.doParse oneshot.onFrame fun s => (⟨s, none⟩ : Dialogue.State State) := Dialogue.refines
  obtain ⟨fs, he, hc⟩ := hp.exists_frames Dialogue.resumable oneshot.rejectsShort (doParse_response hr)
  rw [List.append_nil] at he
  rwa [Frame.encodeAll_injective (he : Frame.encodeAll (frames ms) = _)]

-- Whatever bytes a server sends, and in whatever chunks they come: the parser of the operation completes regularly if
-- and only if they begin with a response to Parse, Bind, Describe, Execute and Sync, and it delivers what that says.
theorem feed_done_iff_response (cs : List Bytes) (rest : Bytes) (k : Report) :
    (∃ left unfed, feed oneshot.doParse oneshot.fresh cs = (.done k left, unfed) ∧ left ++ unfed.flatten = rest) ↔
      ∃ fs ms, cs.flatten = Frame.encodeAll fs ++ rest ∧ List.Forall₂ Frame.StandsFor fs ms ∧ Response ms ∧
        k = delivered ms := by
  rw [prepared.feed_done_iff]
  simp only [onFrames_complete_iff]

end Oneshot

namespace ParseQuery

variable {ms : List ServerMessage} {m : ServerMessage} {k : Report}

-- What the operation completes at, and the error code with which it does. An error ends it without a ReadyForQuery,
-- also after the ParseComplete.
inductive Answer : List ServerMessage → ErrorCode → Prop
  | refused {ns z fields} : (∀ n ∈ ns, n.IsNotice) → z.content = .errorResponse fields →
    Answer (ns ++ [z]) (makeEc (fields.errc .successfulCompletion))
  | parsed {ns p ns' z ec} : (∀ n ∈ ns, n.IsNotice) → p.content = .parseComplete → (∀ n ∈ ns', n.IsNotice) →
    SimpleQuery.ending? z.content = some ec → Answer (ns ++ p :: (ns' ++ [z])) ec

-- What is left of an answer when the ParseComplete has been read.
def Rest (ms : List ServerMessage) (ec : ErrorCode) : Prop :=
  ∃ ns z, ms = ns ++ [z] ∧ (∀ n ∈ ns, n.IsNotice) ∧ SimpleQuery.ending? z.content = some ec

-- What a well-formed message does.
def effect (stage : Stage) : Content → Move Stage Report
  | .noticeResponse _     => .goto stage
  | .errorResponse fields => .complete { ec := makeEc (fields.errc .successfulCompletion) }
  | .parseComplete        =>
    if stage = .waitForParseComplete then .goto .waitForReadyForQuery else .fail (parseQuery.malformed stage)
  | .readyForQuery _      =>
    if stage = .waitForReadyForQuery then .complete { ec := .none } else .fail (parseQuery.malformed stage)
  | _                     => .fail (parseQuery.malformed stage)

theorem onFrame_eq_effect {stage : Stage} : parseQuery.onFrame stage m.frame = effect stage m.content := by
  have ⟨content, valid, fits⟩ := m
  cases content
  case noticeResponse fields => exact QueryOperation.onFrame_notice (q := .parseQuery) ⟨fields, rfl⟩ stage
  case errorResponse fields =>
    have hr := AnyMessage.receive_map .errorResponse (ErrorResponse.receive valid)
    exact Dialogue.onFrame_eq (f := ⟨letter 'E', fields.encode, fits⟩) select_errorResponse hr
  case parseComplete => cases stage <;> rfl
  case readyForQuery status =>
    cases stage
    case waitForParseComplete => exact Dialogue.onFrame_malformed rfl
    case waitForReadyForQuery =>
      have hr := AnyMessage.receive_map .readyForQuery (ReadyForQuery.receive valid)
      exact Dialogue.onFrame_eq (f := ⟨letter 'Z', [status], fits⟩) rfl hr
  all_goals exact Dialogue.onFrame_malformed rfl

theorem effect_ending {ec : ErrorCode} (h : SimpleQuery.ending? m.content = some ec) :
    effect .waitForReadyForQuery m.content = .complete { ec } := by
  generalize m.content = c at h
  cases c <;> cases h <;> rfl

-- Notices do not matter.
theorem effect_notice {stage : Stage} (h : m.IsNotice) : effect stage m.content = .goto stage := by
  obtain ⟨fields, hc⟩ := h
  rw [hc, effect]

theorem onFrames_notices {stage : Stage} {ns : List ServerMessage} (h : ∀ n ∈ ns, n.IsNotice) :
    onFrames parseQuery.onFrame stage (frames (ns ++ ms)) = onFrames parseQuery.onFrame stage (frames ms) := by
  rw [frames_append]
  exact onFrames_skip fun n hn s => onFrame_eq_effect.trans (effect_notice (h n hn))

-- The induction is on the notices.
theorem rest_of_complete (h : onFrames parseQuery.onFrame .waitForReadyForQuery (frames ms) = (.complete k, [])) :
    Rest ms k.ec ∧ k = { ec := k.ec } := by
  induction ms
  case nil => cases h
  case cons m ms ih =>
    rw [frames_cons, onFrames, onFrame_eq_effect] at h
    cases hc : m.content <;> rw [hc, effect] at h <;> try cases h
    case noticeResponse fields =>
      obtain ⟨⟨ns, z, rfl, hn, hz⟩, hk⟩ := ih h
      exact ⟨⟨m :: ns, z, rfl, List.forall_mem_cons.mpr ⟨⟨fields, hc⟩, hn⟩, hz⟩, hk⟩
    case errorResponse fields =>
      obtain ⟨hk, hm⟩ := Prod.mk.inj h
      obtain rfl := List.map_eq_nil_iff.mp hm
      cases hk
      exact ⟨⟨[], m, rfl, List.forall_mem_nil _, by rw [hc]; rfl⟩, rfl⟩
    case readyForQuery =>
      obtain ⟨hk, hm⟩ := Prod.mk.inj h
      obtain rfl := List.map_eq_nil_iff.mp hm
      cases hk
      exact ⟨⟨[], m, rfl, List.forall_mem_nil _, by rw [hc]; rfl⟩, rfl⟩

theorem answer_of_complete (h : onFrames parseQuery.onFrame parseQuery.start (frames ms) = (.complete k, [])) :
    Answer ms k.ec ∧ k = { ec := k.ec } := by
  induction ms
  case nil => cases h
  case cons m ms ih =>
    rw [frames_cons, onFrames, onFrame_eq_effect] at h
    cases hc : m.content <;> rw [hc, effect] at h <;> try cases h
    case noticeResponse fields =>
      obtain ⟨ha, hk⟩ := ih h
      refine ⟨?_, hk⟩
      have hm : m.IsNotice := ⟨fields, hc⟩
      generalize k.ec = ec at ha
      cases ha
      case refused hn hz     => exact .refused (List.forall_mem_cons.mpr ⟨hm, hn⟩) hz
      case parsed hn hp hn' hz => exact .parsed (List.forall_mem_cons.mpr ⟨hm, hn⟩) hp hn' hz
    case errorResponse fields =>
      obtain ⟨hk, hm⟩ := Prod.mk.inj h
      obtain rfl := List.map_eq_nil_iff.mp hm
      cases hk
      exact ⟨.refused (List.forall_mem_nil _) hc, rfl⟩
    case parseComplete =>
      obtain ⟨⟨ns, z, rfl, hn, hz⟩, hk⟩ := rest_of_complete h
      exact ⟨.parsed (List.forall_mem_nil _) hc hn hz, hk⟩

theorem onFrames_complete_iff : onFrames parseQuery.onFrame parseQuery.start (frames ms) = (.complete k, []) ↔
    ∃ ec, Answer ms ec ∧ k = { ec } := by
  constructor
  case mp =>
    intro h
    obtain ⟨ha, hk⟩ := answer_of_complete h
    exact ⟨k.ec, ha, hk⟩
  case mpr =>
    rintro ⟨ec, ha, rfl⟩
    cases ha
    case refused hn hz =>
      rw [onFrames_notices hn, frames_cons, onFrames, onFrame_eq_effect, hz]
      rfl
    case parsed hn hp hn' hz =>
      have hs : parseQuery.start = .waitForParseComplete := rfl
      rw [onFrames_notices hn, frames_cons, onFrames, onFrame_eq_effect, hp, hs, effect, if_pos rfl]
      simp only
      rw [onFrames_notices hn', frames_cons, onFrames, onFrame_eq_effect, effect_ending hz]
      rfl

-- Whatever bytes a server sends, and in whatever chunks they come: the operation completes regularly if and only if
-- they begin with an answer to Parse and Sync, up to its first error or its ReadyForQuery.
theorem feed_done_iff_parsed (cs : List Bytes) (rest : Bytes) (k : Report) :
    (∃ left unfed, feed parseQuery.doParse parseQuery.fresh cs = (.done k left, unfed) ∧
        left ++ unfed.flatten = rest) ↔
      ∃ fs ms ec, cs.flatten = Frame.encodeAll fs ++ rest ∧ List.Forall₂ Frame.StandsFor fs ms ∧ Answer ms ec ∧
        k = { ec } := by
  rw [prepared.feed_done_iff]
  simp only [onFrames_complete_iff]
  constructor
  case mp =>
    rintro ⟨fs, ms, hc, hs, ec, h⟩
    exact ⟨fs, ms, ec, hc, hs, h⟩
  case mpr =>
    rintro ⟨fs, ms, ec, hc, hs, h⟩
    exact ⟨fs, ms, hc, hs, ec, h⟩

end ParseQuery

end ChxSql.Postgresql

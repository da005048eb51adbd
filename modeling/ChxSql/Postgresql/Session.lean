import ChxSql.Postgresql.Execute
import ChxSql.Postgresql.ParseQuery
import ChxSql.Postgresql.ServerMessage
import ChxSql.Postgresql.SimpleQuery

namespace ChxSql.Postgresql

open Incremental Msg

-- The query operations that run one after another on a connection.
inductive Query where
  | parse
  | execute
  | simpleQuery
  deriving DecidableEq, Repr

def Query.State : Query → Type
  | parse       => ParseQuery.Stage
  | execute     => Execute.State
  | simpleQuery => SimpleQuery.State

def Query.dialogue : (q : Query) → Dialogue q.State
  | parse       => parseQuery
  | execute     => Postgresql.execute
  | simpleQuery => Postgresql.simpleQuery

-- What a server sends for one request: it ends in the only ReadyForQuery, and when an error has
-- occurred there are only notices before that.
structure Response where
  messages   : List Frame
  status     : Byte
  isStatus   : ReadyForQuery.IsStatus status
  first      : ∀ f ∈ messages, f.type ≠ letter 'Z'
  afterError : messages.Pairwise fun f g => f.type = letter 'E' → g.type = letter 'N'

namespace Response

def ready (r : Response) : Frame where
  type := letter 'Z'
  body := [r.status]
  fits := by simp

def frames (r : Response) : List Frame :=
  r.messages ++ [r.ready]

-- Nothing follows the ReadyForQuery.
theorem eq_nil_of_ready {r : Response} {pre post : List Frame} {f : Frame}
    (h : r.frames = pre ++ f :: post) (hf : f.type = letter 'Z') : post = [] := by
  cases post using List.reverseRecOn
  case nil => rfl
  case append_singleton post g _ =>
    have hm : r.messages = pre ++ f :: post := by
      rw [frames, ← List.cons_append, ← List.append_assoc] at h
      exact List.append_inj_left' h rfl
    exact absurd hf (r.first f (by simp [hm]))

end Response

structure Request where
  query    : Query
  response : Response

-- What the user of an operation is told.
inductive Verdict where
  | reading
  | complete (r : Report)
  | failed (e : Failure Report)
  deriving DecidableEq

def Verdict.of {S : Type} : Step Byte S Report (Failure Report) → Verdict
  | .more ..  => reading
  | .done r _ => complete r
  | .fail e _ => failed e

def Verdict.isComplete : Verdict → Bool
  | complete _ => true
  | _          => false

namespace Query

-- An operation starts with what is left in `[__M_buf_begin, __M_buf_end)` and then reads.
def run (q : Query) (buf : Bytes) (reads : List Bytes) :
    Step Byte (Dialogue.State q.State) Report (Failure Report) × List Bytes :=
  feed q.dialogue.doParse q.dialogue.fresh (buf :: reads)

end Query

-- An operation of a session: the bytes that were unread when it started, what it told the user, and
-- the bytes that were unread when it had ended.
structure Started where
  unread  : Bytes
  verdict : Verdict
  left    : Bytes
  deriving DecidableEq

-- Operations that are run one after another on the same connection. After one that did not complete
-- regularly no other one is started.
def session : List Query → Bytes → List Bytes → List Started
  | [], _, _             => []
  | q :: qs, buf, reads =>
    let out := q.run buf reads
    ⟨buf ++ reads.flatten, .of out.1, out.1.rest ++ out.2.flatten⟩ ::
      match out with
      | (.done _ left, unfed) => session qs left unfed
      | _                     => []

namespace Request

-- What the server sends for requests.
def stream (reqs : List Request) : Bytes :=
  Frame.encodeAll (reqs.flatMap (·.response.frames))

-- What the operation comes to if it is given its response on a fresh connection.
def alone (req : Request) : Verdict :=
  .of (req.query.run [] [Frame.encodeAll req.response.frames]).1

-- Every operation starts at the first byte of its response and ends as on that response alone. If it
-- completes regularly, then it has consumed the whole response.
def Attributed : List Request → List Started → Prop
  | _, []                   => True
  | [], _ :: _              => False
  | req :: reqs, st :: sts =>
    st.unread = stream (req :: reqs) ∧ st.verdict = req.alone ∧
    (st.verdict.isComplete → st.left = stream reqs) ∧ Attributed reqs sts

instance decidableAttributed : DecidableRel Attributed
  | reqs, []               => .isTrue (by cases reqs <;> trivial)
  | [], _ :: _             => inferInstanceAs (Decidable False)
  | req :: reqs, st :: sts =>
    have := decidableAttributed reqs sts
    inferInstanceAs (Decidable (st.unread = stream (req :: reqs) ∧ st.verdict = req.alone ∧
      (st.verdict.isComplete → st.left = stream reqs) ∧ Attributed reqs sts))

-- The operation is `async_parse` or `async_simple_query`, and it gets to a well-formed ErrorResponse.
def ReachesError (req : Request) : Prop :=
  req.query ≠ .execute ∧ ∃ pre f post s, req.response.frames = pre ++ f :: post ∧
    onFrames req.query.dialogue.onFrame req.query.dialogue.start pre = (.goto s, []) ∧
    f.type = letter 'E' ∧ (Message.receive ({} : ErrorResponse) f.type f.body).isSome

end Request

namespace Query

variable {q : Query} {s : q.State} {f : Frame} {r : Report}

theorem select_errorResponse (h : q ≠ .execute) :
    q.dialogue.select s (letter 'E') = .parse (.errorResponse {}) s := by
  cases q
  case parse       => exact ParseQuery.select_errorResponse
  case simpleQuery => exact SimpleQuery.select_errorResponse
  case execute     => contradiction

-- A message that completes an operation regularly.
theorem messageType_of_complete {m : AnyMessage} (h : q.dialogue.accept s m = .complete r) :
    Message.messageType m = letter 'Z' ∨ q ≠ .execute ∧ Message.messageType m = letter 'E' := by
  cases q
  case parse       => exact (ParseQuery.accept_complete h).imp id (⟨nofun, ·⟩)
  case simpleQuery => exact (SimpleQuery.accept_complete h).imp id (⟨nofun, ·⟩)
  case execute     => exact .inl (Execute.accept_complete h)

theorem onFrame_complete (h : q.dialogue.onFrame s f = .complete r) : f.type = letter 'Z' ∨
    q ≠ .execute ∧ f.type = letter 'E' ∧
      (Message.receive ({} : ErrorResponse) f.type f.body).isSome := by
  have ⟨m, s', m', hs, hm, ha⟩ := Dialogue.onFrame_inv h nofun
  have ⟨ht, hm'⟩ := AnyMessage.messageType_receive hm
  rw [← ht] at hm'
  cases messageType_of_complete ha
  case inl hz => exact .inl (hm'.symm.trans hz)
  case inr he =>
    have hf := hm'.symm.trans he.right
    rw [hf, select_errorResponse he.left] at hs
    cases hs
    rw [AnyMessage.receive_inj .errorResponse] at hm
    have ⟨m, hm, _⟩ := Option.map_eq_some_iff.mp hm
    exact .inr ⟨he.left, hf, Option.isSome_of_eq_some hm⟩

theorem onFrame_error (h : q ≠ .execute) (hf : f.type = letter 'E')
    (hm : (Message.receive ({} : ErrorResponse) f.type f.body).isSome) :
    ∃ r, q.dialogue.onFrame s f = .complete r := by
  have ⟨m, hm⟩ := Option.isSome_iff_exists.mp hm
  have hr := AnyMessage.receive_map .errorResponse hm
  rw [Dialogue.onFrame_eq (hf ▸ select_errorResponse h) hr]
  cases q
  case parse       => exact ⟨_, rfl⟩
  case simpleQuery => exact ⟨_, rfl⟩
  case execute     => contradiction

-- At a ReadyForQuery each operation ends in one way or another.
theorem onFrame_ready {resp : Response} {s' : q.State} :
    q.dialogue.onFrame s resp.ready ≠ .goto s' := by
  have hr : Message.receive (.readyForQuery {} : AnyMessage) (letter 'Z') [resp.status] =
      some (.readyForQuery ⟨resp.status⟩) :=
    AnyMessage.receive_map .readyForQuery (ReadyForQuery.receive resp.isStatus)
  cases hs : q.dialogue.select s resp.ready.type
  case malformed => rw [Dialogue.onFrame_malformed hs]; rintro ⟨⟩
  case undefined => simp only [Dialogue.onFrame, hs]; rintro ⟨⟩
  case parse m s₁ =>
    have hm : m = .readyForQuery {} := by
      cases q
      case simpleQuery => cases SimpleQuery.select_readyForQuery.symm.trans hs; rfl
      case parse =>
        replace hs := ParseQuery.select_readyForQuery.symm.trans hs
        split at hs <;> cases hs
        rfl
      case execute =>
        replace hs := Execute.select_readyForQuery.symm.trans hs
        split at hs <;> cases hs
        rfl
    rw [hm] at hs
    rw [Dialogue.onFrame_eq hs hr]
    cases q <;> rintro ⟨⟩

end Query

namespace Request

variable {req : Request} {reqs : List Request} {r : Report} {left : List Frame}

-- What the operation does with its response.
def outcome (req : Request) : Move req.query.State Report × List Frame :=
  onFrames req.query.dialogue.onFrame req.query.dialogue.start req.response.frames

theorem outcome_ended {mv} (h : req.outcome = (mv, left)) (s : req.query.State) : mv ≠ .goto s := by
  rintro rfl
  cases hm : onFrames req.query.dialogue.onFrame req.query.dialogue.start req.response.messages
  case mk mv' left' =>
    cases mv'
    case goto s' =>
      rw [outcome, Response.frames, onFrames_append hm, onFrames] at h
      cases hr : req.query.dialogue.onFrame s' req.response.ready <;> rw [hr] at h
      case goto => exact Query.onFrame_ready hr
      all_goals cases h
    all_goals
      rw [outcome, Response.frames, onFrames_append_of_ended hm (by simp)] at h
      cases h

theorem outcome_of_reachesError (h : req.ReachesError) :
    ∃ r left, left ≠ [] ∧ req.outcome = (.complete r, left) := by
  have ⟨hq, pre, f, post, s, hf, hp, ht, hm⟩ := h
  have ⟨r, hr⟩ := Query.onFrame_error (s := s) hq ht hm
  refine ⟨r, post, ?_, by rw [outcome, hf, onFrames_append hp, onFrames, hr]⟩
  rintro rfl
  have hl := List.append_inj_right' (hf : req.response.messages ++ [req.response.ready] = _) rfl
  rw [← (List.cons.inj hl).left] at ht
  exact absurd (show letter 'Z' = letter 'E' from ht) (by decide)

-- An operation that completes regularly has left nothing of its response, unless it has completed at
-- an ErrorResponse.
theorem left_eq_nil (h : req.outcome = (.complete r, left)) (he : ¬req.ReachesError) : left = [] := by
  have ⟨pre, f, s, hf, hp, hr⟩ := onFrames_complete h
  cases Query.onFrame_complete hr
  case inr h => exact absurd ⟨h.left, pre, f, left, s, hf, hp, h.right⟩ he
  case inl h => exact Response.eq_nil_of_ready hf h

theorem shows_run {buf : Bytes} {reads : List Bytes} {mv} (rest : List Frame)
    (h : req.outcome = (mv, left))
    (hc : buf ++ reads.flatten = Frame.encodeAll (req.response.frames ++ rest)) :
    Shows (fun s => ⟨s, none⟩) (mv, left ++ rest) (req.query.run buf reads) := by
  rw [← onFrames_append_of_ended h (outcome_ended h) rest]
  exact Dialogue.refines.feed_frames Dialogue.resumable hc

theorem alone_eq {mv} (h : req.outcome = (mv, left)) :
    req.alone = match mv with
      | .goto _     => .reading
      | .complete r => .complete r
      | .fail e     => .failed e := by
  have hc : [] ++ [Frame.encodeAll req.response.frames].flatten =
      Frame.encodeAll (req.response.frames ++ []) := by simp
  have hs := shows_run [] h hc
  rw [List.append_nil] at hs
  rw [alone]
  generalize req.query.run [] [Frame.encodeAll req.response.frames] = out at hs
  cases hs <;> rfl

theorem stream_cons : stream (req :: reqs) =
    Frame.encodeAll (req.response.frames ++ reqs.flatMap (·.response.frames)) := rfl

-- In every session, responses are attributed to the operations that they are meant for if and only
-- if none of the operations `async_parse` and `async_simple_query` gets to an ErrorResponse.
theorem attributed_iff {buf : Bytes} {reads : List Bytes} (h : buf ++ reads.flatten = stream reqs) :
    Attributed reqs (session (reqs.map (·.query)) buf reads) ↔
    ∀ req ∈ reqs.take (session (reqs.map (·.query)) buf reads).length, ¬req.ReachesError := by
  induction reqs generalizing buf reads
  case nil => simp [session, Attributed]
  case cons req reqs ih =>
    cases ho : req.outcome
    case mk mv left =>
      have hs := shows_run _ ho (h.trans stream_cons)
      have ha := alone_eq ho
      simp only [List.map_cons, session]
      generalize req.query.run buf reads = out at hs
      generalize hl : left ++ reqs.flatMap (·.response.frames) = fs at hs
      cases hs
      case goto => exact absurd rfl (outcome_ended ho _)
      case fail e l unfed =>
        have hn : ¬req.ReachesError := by
          intro he
          have ⟨_, _, _, hr⟩ := outcome_of_reachesError he
          cases hr.symm.trans ho
        simpa [Attributed, Verdict.of, Verdict.isComplete, h, ha] using hn
      case complete r l unfed hf =>
        have hs : l ++ unfed.flatten = stream reqs ↔ ¬req.ReachesError := by
          constructor
          case mpr =>
            intro he
            rw [hf, ← hl, left_eq_nil ho he, List.nil_append, stream]
          case mp =>
            intro hu he
            have ⟨_, _, hn, hr⟩ := outcome_of_reachesError he
            cases hr.symm.trans ho
            rw [hf, ← hl, Frame.encodeAll_append, stream, List.append_left_eq_self] at hu
            exact hn (Frame.encodeAll_eq_nil hu)
        simp only [Attributed, Verdict.of, Verdict.isComplete, h, ha, Step.rest, hs, List.length_cons,
          List.take_succ_cons, List.forall_mem_cons, true_and, forall_const]
        exact and_congr_right fun he => ih (hs.mpr he)

-- An `async_parse` that succeeds.
def parsed : Request where
  query    := .parse
  response := ⟨[⟨letter '1', [], Frame.fits_nil⟩], letter 'I', by decide, by decide, by decide⟩

-- An `async_parse` of a statement with a syntax error.
def rejected : Request where
  query    := .parse
  response := {
    messages   := [⟨letter 'E', Fields.encode [(letter 'C', ascii "42601")], by decide⟩]
    status     := letter 'I'
    isStatus   := by decide
    first      := by decide
    afterError := by decide
  }

theorem attributed_iff_parsed :
    Attributed [parsed, parsed] (session [.parse, .parse] (stream [parsed, parsed]) []) ↔
    ∀ req ∈ [parsed, parsed].take
      (session [.parse, .parse] (stream [parsed, parsed]) []).length, ¬req.ReachesError :=
  attributed_iff (List.append_nil (stream [parsed, parsed]))

-- The ReadyForQuery of the failed operation is left to the next one.
theorem rejected_not_attributed :
    ¬Attributed [rejected, parsed] (session [.parse, .parse] [] [stream [rejected], stream [parsed]]) := by
  decide +kernel

end Request

end ChxSql.Postgresql

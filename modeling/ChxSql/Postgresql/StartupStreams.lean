import ChxSql.Postgresql.AcceptedStreams
import ChxSql.Postgresql.Startup

namespace ChxSql.Postgresql.Connect

open Incremental Msg ServerMessage

-- What a message of the server leads to that does not end the operation: the stage in which it goes on, and whether
-- it sends the password.
inductive Leads : Stage → Content → Stage → Bool → Prop
  | dismissed {c} : c.Dismissable → Leads .readS1 c .readS1 false
  | asked {c} : c.Requests .cleartextPassword → Leads .readS1 c .waitForAuthSuccess true
  | restarted {c} : c.Dismissable → Leads .waitForAuthSuccess c .readS1 false
  | passed {c} : c.Requests .trustOrFinished → Leads .waitForAuthSuccess c .waitTillReady false
  | finishing {c} : c.Dismissable ∨ c.IsKey → Leads .waitTillReady c .waitTillReady false

-- The messages that end it, and the error code with which they do.
inductive Ends : Stage → Content → ErrorCode → Prop
  | trusted {c} : c.Requests .trustOrFinished → Ends .readS1 c .none
  | unsupported {method data} : method ≠ .trustOrFinished → method ≠ .cleartextPassword → method.Takes data →
    Ends .readS1 (.authentication method data) (makeEc .sqlclientUnableToEstablishSqlconnection)
  | ready {c} : c.IsReady → Ends .waitTillReady c .none
  | refused {stage fields} : Ends stage (.errorResponse fields) (makeEc (fields.errc .successfulCompletion))

-- The messages that lead to a stage.
inductive Reaches : List ServerMessage → Stage → Prop
  | start : Reaches [] .readS1
  | step {ms m stage stage' sends} : Reaches ms stage → Leads stage m.content stage' sends →
    Reaches (ms ++ [m]) stage'

-- How often the server asks for the password.
def passwordRequests (ms : List ServerMessage) : Nat :=
  ms.countP (·.content.Requests .cleartextPassword)

section

variable {para : ConnectParameters} {ctl : Ctl} {m : ServerMessage} {ms pre : List ServerMessage}
variable {stage stage' : Stage} {sends : Bool} {ec : ErrorCode} {method : AuthenticationMethod} {data : Bytes}

theorem fresh_of_table {type : Byte} {a : AnyMessage} (h : stage.table type = some a) : a.Fresh := by
  have ⟨hm, _⟩ := msgTypeJumpTable_eq_some h
  cases stage <;> simp only [Stage.messages, common, List.mem_cons, List.not_mem_nil, or_false] at hm
  case readS1 | waitForAuthSuccess => rcases hm with rfl | rfl | rfl | rfl <;> constructor
  case waitTillReady               => rcases hm with rfl | rfl | rfl | rfl | rfl <;> constructor

theorem understands : Understands (onFrame para) where
  onFrame_eq {ctl f m} h := by
    rw [onFrame, onFrame, MessageParser.receive, MessageParser.receive, h.type_eq]
    cases ht : ctl.stage.table m.frame.type
    case none   => rfl
    case some a =>
      have hr := h.receive_eq (fresh_of_table ht)
      rw [h.type_eq] at hr
      simp only [Option.bind_some, hr]
  exists_message {ctl f} hf := by
    rw [onFrame, MessageParser.receive] at hf
    cases ht : ctl.stage.table f.type
    case none => simp [ht] at hf
    case some a =>
      cases hr : Message.receive a f.type f.body
      case none => simp [ht, hr] at hf
      case some a' =>
        obtain ⟨m, hm, _⟩ := AnyMessage.exists_message (fresh_of_table ht) hr
        exact ⟨m, hm⟩

variable (para) in
theorem onFrame_takes (valid fits) (hd : method.Takes data) (ht : ctl.stage ≠ .waitTillReady) :
    ∃ r, r.authenticationMethod = method ∧
      onFrame para ctl (ServerMessage.frame ⟨.authentication method data, valid, fits⟩) =
        onMessage para ctl (.authentication r) := by
  have ⟨r, hr⟩ := Authentication.exists_receive hd
  have ht : ctl.stage.table (letter 'R') = some (.authentication {}) := by
    have ⟨stage, sent⟩ := ctl
    cases stage <;> first | rfl | contradiction
  exact ⟨r, Authentication.authenticationMethod_receive hr, onFrame_eq ht (AnyMessage.receive_map .authentication hr)⟩

theorem onFrame_fails {valid fits} (h : ctl.stage = .waitTillReady ∨ ¬method.Takes data) :
    onFrame para ctl (ServerMessage.frame ⟨.authentication method data, valid, fits⟩) = .fail (malformed ctl) := by
  have hn {body : Bytes} {fits} : MessageParser.receive ctl.stage.table (letter 'R') body = none →
      onFrame para ctl ⟨letter 'R', body, fits⟩ = .fail (malformed ctl) := onFrame_none
  refine hn ?_
  rw [MessageParser.receive]
  obtain ⟨stage, sent⟩ := ctl
  by_cases hs : stage = .waitTillReady
  case pos => cases hs; rfl
  case neg =>
    have ht : stage.table (letter 'R') = some (.authentication {}) := by
      cases stage <;> first | rfl | contradiction
    rw [ht, Option.bind_some, AnyMessage.receive_inj .authentication, Option.map_eq_none_iff]
    by_contra hn
    obtain ⟨r, hr⟩ := Option.ne_none_iff_exists'.mp hn
    exact h.resolve_left hs (Authentication.exists_receive_iff.mp ⟨r, hr⟩)

theorem onFrame_refused {fields valid fits} :
    onFrame para ctl (ServerMessage.frame ⟨.errorResponse fields, valid, fits⟩) =
      complete ctl (makeEc (fields.errc .successfulCompletion)) := by
  have ht : ctl.stage.table (letter 'E') = some (.errorResponse {}) := by
    cases ctl.stage <;> rfl
  refine (onFrame_eq ht (AnyMessage.receive_map .errorResponse (ErrorResponse.receive valid))).trans ?_
  have ⟨stage, sent⟩ := ctl
  cases stage <;> rfl

-- What a stage does with a request that comes without data.
theorem onFrame_asked (h : m.content.Requests .cleartextPassword) (ht : ctl.stage ≠ .waitTillReady) :
    onFrame para ctl m.frame =
      onMessage para ctl (.authentication { result := .method .cleartextPassword }) :=
  onFrame_authentication ctl h (by decide) (by decide) ht

theorem onFrame_trusted (h : m.content.Requests .trustOrFinished) (ht : ctl.stage ≠ .waitTillReady) :
    onFrame para ctl m.frame =
      onMessage para ctl (.authentication { result := .method .trustOrFinished }) :=
  onFrame_authentication ctl h (by decide) (by decide) ht

theorem Leads.onFrame_eq (h : Leads ctl.stage m.content stage sends) : onFrame para ctl m.frame =
    .goto ⟨stage, ctl.sent ++ if sends then [passwordMessage para.password] else []⟩ := by
  have ⟨stage₀, sent⟩ := ctl
  generalize hc : m.content = c at h
  cases h
  case dismissed hd => rw [onFrame_dismissable (hc ▸ hd)]; simp
  case restarted hd => rw [onFrame_dismissable (hc ▸ hd)]; simp
  case asked hr     => rw [onFrame_asked (hc ▸ hr) (by simp)]; rfl
  case passed hr    => rw [onFrame_trusted (hc ▸ hr) (by simp)]; simp [onMessage, Authentication.authenticationMethod]
  case finishing hd =>
    rcases hd with hd | hk
    · rw [onFrame_dismissable (hc ▸ hd)]; simp
    · rw [onFrame_key (hc ▸ hk) rfl]; simp

theorem onFrame_unknown {valid fits} {sent : List Bytes} (ho : method ≠ .trustOrFinished)
    (hc : method ≠ .cleartextPassword) (hd : method.Takes data) :
    onFrame para ⟨.readS1, sent⟩ (ServerMessage.frame ⟨.authentication method data, valid, fits⟩) =
      complete ⟨.readS1, sent⟩ (makeEc .sqlclientUnableToEstablishSqlconnection) := by
  have hs : (⟨.readS1, sent⟩ : Ctl).stage ≠ .waitTillReady := by simp
  have ⟨r, hr, hf⟩ := onFrame_takes para valid fits hd hs
  rw [hf]
  cases method <;> first | contradiction | simp only [onMessage, hr]

theorem onFrame_confused {valid fits} {sent : List Bytes} (ho : method ≠ .trustOrFinished) (hd : method.Takes data) :
    onFrame para ⟨.waitForAuthSuccess, sent⟩ (ServerMessage.frame ⟨.authentication method data, valid, fits⟩) =
      .fail (malformed ⟨.waitForAuthSuccess, sent⟩) := by
  have hs : (⟨.waitForAuthSuccess, sent⟩ : Ctl).stage ≠ .waitTillReady := by simp
  have ⟨r, hr, hf⟩ := onFrame_takes para valid fits hd hs
  rw [hf]
  cases method <;> first | contradiction | simp only [onMessage, hr]

theorem Ends.onFrame_eq (h : Ends ctl.stage m.content ec) : onFrame para ctl m.frame = complete ctl ec := by
  have ⟨stage, sent⟩ := ctl
  have ⟨content, valid, fits⟩ := m
  cases h
  case trusted hr             => rw [onFrame_trusted hr (by simp)]; rfl
  case ready hz               => exact onFrame_ready hz rfl
  case refused                => exact onFrame_refused
  case unsupported => exact onFrame_unknown ‹_› ‹_› ‹_›

-- Nothing else is taken.
theorem onFrame_cases (para : ConnectParameters) (ctl : Ctl) (m : ServerMessage) : (∃ stage sends, Leads ctl.stage m.content stage sends) ∨
    (∃ ec, Ends ctl.stage m.content ec) ∨ onFrame para ctl m.frame = .fail (malformed ctl) := by
  have ⟨stage, sent⟩ := ctl
  have ⟨content, valid, fits⟩ := m
  cases content
  case errorResponse => exact .inr (.inl ⟨_, .refused⟩)
  case parameterStatus =>
    cases stage
    case readS1             => exact .inl ⟨_, _, .dismissed trivial⟩
    case waitForAuthSuccess => exact .inl ⟨_, _, .restarted trivial⟩
    case waitTillReady      => exact .inl ⟨_, _, .finishing (.inl trivial)⟩
  case noticeResponse =>
    cases stage
    case readS1             => exact .inl ⟨_, _, .dismissed trivial⟩
    case waitForAuthSuccess => exact .inl ⟨_, _, .restarted trivial⟩
    case waitTillReady      => exact .inl ⟨_, _, .finishing (.inl trivial)⟩
  case readyForQuery =>
    cases stage
    case waitTillReady => exact .inr (.inl ⟨_, .ready trivial⟩)
    all_goals exact .inr (.inr (onFrame_none rfl))
  case backendKeyData =>
    cases stage
    case waitTillReady => exact .inl ⟨_, _, .finishing (.inr trivial)⟩
    all_goals exact .inr (.inr (onFrame_none rfl))
  case authentication method data =>
    by_cases hd : method.Takes data
    case neg => exact .inr (.inr (onFrame_fails (.inr hd)))
    case pos =>
      cases stage
      case waitTillReady => exact .inr (.inr (onFrame_fails (.inl rfl)))
      case readS1 =>
        by_cases ho : method = .trustOrFinished
        case pos => exact .inr (.inl ⟨_, .trusted ho⟩)
        by_cases hc : method = .cleartextPassword
        case pos => exact .inl ⟨_, _, .asked hc⟩
        exact .inr (.inl ⟨_, .unsupported ho hc hd⟩)
      case waitForAuthSuccess =>
        by_cases ho : method = .trustOrFinished
        case pos => exact .inl ⟨_, _, .passed ho⟩
        exact .inr (.inr (onFrame_confused ho hd))
  all_goals
    refine .inr (.inr (onFrame_none ?_))
    cases stage <;> rfl

theorem Leads.asks_iff (h : Leads stage m.content stage' sends) :
    sends ↔ m.content.Requests .cleartextPassword := by
  generalize m.content = c at h
  cases h
  case dismissed hd => simp [not_requests_of_dismissable hd]
  case restarted hd => simp [not_requests_of_dismissable hd]
  case asked hr     => simp [hr]
  case passed hr    =>
    have : ¬c.Requests .cleartextPassword := fun hc => absurd (Requests.unique hr hc) (by decide)
    simp [this]
  case finishing hd => simp [hd.elim not_requests_of_dismissable not_requests_of_key]

variable (para) in
-- What the operation keeps when it has read messages that lead to a stage: it has answered each request for a
-- password, and has sent nothing else.
def after (stage : Stage) (ms : List ServerMessage) : Ctl :=
  ⟨stage, List.replicate (passwordRequests ms) (passwordMessage para.password)⟩

theorem onFrame_after (h : Leads stage m.content stage' sends) :
    onFrame para (after para stage ms) m.frame = .goto (after para stage' (ms ++ [m])) := by
  have hl : Leads (after para stage ms).stage m.content stage' sends := h
  rw [hl.onFrame_eq, after, after]
  have ha := h.asks_iff
  cases sends
  case true  => simp [passwordRequests, ← ha, List.replicate_succ']
  case false => simp [passwordRequests, ← ha]

-- The induction is on the messages, to which one is added at the end.
theorem Reaches.onFrames_eq (h : Reaches ms stage) :
    onFrames (onFrame para) {} (frames ms) = (.goto (after para stage ms), []) := by
  induction h
  case start => rfl
  case step hl ih => rw [frames_append, onFrames_append ih, frames_cons, onFrames, onFrame_after hl]; rfl

theorem Reaches.of_onFrames (hp : Reaches pre stage)
    (h : onFrames (onFrame para) (after para stage pre) (frames ms) = (.goto ctl, [])) :
    Reaches (pre ++ ms) ctl.stage ∧ ctl = after para ctl.stage (pre ++ ms) := by
  induction ms generalizing pre stage
  case nil =>
    cases h
    exact ⟨by rwa [List.append_nil], by rw [List.append_nil]; rfl⟩
  case cons m ms ih =>
    rw [frames_cons, onFrames] at h
    obtain ⟨stage', sends, hl⟩ | ⟨ec, he⟩ | hf := onFrame_cases para (after para stage pre) m
    case inl =>
      have hl : Leads stage m.content stage' sends := hl
      rw [onFrame_after hl] at h
      rw [List.append_cons]
      exact ih (.step hp hl) h
    case inr.inl => rw [he.onFrame_eq] at h; cases h
    case inr.inr => rw [hf] at h; cases h

theorem reaches_of_onFrames (h : onFrames (onFrame para) {} (frames ms) = (.goto ctl, [])) :
    Reaches ms ctl.stage ∧ ctl = after para ctl.stage ms := by
  have hs : onFrames (onFrame para) (after para .readS1 []) (frames ms) = (.goto ctl, []) := h
  simpa using Reaches.start.of_onFrames hs

theorem onFrames_complete_iff {k : Report} : onFrames (onFrame para) {} (frames ms) = (.complete k, []) ↔
    ∃ pre z stage ec, ms = pre ++ [z] ∧ Reaches pre stage ∧ Ends stage z.content ec ∧
      k = ⟨ec, List.replicate (passwordRequests pre) (passwordMessage para.password)⟩ := by
  constructor
  case mpr =>
    rintro ⟨pre, z, stage, ec, rfl, hr, hz, rfl⟩
    have he : Ends (after para stage pre).stage z.content ec := hz
    rw [frames_append, onFrames_append hr.onFrames_eq, frames_cons, onFrames, he.onFrame_eq]
    rfl
  case mp =>
    intro hc
    obtain ⟨xs, f, ctl, hm, hg, hk⟩ := onFrames_complete hc
    obtain ⟨pre, zs, rfl, hx, hz⟩ := List.map_eq_append_iff.mp hm
    obtain ⟨z, ys, rfl, rfl, hy⟩ := List.map_eq_cons_iff.mp hz
    obtain rfl := List.map_eq_nil_iff.mp hy
    obtain ⟨hr, ha⟩ := reaches_of_onFrames (hx ▸ hg : onFrames _ _ (frames pre) = _)
    obtain ⟨stage', sends, hl⟩ | ⟨ec, he⟩ | hf := onFrame_cases para ctl z
    case inl     => rw [hl.onFrame_eq] at hk; cases hk
    case inr.inr => rw [hf] at hk; cases hk
    case inr.inl =>
      refine ⟨pre, z, ctl.stage, ec, rfl, hr, he, ?_⟩
      rw [he.onFrame_eq, ha] at hk
      exact (Move.complete.inj hk).symm

-- Whatever bytes a server sends, and in whatever chunks they come: the operation completes where they are messages
-- that lead to one that ends it, and nowhere else.
theorem feed_done_iff_reaches (para : ConnectParameters) (cs : List Bytes) (rest : Bytes) (k : Report) :
    (∃ left unfed, feed (doRead para) fresh cs = (.done k left, unfed) ∧ left ++ unfed.flatten = rest) ↔
      ∃ fs pre z stage ec, cs.flatten = Frame.encodeAll fs ++ rest ∧ List.Forall₂ Frame.StandsFor fs (pre ++ [z]) ∧
        Reaches pre stage ∧ Ends stage z.content ec ∧
        k = ⟨ec, List.replicate (passwordRequests pre) (passwordMessage para.password)⟩ := by
  rw [fresh, understands.feed_done_iff refines resumable rejectsShort]
  simp only [onFrames_complete_iff]
  constructor
  case mp =>
    rintro ⟨fs, _, hc, hs, pre, z, stage, ec, rfl, h⟩
    exact ⟨fs, pre, z, stage, ec, hc, hs, h⟩
  case mpr =>
    rintro ⟨fs, pre, z, stage, ec, hc, hs, h⟩
    exact ⟨fs, _, hc, hs, pre, z, stage, ec, rfl, h⟩

-- What the operation has sent when it comes to a halt.
def sent : Step Byte State Report (Failure Report) → List Bytes
  | .more s _              => s.ctl.sent
  | .done k _              => k.sent
  | .fail (.malformed k) _ => k.sent
  | .fail .undefined _     => []

theorem complete_sent {k : Report} {a : AnyMessage} (h : onMessage para ctl a = .complete k) : k.sent = ctl.sent := by
  simp only [onMessage] at h
  split at h
  case h_1 | h_2 => split at h <;> cases h <;> rfl
  all_goals cases h <;> rfl

theorem malformed_of_fail {e : Failure Report} {a : AnyMessage} (h : onMessage para ctl a = .fail e) :
    e = malformed ctl ∨ e = .undefined := by
  simp only [onMessage] at h
  split at h
  case h_1 | h_2 => split at h <;> cases h <;> exact .inl rfl
  all_goals cases h <;> exact .inr rfl

-- What the parser of a stage accepts is a whole message.
theorem exists_frame (para : ConnectParameters) {a : AnyMessage} {part r : Bytes}
    (h : MessageParser.parse ctl.stage.table ctl.stage.parser part = .done a r) :
    ∃ f, part = Frame.encode f ++ r ∧ onFrame para ctl f = onMessage para ctl a := by
  cases part
  case nil => rw [Stage.parser, MessageParser.parse_nil] at h; cases h
  case cons type part =>
    rw [Stage.parser] at h
    cases ht : ctl.stage.table type
    case none => rw [MessageParser.parse_none ht] at h; cases h
    case some a₀ =>
      rw [MessageParser.parse_some ht] at h
      obtain ⟨f, hf, hr⟩ := BasicParser.parse_done_iff.mp h
      have hy : f.type = type := (List.cons.inj hf).left.symm
      exact ⟨f, hf, onFrame_eq (hy ▸ ht) hr⟩

-- At a part of a message, and at a message after which it does not go on, the operation sends nothing.
theorem sent_part {part : Bytes} (hw : ∀ f r t, part = Frame.encode f ++ r → onFrame para ctl f ≠ .goto t) :
    (∃ r, doRead para { ctl } part = .fail .undefined r) ∨ sent (doRead para { ctl } part) = ctl.sent := by
  have hb : (loop para).body { ctl } part = turn para { ctl } part := rfl
  simp only [turn] at hb
  cases hp : MessageParser.parse ctl.stage.table ctl.stage.parser part <;> rw [hp] at hb
  case more => rw [doRead, Loop.run_more hb]; exact .inr rfl
  case fail e r =>
    cases e
    case undefined => rw [doRead, Loop.run_fail hb]; exact .inl ⟨r, rfl⟩
    all_goals rw [doRead, Loop.run_fail hb]; exact .inr rfl
  case done a r =>
    obtain ⟨f, hf, ho⟩ := exists_frame para hp
    simp only [finish, ← ho] at hb
    cases hm : onFrame para ctl f <;> rw [hm] at hb
    case goto t     => exact absurd hm (hw f r t hf)
    case complete k => rw [doRead, Loop.run_done hb]; exact .inr (complete_sent (ho ▸ hm))
    case fail e     =>
      rw [doRead, Loop.run_fail hb]
      rcases malformed_of_fail (ho ▸ hm) with rfl | rfl
      · exact .inr rfl
      · exact .inl ⟨r, rfl⟩

-- Whatever bytes a server sends, and in whatever chunks they come, also where the operation fails or still waits: it
-- has sent the password once for each request for it among the messages after which it has gone on, and nothing else.
-- After those there is no message after which it would go on.
theorem sent_iff_asked (para : ConnectParameters) (cs : List Bytes) : ∃ fs ms part stage,
    cs.flatten = Frame.encodeAll fs ++ part ∧ List.Forall₂ Frame.StandsFor fs ms ∧ Reaches ms stage ∧
      (∀ f r m stage' sends, part = Frame.encode f ++ r → f.StandsFor m → ¬Leads stage m.content stage' sends) ∧
      sent (feed (doRead para) fresh cs).fst =
        List.replicate (passwordRequests ms) (passwordMessage para.password) := by
  have hp : Refines (doRead para) (onFrame para) _ := refines
  have ⟨fs, part, ctl, hc, hg, hw, he⟩ := hp.exists_part {} cs.flatten
  have ⟨ms, hs, hm⟩ := understands.exists_goto hg
  have ⟨hr, ha⟩ := reaches_of_onFrames hm
  refine ⟨fs, ms, part, ctl.stage, hc, hs, hr, ?_, ?_⟩
  case refine_1 =>
    intro f r m stage' sends hp hf hl
    exact hw f r _ hp ((understands.onFrame_eq hf).trans hl.onFrame_eq)
  case refine_2 =>
    have hsent : ctl.sent = List.replicate (passwordRequests ms) (passwordMessage para.password) := by rw [ha]; rfl
    have hn : ∀ r, doRead para fresh cs.flatten ≠ .fail .undefined r := defined _
    have hf : Agrees (feed (doRead para) fresh cs) (doRead para fresh cs.flatten) :=
      resumable.feed_agrees_flatten trivial fun _ => refines.idle {}
    rw [show doRead para fresh cs.flatten = _ from he] at hf hn
    have hp := (sent_part hw).resolve_left fun ⟨r, hu⟩ => hn r hu
    rw [← hsent, ← hp]
    generalize feed (doRead para) fresh cs = fed, doRead para { ctl } part = out at hf
    cases hf
    case fail e _ _ _ => cases e <;> rfl
    all_goals rfl

end

end ChxSql.Postgresql.Connect

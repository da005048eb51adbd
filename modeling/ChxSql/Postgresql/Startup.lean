import ChxSql.Postgresql.Connect
import ChxSql.Postgresql.ServerMessage

namespace ChxSql.Postgresql

open Incremental Msg

namespace Content

-- Messages that may come at any time during the start-up and that do not matter to it.
def Dismissable : Content → Prop
  | parameterStatus .. => True
  | noticeResponse _   => True
  | _                  => False

def IsKey : Content → Prop
  | backendKeyData .. => True
  | _                 => False

def IsReady : Content → Prop
  | readyForQuery _ => True
  | _               => False

-- An ErrorResponse has to tell a SQLSTATE that stands for an error.
def IsError : Content → Prop
  | errorResponse fields =>
    (∃ f ∈ fields, f.1 = letter 'C') ∧ ∀ f ∈ fields, f.1 = letter 'C' → f.2 ≠ ascii "00000"
  | _                    => False

-- An authentication request of a certain method.
def Requests (method : AuthenticationMethod) : Content → Prop
  | authentication method' _ => method' = method
  | _                        => False

instance : DecidablePred Dismissable := fun c => by
  cases c <;> simp only [Dismissable] <;> infer_instance

instance : DecidablePred IsKey := fun c => by cases c <;> simp only [IsKey] <;> infer_instance

instance {method} : DecidablePred (Requests method) := fun c => by
  cases c <;> simp only [Requests] <;> infer_instance

end Content

namespace Connect

open ServerMessage

-- What comes after AuthenticationOk.
inductive Legal.Finish : List ServerMessage → Prop
  | ready {ss : List ServerMessage} {z : ServerMessage} :
    (∀ m ∈ ss, m.content.Dismissable ∨ m.content.IsKey) → ss.countP (·.content.IsKey) ≤ 1 →
    z.content.IsReady → Finish (ss ++ [z])
  | refused {ss : List ServerMessage} {z : ServerMessage} :
    (∀ m ∈ ss, m.content.Dismissable ∨ m.content.IsKey) → ss.countP (·.content.IsKey) ≤ 1 →
    z.content.IsError → Finish (ss ++ [z])

-- What a server may legally send during the start-up. It refuses the connection, or it asks for an
-- authentication that the client does not know of, or it trusts the client, or it asks for a
-- password, which it then finds wrong or right.
inductive Legal : List ServerMessage → Prop
  | refused {ds : List ServerMessage} {z : ServerMessage} :
    (∀ m ∈ ds, m.content.Dismissable) → z.content.IsError → Legal (ds ++ [z])
  | unsupported {ds : List ServerMessage} {ask : ServerMessage} {method : AuthenticationMethod} :
    (∀ m ∈ ds, m.content.Dismissable) → ask.content.Requests method →
    method ≠ .trustOrFinished → method ≠ .cleartextPassword → Legal (ds ++ [ask])
  | trust {ds : List ServerMessage} {ok : ServerMessage} {ts : List ServerMessage} :
    (∀ m ∈ ds, m.content.Dismissable) → ok.content.Requests .trustOrFinished →
    Legal.Finish ts → Legal (ds ++ ok :: ts)
  | wrongPassword {ds ds' : List ServerMessage} {ask z : ServerMessage} :
    (∀ m ∈ ds, m.content.Dismissable) → ask.content.Requests .cleartextPassword →
    (∀ m ∈ ds', m.content.Dismissable) → z.content.IsError → Legal (ds ++ ask :: (ds' ++ [z]))
  | password {ds ds' : List ServerMessage} {ask ok : ServerMessage} {ts : List ServerMessage} :
    (∀ m ∈ ds, m.content.Dismissable) → ask.content.Requests .cleartextPassword →
    (∀ m ∈ ds', m.content.Dismissable) → ok.content.Requests .trustOrFinished →
    Legal.Finish ts → Legal (ds ++ ask :: (ds' ++ ok :: ts))

-- If the operation completes without an error, then the messages end in a ReadyForQuery and it has
-- consumed all of them.
def ZeroOnlyAfterReady (ms : List ServerMessage)
    (out : Step Byte State Report (Failure Report) × List Bytes) : Prop :=
  ∀ r left unfed, out = (.done r left, unfed) → r.ec.isZero →
    left ++ unfed.flatten = [] ∧ ∃ pre z, ms = pre ++ [z] ∧ z.content.IsReady

-- An AuthenticationOk comes directly after an AuthenticationCleartextPassword, if there is one at
-- all.
def OkFollowsRequest (afterRequest : Prop) : List ServerMessage → Prop
  | []      => True
  | m :: ms => (m.content.Requests .trustOrFinished → afterRequest) ∧
    OkFollowsRequest (m.content.Requests .cleartextPassword) ms

section

variable {para : ConnectParameters} {ctl : Ctl} {m : ServerMessage} {ds ts : List ServerMessage}

theorem onFrame_eq {type : Byte} {body : Bytes} {fits} {m m' : AnyMessage}
    (ht : ctl.stage.table type = some m) (hr : Message.receive m type body = some m') :
    onFrame para ctl ⟨type, body, fits⟩ = onMessage para ctl m' := by
  simp [onFrame, MessageParser.receive, ht, hr]

theorem onFrame_none {type : Byte} {body : Bytes} {fits}
    (hr : MessageParser.receive ctl.stage.table type body = none) :
    onFrame para ctl ⟨type, body, fits⟩ = .fail (malformed ctl) := by
  simp [onFrame, hr]

-- After a dismissable message the operation goes on in the stage `waitTillReady` or in `readS1`.
theorem onFrame_dismissable (h : m.content.Dismissable) : onFrame para ctl m.frame =
    .goto { ctl with stage := if ctl.stage = .waitTillReady then .waitTillReady else .readS1 } := by
  have ⟨content, valid, fits⟩ := m
  cases content <;> try exact h.elim
  case parameterStatus =>
    have ⟨m, hm⟩ := ParameterStatus.receive valid.left valid.right
    have ht : ctl.stage.table (letter 'S') = some (.parameterStatus {}) := by
      cases ctl.stage <;> rfl
    refine (onFrame_eq ht (AnyMessage.receive_map .parameterStatus hm)).trans ?_
    have ⟨stage, sent⟩ := ctl
    cases stage <;> rfl
  case noticeResponse =>
    have ht : ctl.stage.table (letter 'N') = some (.noticeResponse {}) := by
      cases ctl.stage <;> rfl
    refine (onFrame_eq ht (AnyMessage.receive_map .noticeResponse (NoticeResponse.receive valid))).trans ?_
    have ⟨stage, sent⟩ := ctl
    cases stage <;> rfl

theorem onFrame_key (h : m.content.IsKey) (hs : ctl.stage = .waitTillReady) :
    onFrame para ctl m.frame = .goto ctl := by
  have ⟨content, valid, fits⟩ := m
  have ⟨stage, sent⟩ := ctl
  cases hs
  cases content <;> try exact h.elim
  have ⟨m, hm⟩ := BackendKeyData.receive valid.left valid.right
  exact onFrame_eq rfl (AnyMessage.receive_map .backendKeyData hm)

theorem onFrame_ready (h : m.content.IsReady) (hs : ctl.stage = .waitTillReady) :
    onFrame para ctl m.frame = complete ctl .none := by
  have ⟨content, valid, fits⟩ := m
  have ⟨stage, sent⟩ := ctl
  cases hs
  cases content <;> try exact h.elim
  exact onFrame_eq rfl (AnyMessage.receive_map .readyForQuery (ReadyForQuery.receive valid))

variable (para ctl) in
-- An ErrorResponse completes the operation with an error.
theorem onFrame_error (h : m.content.IsError) :
    ∃ ec, ec.isZero = false ∧ onFrame para ctl m.frame = complete ctl ec := by
  have ⟨content, valid, fits⟩ := m
  cases content <;> try exact h.elim
  case errorResponse fields =>
    have ht : ctl.stage.table (letter 'E') = some (.errorResponse {}) := by
      cases ctl.stage <;> rfl
    have hr := AnyMessage.receive_map .errorResponse (ErrorResponse.receive valid)
    have he := Fields.errc_ne_successfulCompletion .successfulCompletion (.inl h.left) h.right
    refine ⟨makeEc (fields.errc .successfulCompletion), by simpa [ErrorCode.isZero], ?_⟩
    refine (onFrame_eq ht hr).trans ?_
    have ⟨stage, sent⟩ := ctl
    cases stage <;> rfl

variable (ctl) in
theorem onFrame_authentication {method : AuthenticationMethod} (h : m.content.Requests method)
    (hm : method ≠ .md5Password) (hs : method ≠ .sasl) (ht : ctl.stage ≠ .waitTillReady) :
    onFrame para ctl m.frame = onMessage para ctl (.authentication { result := .method method }) := by
  have ⟨content, valid, fits⟩ := m
  cases content <;> try exact h.elim
  case authentication method data =>
    cases (h : method = _)
    have hd : data = [] := by
      cases method <;> first | exact valid | contradiction
    have ht : ctl.stage.table (letter 'R') = some (.authentication {}) := by
      have ⟨stage, sent⟩ := ctl
      cases stage <;> first | rfl | contradiction
    have hr : Message.receive ({} : Authentication) (letter 'R')
        (toBigEndian 4 method.value ++ data) = some { result := .method method } := by
      rw [hd, List.append_nil]
      exact Authentication.receive hm hs
    exact onFrame_eq ht (AnyMessage.receive_map .authentication hr)

variable (para ctl) in
-- A method that the client does not know of never leads to a connection.
theorem onFrame_unsupported {method : AuthenticationMethod} (h : m.content.Requests method)
    (ho : method ≠ .trustOrFinished) (hc : method ≠ .cleartextPassword) (hs : ctl.stage = .readS1) :
    (∃ e, onFrame para ctl m.frame = .fail e) ∨
    ∃ ec, ec.isZero = false ∧ onFrame para ctl m.frame = complete ctl ec := by
  have ⟨content, valid, fits⟩ := m
  have ⟨stage, sent⟩ := ctl
  cases hs
  cases content <;> try exact h.elim
  case authentication method data =>
    cases (h : method = _)
    cases hr : Message.receive ({} : Authentication) (letter 'R') (toBigEndian 4 method.value ++ data)
    case none =>
      have ht : Stage.readS1.table (letter 'R') = some (.authentication {}) := rfl
      have hn : MessageParser.receive Stage.readS1.table (letter 'R')
          (toBigEndian 4 method.value ++ data) = none := by
        rw [MessageParser.receive, ht, Option.bind_some, AnyMessage.receive_inj .authentication, hr,
          Option.map_none]
      exact .inl ⟨malformed ⟨.readS1, sent⟩, onFrame_none hn⟩
    case some m =>
      have ha := Authentication.authenticationMethod_receive hr
      refine .inr ⟨makeEc .sqlclientUnableToEstablishSqlconnection, rfl, ?_⟩
      refine (onFrame_eq rfl (AnyMessage.receive_map .authentication hr)).trans ?_
      simp only [onMessage, ha]

-- The stage after messages that are dismissed.
def Stage.dismiss (stage : Stage) : List ServerMessage → Stage
  | []     => stage
  | _ :: _ => if stage = .waitTillReady then .waitTillReady else .readS1

theorem onFrames_dismissable (h : ∀ m ∈ ds, m.content.Dismissable) :
    onFrames (onFrame para) ctl (frames ds) = (.goto { ctl with stage := ctl.stage.dismiss ds }, []) := by
  induction ds generalizing ctl
  case nil => rfl
  case cons d ds ih =>
    simp only [frames_cons, onFrames, onFrame_dismissable (h d (by simp))]
    refine (ih fun m hm => h m (by simp [hm])).trans ?_
    obtain ⟨stage, sent⟩ := ctl
    cases ds <;> cases stage <;> rfl

theorem onFrames_dismissable_append (h : ∀ m ∈ ds, m.content.Dismissable) :
    onFrames (onFrame para) ctl (frames (ds ++ ts)) =
      onFrames (onFrame para) { ctl with stage := ctl.stage.dismiss ds } (frames ts) := by
  rw [frames_append, onFrames_append (onFrames_dismissable h)]

-- Nothing changes at the beginning.
theorem onFrames_dismissable_start (h : ∀ m ∈ ds, m.content.Dismissable) :
    onFrames (onFrame para) {} (frames (ds ++ ts)) = onFrames (onFrame para) {} (frames ts) := by
  rw [onFrames_dismissable_append h]
  cases ds <;> rfl

-- What comes after AuthenticationOk, up to the last message.
theorem onFrames_finishing {ss : List ServerMessage}
    (h : ∀ m ∈ ss, m.content.Dismissable ∨ m.content.IsKey) (hs : ctl.stage = .waitTillReady) :
    onFrames (onFrame para) ctl (frames ss) = (.goto ctl, []) := by
  induction ss
  case nil => rfl
  case cons m ss ih =>
    have hm : onFrame para ctl m.frame = .goto ctl := by
      cases h m (by simp)
      case inr h => exact onFrame_key h hs
      case inl h =>
        rw [onFrame_dismissable h, if_pos hs]
        exact congrArg Move.goto (by rw [← hs])
    simp only [frames_cons, onFrames, hm]
    exact ih fun m hm => h m (by simp [hm])

-- What the operation ends with without an error comes from a ReadyForQuery that is the last message.
def EndsReady (ts : List ServerMessage) (out : Move Ctl Report × List Frame) : Prop :=
  ∀ k left, out = (.complete k, left) → k.ec.isZero →
    left = [] ∧ ∃ pre z, ts = pre ++ [z] ∧ z.content.IsReady

theorem onFrames_finish (h : Legal.Finish ts) (hs : ctl.stage = .waitTillReady) :
    EndsReady ts (onFrames (onFrame para) ctl (frames ts)) := by
  cases h
  case ready ss z h _ hz =>
    intro k left ho _
    rw [frames_append, onFrames_append (onFrames_finishing h hs)] at ho
    simp only [frames_cons, onFrames, onFrame_ready hz hs, complete] at ho
    cases ho
    exact ⟨rfl, ss, z, rfl, hz⟩
  case refused ss z h _ hz =>
    intro k left ho hk
    obtain ⟨ec, hec, he⟩ := onFrame_error para ctl hz
    rw [frames_append, onFrames_append (onFrames_finishing h hs)] at ho
    simp only [frames_cons, onFrames, he, complete] at ho
    cases ho
    rw [hec] at hk
    cases hk

theorem EndsReady.append (xs : List ServerMessage) {out} (h : EndsReady ts out) : EndsReady (xs ++ ts) out := by
  intro k left ho hk
  have ⟨hl, pre, z, ht, hz⟩ := h k left ho hk
  exact ⟨hl, xs ++ pre, z, by rw [ht, List.append_assoc], hz⟩

theorem EndsReady.error {out ec left} (ho : out = (complete ctl ec, left)) (h : ec.isZero = false) :
    EndsReady ts out := by
  intro k left hc hk
  cases ho.symm.trans hc
  rw [h] at hk
  cases hk

theorem onFrames_refused (h : ∀ m ∈ ds, m.content.Dismissable) (hz : m.content.IsError) :
    EndsReady ts (onFrames (onFrame para) ctl (frames (ds ++ [m]))) := by
  have ⟨ec, hec, he⟩ := onFrame_error para { ctl with stage := ctl.stage.dismiss ds } hz
  have ho : onFrames (onFrame para) ctl (frames (ds ++ [m])) = (complete ctl ec, []) := by
    rw [onFrames_dismissable_append h]
    simp only [frames_cons, onFrames, he]
    rfl
  exact .error ho hec

-- Where the operation does not wait for a ReadyForQuery: it completes at the AuthenticationOk.
theorem onFrames_ok {sent} (hm : m.content.Requests .trustOrFinished) :
    onFrames (onFrame para) ⟨.readS1, sent⟩ (frames (m :: ts)) =
      (complete ⟨.readS1, sent⟩ .none, frames ts) := by
  simp only [frames_cons, onFrames,
    onFrame_authentication ⟨.readS1, sent⟩ hm (by simp) (by simp) (by simp)]
  rfl

theorem onFrames_request {sent} (hm : m.content.Requests .cleartextPassword) :
    onFrames (onFrame para) ⟨.readS1, sent⟩ (frames (m :: ts)) =
      onFrames (onFrame para) ⟨.waitForAuthSuccess, sent ++ [passwordMessage para.password]⟩
        (frames ts) := by
  simp only [frames_cons, onFrames,
    onFrame_authentication ⟨.readS1, sent⟩ hm (by simp) (by simp) (by simp)]
  rfl

theorem onFrames_passed {sent} (hm : m.content.Requests .trustOrFinished) :
    onFrames (onFrame para) ⟨.waitForAuthSuccess, sent⟩ (frames (m :: ts)) =
      onFrames (onFrame para) ⟨.waitTillReady, sent⟩ (frames ts) := by
  simp only [frames_cons, onFrames,
    onFrame_authentication ⟨.waitForAuthSuccess, sent⟩ hm (by simp) (by simp) (by simp)]
  rfl

theorem Legal.Finish.ne_nil (h : Legal.Finish ts) : frames ts ≠ [] := by
  cases h <;> simp

end

section

variable {c : Content} {method : AuthenticationMethod}

theorem Requests.unique {method' : AuthenticationMethod} (h : c.Requests method)
    (h' : c.Requests method') : method = method' := by
  cases c <;> first | exact h.symm.trans h' | exact h.elim

theorem not_requests_of_dismissable (h : c.Dismissable) : ¬c.Requests method := by
  cases c <;> first | exact id | exact h.elim

theorem not_requests_of_key (h : c.IsKey) : ¬c.Requests method := by
  cases c <;> first | exact id | exact h.elim

theorem not_requests_of_ready (h : c.IsReady) : ¬c.Requests method := by
  cases c <;> first | exact id | exact h.elim

theorem not_requests_of_error (h : c.IsError) : ¬c.Requests method := by
  cases c <;> first | exact id | exact h.elim

end

namespace OkFollowsRequest

variable {p : Prop} {ds ts : List ServerMessage}

theorem append_iff (h : ∀ m ∈ ds, ∀ method, ¬m.content.Requests method) :
    OkFollowsRequest p (ds ++ ts) ↔ OkFollowsRequest (p ∧ ds = []) ts := by
  induction ds generalizing p
  case nil => simp
  case cons d ds ih =>
    have hd := h d (by simp)
    simp [OkFollowsRequest, hd, ih fun m hm => h m (by simp [hm])]

theorem dismissable_append_iff (h : ∀ m ∈ ds, m.content.Dismissable) :
    OkFollowsRequest p (ds ++ ts) ↔ OkFollowsRequest (p ∧ ds = []) ts :=
  append_iff fun m hm _ => not_requests_of_dismissable (h m hm)

theorem of_none (h : ∀ m ∈ ts, ∀ method, ¬m.content.Requests method) : OkFollowsRequest p ts := by
  rw [← List.append_nil ts, append_iff h]
  trivial

theorem of_refused {m : ServerMessage} (h : ∀ m ∈ ds, m.content.Dismissable) (hm : m.content.IsError) :
    OkFollowsRequest p (ds ++ [m]) :=
  (dismissable_append_iff h).mpr <| of_none fun _ hz _ => List.mem_singleton.mp hz ▸ not_requests_of_error hm

theorem of_finish (h : Legal.Finish ts) : OkFollowsRequest p ts := by
  refine of_none ?_
  cases h
  all_goals
    rename_i ss z hs _ hz
    intro m hm method
    rcases List.mem_append.mp hm with hm | hm
  case ready.inl | refused.inl =>
    exact (hs m hm).elim not_requests_of_dismissable not_requests_of_key
  case ready.inr => exact List.mem_singleton.mp hm ▸ not_requests_of_ready hz
  case refused.inr => exact List.mem_singleton.mp hm ▸ not_requests_of_error hz

-- The request for a password and the AuthenticationOk that answers it.
theorem password_iff {ds' : List ServerMessage} {ask ok : ServerMessage}
    (h : ∀ m ∈ ds, m.content.Dismissable) (ha : ask.content.Requests .cleartextPassword)
    (h' : ∀ m ∈ ds', m.content.Dismissable) (ho : ok.content.Requests .trustOrFinished)
    (ht : Legal.Finish ts) : OkFollowsRequest p (ds ++ ask :: (ds' ++ ok :: ts)) ↔ ds' = [] := by
  have hn : ¬ask.content.Requests .trustOrFinished := fun hr => absurd (Requests.unique ha hr) nofun
  rw [dismissable_append_iff h, OkFollowsRequest, dismissable_append_iff h', OkFollowsRequest]
  simp [hn, ha, ho, of_finish ht]

end OkFollowsRequest

section

variable {para : ConnectParameters} {ms : List ServerMessage}

-- The operation completes without an error and leaves something unread.
def EndsEarly (out : Move Ctl Report × List Frame) : Prop :=
  ∃ k left, out = (.complete k, left) ∧ k.ec.isZero ∧ left ≠ []

variable (para) in
theorem onFrames_legal (h : Legal ms) :
    (OkFollowsRequest False ms ∧ EndsReady ms (onFrames (onFrame para) {} (frames ms))) ∨
    (¬OkFollowsRequest False ms ∧ EndsEarly (onFrames (onFrame para) {} (frames ms))) := by
  cases h
  case refused ds z h hz => exact .inl ⟨.of_refused h hz, onFrames_refused h hz⟩
  case unsupported ds ask method h ha ho hc =>
    refine .inl ⟨?_, ?_⟩
    case refine_1 =>
      rw [OkFollowsRequest.dismissable_append_iff h]
      exact ⟨fun hr => absurd (Requests.unique ha hr) ho, trivial⟩
    case refine_2 =>
      rw [onFrames_dismissable_start h, frames_cons, onFrames]
      rcases onFrame_unsupported para {} ha ho hc rfl with ⟨e, he⟩ | ⟨ec, hec, he⟩
      · rw [he]
        rintro _ _ ⟨⟩
      · rw [he]
        exact .error rfl hec
  case trust ds ok ts h ho ht =>
    refine .inr ⟨?_, ?_⟩
    case refine_1 =>
      rw [OkFollowsRequest.dismissable_append_iff h]
      exact fun hf => (hf.left ho).left
    case refine_2 =>
      rw [onFrames_dismissable_start h, onFrames_ok ho]
      exact ⟨_, _, rfl, rfl, ht.ne_nil⟩
  case wrongPassword ds ds' ask z h ha h' hz =>
    refine .inl ⟨?_, ?_⟩
    case refine_1 =>
      rw [OkFollowsRequest.dismissable_append_iff h]
      exact ⟨fun hr => absurd (Requests.unique ha hr) (by simp), .of_refused h' hz⟩
    case refine_2 =>
      rw [onFrames_dismissable_start h, onFrames_request ha]
      exact onFrames_refused h' hz
  case password ds ds' ask ok ts h ha h' ho ht =>
    rw [OkFollowsRequest.password_iff h ha h' ho ht, onFrames_dismissable_start h, onFrames_request ha]
    cases ds'
    case nil =>
      refine .inl ⟨rfl, ?_⟩
      rw [List.nil_append, onFrames_passed ho]
      exact .append ds (.append [ask, ok] (onFrames_finish ht rfl))
    case cons d ds' =>
      refine .inr ⟨by simp, ?_⟩
      rw [onFrames_dismissable_append h', Stage.dismiss, if_neg (by simp), onFrames_ok ho]
      exact ⟨_, _, rfl, rfl, ht.ne_nil⟩

variable {chunks : List Bytes}

theorem EndsReady.zeroOnlyAfterReady (hc : chunks.flatten = encode ms)
    (h : EndsReady ms (onFrames (onFrame para) {} (frames ms))) :
    ZeroOnlyAfterReady ms (feed (doRead para) fresh chunks) := by
  have hs : Shows _ _ (feed (doRead para) fresh chunks) := refines.feed_frames resumable hc
  intro r left unfed ho hk
  rw [ho] at hs
  generalize onFrames (onFrame para) {} (frames ms) = out at h hs
  cases hs with | complete hb =>
  have ⟨hn, he⟩ := h _ _ rfl hk
  rw [hn] at hb
  exact ⟨hb, he⟩

theorem EndsEarly.not_zeroOnlyAfterReady (hc : chunks.flatten = encode ms)
    (h : EndsEarly (onFrames (onFrame para) {} (frames ms))) :
    ¬ZeroOnlyAfterReady ms (feed (doRead para) fresh chunks) := by
  have hs : Shows _ _ (feed (doRead para) fresh chunks) := refines.feed_frames resumable hc
  intro hz
  have ⟨k, fs, ho, hk, hn⟩ := h
  rw [ho] at hs
  generalize hf : feed (doRead para) fresh chunks = shown at hs
  cases hs with | complete hb =>
  have ⟨he, _⟩ := hz _ _ _ hf hk
  exact hn (Frame.encodeAll_eq_nil (hb.symm.trans he))

-- For every legal start-up: the operation completes without an error only after it has consumed the
-- ReadyForQuery if and only if the server sends AuthenticationOk directly after the request for a
-- password, or not at all.
theorem zeroOnlyAfterReady_iff (h : Legal ms) (hc : chunks.flatten = encode ms) :
    ZeroOnlyAfterReady ms (feed (doRead para) fresh chunks) ↔ OkFollowsRequest False ms := by
  cases onFrames_legal para h
  case inl hl => exact iff_of_true (hl.right.zeroOnlyAfterReady hc) hl.left
  case inr hl => exact iff_of_false (hl.right.not_zeroOnlyAfterReady hc) hl.left

def authenticationOk : ServerMessage := ⟨.authentication .trustOrFinished [], by decide, by decide⟩

-- A server that trusts the client.
def trusting : List ServerMessage := [authenticationOk, .readyForQuery]

theorem trusting_legal : Legal trusting :=
  have hf : Legal.Finish ([] ++ [.readyForQuery]) := .ready nofun (by decide) trivial
  show Legal ([] ++ authenticationOk :: ([] ++ [.readyForQuery])) from .trust nofun rfl hf

theorem zeroOnlyAfterReady_iff_trusting :
    ZeroOnlyAfterReady trusting (feed (doRead ⟨[], [], []⟩) fresh [encode trusting]) ↔
    OkFollowsRequest False trusting :=
  zeroOnlyAfterReady_iff trusting_legal (List.append_nil _)

-- The operation completes at the AuthenticationOk.
theorem trusting_not_zeroOnlyAfterReady : Legal trusting ∧
    ¬ZeroOnlyAfterReady trusting (feed (doRead ⟨[], [], []⟩) fresh [encode trusting]) :=
  have ho : authenticationOk.content.Requests .trustOrFinished := rfl
  ⟨trusting_legal, EndsEarly.not_zeroOnlyAfterReady (List.append_nil (encode trusting))
    ⟨_, frames [.readyForQuery], onFrames_ok ho, rfl, nofun⟩⟩

end

end Connect

end ChxSql.Postgresql

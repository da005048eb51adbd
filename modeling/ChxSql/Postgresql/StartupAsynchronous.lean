import ChxSql.Postgresql.Asynchronous

namespace ChxSql.Postgresql.Connect

open Incremental Msg ServerMessage Interspersed

-- What the user sees of the operation without and with the messages that are put in: it is still
-- reading and has sent the same, or it has completed with the same result after the same message, or
-- it has failed with the same result.
inductive SameOutcome (xs : List Interspersed) (after : List ServerMessage) :
    Step Byte State Report (Failure Report) × List Bytes →
    Step Byte State Report (Failure Report) × List Bytes → Prop
  | reading {s s'} : s'.ctl.sent = s.ctl.sent → SameOutcome xs after (.more s [], []) (.more s' [], [])
  | complete {pre x ys r left unfed left' unfed'} : xs = pre ++ x :: ys →
    left ++ unfed.flatten = Frame.encodeAll (plain ys) →
    left' ++ unfed'.flatten = Frame.encodeAll (full ys ++ frames after) →
    SameOutcome xs after (.done r left, unfed) (.done r left', unfed')
  | fail {e left unfed left' unfed'} : SameOutcome xs after (.fail e left, unfed) (.fail e left', unfed')

variable {para : ConnectParameters} {ctl c : Ctl} {x : Interspersed} {xs pre ys : List Interspersed}
variable {ds after : List ServerMessage} {f : Frame} {gs : List Frame}

variable (para) in
-- The messages may come in any chunks, and some messages may be put in after them as well.
def Alike (xs : List Interspersed) (after : List ServerMessage) : Prop :=
  ∀ chunks chunks' : List Bytes, chunks.flatten = Frame.encodeAll (plain xs) →
    chunks'.flatten = Frame.encodeAll (full xs ++ frames after) →
    SameOutcome xs after (feed (doRead para) fresh chunks) (feed (doRead para) fresh chunks')

variable (para) in
-- The operation does alike with the first messages, too, so it is one and the same message at which it
-- completes or fails.
def Transparent (xs : List Interspersed) (after : List ServerMessage) : Prop :=
  Alike para xs after ∧ ∀ pre, pre <+: xs → Alike para pre []

-- An Authentication message that the parser accepts.
def Replies (f : Frame) : Prop :=
  ∃ m, MessageParser.receive Stage.waitForAuthSuccess.table f.type f.body = some (.authentication m)

variable (para ctl) in
-- Nothing is put in directly before the reply to the password message.
def Undisturbed (xs : List Interspersed) : Prop :=
  ∀ pre x ys c, xs = pre ++ x :: ys → onFrames (onFrame para) ctl (plain pre) = (.goto c, []) →
    c.stage = .waitForAuthSuccess → x.before ≠ [] → ¬Replies x.frame

-- The stage that a dismissed message leads to does not matter, except to such a reply.
theorem onFrame_dismissed (h : ctl.stage = .waitForAuthSuccess → ds ≠ [] → ¬Replies f) :
    onFrame para { ctl with stage := ctl.stage.dismiss ds } f = onFrame para ctl f := by
  obtain ⟨stage, sent⟩ := ctl
  cases ds
  case nil => rfl
  case cons =>
    cases stage
    case readS1 | waitTillReady => rfl
    case waitForAuthSuccess =>
      have h := h rfl (by simp)
      have ht : MessageParser.receive Stage.readS1.table f.type f.body =
          MessageParser.receive Stage.waitForAuthSuccess.table f.type f.body := rfl
      show onFrame para ⟨.readS1, sent⟩ f = _
      simp only [onFrame, ht]
      cases hm : MessageParser.receive Stage.waitForAuthSuccess.table f.type f.body
      case none   => rfl
      case some m =>
        cases m
        case authentication m => exact absurd ⟨m, hm⟩ h
        all_goals rfl

theorem Undisturbed.tail (h : Undisturbed para ctl (x :: xs)) (hf : onFrame para ctl x.frame = .goto c) :
    Undisturbed para c xs := by
  intro pre y ys c' hx hp
  refine h (x :: pre) y ys c' (by rw [hx, List.cons_append]) ?_
  rwa [plain_cons, onFrames, hf]

variable (para ctl xs gs) in
-- What the messages that are put in make of what the operation does.
inductive Followed : Move Ctl Report × List Frame → Prop
  | goto {c : Ctl} : onFrames (onFrame para) ctl (full xs ++ gs) = onFrames (onFrame para) c gs →
    Followed (.goto c, [])
  | complete {pre ys : List Interspersed} {x : Interspersed} {r : Report} : xs = pre ++ x :: ys →
    onFrames (onFrame para) ctl (full xs ++ gs) = (.complete r, full ys ++ gs) →
    Followed (.complete r, plain ys)
  | fail {e : Failure Report} {left left' : List Frame} :
    onFrames (onFrame para) ctl (full xs ++ gs) = (.fail e, left') → Followed (.fail e, left)

variable (gs) in
-- The induction is on the messages without those that are put in.
theorem followed (h : Undisturbed para ctl xs) :
    Followed para ctl xs gs (onFrames (onFrame para) ctl (plain xs)) := by
  induction xs generalizing ctl
  case nil => exact .goto rfl
  case cons x xs ih =>
    have hx : onFrames (onFrame para) ctl (full (x :: xs) ++ gs) =
        onFrames (onFrame para) ctl (x.frame :: (full xs ++ gs)) := by
      rw [full_cons, List.append_assoc, List.cons_append,
        onFrames_append (onFrames_dismissable x.dismissable), onFrames, onFrames,
        onFrame_dismissed (h [] x xs ctl rfl rfl)]
    rw [plain_cons, onFrames]
    cases hf : onFrame para ctl x.frame <;> simp only [onFrames, hf] at hx
    case fail     => exact .fail hx
    case complete => exact .complete (List.nil_append _).symm hx
    case goto c =>
      have hi := ih (h.tail hf)
      dsimp only at hx ⊢
      generalize onFrames (onFrame para) c (plain xs) = out at hi
      cases hi
      case goto he        => exact .goto (hx.trans he)
      case complete hs he => exact .complete (by rw [hs, List.cons_append]) (hx.trans he)
      case fail he        => exact .fail (hx.trans he)

theorem alike_of_undisturbed (h : Undisturbed para {} xs) (ha : ∀ m ∈ after, m.content.Dismissable) :
    Alike para xs after := by
  intro chunks chunks' hc hc'
  have hf := followed (frames after) h
  have hs : Shows _ _ (feed (doRead para) fresh chunks) := refines.feed_frames resumable hc
  have hs' : Shows _ _ (feed (doRead para) fresh chunks') := refines.feed_frames resumable hc'
  generalize feed (doRead para) fresh chunks = out, feed (doRead para) fresh chunks' = out' at hs hs' ⊢
  generalize onFrames (onFrame para) {} (plain xs) = mv at hf hs
  cases hf
  case goto he =>
    rw [he, onFrames_dismissable ha] at hs'
    cases hs
    cases hs'
    exact .reading rfl
  case complete hx he =>
    rw [he] at hs'
    cases hs
    cases hs'
    exact .complete hx ‹_› ‹_›
  case fail he =>
    rw [he] at hs'
    cases hs
    cases hs'
    exact .fail

theorem Undisturbed.of_prefix (h : Undisturbed para ctl xs) (hp : pre <+: xs) :
    Undisturbed para ctl pre := by
  have ⟨ys, hx⟩ := hp
  intro pre' x ys' c hs
  exact h pre' x (ys' ++ ys) c (by rw [← hx, hs, List.append_assoc, List.cons_append])

theorem full_append : full (xs ++ ys) = full xs ++ full ys :=
  List.flatMap_append

theorem plain_append : plain (xs ++ ys) = plain xs ++ plain ys :=
  List.map_append

-- What the operation does with a reply to the password message, and what it does with it if some
-- message is put in before.
theorem disturbed (hc : c.stage = .waitForAuthSuccess) (hx : x.before ≠ []) (hr : Replies x.frame)
    {pre : List Interspersed} (hp : onFrames (onFrame para) ctl (plain pre) = (.goto c, []))
    (hu : Undisturbed para ctl pre) :
    ((onFrames (onFrame para) ctl (plain (pre ++ [x]))).1 = .goto ⟨.waitTillReady, c.sent⟩ ∧
      (onFrames (onFrame para) ctl (full (pre ++ [x]))).1 = complete ⟨.readS1, c.sent⟩ .none) ∨
    ((onFrames (onFrame para) ctl (plain (pre ++ [x]))).1 = .fail (malformed c) ∧
      ∀ e, (onFrames (onFrame para) ctl (full (pre ++ [x]))).1 ≠ .fail e) := by
  obtain ⟨stage, sent⟩ := c
  cases hc
  obtain ⟨m, hm⟩ := hr
  have hpl : (onFrames (onFrame para) ctl (plain (pre ++ [x]))).1 =
      onMessage para ⟨.waitForAuthSuccess, sent⟩ (.authentication m) := by
    rw [plain_append, onFrames_append hp]
    simp only [plain, List.map_cons, List.map_nil, onFrames, onFrame, hm]
    cases onMessage para _ _ <;> rfl
  have hfu : (onFrames (onFrame para) ctl (full (pre ++ [x]))).1 =
      onMessage para ⟨.readS1, sent⟩ (.authentication m) := by
    have hf := followed (full [x]) hu
    rw [hp] at hf
    cases hf
    case goto he =>
      have hs : Stage.waitForAuthSuccess.dismiss x.before = .readS1 := by
        cases hb : x.before
        case nil  => exact absurd hb hx
        case cons => rfl
      have hm' : MessageParser.receive Stage.readS1.table x.frame.type x.frame.body =
          some (.authentication m) := hm
      rw [full_append, he, full_cons, onFrames_append (onFrames_dismissable x.dismissable)]
      simp only [hs, onFrames, onFrame, hm', full, List.flatMap_nil]
      cases onMessage para _ _ <;> rfl
  rw [hpl, hfu]
  simp only [onMessage]
  cases m.authenticationMethod
  case trustOrFinished => exact .inl ⟨rfl, rfl⟩
  all_goals exact .inr ⟨rfl, by rintro _ ⟨⟩⟩

theorem not_alike_of_disturbed (hc : c.stage = .waitForAuthSuccess) (hx : x.before ≠ [])
    (hr : Replies x.frame) (hp : onFrames (onFrame para) {} (plain pre) = (.goto c, []))
    (hu : Undisturbed para {} pre) : ¬Alike para (pre ++ [x]) [] := by
  intro ha
  have hd := disturbed hc hx hr hp hu
  have hf (fs : List Frame) : [Frame.encodeAll fs].flatten = Frame.encodeAll fs := List.flatten_singleton
  have hs : Shows _ _ (feed (doRead para) fresh _) := refines.feed_frames resumable (hf (plain (pre ++ [x])))
  have hs' : Shows _ _ (feed (doRead para) fresh _) := refines.feed_frames resumable (hf (full (pre ++ [x])))
  have ha := ha _ _ (hf _) (by rw [hf, frames, List.map_nil, List.append_nil])
  generalize feed (doRead para) fresh _ = out at ha hs
  generalize feed (doRead para) fresh _ = out' at ha hs'
  generalize onFrames (onFrame para) {} (plain _) = mv, onFrames (onFrame para) {} (full _) = mv' at hd hs hs'
  cases hd
  case inl hd =>
    cases ha <;> cases hs <;> cases hs' <;> first | (cases hd.left; done) | cases hd.right
  case inr hd =>
    cases ha <;> cases hs <;> cases hs' <;> first | exact hd.right _ rfl | cases hd.left

-- The induction is on the number of messages before a reply that is disturbed: the replies before it
-- are not.
theorem undisturbed_of_transparent (h : ∀ pre, pre <+: xs → Alike para pre []) :
    Undisturbed para {} xs := by
  intro pre x ys c hx hp hc hb hr
  induction hn : pre.length using Nat.strongRecOn generalizing pre x ys c
  case ind n ih =>
    refine not_alike_of_disturbed hc hb hr hp (fun pre' x' ys' c' hx' hp' hc' hb' hr' => ?_)
      (h (pre ++ [x]) ⟨ys, by rw [hx, List.append_assoc]; rfl⟩)
    refine ih pre'.length ?_ pre' x' (ys' ++ x :: ys) c' ?_ hp' hc' hb' hr' rfl
    case refine_1 => rw [← hn, hx']; simp
    case refine_2 => rw [hx, hx', List.append_assoc, List.cons_append]

-- Notices and parameter statuses do not matter to the operation if and only if none of them is put in
-- directly before the reply to the password message.
theorem transparent_iff (ha : ∀ m ∈ after, m.content.Dismissable) :
    Transparent para xs after ↔ Undisturbed para {} xs where
  mp h  := undisturbed_of_transparent h.right
  mpr h := ⟨alike_of_undisturbed h ha, fun _ hp => alike_of_undisturbed (h.of_prefix hp) (by simp)⟩

def passwordRequest : ServerMessage := ⟨.authentication .cleartextPassword [], by decide, by decide⟩

-- A server that asks for a password and finds it right, and sends a notice in between.
def noticed : List Interspersed := [
  ⟨[], Interspersed.dismissable_nil, passwordRequest.frame⟩,
  ⟨[⟨.noticeResponse [], by decide, by decide⟩], by simp [Content.Dismissable], authenticationOk.frame⟩,
  ⟨[], Interspersed.dismissable_nil, readyForQuery.frame⟩
]

theorem replies_ok : Replies authenticationOk.frame := by
  have hr := AnyMessage.receive_map .authentication
    (@Authentication.receive .trustOrFinished nofun nofun)
  exact ⟨_, hr⟩

theorem transparent_iff_noticed :
    Transparent ⟨[], [], []⟩ noticed [] ↔ Undisturbed ⟨[], [], []⟩ {} noticed :=
  transparent_iff nofun

-- The notice leads back to the stage in which AuthenticationOk completes the operation.
theorem noticed_not_transparent : ¬Transparent ⟨[], [], []⟩ noticed [] := by
  intro h
  have hu := undisturbed_of_transparent h.right
  refine hu (noticed.take 1) noticed[1] (noticed.drop 2) ⟨.waitForAuthSuccess, [passwordMessage []]⟩
    rfl ?_ rfl nofun replies_ok
  have hr : passwordRequest.content.Requests .cleartextPassword := rfl
  exact @onFrames_request ⟨[], [], []⟩ passwordRequest [] [] hr

end ChxSql.Postgresql.Connect

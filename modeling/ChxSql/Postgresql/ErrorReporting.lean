import ChxSql.Postgresql.Framing
import ChxSql.Postgresql.Msg.ErrorFields
import ChxSql.Postgresql.Operation

namespace ChxSql.Postgresql

open Incremental Msg

namespace Frame

-- The error code that the parser makes of an ErrorResponse, if the message is one that it accepts.
def error? (f : Frame) : Option Errc :=
  (Message.receive ({} : ErrorResponse) f.type f.body).map (·.ec)

-- The message has a SQLSTATE, and the last one it has is not that of a successful completion.
def TellsError (f : Frame) : Prop :=
  ∃ fs, (∀ field ∈ fs, field.WellFormed) ∧ f.body = ErrorResponse.encode fs ∧
    ∃ text, sqlstate? fs = some text ∧ text ≠ ascii "00000"

variable {f : Frame} {e : Errc}

theorem type_of_error (h : f.error? = some e) : f.type = letter 'E' := by
  have ⟨m, hm, _⟩ := Option.map_eq_some_iff.mp h
  simp only [Message.receive] at hm
  split at hm
  case isFalse => cases hm
  case isTrue ht =>
    have ht := ht.left
    simp only [Message.onMessageType, acceptIf] at ht
    split at ht
    case isTrue h  => exact of_decide_eq_true h
    case isFalse   => cases ht

theorem receive_of_error (h : f.error? = some e) :
    ∃ m, Message.receive (AnyMessage.errorResponse {}) f.type f.body = some (.errorResponse m) ∧
      m.ec = e := by
  have ⟨m, hm, he⟩ := Option.map_eq_some_iff.mp h
  exact ⟨m, AnyMessage.receive_map .errorResponse hm, he⟩

theorem tellsError_iff (h : f.error? = some e) : f.TellsError ↔ e ≠ .successfulCompletion := by
  have ht := type_of_error h
  rw [error?, ht, ErrorResponse.receive_iff] at h
  have ⟨fs, hfs, hb, he⟩ := h
  constructor
  case mp =>
    intro ⟨fs', hfs', hb', text, hs, hn⟩
    have h' := ErrorResponse.receive_iff.mpr ⟨fs', hfs', hb', rfl⟩
    rw [ErrorResponse.receive_iff.mpr h, hs] at h'
    rw [Option.some.inj h']
    exact mt sqlstateToErrc_eq_successfulCompletion.mp hn
  case mpr =>
    intro hn
    refine ⟨fs, hfs, hb, ?_⟩
    cases hs : sqlstate? fs <;> rw [hs] at he
    case none      => exact absurd he hn
    case some text => exact ⟨text, rfl, fun ht => hn (he.trans (sqlstateToErrc_eq_successfulCompletion.mpr ht))⟩

end Frame

-- The last ErrorResponse among some messages.
def lastError (fs : List Frame) : Option Frame :=
  (fs.filter (·.error?.isSome)).getLast?

-- The error code that it stands for.
def errorCode (fs : List Frame) : ErrorCode :=
  ((lastError fs).bind Frame.error?).elim .none makeEc

section

variable {fs : List Frame} {f : Frame} {e : Errc}

theorem errorCode_concat_error (h : f.error? = some e) : errorCode (fs ++ [f]) = makeEc e := by
  simp [errorCode, lastError, h]

theorem errorCode_concat_none (h : f.error? = none) : errorCode (fs ++ [f]) = errorCode fs := by
  simp [errorCode, lastError, h]

theorem error_of_lastError (h : lastError fs = some f) : f ∈ fs ∧ ∃ e, f.error? = some e := by
  have hm := List.mem_filter.mp (List.mem_of_getLast? h)
  exact ⟨hm.left, Option.isSome_iff_exists.mp hm.right⟩

theorem exists_lastError (h : f ∈ fs) (he : f.error? = some e) : ∃ g, lastError fs = some g := by
  have hm : f ∈ fs.filter (·.error?.isSome) := List.mem_filter.mpr ⟨h, by rw [he]; rfl⟩
  exact ⟨_, List.getLast?_eq_some_getLast (List.ne_nil_of_mem hm)⟩

end

section

variable {σ κ : Type} {onFrame : σ → Frame → Move σ κ} {start s s' : σ} {ecOf : κ → ErrorCode}
variable {inv : σ → List Frame → Prop} {seen fs : List Frame} {f : Frame} {k : κ}

-- An operation keeps the errors of the server in mind: when it completes and there has been an
-- ErrorResponse, then its error code is that of the last one. The invariant relates its state to the
-- messages that it has seen.
structure KeepsErrors (onFrame : σ → Frame → Move σ κ) (start : σ) (ecOf : κ → ErrorCode)
    (inv : σ → List Frame → Prop) : Prop where
  start    : inv start []
  goto     : ∀ {s seen f s'}, inv s seen → onFrame s f = .goto s' → inv s' (seen ++ [f])
  complete : ∀ {s seen f k}, inv s seen → onFrame s f = .complete k →
    (∃ g ∈ seen ++ [f], ∃ e, g.error? = some e) → ecOf k = errorCode (seen ++ [f])

theorem KeepsErrors.run (h : KeepsErrors onFrame start ecOf inv) (hi : inv s seen)
    (hr : onFrames onFrame s fs = (.complete k, [])) (he : ∃ g ∈ seen ++ fs, ∃ e, g.error? = some e) :
    ecOf k = errorCode (seen ++ fs) := by
  induction fs generalizing s seen
  case nil => cases hr
  case cons f fs ih =>
    rw [onFrames] at hr
    rw [List.append_cons] at he ⊢
    cases hf : onFrame s f <;> rw [hf] at hr
    case fail       => cases hr
    case goto s'    => exact ih (h.goto hi hf) hr he
    case complete k =>
      cases hr
      rw [List.append_nil] at he ⊢
      exact h.complete hi hf he

-- An operation that completes at the first ErrorResponse.
theorem KeepsErrors.of_complete
    (h : ∀ {s f e}, f.error? = some e → ∃ k, onFrame s f = .complete k ∧ ecOf k = makeEc e) :
    KeepsErrors onFrame start ecOf fun _ seen => ∀ g ∈ seen, g.error? = none where
  start := nofun
  goto {s seen f s'} hi hf g hg := by
    rcases List.mem_append.mp hg with hg | hg
    · exact hi g hg
    · cases List.mem_singleton.mp hg
      cases he : f.error?
      case none => rfl
      case some =>
        have ⟨k, hk, _⟩ := h (s := s) he
        rw [hk] at hf
        cases hf
  complete {s seen f k} hi hf := by
    intro ⟨g, hg, e, he⟩
    rcases List.mem_append.mp hg with hg | hg
    · rw [hi g hg] at he
      cases he
    · cases List.mem_singleton.mp hg
      have ⟨k', hk, hc⟩ := h (s := s) he
      rw [hk] at hf
      cases hf
      rw [hc, errorCode_concat_error he]

end

section

variable {f : Frame} {e : Errc}

-- What the operations that read an ErrorResponse in every state do with it.
theorem Dialogue.onFrame_errorResponse {σ : Type} {d : Dialogue σ} {s s' : σ}
    (hs : d.select s (letter 'E') = .parse (.errorResponse {}) s') (h : f.error? = some e) :
    ∃ m, d.onFrame s f = d.accept s' (.errorResponse m) ∧ m.ec = e := by
  have ⟨m, hm, he⟩ := Frame.receive_of_error h
  exact ⟨m, onFrame_eq (Frame.type_of_error h ▸ hs) hm, he⟩

theorem Connect.onFrame_errorResponse {para : ConnectParameters} (ctl : Ctl) (h : f.error? = some e) :
    onFrame para ctl f = complete ctl (makeEc e) := by
  obtain ⟨m, hm, he⟩ := Frame.receive_of_error h
  have ht : ctl.stage.table f.type = some (.errorResponse {}) := by
    rw [Frame.type_of_error h]
    cases ctl.stage <;> rfl
  have hr : MessageParser.receive ctl.stage.table f.type f.body = some (.errorResponse m) := by
    rw [MessageParser.receive, ht, Option.bind_some, hm]
  obtain ⟨stage, sent⟩ := ctl
  simp only [onFrame, hr]
  cases stage <;> exact congrArg (fun e => complete _ (makeEc e)) he

end

-- A message that is read as an ErrorResponse is one.
theorem Dialogue.error_of_receive {σ : Type} {d : Dialogue σ} {s s' s'' : σ} {f : Frame} {m : AnyMessage}
    {m' : ErrorResponse} (he : d.select s (letter 'E') = .parse (.errorResponse {}) s'')
    (hs : d.select s f.type = .parse m s')
    (hr : Message.receive m f.type f.body = some (.errorResponse m')) : ∃ e, f.error? = some e := by
  have ⟨ht, hm⟩ := AnyMessage.messageType_receive hr
  rw [ht.trans hm.symm, show Message.messageType (AnyMessage.errorResponse m') = letter 'E' from rfl, he] at hs
  cases hs
  rw [AnyMessage.receive_inj .errorResponse] at hr
  have ⟨m, hm, _⟩ := Option.map_eq_some_iff.mp hr
  exact ⟨m.ec, by rw [Frame.error?, hm, Option.map_some]⟩

-- What else an operation reads that reads an ErrorResponse in every state.
theorem Dialogue.onFrame_inv_of_no_error {σ : Type} {d : Dialogue σ} {s s' : σ} {f : Frame}
    {mv : Move σ Report} (hs : d.select s (letter 'E') = .parse (.errorResponse {}) s')
    (he : f.error? = none) (h : d.onFrame s f = mv) (hm : ∀ e, mv ≠ .fail e) :
    ∃ m s₁ m', d.select s f.type = .parse m s₁ ∧ d.accept s₁ m' = mv ∧ ∀ e, m' ≠ .errorResponse e := by
  have ⟨m, s₁, m', hp, hr, ha⟩ := onFrame_inv h hm
  refine ⟨m, s₁, m', hp, ha, ?_⟩
  rintro m'' rfl
  have ⟨e, he'⟩ := error_of_receive hs hp hr
  rw [he] at he'
  cases he'

-- An operation that goes on after an ErrorResponse and keeps its error code in its state.
theorem KeepsErrors.of_goto {σ : Type} {d : Dialogue σ} {err : σ → ErrorCode}
    (start : err d.start = .none)
    (select : ∀ {s type m s'}, d.select s type = .parse m s' → err s' = err s)
    (error : ∀ {s}, ∃ s', d.select s (letter 'E') = .parse (.errorResponse {}) s' ∧
      ∀ m, ∃ s'', d.accept s' (.errorResponse m) = .goto s'' ∧ err s'' = makeEc m.ec)
    (goto : ∀ {s m s'}, d.accept s m = .goto s' → err s' = err s ∨ ∃ m', m = .errorResponse m')
    (complete : ∀ {s m r}, d.accept s m = .complete r → r.ec = err s) :
    KeepsErrors d.onFrame d.start Report.ec fun s seen => err s = errorCode seen := by
  have hg {s} {f : Frame} {e} (he : f.error? = some e) : ∃ s', d.onFrame s f = .goto s' ∧ err s' = makeEc e := by
    have ⟨s', hs, ha⟩ := error (s := s)
    have ⟨m, hm, hc⟩ := Dialogue.onFrame_errorResponse hs he
    have ⟨s'', ha, hx⟩ := ha m
    exact ⟨s'', hm.trans ha, hc ▸ hx⟩
  refine ⟨start, fun {s seen f s'} hi hf => ?_, fun {s seen f k} hi hf _ => ?_⟩
  all_goals cases he : f.error?
  case refine_1.some e =>
    have ⟨s'', hs, hc⟩ := hg (s := s) he
    rw [hs] at hf
    cases hf
    rw [errorCode_concat_error he, hc]
  case refine_1.none =>
    have ⟨_, hse, _⟩ := error (s := s)
    have ⟨m, s₁, m', hs, ha, hm⟩ := Dialogue.onFrame_inv_of_no_error hse he hf nofun
    have hc := (goto ha).resolve_right fun ⟨e, h⟩ => hm e h
    rw [errorCode_concat_none he, hc, select hs, hi]
  case refine_2.some e =>
    have ⟨s'', hs, _⟩ := hg (s := s) he
    rw [hs] at hf
    cases hf
  case refine_2.none =>
    have ⟨_, hse, _⟩ := error (s := s)
    have ⟨m, s₁, m', hs, ha, _⟩ := Dialogue.onFrame_inv_of_no_error hse he hf nofun
    rw [errorCode_concat_none he, complete ha, select hs, hi]

namespace Execute

theorem select_err {s s' : State} {type : Byte} {m : AnyMessage} (h : select s type = .parse m s') :
    s'.err = s.err := by
  have ⟨_, hs⟩ := select_satisfies.of_parse h
  rw [hs]

theorem accept_err {s s' : State} {m : AnyMessage} (h : accept s m = .goto s') :
    s'.err = s.err ∨ ∃ m', m = .errorResponse m' := by
  cases m <;> simp only [accept] at h
  case errorResponse m' => exact .inr ⟨m', rfl⟩
  case dataRow => split at h <;> cases h; exact .inl rfl
  all_goals cases h
  all_goals exact .inl rfl

theorem accept_ec {s : State} {m : AnyMessage} {r : Report} (h : accept s m = .complete r) :
    r.ec = s.err := by
  cases m <;> simp only [accept] at h
  case dataRow => split at h <;> cases h
  all_goals cases h
  rfl

theorem keepsErrors : KeepsErrors execute.onFrame execute.start Report.ec
    fun s seen => s.err = errorCode seen :=
  .of_goto rfl select_err ⟨_, rfl, fun _ => ⟨_, rfl, rfl⟩⟩ accept_err accept_ec

end Execute

namespace Oneshot

theorem select_err {s s' : State} {type : Byte} {m : AnyMessage} (h : select s type = .parse m s') :
    s'.err = s.err := by
  have ⟨_, hs⟩ := select_satisfies.of_parse h
  rw [hs]

theorem accept_err {s s' : State} {m : AnyMessage} (h : accept s m = .goto s') :
    s'.err = s.err ∨ ∃ m', m = .errorResponse m' := by
  cases m <;> simp only [accept] at h
  case errorResponse m' => exact .inr ⟨m', rfl⟩
  case dataRow => split at h <;> cases h; exact .inl rfl
  all_goals cases h
  all_goals exact .inl rfl

theorem accept_ec {s : State} {m : AnyMessage} {r : Report} (h : accept s m = .complete r) :
    r.ec = s.err := by
  cases m <;> simp only [accept] at h
  case dataRow => split at h <;> cases h
  all_goals cases h
  rfl

theorem keepsErrors : KeepsErrors oneshot.onFrame oneshot.start Report.ec
    fun s seen => s.err = errorCode seen :=
  .of_goto rfl select_err ⟨_, rfl, fun _ => ⟨_, rfl, rfl⟩⟩ accept_err accept_ec

end Oneshot

theorem SimpleQuery.keepsErrors : KeepsErrors simpleQuery.onFrame simpleQuery.start Report.ec
    fun _ seen => ∀ g ∈ seen, g.error? = none := by
  refine .of_complete fun {s f e} he => ?_
  have ⟨m, hm, hc⟩ := Dialogue.onFrame_errorResponse (d := simpleQuery) (s := s) rfl he
  exact ⟨_, hm, congrArg makeEc hc⟩

theorem ParseQuery.keepsErrors : KeepsErrors parseQuery.onFrame parseQuery.start Report.ec
    fun _ seen => ∀ g ∈ seen, g.error? = none := by
  refine .of_complete fun {s f e} he => ?_
  have ⟨m, hm, hc⟩ := Dialogue.onFrame_errorResponse (d := parseQuery) (s := s) rfl he
  exact ⟨_, hm, congrArg makeEc hc⟩

theorem Connect.keepsErrors {para : ConnectParameters} : KeepsErrors (onFrame para) {} Report.ec
    fun _ seen => ∀ g ∈ seen, g.error? = none :=
  .of_complete fun he => ⟨_, onFrame_errorResponse _ he, rfl⟩

-- When an operation ends because of a malformed message, its error code tells so.
def Failure.Coded {κ : Type} (ecOf : κ → ErrorCode) (e : Failure κ) : Prop :=
  ∀ k, e = .malformed k → ecOf k = makeEc .malformedMessage

theorem Execute.accept_ne_malformed {s : State} {m : AnyMessage} {r : Report} :
    accept s m ≠ .fail (.malformed r) := by
  cases m
  case dataRow => simp only [accept]; split <;> rintro ⟨⟩
  all_goals rintro ⟨⟩

theorem Oneshot.accept_ne_malformed {s : State} {m : AnyMessage} {r : Report} :
    accept s m ≠ .fail (.malformed r) := by
  cases m
  case dataRow => simp only [accept]; split <;> rintro ⟨⟩
  all_goals rintro ⟨⟩

theorem SimpleQuery.accept_ne_malformed {s : State} {m : AnyMessage} {r : Report} :
    accept s m ≠ .fail (.malformed r) := by
  cases m
  case dataRow | rowDescription => simp only [accept]; split <;> rintro ⟨⟩
  all_goals rintro ⟨⟩

theorem ParseQuery.accept_ne_malformed {stage : Stage} {m : AnyMessage} {r : Report} :
    accept stage m ≠ .fail (.malformed r) := by
  cases m <;> nofun

theorem Dialogue.failures {σ : Type} {d : Dialogue σ} (h : ∀ {s m k}, d.accept s m ≠ .fail (.malformed k))
    (s : State σ) (bs : Bytes) :
    (d.doParse s bs).Satisfies (fun _ => True) (fun _ => True) (Failure.Coded Report.ec) := by
  have hm (s : σ) : Failure.Coded Report.ec (d.malformed s) := by
    rintro _ ⟨⟩
    rfl
  refine Loop.run_satisfies (fun {s} _ bs => ?_) trivial
  obtain ⟨ctl, parsers⟩ := s
  cases parsers <;> simp only [loop, turn]
  case none =>
    cases bs <;> simp only [guess]
    case nil => trivial
    case cons =>
      split
      case h_1 => trivial
      case h_2 => exact hm ctl
      case h_3 => rintro _ ⟨⟩
  case some parser =>
    split
    case h_1 => trivial
    case h_2 =>
      simp only [finish]
      split
      case h_1 | h_2 => trivial
      case h_3 e he =>
        rintro k rfl
        exact absurd he h
    case h_3 => rintro _ ⟨⟩
    case h_4 => exact hm ctl

theorem Connect.failures {para : ConnectParameters} (s : State) (bs : Bytes) :
    (doRead para s bs).Satisfies (fun _ => True) (fun _ => True) (Failure.Coded Report.ec) := by
  have hm (ctl : Ctl) : Failure.Coded Report.ec (malformed ctl) := by
    rintro _ ⟨⟩
    rfl
  refine Loop.run_satisfies (fun {s} _ bs => ?_) trivial
  simp only [loop, turn]
  split
  case h_1 => trivial
  case h_2 m rest _ =>
    simp only [finish]
    split
    case h_1 | h_2 => trivial
    case h_3 e he =>
      have hn {k} : onMessage para s.ctl m = .fail (.malformed k) → .malformed k = malformed s.ctl := by
        obtain ⟨⟨stage, sent⟩, _⟩ := s
        simp only [onMessage]
        repeat' split
        all_goals rintro ⟨⟩
        rfl
      rintro k rfl
      exact hm s.ctl k (hn he).symm
  case h_3 => rintro _ ⟨⟩
  case h_4 => exact hm s.ctl

-- How an operation reads messages, and what it knows of their errors.
structure Machine.Reading (m : Machine) (ecOf : m.Result → ErrorCode) where
  State        : Type
  onFrame      : State → Frame → Move State m.Result
  embed        : State → m.State
  start        : State
  inv          : State → List Frame → Prop
  embed_start  : embed start = m.start
  refines      : Refines m.parse onFrame embed
  rejectsShort : RejectsShort m.parse embed
  keepsErrors  : KeepsErrors onFrame start ecOf inv
  failures     : ∀ s bs, (m.parse s bs).Satisfies (fun _ => True) (fun _ => True) (Failure.Coded ecOf)

-- The reading of a query operation.
def Dialogue.reading {σ : Type} (d : Dialogue σ) (safe : d.Invariant) {inv : σ → List Frame → Prop}
    (keepsErrors : KeepsErrors d.onFrame d.start Report.ec inv)
    (h : ∀ {s m k}, d.accept s m ≠ .fail (.malformed k)) : (d.machine safe).Reading Report.ec where
  State        := σ
  onFrame      := d.onFrame
  embed s      := ⟨s, none⟩
  start        := d.start
  inv          := inv
  embed_start  := rfl
  refines      := refines
  rejectsShort := d.rejectsShort
  keepsErrors  := keepsErrors
  failures     := failures h

def Connect.reading (para : ConnectParameters) : (machine para).Reading Report.ec where
  State        := Ctl
  onFrame      := onFrame para
  embed ctl    := { ctl }
  start        := {}
  inv _ seen   := ∀ g ∈ seen, g.error? = none
  embed_start  := rfl
  refines      := refines
  rejectsShort := rejectsShort
  keepsErrors  := keepsErrors
  failures     := failures

namespace Operation

variable (op : Operation)

-- The error code of a completion.
def ec : (op : Operation) → op.machine.Result → ErrorCode
  | connect _      => Connect.Report.ec
  | simpleQuery    => Report.ec
  | parseQuery     => Report.ec
  | execute        => Report.ec
  | executeOneshot => Report.ec

def reading : (op : Operation) → op.machine.Reading op.ec
  | connect para   => Connect.reading para
  | simpleQuery    => Postgresql.simpleQuery.reading SimpleQuery.invariant SimpleQuery.keepsErrors
    SimpleQuery.accept_ne_malformed
  | parseQuery     => Postgresql.parseQuery.reading ParseQuery.invariant ParseQuery.keepsErrors
    ParseQuery.accept_ne_malformed
  | execute        => Postgresql.execute.reading Execute.invariant Execute.keepsErrors
    Execute.accept_ne_malformed
  | executeOneshot => Postgresql.oneshot.reading Oneshot.invariant Oneshot.keepsErrors
    Oneshot.accept_ne_malformed

-- The operation has completed, for some reason other than a malformed message, and has consumed some
-- messages until then.
def Consumed (buf : Bytes) (reads : List Read) (fs : List Frame) (k : op.machine.Result) : Prop :=
  ∃ left unfed, op.run buf reads = (.done k left, unfed) ∧
    op.received buf reads = Frame.encodeAll fs ++ (left ++ unfed.flatten)

-- An operation that has consumed an ErrorResponse does not complete without an error, and neither does
-- one that ends because of a malformed message.
def ReportsErrors (buf : Bytes) (reads : List Read) : Prop :=
  (∀ fs k, op.Consumed buf reads fs k → (∃ f ∈ fs, ∃ e, f.error? = some e) → (op.ec k).isZero = false) ∧
    ∀ k left unfed, op.run buf reads = (.fail (.malformed k) left, unfed) → (op.ec k).isZero = false

variable {op} {buf : Bytes} {reads : List Read} {fs : List Frame} {k : op.machine.Result}

-- What an operation has consumed are the messages that it has read.
theorem Consumed.onFrames (h : op.Consumed buf reads fs k) :
    onFrames op.reading.onFrame op.reading.start fs = (.complete k, []) := by
  have ⟨left, unfed, hr, hb⟩ := h
  have ha := op.machine.feed_agrees (op.chunks buf reads)
  rw [show feed op.machine.parse op.machine.start (op.chunks buf reads) = _ from hr] at ha
  have hd := ha.to_done
  rw [← op.reading.embed_start] at hd
  have ⟨gs, hg, ho⟩ := op.reading.refines.exists_frames op.machine.resumable op.reading.rejectsShort hd
  have he := List.append_cancel_right (hb.symm.trans hg)
  rwa [Frame.encodeAll_injective he]

theorem malformed_ne_zero {left unfed} (h : op.run buf reads = (.fail (.malformed k) left, unfed)) :
    (op.ec k).isZero = false := by
  have hs := feed_satisfies (fun {s} _ bs => op.reading.failures s bs) trivial (op.chunks buf reads)
    (s := op.machine.start)
  rw [show feed op.machine.parse op.machine.start (op.chunks buf reads) = _ from h] at hs
  rw [hs k rfl]
  rfl

-- The error code of an operation that has consumed an ErrorResponse.
theorem Consumed.ec_eq (h : op.Consumed buf reads fs k) {f : Frame} {e : Errc}
    (hl : lastError fs = some f) (he : f.error? = some e) : op.ec k = makeEc e := by
  have hm := (error_of_lastError hl).left
  rw [op.reading.keepsErrors.run op.reading.keepsErrors.start h.onFrames ⟨f, by simpa using hm, e, he⟩]
  simp [errorCode, hl, he]

-- The operations report the errors of a server if and only if the last ErrorResponse that they consume
-- has a SQLSTATE, the last of which stands for an error.
theorem reportsErrors_iff (op : Operation) (buf : Bytes) (reads : List Read) :
    op.ReportsErrors buf reads ↔
      ∀ fs k, op.Consumed buf reads fs k → ∀ f, lastError fs = some f → f.TellsError := by
  constructor
  case mp =>
    intro h fs k hc f hl
    have ⟨hm, e, he⟩ := error_of_lastError hl
    have hz := h.left fs k hc ⟨f, hm, e, he⟩
    rw [hc.ec_eq hl he] at hz
    exact (Frame.tellsError_iff he).mpr (by simpa [ErrorCode.isZero] using hz)
  case mpr =>
    intro h
    refine ⟨fun fs k hc ⟨f, hm, e, he⟩ => ?_, fun _ _ _ => malformed_ne_zero⟩
    have ⟨g, hl⟩ := exists_lastError hm he
    have ⟨_, e', he'⟩ := error_of_lastError hl
    have hn := (Frame.tellsError_iff he').mp (h fs k hc g hl)
    rw [hc.ec_eq hl he']
    simpa [ErrorCode.isZero] using hn

-- An ErrorResponse without fields.
def silentError : Frame :=
  ⟨letter 'E', [0], by decide⟩

theorem error_silentError : silentError.error? = some .successfulCompletion :=
  ErrorResponse.receive_iff.mpr ⟨[], nofun, rfl, rfl⟩

-- An operation that completes at it has no error.
theorem silentError_not_reported :
    ¬parseQuery.ReportsErrors [] [⟨silentError.encode, by decide, by decide⟩] := by
  intro h
  have ⟨m, hm, hc⟩ := Dialogue.onFrame_errorResponse (d := Postgresql.parseQuery)
    (s := Postgresql.parseQuery.start) rfl error_silentError
  have ho : onFrames Postgresql.parseQuery.onFrame Postgresql.parseQuery.start [silentError] =
      (.complete { ec := makeEc m.ec }, []) := by
    rw [onFrames, hm]
    rfl
  have hb : [[], silentError.encode].flatten = Frame.encodeAll [silentError] := by simp
  have hs := Dialogue.refines.feed_frames (s := Postgresql.parseQuery.start)
    (Dialogue.resumable (d := Postgresql.parseQuery)) hb
  rw [ho] at hs
  generalize hf : feed _ _ _ = out at hs
  cases hs
  case complete left unfed hl =>
    have hz := h.left [silentError] { ec := makeEc m.ec } ⟨left, unfed, hf, hl ▸ rfl⟩
      ⟨silentError, by simp, _, error_silentError⟩
    rw [hc] at hz
    cases hz

end Operation

end ChxSql.Postgresql

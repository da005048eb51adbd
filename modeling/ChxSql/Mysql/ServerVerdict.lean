import ChxSql.Mysql.Connection
import ChxSql.Mysql.PacketSequence

namespace ChxSql.Mysql

open Incremental
open ComQuery (Read received)

namespace Connection

-- The first packet is one that refuses the connection.
def ErrFirst (bs : Bytes) : Prop :=
  ∃ packet : ErrPacket, packet.WellFormed ∧ packet.encode.length < 2 ^ 24 ∧
    encodePacket 0 packet.encode <+: bs

-- However the bytes come in reads, the operation runs into no assertion, and it completes with the
-- error that the server reports.
structure NeverStuck (sha1 : Sha1) (param : ConnectParameters) (reads : List Read) : Prop where
  defined : ∀ left, (run sha1 param reads).1 ≠ .fail () left
  refused : ∀ packet : ErrPacket, packet.WellFormed → packet.encode.length < maxPayload →
    received reads = encodePacket 0 packet.encode →
    run sha1 param reads = (.done packet.errorCode.toNat [], [])
  denied  : ∀ (before after : List Read) raw p (packet : ErrPacket), reads = before ++ after →
    run sha1 param before = (.more (.sendHandshakeResponse raw p) [], []) →
    packet.WellFormed → packet.encode.length < maxPayload →
    received after = encodePacket 2 packet.encode →
    run sha1 param reads = (.done packet.errorCode.toNat [], [])

variable {sha1 : Sha1} {param : ConnectParameters} {s s' : State} {reads : List Read} {bs : Bytes} {remain : Nat}

theorem encode_head (packet : ErrPacket) : ∃ bs, packet.encode = 0xff :: bs :=
  ⟨_, rfl⟩

theorem onPayloadData_err (sha1 : Sha1) (param : ConnectParameters) {packet : ErrPacket} (h : packet.WellFormed)
    (hs : s.stage = .initialGuess ∧ s.payloadParser = .handshakeV10 {} ∨ s.stage = .s2Guess) :
    onPayloadData sha1 param 0 s packet.encode = (.pause,
      { s with ec := packet.errorCode.toNat, payloadParser := .err {}, stage := .finished }) := by
  have hp := ErrPacket.parse_encode h
  have ⟨bs, hb⟩ := encode_head packet
  rw [hb] at hp ⊢
  obtain ⟨hs, hq⟩ | hs := hs
  case inl =>
    simp only [onPayloadData, hs, hq, guess₁, ne_eq, not_true, if_false, onErr]
    exact PayloadResult.ofStep_done hp
  case inr =>
    simp only [onPayloadData, hs, guess₂, if_true, onErr, if_neg (show (0xff : Byte) ≠ 0x00 by decide)]
    exact PayloadResult.ofStep_done hp

-- The operation answers a greeting for which it has a digest of the password.
theorem onPayloadData_greeting {g : HandshakeV10Packet.Greeting} {pw : Digest} (h : g.WellFormed)
    (hc : g.cap &&& CapabilitiesFlags.clientPluginAuth = 0 ↔
      g.flags &&& CapabilitiesFlags.clientPluginAuth = 0)
    (hn : g.authPluginName = pluginName)
    (hp : generatePw sha1 g.authPluginDataPart1 (g.authPluginDataPart2.take (g.authPluginDataLen.toNat - 9))
      param.password = some pw) :
    onPayloadData sha1 param 0 { nextSequenceId := 1 } g.encode = (.pause,
      { stage          := .s2Guess
        raw            := handshakeResponse param 1 pw
        nextSequenceId := 2
        clientCap      := clientFlag param.database }) := by
  have he := HandshakeV10Packet.Greeting.parse_encode h hc
  have ⟨bs, hb⟩ : ∃ bs, g.encode = 10 :: bs := ⟨_, rfl⟩
  rw [hb] at he ⊢
  simp only [onPayloadData, guess₁, if_pos (show (10 : Byte) ≠ 0xff by decide), onHandshake, he, doHandshakeResponse,
    if_neg (not_not_intro hn), hp, if_true]
  rfl

-- A pause means that the operation has a response for the server, or that the packet is a refusal.
theorem onHandshake_pause {parser} (h : onHandshake sha1 param s parser bs = (.pause, s')) :
    s'.stage = .s2Guess ∧ s'.nextSequenceId = s.nextSequenceId + 1 ∧ s'.Consistent := by
  simp only [onHandshake] at h
  cases hp : parser.parse bs <;> simp only [hp] at h
  case more => cases h
  case fail e _ => cases e <;> cases h
  case done packet r =>
    obtain ⟨_, _, _, hr⟩ | ⟨_, hr⟩ :=
      doHandshakeResponse_cases sha1 param packet { s with payloadParser := .handshakeV10 {} } <;> simp only [hr] at h
    case inl => cases h
    case inr =>
      split at h <;> cases h
      exact ⟨rfl, rfl, clientFlag_untracked param.database⟩

theorem onErr_pause (h : onErr true s {} bs = (.pause, s')) :
    s'.stage = .finished ∧ ∃ packet : ErrPacket, packet.WellFormed ∧ bs = packet.encode := by
  cases hp : ({} : ErrPacket.Parser).parse true bs <;> rw [onErr, hp] at h
  case more => cases h
  case fail e _ => cases e <;> cases h
  case done packet r =>
    cases r <;> cases h
    exact ⟨rfl, ErrPacket.exists_of_parse hp⟩

theorem onPayloadData_pause (hs : s.stage = .initialGuess) (hq : s.payloadParser = .handshakeV10 {})
    (h : onPayloadData sha1 param 0 s bs = (.pause, s')) :
    (s'.stage = .s2Guess ∧ s'.nextSequenceId = s.nextSequenceId + 1 ∧ s'.Consistent) ∨
    (s'.stage = .finished ∧ ∃ packet : ErrPacket, packet.WellFormed ∧ bs = packet.encode) := by
  simp only [onPayloadData, hs, hq] at h
  cases bs
  case nil => cases h
  case cons firstByte bs =>
    simp only [guess₁] at h
    split at h
    case isTrue  => exact .inl (onHandshake_pause (s := { s with stage := .s1Handshake }) h)
    case isFalse => exact .inr (onErr_pause h)

-- The operation is never content with a packet.
theorem onPayloadData_ne_success : (onPayloadData sha1 param remain s bs).1 ≠ .success := by
  have herr {isFinal s parser bs} : (onErr isFinal s parser bs).1 ≠ .success :=
    PayloadResult.ofStep_ne_success (by simp)
  have hok {isFinal s parser bs} : (onOk isFinal s parser bs).1 ≠ .success :=
    PayloadResult.ofStep_ne_success (by simp)
  have hhandshake {s parser bs} : (onHandshake sha1 param s parser bs).1 ≠ .success := by
    simp only [onHandshake]
    split
    case h_1 => simp
    case h_2 e _ _ => cases e <;> rintro ⟨⟩
    case h_3 packet r _ =>
      obtain ⟨_, _, _, hr⟩ | ⟨_, hr⟩ :=
        doHandshakeResponse_cases sha1 param packet { s with payloadParser := .handshakeV10 {} } <;> simp only [hr]
      case inl => simp
      case inr => split <;> simp
  simp only [onPayloadData]
  split
  case h_1 =>
    cases bs
    case nil  => rintro ⟨⟩
    case cons => simp only [guess₁]; split; exacts [hhandshake, herr]
  case h_3 =>
    cases bs
    case nil  => rintro ⟨⟩
    case cons => simp only [guess₂]; split_ifs; exacts [hok, herr, by simp]
  case h_2 => exact hhandshake
  case h_4 => exact hok
  case h_5 => exact herr
  case h_6 => exact herr
  case h_7 => simp

-- What the operation has read when it pauses for the first time.
theorem cases_of_feed {rest : Bytes} (h : fresh.feed (impl sha1 param) bs = .done s rest) :
    (s.stage = .s2Guess ∧ s.nextSequenceId = 2 ∧ s.Consistent) ∨ (s.stage = .finished ∧ ErrFirst bs) := by
  have ⟨id, payload, s₁, s₂, he, hl, h₁, h₂, hp⟩ := BasicPacket.exists_packet onPayloadData_ne_success h
  cases h₁
  have hid : (0 : UInt8) = id := by
    by_contra hn
    simp [impl, hn] at h₂
  subst hid
  cases h₂
  obtain hs | ⟨hs, packet, hw, rfl⟩ := onPayloadData_pause (s := { nextSequenceId := 1 }) rfl rfl hp
  case inl => exact .inl hs
  case inr => exact .inr ⟨hs, packet, hw, hl, he ▸ List.prefix_append ..⟩

-- The stages of a run.
theorem run_eq (sha1 : Sha1) (param : ConnectParameters) (reads : List Read) :
    run sha1 param reads = feedRest (onRead sha1 param)
      (onReadStage1 (feed (BasicPacket.feed (impl sha1 param)) fresh (reads.map (·.bytes))).1,
        (feed (BasicPacket.feed (impl sha1 param)) fresh (reads.map (·.bytes))).2) := by
  rw [run]
  exact feed_goesOver (g := onRead sha1 param) .readStage1 onReadStage1 (fun _ _ => rfl) (fun _ _ => rfl) fresh _

theorem feed_stage2 (p : BasicPacket State) (cs : List Bytes) :
    feed (onRead sha1 param) (.readStage2 p) cs = feedRest (onRead sha1 param)
      (onReadStage2 (feed (BasicPacket.feed (impl sha1 param)) p cs).1,
        (feed (BasicPacket.feed (impl sha1 param)) p cs).2) :=
  feed_goesOver .readStage2 onReadStage2 (fun _ _ => rfl) (fun _ _ => rfl) p _

-- The response is written when the next read starts.
theorem feed_response (raw : Bytes) (p : BasicPacket State) (c : Bytes) (cs : List Bytes) :
    feed (onRead sha1 param) (.sendHandshakeResponse raw p) (c :: cs) =
      feed (onRead sha1 param) (.readStage2 p) (c :: cs) :=
  rfl

theorem fresh_consistent : fresh.impl.Consistent := trivial

theorem feed_agrees (sha1 : Sha1) (param : ConnectParameters) {p : BasicPacket State} (hc : p.impl.Consistent)
    (cs : List Bytes) :
    Agrees (feed (BasicPacket.feed (impl sha1 param)) p cs) (p.feed (impl sha1 param) cs.flatten) :=
  BasicPacket.feed_agrees impl_lawful hc cs

theorem feed_keeps (sha1 : Sha1) (param : ConnectParameters) {p : BasicPacket State} (hc : p.impl.Consistent)
    (hs : p.impl.stage ≠ .finished) (cs : List Bytes) :
    (feed (BasicPacket.feed (impl sha1 param)) p cs).1.Satisfies
      (fun p => p.impl.Consistent ∧ p.impl.stage ≠ .finished) State.Consistent (fun e => e.1 ≠ .undefined) :=
  feed_satisfies (BasicPacket.feed_satisfies impl_keeps) ⟨hc, hs⟩ cs

theorem feed_fresh_agrees (sha1 : Sha1) (param : ConnectParameters) (reads : List Read) :
    Agrees (feed (BasicPacket.feed (impl sha1 param)) fresh (reads.map (·.bytes)))
      (fresh.feed (impl sha1 param) (received reads)) :=
  feed_agrees sha1 param fresh_consistent _

-- Reads that hold one packet and nothing else are used up by it.
theorem feed_packet {p : BasicPacket State} (hc : p.impl.Consistent)
    (hf : p.feed (impl sha1 param) (received reads) = .done s []) :
    feed (BasicPacket.feed (impl sha1 param)) p (reads.map (·.bytes)) = (.done s [], []) := by
  have ha := feed_agrees sha1 param hc (reads.map (·.bytes))
  have hu := feed_unfed_suffix (BasicPacket.feed (impl sha1 param)) p (reads.map (·.bytes))
  rw [← received, hf] at ha
  obtain ⟨left, unread, hfed, hleft⟩ := ha.of_done
  obtain ⟨hl, hflat⟩ := List.append_eq_nil_iff.mp hleft
  rw [hfed] at hu
  have hn : unread = [] := ComQuery.eq_nil_of_unread hu hflat
  rw [hfed, hl, hn]

-- A server that refuses the connection before the handshake makes the operation abort.
theorem run_of_errFirst (sha1 : Sha1) (param : ConnectParameters) (h : ErrFirst (received reads)) :
    ∃ left, (run sha1 param reads).1 = .fail () left := by
  have ⟨packet, hw, hl, rest, hr⟩ := h
  have hp := onPayloadData_err sha1 param (s := { nextSequenceId := 1 }) hw (.inl ⟨rfl, rfl⟩)
  have hne : packet.encode ++ rest ≠ [] := List.append_ne_nil_of_left_ne_nil (List.cons_ne_nil _ _) rest
  have hf : fresh.feed (impl sha1 param) (encodePacket 0 packet.encode ++ rest) = .done _ rest :=
    BasicPacket.feed_pause rfl rfl hl hne hp
  have ha := feed_fresh_agrees sha1 param reads
  rw [← hr, hf] at ha
  have ⟨left, unread, hfed, _⟩ := ha.of_done
  refine ⟨left, ?_⟩
  rw [run_eq, hfed]
  rfl

-- A failure that is not an assertion lets the operation complete.
theorem fails_eq_done {e : PacketResult × State} (h : e.1 ≠ .undefined) (left : Bytes) :
    ∃ ec, fails e left = .done ec left := by
  obtain ⟨e, s⟩ := e
  cases e <;> first | exact absurd rfl h | exact ⟨_, rfl⟩

theorem feed_stage2_defined {p : BasicPacket State} (hc : p.impl.Consistent) (hs : p.impl.stage ≠ .finished)
    (cs : List Bytes) (left : Bytes) :
    (feed (onRead sha1 param) (.readStage2 p) cs).1 ≠ .fail () left := by
  have ha := feed_agrees sha1 param hc cs
  have hi := feed_keeps sha1 param hc hs cs
  rw [feed_stage2]
  generalize feed (BasicPacket.feed (impl sha1 param)) p cs = fed at ha hi ⊢
  obtain ⟨st, unread⟩ := fed
  cases st
  case more p' r =>
    obtain ⟨_, rfl⟩ := ha.to_more
    nofun
  case done s r => nofun
  case fail e r =>
    have ⟨ec, he⟩ := fails_eq_done hi r
    rw [onReadStage2, he]
    nofun

-- Once it has read in the second stage, the operation has no further response.
theorem eq_nil_of_response {p p' : BasicPacket State} {raw raw' : Bytes} (hc : p.impl.Consistent)
    {cs : List Bytes} (h : feed (onRead sha1 param) (.sendHandshakeResponse raw p) cs =
      (.more (.sendHandshakeResponse raw' p') [], [])) : cs = [] ∧ p = p' := by
  cases cs
  case nil => cases h; exact ⟨rfl, rfl⟩
  case cons c cs =>
    have ha := feed_agrees sha1 param hc (c :: cs)
    rw [feed_response, feed_stage2] at h
    generalize feed (BasicPacket.feed (impl sha1 param)) p (c :: cs) = fed at ha h
    obtain ⟨st, unread⟩ := fed
    cases st
    case more p' r =>
      obtain ⟨_, rfl⟩ := ha.to_more
      cases h
    case done s r => cases h
    case fail e r =>
      obtain ⟨e, s⟩ := e
      cases e <;> cases h

-- What has become of the first stage.
inductive Stage1 (sha1 : Sha1) (param : ConnectParameters) (reads : List Read) : Prop
  | reading {p} : run sha1 param reads = (.more (.readStage1 p) [], []) → Stage1 sha1 param reads
  | completed {ec left unread} : run sha1 param reads = (.done ec left, unread) → Stage1 sha1 param reads
  | aborted {left unread} : ErrFirst (received reads) → run sha1 param reads = (.fail () left, unread) →
    Stage1 sha1 param reads
  | responded {raw s unread} : s.stage = .s2Guess → s.nextSequenceId = 2 → s.Consistent →
    run sha1 param reads = feed (onRead sha1 param) (.sendHandshakeResponse raw (resumed s)) unread →
    unread <:+ reads.map (·.bytes) → Stage1 sha1 param reads

theorem run_stage1 (sha1 : Sha1) (param : ConnectParameters) (reads : List Read) : Stage1 sha1 param reads := by
  have ha := feed_fresh_agrees sha1 param reads
  have hi := feed_keeps sha1 param fresh_consistent nofun (reads.map (·.bytes))
  have hu := feed_unfed_suffix (BasicPacket.feed (impl sha1 param)) fresh (reads.map (·.bytes))
  have hr := run_eq sha1 param reads
  generalize feed (BasicPacket.feed (impl sha1 param)) fresh (reads.map (·.bytes)) = fed at ha hi hu hr
  obtain ⟨st, unread⟩ := fed
  cases st
  case more p r =>
    obtain ⟨_, rfl⟩ := ha.to_more
    exact .reading hr
  case fail e r =>
    have ⟨ec, he⟩ := fails_eq_done hi r
    rw [onReadStage1, he] at hr
    exact .completed hr
  case done s r =>
    obtain ⟨hs, hn, hc⟩ | ⟨hs, he⟩ := cases_of_feed ha.to_done <;> simp only [onReadStage1, hs] at hr
    case inr => exact .aborted he hr
    case inl =>
      split at hr
      case isFalse => exact .completed hr
      case isTrue  =>
        refine .responded ?_ ?_ ?_ hr hu
        case refine_1 => rfl
        case refine_2 => exact hn
        case refine_3 => simpa only [State.Consistent, hs] using hc

theorem run_defined (h : ¬ErrFirst (received reads)) (left : Bytes) :
    (run sha1 param reads).1 ≠ .fail () left := by
  cases run_stage1 sha1 param reads
  case reading hr     => rw [hr]; nofun
  case completed hr   => rw [hr]; nofun
  case aborted he _   => exact absurd he h
  case responded raw s unread hs _ hc hr _ =>
    rw [hr]
    cases unread
    case nil  => nofun
    case cons =>
      rw [feed_response]
      exact feed_stage2_defined (p := resumed s) hc (fun hf => nomatch hs.symm.trans hf) _ left

-- After the response the operation completes with the error that the server reports.
theorem run_denied {raw : Bytes} {s : State} {after : List Read} {packet : ErrPacket} (hs : s.stage = .s2Guess)
    (hn : s.nextSequenceId = 2) (hc : s.Consistent) (hw : packet.WellFormed)
    (hl : packet.encode.length < maxPayload) (hr : received after = encodePacket 2 packet.encode) :
    feed (onRead sha1 param) (.sendHandshakeResponse raw (resumed s)) (after.map (·.bytes)) =
      (.done packet.errorCode.toNat [], []) := by
  have hp := onPayloadData_err sha1 param (s := { s with nextSequenceId := 3 }) hw (.inr hs)
  have hi : (impl sha1 param).onSequenceIdComplete s 2 = (.success, { s with nextSequenceId := 3 }) := by
    simp only [impl, hn, if_true]
    rfl
  have hne : packet.encode ++ [] ≠ [] := List.append_ne_nil_of_left_ne_nil (List.cons_ne_nil _ _) []
  have hf : (resumed s).feed (impl sha1 param) (encodePacket 2 packet.encode ++ []) = .done _ [] :=
    BasicPacket.feed_pause rfl hi (hl.trans (by decide)) hne hp
  rw [List.append_nil, ← hr] at hf
  have hfed := feed_packet (p := resumed s) hc hf
  have hne : after.map (·.bytes) ≠ [] := by
    intro hn
    rw [received, hn] at hr
    cases hr
  obtain ⟨c, cs, hcs⟩ := List.exists_cons_of_ne_nil hne
  rw [hcs] at hfed ⊢
  rw [feed_response, feed_stage2, hfed]
  rfl

-- The operation gets stuck just if the server refuses the connection before the handshake.
theorem neverStuck_iff (sha1 : Sha1) (param : ConnectParameters) (reads : List Read) :
    NeverStuck sha1 param reads ↔ ¬ErrFirst (received reads) := by
  constructor
  case mp =>
    intro h he
    have ⟨left, hf⟩ := run_of_errFirst sha1 param he
    exact h.defined left hf
  case mpr =>
    intro h
    refine ⟨run_defined h, fun packet hw hl hr => ?_, fun before after raw p packet he hb hw hl hr => ?_⟩
    case refine_1 => exact absurd ⟨packet, hw, hl.trans (by decide), hr ▸ List.prefix_rfl⟩ h
    case refine_2 =>
      have hrun : run sha1 param reads =
          feed (onRead sha1 param) (.sendHandshakeResponse raw p) (after.map (·.bytes)) := by
        rw [run, he, List.map_append]
        exact feed_append_of_more hb _
      cases run_stage1 sha1 param before
      case reading h₁   => rw [h₁] at hb; cases hb
      case completed h₁ => rw [h₁] at hb; cases hb
      case aborted h₁   => rw [h₁] at hb; cases hb
      case responded hs hn hc h₁ _ =>
        have ⟨_, hp⟩ := eq_nil_of_response hc (h₁.symm.trans hb)
        rw [hrun, ← hp]
        exact run_denied hs hn hc hw hl hr

-- The error of a server that has too many connections.
def tooManyConnections : ErrPacket where
  errorCode    := 1040
  sqlState     := [48, 56, 48, 48, 52]
  errorMessage := [84, 111, 111, 32, 109, 97, 110, 121, 32, 99, 111, 110, 110, 101, 99, 116, 105, 111, 110, 115]

theorem tooManyConnections_stuck : ¬NeverStuck { digest := fun _ => none } ⟨[], [], []⟩
    (ComQuery.singles (encodePacket 0 tooManyConnections.encode)) := by
  intro h
  have he : ErrFirst (received (ComQuery.singles (encodePacket 0 tooManyConnections.encode))) :=
    ⟨tooManyConnections, by decide, by decide, ComQuery.received_singles _ ▸ List.prefix_rfl⟩
  have ⟨left, hf⟩ := run_of_errFirst { digest := fun _ => none } ⟨[], [], []⟩ he
  exact h.defined left hf

end Connection

end ChxSql.Mysql

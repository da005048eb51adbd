import ChxSql.Mysql.QueryInvariant
import ChxSql.Mysql.TextResultset

namespace ChxSql.Mysql

open Incremental ColumnDefinition41Packet

namespace ComQuery

variable {clientCap : UInt32} {s s' : State} {payload bs : Bytes} {len remain : Nat}

-- What the operation has read since it knows the number of columns.
def State.items (s : State) : Nat :=
  s.resultSet.names.length + s.resultSet.rows.length

-- The operation knows the number of columns, and waits for a packet.
def State.Between (s : State) : Prop :=
  s.stage = .s2ColnumDef ∨ s.stage = .s2ResultSetRowGuess

-- The answer to the payload of a packet. A packet is an item, or it ends the items.
structure Adds (s : State) (answer : PayloadResult × State) : Prop where
  columnCount    : answer.2.columnCount = s.columnCount
  nextSequenceId : answer.2.nextSequenceId = s.nextSequenceId
  accepted       : answer.1 = .success → answer.2.Between ∧ answer.2.items = s.items + 1
  ended          : answer.1 = .pause → answer.2.stage = .finished ∧ answer.2.items = s.items

theorem Adds.ofStep {π α : Type} {st : Step Byte π α PayloadFailure} {ok : PayloadResult}
    {more : π → State} {done : α → State} {failed : State}
    (hm : ∀ p, Adds s (.needMore, more p)) (hd : ∀ a, Adds s (ok, done a))
    (hf : Adds s (.malformed, failed)) : Adds s (PayloadResult.ofStep st ok more done failed) := by
  cases st
  case more p r => exact hm p
  case done a r =>
    cases r
    case nil  => exact hd a
    case cons => exact ⟨(hd a).columnCount, (hd a).nextSequenceId, nofun, nofun⟩
  case fail e r => cases e <;> exact ⟨hf.columnCount, hf.nextSequenceId, nofun, nofun⟩

theorem guessRow_adds : Adds s (guessRow clientCap len remain s bs) := by
  simp only [guessRow]
  split
  case isTrue => exact ⟨rfl, rfl, by simp, by simp⟩
  case isFalse =>
    cases bs
    case nil => exact ⟨rfl, rfl, by simp, by simp⟩
    case cons =>
      dsimp only
      split_ifs
      case neg =>
        refine .ofStep (fun _ => ⟨rfl, rfl, by simp, by simp⟩) (fun row => ⟨rfl, rfl, fun _ => ⟨.inr rfl, ?_⟩, by simp⟩)
          ⟨rfl, rfl, by simp, by simp⟩
        simp [State.items, Nat.add_assoc]
      all_goals
        refine .ofStep (fun _ => ⟨rfl, rfl, by simp, by simp⟩) (fun _ => ⟨rfl, rfl, by simp, fun _ => ⟨rfl, rfl⟩⟩)
          ⟨rfl, rfl, by simp, by simp⟩

theorem onPayloadData_adds (hs : s.Between) : Adds s (onPayloadData clientCap len remain s bs) := by
  obtain ⟨stage, payloadParser, columnCount, resultSet, ec, nextSequenceId⟩ := s
  obtain rfl | rfl := hs <;> simp only [onPayloadData]
  case inr => exact guessRow_adds
  case inl =>
    split
    case isFalse =>
      exact ⟨guessRow_adds.columnCount, guessRow_adds.nextSequenceId, guessRow_adds.accepted,
        guessRow_adds.ended⟩
    case isTrue =>
      cases payloadParser
      case columnDefinition =>
        refine .ofStep (fun _ => ⟨rfl, rfl, by simp, by simp⟩) (fun d => ⟨rfl, rfl, fun _ => ⟨.inl rfl, ?_⟩, by simp⟩)
          ⟨rfl, rfl, by simp, by simp⟩
        simp [State.items, Nat.add_right_comm]
      all_goals exact ⟨rfl, rfl, by simp, by simp⟩

-- An operation that reads some packets up to its end counts all but the last. The induction is on the
-- packets that are still to come.
theorem feed_counts {payloads : List Bytes} (hl : ∀ payload ∈ payloads, payload.length < 2 ^ 24)
    (hs : s.Between)
    (h : BasicPacket.feed (impl clientCap) { impl := s } (encodePackets s.nextSequenceId payloads) = .done s' []) :
    s'.stage = .finished ∧ s'.columnCount = s.columnCount ∧ s'.items + 1 = s.items + payloads.length := by
  induction payloads generalizing s
  case nil => rw [encodePackets, BasicPacket.feed_nil] at h; cases h
  case cons payload payloads ih =>
    have ha : Adds s.advance (onPayloadData clientCap payload.length 0 s.advance payload) := onPayloadData_adds hs
    have hn : (impl clientCap).onSequenceIdComplete s s.nextSequenceId = (.success, s.advance) := by
      simp [impl, State.advance]
    rw [encodePackets, BasicPacket.feed_header rfl hn (hl _ (by simp))] at h
    by_cases hr : payload ++ encodePackets (s.nextSequenceId + 1) payloads = []
    case pos => rw [hr, BasicPacket.feed_nil] at h; cases h
    case neg =>
      have ht := BasicPacket.turn_whole (i := impl clientCap) (s := s.advance) hr
      rw [show (impl clientCap).onPayloadData = onPayloadData clientCap from rfl] at ht
      generalize onPayloadData clientCap payload.length 0 s.advance payload = answer at ha ht
      obtain ⟨a, s₁⟩ := answer
      cases a
      case success =>
        obtain ⟨hb, hi⟩ := ha.accepted rfl
        rw [BasicPacket.feed_goto ht, show s.nextSequenceId + 1 = s₁.nextSequenceId from ha.nextSequenceId.symm] at h
        obtain ⟨hf, hc, hn⟩ := ih (fun payload hp => hl payload (by simp [hp])) hb h
        refine ⟨hf, hc.trans ha.columnCount, ?_⟩
        rw [hn, hi, List.length_cons]
        simp only [State.items, State.advance]
        omega
      case pause =>
        rw [BasicPacket.feed_done ht] at h
        cases payloads
        case cons => exact absurd (Step.done.inj h).right (encodePackets_ne_nil (List.cons_ne_nil _ _))
        case nil =>
          cases h
          exact ⟨(ha.ended rfl).left, ha.columnCount, congrArg (· + 1) (ha.ended rfl).right⟩
      all_goals rw [BasicPacket.feed_fail ht] at h; cases h

end ComQuery

namespace TextResultset

open ComQuery

variable {clientCap : UInt32} {r : TextResultset}

-- A result set that comes in more packets than it has items, or whose columns are not counted right,
-- is never delivered.
theorem decodable_of_run (hc : clientCap &&& CapabilitiesFlags.clientSessionTrack = 0)
    {reads : List Read} (hr : received reads = r.encode clientCap)
    (h : run clientCap reads = (.done ⟨0, r.resultSet⟩ [], [])) :
    r.Fits clientCap ∧ r.definitions.length < 2 ^ 31 := by
  obtain ⟨s, hf, _, hres⟩ := feed_of_run hc h
  have hstop := feed_satisfies hc (fresh_sound 1) (received reads)
  rw [hf] at hstop
  have hcount : (lenencInteger r.definitions.length).length < maxPayload :=
    (lenencInteger_length_le _).trans_lt (by decide)
  rw [hr, encode, payloads, List.flatMap_cons, pieces_of_lt hcount, List.singleton_append, encodePackets,
    feed_columnCount (by simpa using r.ne)] at hf
  obtain ⟨hs, hn, hi⟩ := feed_counts (s := columnsAnnounced (1 + 1) _)
    (fun payload hp => (List.mem_flatMap.mp hp).elim fun _ h => lt_of_mem_pieces h.right) (.inl rfl) hf
  have hle := length_le_flatMap_pieces (r.definitions.map Definition.encode ++
    (r.rows.map ResultsetPacket.encode ++ [r.ok.encode 0xfe clientCap]))
  generalize List.flatMap pieces _ = packets at hi hle
  constructor
  case left =>
    simp only [State.items, hres, resultSet, columnsAnnounced, List.length_append, List.length_map,
      List.length_singleton, List.length_nil] at hi hle
    intro payload hp
    obtain rfl | hp := List.mem_cons.mp hp
    case inl => exact hcount
    case inr => exact hle.right (by omega) payload hp
  case right =>
    have hshape := hstop.shape
    simp only [Shape, hs, hres] at hshape
    obtain he | ha := hshape
    case inl => exact absurd (List.map_eq_nil_iff.mp (congrArg ResultSet.names he)) r.ne
    case inr =>
      have hd : LengthEncodedInteger.decoded r.definitions.length = r.definitions.length := calc
        _ = s.columnCount            := hn.symm
        _ = r.resultSet.names.length := ha.names.symm
        _ = r.definitions.length     := List.length_map _
      exact LengthEncodedInteger.decoded_eq_iff.mp hd

theorem not_decodes (hc : clientCap &&& CapabilitiesFlags.clientSessionTrack = 0)
    (hn : 2 ^ 31 ≤ r.definitions.length) : ¬r.Decodes clientCap := by
  intro hd
  have hs := received_singles (r.encode clientCap)
  exact absurd (decodable_of_run hc hs (hd _ hs)).right (Nat.not_lt.mpr hn)

-- A result set, each of whose payloads goes into one packet, is delivered just if its columns are
-- counted right.
theorem decodes_iff (database : Bytes) (r : TextResultset) (h : r.Fits (clientFlag database)) :
    r.Decodes (clientFlag database) ↔ r.definitions.length < 2 ^ 31 := by
  have hc := clientFlag_untracked database
  constructor
  case mpr => exact decodes_of_lt hc h
  case mp =>
    intro hd
    by_contra hn
    exact not_decodes hc (Nat.not_lt.mp hn) hd

-- A column, and a row with the one cell.
def single : TextResultset where
  definitions := [{ name := [0x69, 0x64] }]
  rows        := [[some [0x37]]]
  ok          := {}
  ne          := List.cons_ne_nil _ _
  rectangular := by simp

theorem decodes_iff_single : single.Decodes (clientFlag []) :=
  (decodes_iff [] single (by decide)).mpr (by decide)

-- Columns without a name, and no rows.
def columns (n : Nat) (hn : n ≠ 0) : TextResultset where
  definitions := List.replicate n {}
  rows        := []
  ok          := {}
  ne          := by simpa using hn
  rectangular := nofun

theorem columns_fit {n : Nat} (hn : n ≠ 0) : (columns n hn).Fits (clientFlag []) := by
  intro payload hp
  simp only [payloads, columns, List.mem_cons, List.map_nil, List.mem_append, List.mem_map,
    List.not_mem_nil, false_or, or_false] at hp
  obtain rfl | ⟨d, hd, rfl⟩ | rfl := hp
  · exact (lenencInteger_length_le _).trans_lt (by decide)
  · rw [List.eq_of_mem_replicate hd]; decide
  · decide

-- The number of the columns does not fit into an `int`.
theorem columns_not_decoded : (columns (2 ^ 31) (by decide)).Fits (clientFlag []) ∧
    ¬(columns (2 ^ 31) (by decide)).Decodes (clientFlag []) :=
  ⟨columns_fit _, not_decodes (clientFlag_untracked []) List.length_replicate.ge⟩

end TextResultset

end ChxSql.Mysql

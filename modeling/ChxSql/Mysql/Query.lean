import ChxSql.Mysql.ComQuery

namespace ChxSql.Mysql

open Incremental

namespace ComQuery

variable {clientCap : UInt32}

-- A new operation, before or after it has taken ids for the packets that it sends.
def fresh (nextSequenceId : UInt8) : BasicPacket State where
  impl := { nextSequenceId }

theorem fresh_consistent (nextSequenceId : UInt8) : (fresh nextSequenceId).impl.Consistent := trivial

-- What the operation writes: the payload is a byte that stands for the command, and the query.
def request (sqlQuery : Bytes) (s : State) : Bytes × State :=
  (toLittleEndian 3 (sqlQuery.length + 1) ++ s.nextSequenceId :: 0x03 :: sqlQuery,
    { s with nextSequenceId := s.nextSequenceId + 1 })

-- What the operation calls `complete` with.
structure Completion where
  ec        : ErrorCode
  resultSet : ResultSet
  deriving DecidableEq

-- What the operation makes of the result of `feed`: it reads again or it completes. What it leaves
-- unread is lost. The failure is an `assert(false)`.
def complete : Step Byte (BasicPacket State) State (PacketResult × State) →
    Step Byte (BasicPacket State) Completion Unit
  | .more p left                  => .more p left
  | .done s []                    => .done ⟨s.ec, s.resultSet⟩ []
  | .done s left                  => .done ⟨Errc.crMalformedPacket, s.resultSet⟩ left
  | .fail (.undefined, _) left     => .fail () left
  | .fail (.internalError, s) left =>
    .done ⟨if s.ec ≠ 0 then s.ec else Errc.crUnknownError, s.resultSet⟩ left
  | .fail (_, s) left              => .done ⟨Errc.crMalformedPacket, s.resultSet⟩ left

def onRead (clientCap : UInt32) (p : BasicPacket State) (bs : Bytes) :
    Step Byte (BasicPacket State) Completion Unit :=
  complete (p.feed (impl clientCap) bs)

theorem complete_isMore (st) : (complete st).isMore = st.isMore := by
  cases st
  case more => rfl
  case done s left => cases left <;> rfl
  case fail e left => obtain ⟨e, s⟩ := e; cases e <;> rfl

-- A read returns at least one byte and at most as many as `__M_buf` holds.
structure Read where
  bytes : Bytes
  ne    : bytes ≠ []
  le    : bytes.length ≤ 256

-- Reads that are left over hold some bytes.
theorem eq_nil_of_unread {reads : List Read} {unread : List Bytes} (hs : unread <:+ reads.map (·.bytes))
    (h : unread.flatten = []) : unread = [] := by
  refine List.eq_nil_iff_forall_not_mem.mpr fun bs hb => ?_
  have ⟨read, _, he⟩ := List.mem_map.mp (hs.subset hb)
  exact read.ne (he.trans (List.flatten_eq_nil_iff.mp h bs hb))

-- Running the operation, once its request is sent, until it completes or has used up its reads. The
-- second component are the reads that it did not ask for.
def run (clientCap : UInt32) (reads : List Read) :
    Step Byte (BasicPacket State) Completion Unit × List Bytes :=
  feed (onRead clientCap) (fresh 1) (reads.map (·.bytes))

def received (reads : List Read) : Bytes :=
  (reads.map (·.bytes)).flatten

-- Each byte in a read of its own.
def singles (bs : Bytes) : List Read :=
  bs.map fun b => ⟨[b], List.cons_ne_nil _ _, by simp⟩

@[simp]
theorem received_singles (bs : Bytes) : received (singles bs) = bs := by
  induction bs
  case nil => rfl
  case cons b bs ih => simpa [received, singles] using ih

theorem run_eq (clientCap : UInt32) (reads : List Read) :
    run clientCap reads =
      let p := feed (BasicPacket.feed (impl clientCap)) (fresh 1) (reads.map (·.bytes))
      (complete p.1, p.2) :=
  feed_map (fun _ _ => rfl) complete_isMore _ _

-- The end of a run, if all the bytes in one call let the operation pause.
theorem run_of_feed_done (hc : clientCap &&& CapabilitiesFlags.clientSessionTrack = 0)
    {reads : List Read} {s : State} {rest : Bytes}
    (h : BasicPacket.feed (impl clientCap) (fresh 1) (received reads) = .done s rest) :
    ∃ left unread, run clientCap reads = (complete (.done s left), unread) ∧
      left ++ unread.flatten = rest ∧ unread <:+ reads.map (·.bytes) := by
  have ha := BasicPacket.feed_agrees (impl_lawful hc) (fresh_consistent 1) (reads.map (·.bytes))
  rw [← received, h] at ha
  have ⟨left, unread, hf, hr⟩ := ha.of_done
  have hu := feed_unfed_suffix (BasicPacket.feed (impl clientCap)) (fresh 1) (reads.map (·.bytes))
  rw [hf] at hu
  exact ⟨left, unread, by rw [run_eq, hf], hr, hu⟩

-- All the bytes are read.
theorem run_of_feed_end (hc : clientCap &&& CapabilitiesFlags.clientSessionTrack = 0)
    {reads : List Read} {s : State}
    (h : BasicPacket.feed (impl clientCap) (fresh 1) (received reads) = .done s []) :
    run clientCap reads = (.done ⟨s.ec, s.resultSet⟩ [], []) := by
  have ⟨left, unread, hrun, hu, hs⟩ := run_of_feed_done hc h
  have ⟨hleft, hflat⟩ := List.append_eq_nil_iff.mp hu
  rw [hrun, hleft, eq_nil_of_unread hs hflat, complete]

-- An operation that completes without an error has read all its bytes up to a pause.
theorem feed_of_run (hc : clientCap &&& CapabilitiesFlags.clientSessionTrack = 0) {reads : List Read}
    {r : ResultSet} (h : run clientCap reads = (.done ⟨0, r⟩ [], [])) :
    ∃ s, BasicPacket.feed (impl clientCap) (fresh 1) (received reads) = .done s [] ∧ s.ec = 0 ∧
      s.resultSet = r := by
  have ha := BasicPacket.feed_agrees (impl_lawful hc) (fresh_consistent 1) (reads.map (·.bytes))
  rw [run_eq, Prod.mk.injEq] at h
  generalize feed (BasicPacket.feed (impl clientCap)) (fresh 1) (reads.map (·.bytes)) = fed at h ha
  obtain ⟨st, unread⟩ := fed
  obtain ⟨h, rfl⟩ := h
  cases st
  case more => cases h
  case done s left =>
    cases left
    case nil  =>
      obtain ⟨hec, hr⟩ := Completion.mk.inj (Step.done.inj h).left
      exact ⟨s, ha.to_done, hec, hr⟩
    case cons => cases h
  case fail e left =>
    obtain ⟨e, s⟩ := e
    cases e
    case internalError =>
      have := congrArg Completion.ec (Step.done.inj h).left
      dsimp only at this
      split at this
      case isTrue hn => exact absurd this hn
      case isFalse   => cases this
    all_goals cases h

-- What `feed` returns and what it leaves in the operation depends on the bytes only, not on how they
-- come in chunks, and a call that returns `PacketNeedMore` has consumed its chunk.
theorem feed_independent_of_chunks (database : Bytes) (nextSequenceId : UInt8) (cs : List Bytes) :
    BasicPacket.outcome (feed (BasicPacket.feed (impl (clientFlag database))) (fresh nextSequenceId) cs).1 =
      BasicPacket.outcome ((fresh nextSequenceId).feed (impl (clientFlag database)) cs.flatten) ∧
    ∀ p c p' left, feed (BasicPacket.feed (impl (clientFlag database))) (fresh nextSequenceId) cs = (.more p [], []) →
      p.feed (impl (clientFlag database)) c = .more p' left → left = [] := by
  have hi := impl_lawful (clientFlag_untracked database)
  have hs := fresh_consistent nextSequenceId
  constructor
  case left  => exact BasicPacket.outcome_of_agrees (BasicPacket.feed_agrees hi hs cs)
  case right => exact fun _ _ _ _ hm => (BasicPacket.resumes hi).exhausts (BasicPacket.feed_keeps hi hs hm)

end ComQuery

end ChxSql.Mysql

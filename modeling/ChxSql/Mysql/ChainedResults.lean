import ChxSql.Mysql.TextResultset

namespace ChxSql.Mysql

open Incremental ComQuery

-- A result of a query.
inductive QueryResult where
  | ok (packet : OkPacket)
  | resultset (r : TextResultset)

namespace QueryResult

variable (clientCap : UInt32)

def payloads : QueryResult → List Bytes
  | ok packet   => [packet.encode 0x00 clientCap]
  | resultset r => r.payloads clientCap

-- The packet that ends the result.
def terminator : QueryResult → OkPacket
  | ok packet   => packet
  | resultset r => r.ok

-- Each payload goes into one packet, and the columns are counted right.
def Decodable : QueryResult → Prop
  | ok packet   => (packet.encode 0x00 clientCap).length < maxPayload
  | resultset r => r.Fits clientCap ∧ r.definitions.length < 2 ^ 31

instance : DecidablePred (Decodable clientCap)
  | ok _        => inferInstanceAs (Decidable (_ < _))
  | resultset _ => inferInstanceAs (Decidable (_ ∧ _))

end QueryResult

def serverMoreResultsExists : UInt16 := 0x0008

-- What a server sends in response to one query. Each result but the last one announces the next.
structure Response where
  first   : QueryResult
  others  : List QueryResult
  chained : ∀ x ∈ (first :: others).dropLast, x.terminator.statusFlags &&& serverMoreResultsExists ≠ 0

namespace Response

def encode (clientCap : UInt32) (r : Response) : Bytes :=
  encodePackets 1 (((r.first :: r.others).flatMap (·.payloads clientCap)).flatMap pieces)

-- However the bytes of the response come in reads, the operation does not complete before it has read
-- them all, and it completes with the same error code.
def CompletesAtEnd (clientCap : UInt32) (r : Response) : Prop :=
  ∃ ec, ∀ reads, received reads = r.encode clientCap → ∀ c left unread,
    run clientCap reads = (.done c left, unread) → c.ec = ec ∧ left = [] ∧ unread = []

end Response

namespace ComQuery

variable {clientCap : UInt32} {s : State}

theorem onPayloadData_ok (hc : clientCap &&& CapabilitiesFlags.clientSessionTrack = 0)
    (packet : OkPacket) (hs : s.stage = .initialGuess) {len : Nat} :
    onPayloadData clientCap len 0 s (packet.encode 0x00 clientCap) =
      (.pause, { s with ec := 0, payloadParser := .ok {}, stage := .finished }) := by
  have hp := packet.parse_encode 0x00 hc
  have hh : packet.encode 0x00 clientCap = 0x00 :: (packet.encode 0x00 clientCap).tail := rfl
  rw [hh] at hp ⊢
  simp only [onPayloadData, hs, guess, if_neg (show (0x00 : Byte) ≠ 0xff by decide), if_true, onOk]
  exact PayloadResult.ofStep_done hp

-- The operation pauses after one result, whatever follows it.
theorem feed_result (hc : clientCap &&& CapabilitiesFlags.clientSessionTrack = 0) {x : QueryResult}
    (hx : x.Decodable clientCap) (id : UInt8) (rest : Bytes) :
    ∃ s, s.ec = 0 ∧ BasicPacket.feed (impl clientCap) (fresh id)
      (encodePackets id ((x.payloads clientCap).flatMap pieces) ++ rest) = .done s rest := by
  cases x
  case ok packet =>
    have hf := feed_pause clientCap (s := (fresh id).impl) (List.cons_ne_nil _ _) hx rest
      (onPayloadData_ok hc packet rfl)
    rw [QueryResult.payloads, List.flatMap_singleton, pieces_of_lt hx, encodePackets, encodePackets,
      List.append_nil]
    exact ⟨_, rfl, hf⟩
  case resultset r =>
    obtain ⟨s, he, _, hf⟩ := feed_textResultset hc r hx.left hx.right id rest
    exact ⟨s, he, by rwa [QueryResult.payloads, flatMap_pieces hx.left]⟩

end ComQuery

namespace Response

variable {clientCap : UInt32} {r : Response}

-- The results that follow the first one.
def following (clientCap : UInt32) (r : Response) : Bytes :=
  encodePackets (1 + .ofNat ((r.first.payloads clientCap).flatMap pieces).length)
    ((r.others.flatMap (·.payloads clientCap)).flatMap pieces)

theorem following_eq_nil (h : r.others = []) : r.following clientCap = [] := by
  rw [following, h]
  rfl

theorem following_ne_nil (h : r.others ≠ []) : r.following clientCap ≠ [] := by
  have ⟨x, xs, hx⟩ := List.exists_cons_of_ne_nil h
  rw [following, hx, List.flatMap_cons]
  refine encodePackets_ne_nil fun hn => ?_
  cases x <;> simp [QueryResult.payloads, TextResultset.payloads, pieces_ne_nil] at hn

theorem feed_encode (hc : clientCap &&& CapabilitiesFlags.clientSessionTrack = 0)
    (hx : r.first.Decodable clientCap) :
    ∃ s, s.ec = 0 ∧ BasicPacket.feed (impl clientCap) (fresh 1) (r.encode clientCap) =
      .done s (r.following clientCap) := by
  have ⟨s, he, hf⟩ := feed_result hc hx 1 (r.following clientCap)
  refine ⟨s, he, ?_⟩
  rw [← hf, encode, List.flatMap_cons, List.flatMap_append, encodePackets_append]
  rfl

theorem completesAtEnd_of_single (hc : clientCap &&& CapabilitiesFlags.clientSessionTrack = 0)
    (hx : r.first.Decodable clientCap) (h : r.others = []) : r.CompletesAtEnd clientCap := by
  refine ⟨0, fun reads hr c left unread hrun => ?_⟩
  have ⟨s, he, hf⟩ := feed_encode hc hx
  rw [following_eq_nil h, ← hr] at hf
  rw [run_of_feed_end hc hf, he] at hrun
  cases hrun
  exact ⟨rfl, rfl, rfl⟩

-- The operation completes after the first result, and leaves the others unread.
theorem not_completesAtEnd (hc : clientCap &&& CapabilitiesFlags.clientSessionTrack = 0)
    (hx : r.first.Decodable clientCap) (h : r.others ≠ []) : ¬r.CompletesAtEnd clientCap := by
  rintro ⟨ec, he⟩
  have hr := received_singles (r.encode clientCap)
  have ⟨s, _, hf⟩ := feed_encode hc hx
  rw [← hr] at hf
  have ⟨left, unread, hrun, hu, _⟩ := run_of_feed_done hc hf
  have ⟨c, hc⟩ : ∃ c, complete (.done s left) = .done c left := by cases left <;> exact ⟨_, rfl⟩
  have ⟨_, hl, hn⟩ := he _ hr c left unread (hc ▸ hrun)
  exact following_ne_nil h (by rw [← hu, hl, hn]; rfl)

theorem completesAtEnd_iff (database : Bytes) (r : Response)
    (h : r.first.Decodable (clientFlag database)) :
    r.CompletesAtEnd (clientFlag database) ↔ r.others = [] := by
  have hc := clientFlag_untracked database
  constructor
  case mpr => exact completesAtEnd_of_single hc h
  case mp  => exact not_imp_not.mp (not_completesAtEnd hc h)

-- What a server sends in response to a statement that returns no rows.
def done : Response where
  first   := .ok {}
  others  := []
  chained := nofun

theorem completesAtEnd_iff_done : done.CompletesAtEnd (clientFlag []) :=
  (completesAtEnd_iff [] done (by decide)).mpr rfl

-- What a server sends in response to two such statements.
def doneTwice : Response where
  first   := .ok { statusFlags := serverMoreResultsExists }
  others  := [.ok {}]
  chained := by decide

theorem doneTwice_not_completesAtEnd : ¬doneTwice.CompletesAtEnd (clientFlag []) :=
  not_completesAtEnd (clientFlag_untracked []) (by decide) (List.cons_ne_nil _ _)

end Response

end ChxSql.Mysql

import ChxSql.Mysql.ResultsetDecoding

namespace ChxSql.Mysql

open Incremental

namespace ComQuery

-- What the operation writes is the packet that carries the command if one packet can.
theorem request_framed_iff {sqlQuery : Bytes} :
    (request sqlQuery (fresh 0).impl).1 = encodePackets 0 (pieces (0x03 :: sqlQuery)) ↔
      sqlQuery.length + 1 < maxPayload := by
  constructor
  case mp =>
    intro h
    have hl := congrArg List.length h
    rw [length_encodePackets, flatten_pieces] at hl
    simp only [request, List.length_append, List.length_cons, toLittleEndian_length] at hl
    have hn : (pieces (0x03 :: sqlQuery)).length ≤ 1 := by omega
    exact length_pieces_le_one_iff.mp hn
  case mpr =>
    intro h
    have hp : pieces (0x03 :: sqlQuery) = [0x03 :: sqlQuery] := pieces_of_lt h
    rw [hp]
    simp [request, fresh, encodePackets, encodePacket]

-- A query is framed if one packet can carry it, and a row that needs several packets is never delivered.
theorem framed_iff_and_not_delivered (database sqlQuery : Bytes) :
    ((request sqlQuery (fresh 0).impl).1 = encodePackets 0 (pieces (0x03 :: sqlQuery)) ↔
      sqlQuery.length + 1 < maxPayload) ∧
    ∀ (r : TextResultset) (reads : List Read), received reads = r.encode (clientFlag database) →
      (∃ row ∈ r.rows, maxPayload ≤ (ResultsetPacket.encode row).length) →
      run (clientFlag database) reads ≠ (.done ⟨0, r.resultSet⟩ [], []) := by
  refine ⟨request_framed_iff, fun r reads hr ⟨row, hm, hl⟩ h => ?_⟩
  have hf := (r.decodable_of_run (clientFlag_untracked database) hr h).left
  have hp : ResultsetPacket.encode row ∈ r.payloads (clientFlag database) := by
    simp only [TextResultset.payloads, List.mem_cons, List.mem_append]
    exact .inr (.inr (.inl (List.mem_map_of_mem hm)))
  exact absurd (hf _ hp) (Nat.not_lt.mpr hl)

-- A column, and a row with a cell of some zeros.
def zeros (n : Nat) : TextResultset where
  definitions := [{ name := [0x69, 0x64] }]
  rows        := [[some (List.replicate n 0)]]
  ok          := {}
  ne          := TextResultset.single.ne
  rectangular := by simp

theorem length_encode_zeros (n : Nat) :
    n ≤ (ResultsetPacket.encode [some (List.replicate n 0)]).length := by
  simp [ResultsetPacket.encode, ResultsetPacket.encodeCell, length_lenencStr]

theorem framed_iff_and_not_delivered_zeros :
    (request [0x71] (fresh 0).impl).1 = encodePackets 0 (pieces [0x03, 0x71]) ∧
    run (clientFlag []) (singles ((zeros maxPayload).encode (clientFlag []))) ≠
      (.done ⟨0, (zeros maxPayload).resultSet⟩ [], []) :=
  have ⟨hq, hr⟩ := framed_iff_and_not_delivered [] [0x71]
  ⟨hq.mpr (by decide), hr (zeros maxPayload) _ (received_singles _)
    ⟨_, List.mem_singleton_self _, length_encode_zeros maxPayload⟩⟩

-- The command fills the packet, so that an empty packet should follow.
theorem spaces_not_framed :
    (request (List.replicate (maxPayload - 1) 0x20) (fresh 0).impl).1 ≠
      encodePackets 0 (pieces (0x03 :: List.replicate (maxPayload - 1) 0x20)) := by
  refine mt request_framed_iff.mp ?_
  rw [List.length_replicate]
  decide

end ComQuery

end ChxSql.Mysql

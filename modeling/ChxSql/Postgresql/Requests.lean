import ChxSql.Postgresql.Buffers
import ChxSql.Postgresql.ErrorCode
import ChxSql.Postgresql.FrontendMessage

namespace ChxSql.Postgresql

open Incremental Msg Writer Decoder

variable {α : Type} {toString : α → Bytes} {name query : Bytes} {tp : List (Param α)}

-- The messages Describe, Execute and Sync.
def desFrames : List Frame := [
  ⟨letter 'D', [letter 'P', 0], by decide⟩,
  ⟨letter 'E', [0, 0, 0, 0, 0], by decide⟩,
  ⟨letter 'S', [], Frame.fits_nil⟩
]

theorem createDESMsg_eq : createDESMsg = some (Frame.encodeAll desFrames) := by
  decide

-- The number of bytes that the values of some parameters have.
def Param.size (toString : α → Bytes) (params : List (Param α)) : Nat :=
  (params.map fun p => (p.text toString).length).sum

theorem length_encodeParams : (tp.flatMap (encodeParam toString)).length =
    4 * tp.length + Param.size toString tp := by
  induction tp
  case nil => rfl
  case cons p tp ih =>
    simp only [List.flatMap_cons, List.length_append, List.length_cons, encodeParam, toBigEndian_length,
      Param.size, List.map_cons, List.sum_cons] at ih ⊢
    omega

theorem length_le_size {p : Param α} (h : p ∈ tp) :
    (p.text toString).length ≤ Param.size toString tp := by
  induction tp
  case nil => cases h
  case cons q tp ih =>
    simp only [Param.size, List.map_cons, List.sum_cons] at ih ⊢
    rcases List.mem_cons.mp h with rfl | h
    · exact Nat.le_add_right ..
    · exact (ih h).trans (Nat.le_add_left ..)

namespace FrontendMessage

theorem decodes_list {β ι : Type} {d : Decoder β} {xs : List ι} {encode : ι → Bytes} {value : ι → β}
    (hl : xs.length < 256 ^ 2) (h : ∀ x ∈ xs, Decodes d (encode x) (value x)) :
    Decodes (list d) (toBigEndian 2 xs.length ++ xs.flatMap encode) (xs.map value) :=
  (Decodes.integer hl).bind (.replicate h)

theorem decodes_nil {β : Type} (d : Decoder β) : Decodes (list d) [0, 0] [] :=
  @decodes_list β Empty d [] nofun nofun (by decide) nofun

theorem decodes_parameter {p : Param α} (h : (p.text toString).length < 2 ^ 31) :
    Decodes parameter (encodeParam toString p) (some (p.text toString)) := by
  refine Decodes.bind (.integer (by omega)) ?_
  rw [if_pos h]
  exact .map some (.take _)

theorem decodes_parse (hn : 0 ∉ name) (hq : 0 ∉ query) :
    Decodes (body (letter 'P')) (parseBody name query) (.parse name query []) := by
  rw [body, if_pos rfl, parseBody]
  refine Decodes.bind (.string hn) ?_
  refine Decodes.bind (.string hq) ?_
  exact (decodes_nil _).bind_pure

theorem decodes_bind (hn : 0 ∉ name) (hp : tp.length < 256 ^ 2)
    (ht : Param.size toString tp < 2 ^ 31) :
    Decodes (body (letter 'B')) (bindBody toString name tp)
      (.bind [] name [] (tp.map fun p => some (p.text toString)) []) := by
  have hl : Decodes (list parameter) (toBigEndian 2 tp.length ++ tp.flatMap (encodeParam toString))
      (tp.map fun p => some (p.text toString)) :=
    decodes_list hp fun p hm => decodes_parameter ((length_le_size hm).trans_lt ht)
  rw [body, if_neg (by decide), if_pos rfl, bindBody]
  refine Decodes.bind (.string List.not_mem_nil) ?_
  refine Decodes.bind (.string hn) ?_
  refine Decodes.bind (decodes_nil _) ?_
  refine Decodes.bind hl ?_
  exact (decodes_nil _).bind_pure

theorem decodes_describe :
    Decodes (body (letter 'D')) [letter 'P', 0] (.describe (letter 'P') []) := by
  rw [body, if_neg (by decide), if_neg (by decide), if_pos rfl]
  refine Decodes.bind (.take [letter 'P']) ?_
  exact (Decodes.string List.not_mem_nil).bind_pure

theorem decodes_execute : Decodes (body (letter 'E')) [0, 0, 0, 0, 0] (.execute [] 0) := by
  rw [body, if_neg (by decide), if_neg (by decide), if_neg (by decide), if_pos rfl]
  refine Decodes.bind (.string List.not_mem_nil) ?_
  exact (Decodes.integer (k := 4) (n := 0) (by decide)).bind_pure

theorem decodes_sync : Decodes (body (letter 'S')) [] .sync := by
  rw [body, if_neg (by decide), if_neg (by decide), if_neg (by decide), if_neg (by decide),
    if_pos rfl]
  exact .pure

theorem represents_des :
    List.Forall₂ Represents desFrames [.describe (letter 'P') [], .execute [] 0, .sync] :=
  .cons decodes_describe (.cons decodes_execute (.cons decodes_sync .nil))

end FrontendMessage

open FrontendMessage

theorem ParseQuery.request_received (hn : 0 ∉ name) (hq : 0 ∉ query)
    (ht : name.length + query.length < 2 ^ 31) :
    (request name query).bind receive = some [.parse name query [], .sync] := by
  have hp : (parseBody name query).length + 4 < 256 ^ 4 := by
    rw [length_parseBody]
    omega
  have hf : receive (Frame.encodeAll [⟨letter 'P', parseBody name query, hp⟩,
      ⟨letter 'S', [], Frame.fits_nil⟩]) = _ :=
    receive_frames (.cons (decodes_parse hn hq) (.cons decodes_sync .nil))
  rw [request_eq_ite, if_pos (by omega), Option.bind_some]
  simpa only [Frame.encodeAll_cons, Frame.encodeAll_nil, Frame.encode, List.append_nil] using hf

theorem fits_bind (hp : tp.length ≤ 65535) (ht : name.length + Param.size toString tp < 2 ^ 31) :
    (bindBody toString name tp).length + 4 < 256 ^ 4 := by
  rw [length_bindBody, length_encodeParams]
  omega

theorem Execute.request_received (hn : 0 ∉ name) (hp : tp.length ≤ 65535)
    (ht : name.length + Param.size toString tp < 2 ^ 31) :
    (request toString name tp).bind receive = some [
      .bind [] name [] (tp.map fun p => some (p.text toString)) [],
      .describe (letter 'P') [], .execute [] 0, .sync] := by
  have hf : receive (Frame.encodeAll (⟨letter 'B', bindBody toString name tp, fits_bind hp ht⟩ ::
      desFrames)) = _ :=
    receive_frames (.cons (decodes_bind hn (by omega) (by omega)) represents_des)
  rw [request, createBindMsg_eq_ite, if_pos (by omega), createDESMsg_eq]
  exact hf

theorem Oneshot.request_received (hq : 0 ∉ query) (hp : tp.length ≤ 65535)
    (ht : query.length + Param.size toString tp < 2 ^ 31) :
    (request toString query tp).bind receive = some [
      .parse [] query [], .bind [] [] [] (tp.map fun p => some (p.text toString)) [],
      .describe (letter 'P') [], .execute [] 0, .sync] := by
  have hz : ([] : Bytes).length + Param.size toString tp < 2 ^ 31 := by
    rw [List.length_nil]
    omega
  have hs : (parseBody [] query).length + 4 < 256 ^ 4 := by
    rw [length_parseBody, List.length_nil]
    omega
  have hr : Represents ⟨letter 'B', bindBody toString [] tp, fits_bind hp hz⟩ _ :=
    decodes_bind List.not_mem_nil (by omega) (by omega)
  have hf : receive (Frame.encodeAll (⟨letter 'P', parseBody [] query, hs⟩ ::
      ⟨letter 'B', bindBody toString [] tp, fits_bind hp hz⟩ :: desFrames)) = _ :=
    receive_frames (.cons (decodes_parse List.not_mem_nil hq) (.cons hr represents_des))
  rw [request, createParseMsg_eq_ite, if_pos (by omega), createBindMsg_eq_ite, if_pos (by decide),
    createDESMsg_eq]
  simp only [Option.bind_eq_bind, Option.bind_some, Option.pure_def, List.append_assoc]
  exact hf

-- What the operations send is taken by the server for the messages that are meant.
theorem requests_received {sql : Bytes} {params : List (Param α)} (hn : 0 ∉ name) (hq : 0 ∉ sql)
    (hp : params.length ≤ 65535)
    (ht : name.length + sql.length + Param.size toString params < 2 ^ 31) :
    (ParseQuery.request name sql).bind receive = some [.parse name sql [], .sync] ∧
    (Execute.request toString name params).bind receive = some [
      .bind [] name [] (params.map fun p => some (p.text toString)) [],
      .describe (letter 'P') [], .execute [] 0, .sync] ∧
    (Oneshot.request toString sql params).bind receive = some [
      .parse [] sql [], .bind [] [] [] (params.map fun p => some (p.text toString)) [],
      .describe (letter 'P') [], .execute [] 0, .sync] :=
  ⟨ParseQuery.request_received hn hq (by omega), Execute.request_received hn hp (by omega),
    Oneshot.request_received hq hp (by omega)⟩

-- The text of a number, here of those that have one digit.
theorem requests_received_select :
    (ParseQuery.request (ascii "s") (ascii "select $1")).bind receive =
      some [.parse (ascii "s") (ascii "select $1") [], .sync] ∧
    (Execute.request (fun n : Fin 10 => [letter '0' + UInt8.ofNat n]) (ascii "s") [.arithmetic 7]).bind
      receive = some [
        .bind [] (ascii "s") [] [some (ascii "7")] [],
        .describe (letter 'P') [], .execute [] 0, .sync] ∧
    (Oneshot.request (fun n : Fin 10 => [letter '0' + UInt8.ofNat n]) (ascii "select $1")
      [.arithmetic 7]).bind receive = some [
        .parse [] (ascii "select $1") [], .bind [] [] [] [some (ascii "7")] [],
        .describe (letter 'P') [], .execute [] 0, .sync] :=
  requests_received (by decide) (by decide) (by decide) (by decide)

end ChxSql.Postgresql

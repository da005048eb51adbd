import ChxSql.Incremental.Chunks
import ChxSql.Postgresql.Execute
import ChxSql.Postgresql.Msg.RowInvariant
import ChxSql.Postgresql.Oneshot
import ChxSql.Postgresql.SimpleQuery

namespace ChxSql.Postgresql

open Incremental Msg

-- Every row has as many cells as there are columns.
def ResultSet.Rectangular (rs : ResultSet) : Prop :=
  ∀ row ∈ rs.data, row.length = rs.desc.length

def ResultSets.Rectangular (results : ResultSets) : Prop :=
  ∀ rs, some rs ∈ results → rs.Rectangular

theorem Selection.All.and {σ : Type} {P Q : AnyMessage → σ → Prop} {sel : Selection σ} (hp : sel.All P)
    (hq : sel.All Q) : sel.All fun m s => P m s ∧ Q m s := by
  cases sel
  case parse     => exact ⟨hp, hq⟩
  case malformed => trivial
  case undefined => exact hp

theorem Selection.All.imp {σ : Type} {P Q : AnyMessage → σ → Prop} {sel : Selection σ} (h : sel.All P)
    (hpq : ∀ {m s}, P m s → Q m s) : sel.All Q := by
  cases sel
  case parse     => exact hpq h
  case malformed => trivial
  case undefined => exact h

-- An operation that ends because of a malformed message has not run into undefined behaviour.
def Failure.Satisfies {κ : Type} (Q : κ → Prop) : Failure κ → Prop
  | malformed k => Q k
  | undefined   => False

def Move.Satisfies {σ κ : Type} (P : σ → Prop) (Q : κ → Prop) : Move σ κ → Prop
  | goto s     => P s
  | complete k => Q k
  | fail e     => e.Satisfies Q

def Report.Rectangular (r : Report) : Prop :=
  ResultSets.Rectangular r.resultSets

-- The result sets of an operation and the one that it is receiving.
structure Collected (results : ResultSets) (curr : Option ResultSet) : Prop where
  results : ResultSets.Rectangular results
  curr    : ∀ rs, curr = some rs → rs.Rectangular ∧ rs.desc.length < 2 ^ 16

-- The number of cells that the rows of the current result set have.
def width (curr : Option ResultSet) : Nat :=
  curr.elim 0 (·.desc.length)

namespace Collected

variable {results : ResultSets} {curr : Option ResultSet} {rs : ResultSet}

theorem none (h : ResultSets.Rectangular results) : Collected results none :=
  ⟨h, nofun⟩

theorem start : Collected [] .none :=
  none nofun

theorem opened (h : Collected results curr) {desc} (hd : desc.length < 2 ^ 16) :
    Collected results (some { desc }) := by
  refine ⟨h.results, ?_⟩
  rintro _ ⟨⟩
  exact ⟨nofun, hd⟩

theorem row (h : Collected results (some rs)) {row : Cells} (hr : row.length = width (some rs)) :
    Collected results (some { rs with data := rs.data ++ [row] }) := by
  refine ⟨h.results, ?_⟩
  rintro _ ⟨⟩
  have ⟨hd, hl⟩ := h.curr rs rfl
  refine ⟨fun row' hm => ?_, hl⟩
  rcases List.mem_append.mp hm with hm | hm
  · exact hd row' hm
  · exact List.mem_singleton.mp hm ▸ hr

theorem closed (h : Collected results curr) : Collected (results ++ [curr]) .none := by
  refine none fun rs hm => ?_
  rcases List.mem_append.mp hm with hm | hm
  · exact h.results rs hm
  · exact (h.curr rs (List.mem_singleton.mp hm).symm).left

-- The parser of a row is made for as many cells as the rows have.
theorem sane_dataRow (h : Collected results (some rs)) :
    (DataRow.ofColumns (rs.desc.length % 2 ^ 16)).Sane (width (some rs)) := by
  rw [Nat.mod_eq_of_lt (h.curr rs rfl).right]
  exact DataRow.Sane.initial

end Collected

namespace Dialogue

variable {σ : Type} {d : Dialogue σ}

-- What holds of an operation between messages (`none`) and while it reads a message of a certain
-- type. The message that is read has to suit the width of the rows then.
structure Safety (d : Dialogue σ) where
  holds      : σ → Option Byte → Prop
  width      : σ → Nat
  start      : holds d.start none
  resultSets : ∀ {s type}, holds s type → ResultSets.Rectangular (d.resultSets s)
  select     : ∀ {s type}, holds s none → (d.select s type).All fun m s' =>
    holds s' (some (Message.messageType m)) ∧ m.Sane (width s')
  accept     : ∀ {s m}, holds s (some (Message.messageType m)) → m.Complete (width s) →
    (d.accept s m).Satisfies (holds · none) Report.Rectangular

-- All that is stored during a call is stored in range.
def WritesInRange (d : Dialogue σ) (s : State σ) (bs : Bytes) : Prop :=
  d.loop.Always (fun s bs => ∀ parser ∈ s.parsers, parser.WritesInRange bs) s bs

-- Whatever the server sends, in whatever chunks: the operation does not run into undefined
-- behaviour, what it completes with is rectangular, and if it goes on reading then the next call
-- stores everything in range.
structure Safe (d : Dialogue σ) : Prop where
  outcome : ∀ cs, (feed d.doParse d.fresh cs).1.Satisfies (fun _ => True) Report.Rectangular
    (·.Satisfies Report.Rectangular)
  inRange : ∀ cs s, feed d.doParse d.fresh cs = (.more s [], []) → ∀ c, d.WritesInRange s c

namespace Safety

variable (safety : d.Safety) {s : State σ} {bs : Bytes}

def holdsAt (s : State σ) : Prop :=
  safety.holds s.ctl (s.parsers.map fun parser => Message.messageType parser.result) ∧
    ∀ parser ∈ s.parsers, parser.result.Sane (safety.width s.ctl)

def Keeps (t : Turn Byte (State σ) Report (Failure Report)) : Prop :=
  t.Satisfies safety.holdsAt Report.Rectangular (·.Satisfies Report.Rectangular)

theorem holdsAt_none {ctl : σ} (h : safety.holds ctl none) : safety.holdsAt ⟨ctl, none⟩ :=
  ⟨h, by simp⟩

theorem keeps_guess (h : safety.holds s.ctl none) (hn : s.parsers = none) :
    safety.Keeps (d.guess s bs) := by
  cases bs
  case nil => exact ⟨by simpa [hn] using h, by simp [hn]⟩
  case cons type bs =>
    have hs : (d.select s.ctl type).All _ := safety.select h
    simp only [guess]
    cases he : d.select s.ctl type <;> rw [he] at hs
    case parse     => exact ⟨hs.left, fun _ hp => Option.some.inj hp ▸ hs.right⟩
    case malformed => exact safety.resultSets h
    case undefined => exact hs.elim

theorem keeps_finish {ctl : σ} {m} (h : safety.holds ctl (some (Message.messageType m)))
    (hc : m.Complete (safety.width ctl)) : safety.Keeps (d.finish ctl m bs) := by
  have ha := safety.accept h hc
  simp only [finish]
  cases he : d.accept ctl m <;> rw [he] at ha
  case goto => exact safety.holdsAt_none ha
  all_goals exact ha

theorem keeps_turn (h : safety.holdsAt s) (bs : Bytes) : safety.Keeps (d.turn s bs) := by
  have ⟨ctl, parsers⟩ := s
  have ⟨hc, hp⟩ := h
  cases parsers
  case none => exact safety.keeps_guess hc rfl
  case some parser =>
    have ht := AnyMessage.messageType_parse parser bs
    have hs := BasicParser.parse_satisfies (hp parser rfl) bs
    simp only [turn]
    split <;> rename_i he <;> rw [he] at ht hs
    case h_1 =>
      refine ⟨?_, fun _ hp => Option.some.inj hp ▸ hs⟩
      simpa [show Message.messageType _ = _ from ht] using hc
    case h_2 => exact safety.keeps_finish (ht ▸ hc) hs
    case h_3 => exact absurd he BasicParser.parse_ne_undefined
    case h_4 => exact safety.resultSets hc

theorem doParse_satisfies (h : safety.holdsAt s) (bs : Bytes) :
    (d.doParse s bs).Satisfies safety.holdsAt Report.Rectangular (·.Satisfies Report.Rectangular) :=
  Loop.run_satisfies safety.keeps_turn h

theorem writesInRange (h : safety.holdsAt s) (bs : Bytes) : d.WritesInRange s bs := by
  refine Loop.always (I := safety.holdsAt) (fun h _ parser hp => ?_) (fun {s bs _ _} h hb => ?_) h
  case refine_1 => exact BasicParser.writesInRange (h.right parser hp) _
  case refine_2 =>
    have hk := safety.keeps_turn h bs
    rwa [show d.turn s bs = _ from hb] at hk

theorem safe (safety : d.Safety) : d.Safe := by
  have h : safety.holdsAt d.fresh := safety.holdsAt_none safety.start
  have hf (cs) := feed_satisfies safety.doParse_satisfies h cs
  refine ⟨fun cs => ?_, fun cs s hm c => ?_⟩
  case refine_1 =>
    have hf := hf cs
    generalize (feed d.doParse d.fresh cs).1 = st at hf
    cases st
    case more => trivial
    all_goals exact hf
  case refine_2 =>
    have hf := hf cs
    rw [hm] at hf
    exact safety.writesInRange hf c

end Safety

end Dialogue

namespace Execute

theorem select_collected {s : State} {type : Byte} (h : Holds s none)
    (hc : Collected s.result s.curr) :
    (select s type).All fun m s' => Collected s'.result s'.curr ∧ m.Sane (width s'.curr) := by
  by_cases hd : type = letter 'D'
  case pos =>
    rw [hd, select_dataRow]
    split <;> try trivial
    case isTrue he =>
      have ⟨curr, hs⟩ := Option.isSome_iff_exists.mp (h he)
      rw [hs] at hc ⊢
      exact ⟨hs ▸ hc, hs ▸ hc.sane_dataRow⟩
  case neg =>
    simp only [select, if_neg hd]
    repeat' apply Selection.all_ite
    all_goals first | trivial | exact ⟨hc, trivial⟩ | exact ⟨hc, RowDescription.Sane.initial⟩

theorem accept_satisfies {s : State} {m : AnyMessage} (h : Holds s (some (Message.messageType m)))
    (hc : Collected s.result s.curr) (hm : m.Complete (width s.curr)) :
    (accept s m).Satisfies (fun s' => Holds s' none ∧ Collected s'.result s'.curr)
      Report.Rectangular := by
  have ha := holds_accept h
  cases m
  case dataRow m =>
    have ⟨curr, hs⟩ := Holds.dataRow h
    simp only [accept, hs] at ha hc hm ⊢
    exact ⟨ha, hc.row hm⟩
  case rowDescription m  => exact ⟨ha, hc.opened hm⟩
  case commandComplete m => exact ⟨ha, hc.closed⟩
  case readyForQuery m   => exact hc.results
  case errorResponse | noticeResponse | bindComplete | noData | emptyQueryResponse =>
    exact ⟨ha, hc⟩
  all_goals exact absurd rfl ha

def safety : execute.Safety where
  holds s type   := Holds s type ∧ Collected s.result s.curr
  width s        := width s.curr
  start          := ⟨nofun, .start⟩
  resultSets h   := h.right.results
  select h       := ((holds_select h.left).and (select_collected h.left h.right)).imp fun h =>
    ⟨⟨h.left, h.right.left⟩, h.right.right⟩
  accept h hm    := accept_satisfies h.left h.right hm

end Execute

namespace Oneshot

theorem select_collected {s : State} {type : Byte} (h : Holds s none)
    (hc : Collected s.result s.curr) :
    (select s type).All fun m s' => Collected s'.result s'.curr ∧ m.Sane (width s'.curr) := by
  by_cases hd : type = letter 'D'
  case pos =>
    rw [hd, select_dataRow]
    split <;> try trivial
    case isTrue he =>
      have ⟨curr, hs⟩ := Option.isSome_iff_exists.mp (h he)
      rw [hs] at hc ⊢
      exact ⟨hs ▸ hc, hs ▸ hc.sane_dataRow⟩
  case neg =>
    simp only [select, if_neg hd]
    repeat' apply Selection.all_ite
    all_goals first | trivial | exact ⟨hc, trivial⟩ | exact ⟨hc, RowDescription.Sane.initial⟩

theorem accept_satisfies {s : State} {m : AnyMessage} (h : Holds s (some (Message.messageType m)))
    (hc : Collected s.result s.curr) (hm : m.Complete (width s.curr)) :
    (accept s m).Satisfies (fun s' => Holds s' none ∧ Collected s'.result s'.curr)
      Report.Rectangular := by
  have ha := holds_accept h
  cases m
  case dataRow m =>
    have ⟨curr, hs⟩ := Holds.dataRow h
    simp only [accept, hs] at ha hc hm ⊢
    exact ⟨ha, hc.row hm⟩
  case rowDescription m  => exact ⟨ha, hc.opened hm⟩
  case commandComplete m => exact ⟨ha, hc.closed⟩
  case readyForQuery m   => exact hc.results
  case errorResponse | noticeResponse | bindComplete | noData | emptyQueryResponse | parseComplete =>
    exact ⟨ha, hc⟩
  all_goals exact absurd rfl ha

def safety : oneshot.Safety where
  holds s type   := Holds s type ∧ Collected s.result s.curr
  width s        := width s.curr
  start          := ⟨nofun, .start⟩
  resultSets h   := h.right.results
  select h       := ((holds_select h.left).and (select_collected h.left h.right)).imp fun h =>
    ⟨⟨h.left, h.right.left⟩, h.right.right⟩
  accept h hm    := accept_satisfies h.left h.right hm

end Oneshot

namespace SimpleQuery

-- While a RowDescription is read there are no rows that it could not fit.
structure Receiving (s : State) (type : Option Byte) : Prop where
  collected : Collected s.result s.curr
  empty     : type = some (letter 'T') → ∀ rs, s.curr = some rs → rs.data = []

theorem Receiving.of_ne {s : State} (type : Byte) (hc : Collected s.result s.curr)
    (h : type ≠ letter 'T') : Receiving s (some type) :=
  ⟨hc, fun ht => absurd (Option.some.inj ht) h⟩

theorem select_receiving {s : State} {type : Byte} (h : Holds s none)
    (hc : Collected s.result s.curr) :
    (select s type).All fun m s' =>
      Receiving s' (some (Message.messageType m)) ∧ m.Sane (width s'.curr) := by
  by_cases hd : type = letter 'D'
  case pos =>
    rw [hd, select_dataRow]
    split <;> try trivial
    case isTrue he =>
      have ⟨curr, hs⟩ := Option.isSome_iff_exists.mp (h.curr (.inl he))
      rw [hs] at hc ⊢
      exact ⟨.of_ne (letter 'D') (hs ▸ hc) (by decide), hs ▸ hc.sane_dataRow⟩
  by_cases ht : type = letter 'T'
  case pos =>
    rw [ht, select_rowDescription]
    split <;> try trivial
    refine ⟨⟨hc.opened (by simp), ?_⟩, RowDescription.Sane.initial⟩
    rintro - _ ⟨⟩
    rfl
  case neg =>
    simp only [select, if_neg hd, if_neg ht]
    repeat' apply Selection.all_ite
    all_goals first
      | trivial
      | exact ⟨.of_ne _ hc (by decide), trivial⟩
      | exact ⟨.of_ne _ (.none hc.results) (by decide), trivial⟩

theorem accept_satisfies {s : State} {m : AnyMessage} (h : Holds s (some (Message.messageType m)))
    (hr : Receiving s (some (Message.messageType m))) (hm : m.Complete (width s.curr)) :
    (accept s m).Satisfies (fun s' => Holds s' none ∧ Receiving s' none) Report.Rectangular := by
  have ha := holds_accept h
  have hc := hr.collected
  cases m
  case dataRow m =>
    obtain ⟨curr, hs⟩ := Option.isSome_iff_exists.mp (h.curr (.inr (.inl rfl)))
    simp only [accept, hs] at ha hc hm ⊢
    exact ⟨ha, hc.row hm, by simp⟩
  case rowDescription m =>
    obtain ⟨curr, hs⟩ := Option.isSome_iff_exists.mp (h.curr (.inr (.inr rfl)))
    have he := hr.empty rfl curr hs
    simp only [accept, hs, he] at ha ⊢
    exact ⟨ha, hc.opened hm, by simp⟩
  case commandComplete m => exact ⟨ha, hc.closed, by simp⟩
  case readyForQuery | errorResponse => exact hc.results
  case emptyQueryResponse | noticeResponse | parameterStatus => exact ⟨ha, hc, by simp⟩
  all_goals exact absurd rfl ha

def safety : simpleQuery.Safety where
  holds s type   := Holds s type ∧ Receiving s type
  width s        := width s.curr
  start          := ⟨⟨nofun, nofun⟩, .start, nofun⟩
  resultSets h   := h.right.collected.results
  select h       := ((holds_select h.left).and (select_receiving h.left h.right.collected)).imp fun h =>
    ⟨⟨h.left, h.right.left⟩, h.right.right⟩
  accept h hm    := accept_satisfies h.left h.right hm

end SimpleQuery

-- Whatever bytes a server sends to a query.
theorem queries_safe : execute.Safe ∧ oneshot.Safe ∧ simpleQuery.Safe :=
  ⟨Execute.safety.safe, Oneshot.safety.safe, SimpleQuery.safety.safe⟩

end ChxSql.Postgresql

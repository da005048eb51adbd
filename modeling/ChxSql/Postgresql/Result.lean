import ChxSql.Postgresql.Interruption
import ChxSql.Postgresql.QuerySafety

namespace ChxSql.Postgresql

open Incremental Msg ServerMessage

namespace ResultSet

variable (r : ResultSet)

def columnSize : Nat :=
  r.desc.length

def tupleSize : Nat :=
  r.data.length

-- The first column of a certain name. If there is none, then it is the number of columns.
def columnNumber (name : Bytes) : Nat :=
  r.desc.findIdx (·.fieldName = name)

-- A cell. Where there is none, `value` throws and `get_value` is undefined.
def value (row col : Nat) : Option (Option Bytes) := do
  let cells ← r.data[row]?
  cells[col]?

-- `row::value` and `row::get_value` of a name.
def namedValue (row : Nat) (name : Bytes) : Option (Option Bytes) :=
  r.value row (r.columnNumber name)

variable {r} {i j : Nat} {name : Bytes} {d : ColumnDescription}

theorem columnNumber_lt_iff : r.columnNumber name < r.columnSize ↔ ∃ d ∈ r.desc, d.fieldName = name := by
  simp [columnNumber, columnSize, List.findIdx_lt_length]

theorem columnNumber_eq (hn : (r.desc.map (·.fieldName)).Nodup) (h : r.desc[j]? = some d) :
    r.columnNumber d.fieldName = j := by
  obtain ⟨hj, hd⟩ := List.getElem?_eq_some_iff.mp h
  refine (List.findIdx_eq hj).mpr ⟨by simp [hd], fun i hi => ?_⟩
  have hne := List.pairwise_iff_getElem.mp hn i j (by simp; omega) (by simpa using hj) hi
  simpa [hd] using hne

namespace Rectangular

theorem isSome_value_iff (h : r.Rectangular) : (r.value i j).isSome ↔ i < r.tupleSize ∧ j < r.columnSize := by
  cases hi : r.data[i]?
  case none =>
    have hn : ¬i < r.tupleSize := by simpa [tupleSize] using hi
    simp [value, hi, hn]
  case some cells =>
    obtain ⟨hl, hc⟩ := List.getElem?_eq_some_iff.mp hi
    have hw := h cells (hc ▸ List.getElem_mem hl)
    have hs : (r.value i j).isSome ↔ j < cells.length := by simp [value, hi]
    rw [hs, hw]
    exact (and_iff_right hl).symm

theorem isSome_namedValue_iff (h : r.Rectangular) :
    (r.namedValue i name).isSome ↔ i < r.tupleSize ∧ ∃ d ∈ r.desc, d.fieldName = name := by
  rw [namedValue, h.isSome_value_iff, columnNumber_lt_iff]

end Rectangular

end ResultSet

-- What the token `last` hands on: the last result set, if there is one at the end.
def last (rs : ResultSets) : Option ResultSet :=
  rs.getLast?.join

theorem mem_of_last {rs : ResultSets} {r : ResultSet} (h : last rs = some r) : some r ∈ rs := by
  rw [last, Option.join_eq_some_iff] at h
  exact List.mem_of_getLast? h

variable {σ ε : Type} {d : Dialogue σ} {cs : List Bytes} {e : ε} {rs : ResultSets}

theorem Dialogue.Safety.completion_rectangular (safety : d.Safety) {x : Completion ε}
    (h : d.completion cs e = some x) : x.resultSets.Rectangular := by
  have hs : safety.holdsAt d.fresh := safety.holdsAt_none safety.start
  have hf := feed_satisfies safety.doParse_satisfies hs cs
  rw [completion] at h
  generalize (feed d.doParse d.fresh cs).fst = out at hf h
  cases out
  case more => cases h; exact safety.resultSets hf.left
  case done => cases h; exact hf
  case fail e _ =>
    cases e
    case malformed => cases h; exact hf
    case undefined => cases h

-- The result sets that an operation hands out when it has read some chunks and its transport has failed then, if it
-- has not completed before.
inductive HandedOut {ε : Type} (cs : List Bytes) (e : ε) : ResultSets → Prop
  | execute {x} : execute.completion cs e = some x → HandedOut cs e x.resultSets
  | simpleQuery {x} : simpleQuery.completion cs e = some x → HandedOut cs e x.resultSets

theorem HandedOut.rectangular (h : HandedOut cs e rs) : rs.Rectangular := by
  cases h
  case execute h     => exact Execute.safety.completion_rectangular h
  case simpleQuery h => exact SimpleQuery.safety.completion_rectangular h

-- Whatever bytes a server sends, and however the operation ends: in the result set that the token `last` hands on
-- there is a cell for each row and each column, by number and by name, and nowhere else, and a name that is used for
-- one column only finds the cells of that.
theorem HandedOut.lookup (h : HandedOut cs e rs) {r : ResultSet} (hr : last rs = some r) :
    (∀ i j, (r.value i j).isSome ↔ i < r.tupleSize ∧ j < r.columnSize) ∧
    (∀ i name, (r.namedValue i name).isSome ↔ i < r.tupleSize ∧ ∃ d ∈ r.desc, d.fieldName = name) ∧
    ((r.desc.map (·.fieldName)).Nodup → ∀ (i j : Nat) d, r.desc[j]? = some d →
      r.namedValue i d.fieldName = r.value i j) := by
  have hw := h.rectangular r (mem_of_last hr)
  refine ⟨fun _ _ => hw.isSome_value_iff, fun _ _ => hw.isSome_namedValue_iff, fun hn i j d hd => ?_⟩
  rw [ResultSet.namedValue, ResultSet.columnNumber_eq hn hd]

theorem lookup_rowAnswer : ∃ r : ResultSet,
    HandedOut [encode Execute.rowAnswer] () [some r] ∧ ∀ i j, (r.value i j).isSome ↔ i < 1 ∧ j < 1 := by
  have hc : [encode Execute.rowAnswer].flatten = encode Execute.rowAnswer := by simp
  have ha : Execute.Answered Execute.rowAnswer (Execute.rowAnswer.take 4) .readyForQuery [] :=
    ⟨rfl, rfl, by decide, _, .inl (.inl ⟨1, rfl⟩), rfl⟩
  obtain ⟨left, unfed, hf, _⟩ := (Execute.feed_shown (by decide) (by decide) hc).answered ha
  have hx : execute.completion [encode Execute.rowAnswer] () =
      some ⟨.told .none, [some { desc := [{ fieldName := [97] }], data := [[none]] }]⟩ := by
    rw [Dialogue.completion, hf]
    rfl
  exact ⟨_, .execute hx, ((HandedOut.execute hx).lookup rfl).left⟩

end ChxSql.Postgresql

import ChxSql.Incremental.Chunks
import ChxSql.Postgresql.Connect
import ChxSql.Postgresql.Execute
import ChxSql.Postgresql.Oneshot
import ChxSql.Postgresql.ParseQuery
import ChxSql.Postgresql.SimpleQuery

namespace ChxSql.Postgresql

open Incremental

-- What the operations have in common: each reads the bytes of the server by a machine that starts in
-- a certain state, that waits for input there, and that never runs into undefined behaviour.
structure Machine where
  State     : Type
  Result    : Type
  start     : State
  parse     : State → Bytes → Step Byte State Result (Failure Result)
  resumable : Resumable parse
  shrinks   : Shrinks parse
  waits     : parse start [] = .more start []
  defined   : ∀ bs r, parse start bs ≠ .fail .undefined r

def Dialogue.machine {σ : Type} (d : Dialogue σ) (inv : d.Invariant) : Machine where
  State     := Dialogue.State σ
  Result    := Report
  start     := d.fresh
  parse     := d.doParse
  resumable := resumable
  shrinks   := shrinks
  waits     := doParse_nil d.start
  defined   := inv.defined

def Connect.machine (para : ConnectParameters) : Machine where
  State     := State
  Result    := Report
  start     := fresh
  parse     := doRead para
  resumable := resumable
  shrinks   := shrinks
  waits     := doRead_nil {}
  defined   := defined

inductive Operation where
  | connect (para : ConnectParameters)
  | simpleQuery
  | parseQuery
  | execute
  | executeOneshot

-- A read returns at least one byte and at most as many as `__M_buffer` holds.
structure Read where
  bytes : Bytes
  ne    : bytes ≠ []
  le    : bytes.length ≤ 4096

namespace Operation

def machine : Operation → Machine
  | connect para   => Connect.machine para
  | simpleQuery    => Postgresql.simpleQuery.machine SimpleQuery.invariant
  | parseQuery     => Postgresql.parseQuery.machine ParseQuery.invariant
  | execute        => Postgresql.execute.machine Execute.invariant
  | executeOneshot => Postgresql.oneshot.machine Oneshot.invariant

-- The ranges of bytes that the operation parses. When it starts, `buf` is what is left in
-- `[__M_buf_begin, __M_buf_end)`. Only `connect` starts with a read and drops that.
def chunks (op : Operation) (buf : Bytes) (reads : List Read) : List Bytes :=
  match op with
  | connect _ => reads.map (·.bytes)
  | _         => buf :: reads.map (·.bytes)

-- All the bytes that the operation is given.
def received (op : Operation) (buf : Bytes) (reads : List Read) : Bytes :=
  (op.chunks buf reads).flatten

-- Running an operation until it completes or has used up its reads. What a call that wants more
-- leaves unread is lost, because the read that follows resets `__M_buf_begin` and `__M_buf_end`.
def run (op : Operation) (buf : Bytes) (reads : List Read) :
    Step Byte op.machine.State op.machine.Result (Failure op.machine.Result) × List Bytes :=
  feed op.machine.parse op.machine.start (op.chunks buf reads)

end Operation

-- How an operation may have ended for its user: it still reads (and what it does next depends on a
-- state), or it has completed, for some reason other than a malformed message or because of one.
inductive Ending (m : Machine) where
  | reading (s : m.State)
  | complete (k : m.Result) (consumed : Bytes)
  | malformed (k : m.Result)

-- A run has a certain ending. If it completed, then what it consumed and what it has left in the
-- buffer make up the ranges that it was given until then.
inductive Ending.Of {m : Machine} (chunks : List Bytes) :
    Ending m → Step Byte m.State m.Result (Failure m.Result) × List Bytes → Prop
  | reading {s} : Of chunks (.reading s) (.more s [], [])
  | complete {k consumed left fed unfed} : chunks = fed ++ unfed → fed.flatten = consumed ++ left →
    Of chunks (.complete k consumed) (.done k left, unfed)
  | malformed {k left unfed} : Of chunks (.malformed k) (.fail (.malformed k) left, unfed)

namespace Machine

variable (m : Machine)

-- Feeding any chunks comes to the same as one call on all of them.
theorem feed_agrees (cs : List Bytes) :
    Agrees (feed m.parse m.start cs) (m.parse m.start cs.flatten) :=
  m.resumable.feed_agrees_flatten trivial fun _ => m.waits

-- The ending that one call on the whole input shows.
theorem exists_ending (bs : Bytes) : ∃ e : Ending m,
    ∀ cs : List Bytes, cs.flatten = bs → e.Of cs (feed m.parse m.start cs) := by
  cases hp : m.parse m.start bs
  case more s r =>
    refine ⟨.reading s, fun cs hc => ?_⟩
    have ha := m.feed_agrees cs
    rw [hc, hp] at ha
    exact ha.of_more.left ▸ .reading
  case done k r =>
    obtain ⟨consumed, hs⟩ := m.shrinks m.start bs
    rw [hp, Step.rest] at hs
    refine ⟨.complete k consumed, fun cs hc => ?_⟩
    have ha := m.feed_agrees cs
    rw [hc, hp] at ha
    obtain ⟨left, unfed, hf, hl⟩ := ha.of_done
    obtain ⟨fed, hu⟩ := feed_unfed_suffix m.parse m.start cs
    rw [hf] at hu ⊢
    refine .complete hu.symm (List.append_cancel_right (?_ : _ ++ unfed.flatten = _))
    calc fed.flatten ++ unfed.flatten
      _ = bs                                := by rw [← List.flatten_append, hu, hc]
      _ = consumed ++ left ++ unfed.flatten := by rw [← hs, ← hl, List.append_assoc]
  case fail e r =>
    cases e
    case undefined   => exact absurd hp (m.defined bs r)
    case malformed k =>
      refine ⟨.malformed k, fun cs hc => ?_⟩
      have ha := m.feed_agrees cs
      rw [hc, hp] at ha
      obtain ⟨left, unfed, hf⟩ := ha.of_fail
      exact hf ▸ .malformed

end Machine

-- The ending of an operation depends on the bytes that it receives only, not on how they come in
-- reads.
theorem Operation.ending_independent_of_reads (op : Operation) : ∃ ending : Bytes → Ending op.machine,
    ∀ buf reads, (ending (op.received buf reads)).Of (op.chunks buf reads) (op.run buf reads) :=
  ⟨fun bs => (op.machine.exists_ending bs).choose,
    fun _ _ => (op.machine.exists_ending _).choose_spec _ rfl⟩

end ChxSql.Postgresql

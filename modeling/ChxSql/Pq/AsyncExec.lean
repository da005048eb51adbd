import ChxSql.Incremental.System
import ChxSql.Ownership.Heap

namespace ChxSql.Pq

open Incremental Ownership

-- What `PQgetResult` yields for a query before it returns null. No result is yielded twice.
structure Results (ρ : Type) where
  list  : List ρ
  nodup : list.Nodup

-- The connection: the results that are left, what `PQgetResult` has returned, and what `PQisBusy`
-- answers each time that it is asked. Reading and writing show in those answers only.
structure Libpq (ρ : Type) where
  results  : List ρ
  busy     : Nat → Bool
  returned : List (Option ρ) := []
  asked    : Nat := 0
  flushed  : Nat := 0
  consumed : Nat := 0

namespace Libpq

variable {ρ : Type} (pq : Libpq ρ)

def flush : Libpq ρ :=
  { pq with flushed := pq.flushed + 1 }

def consumeInput : Libpq ρ :=
  { pq with consumed := pq.consumed + 1 }

def isBusy : Bool × Libpq ρ :=
  (pq.busy pq.asked, { pq with asked := pq.asked + 1 })

def getResult : Option ρ × Libpq ρ :=
  match pq.results with
  | []      => (none, { pq with returned := pq.returned ++ [none] })
  | r :: rs => (some r, { pq with results := rs, returned := pq.returned ++ [some r] })

@[simp] theorem flush_results : pq.flush.results = pq.results := rfl
@[simp] theorem flush_returned : pq.flush.returned = pq.returned := rfl
@[simp] theorem consumeInput_results : pq.consumeInput.results = pq.results := rfl
@[simp] theorem consumeInput_returned : pq.consumeInput.returned = pq.returned := rfl
@[simp] theorem isBusy_results : pq.isBusy.2.results = pq.results := rfl
@[simp] theorem isBusy_returned : pq.isBusy.2.returned = pq.returned := rfl

variable {pq} {pq' : Libpq ρ} {r : ρ}

theorem getResult_some (h : pq.getResult = (some r, pq')) :
    pq.results = r :: pq'.results ∧ pq'.returned = pq.returned ++ [some r] := by
  rw [getResult] at h
  split at h <;> cases h
  exact ⟨‹_›, rfl⟩

theorem getResult_none (h : pq.getResult = (none, pq')) :
    pq.results = [] ∧ pq'.results = [] ∧ pq'.returned = pq.returned ++ [none] := by
  rw [getResult] at h
  split at h <;> cases h
  exact ⟨‹_›, ‹_›, rfl⟩

end Libpq

-- `POLLIN` and `POLLOUT`
def pollIn : Nat := 0x001
def pollOut : Nat := 0x004

-- The arguments of a call of `complete()`, and what `PQgetResult` had returned by then. An error code
-- of 0 is no error.
structure Completion (ρ : Type) where
  ec       : Nat
  result   : Option ρ
  returned : List (Option ρ)
  deriving DecidableEq

-- The operation that `async_exec_params` starts. `result` is `__M_r`, which owns a result together
-- with the copies (`handles`) that the user has got. `heap` has the results that have been released as
-- the deleted ones. `polls` counts the calls of `async_poll` that are outstanding.
structure Execution (ρ : Type) where
  libpq       : Libpq ρ
  heap        : Heap ρ := {}
  result      : Option Nat := none
  handles     : List Nat := []
  polls       : Nat := 0
  completions : List (Completion ρ) := []
  destroyed   : Bool := false

-- What the loop of the handler leaves behind.
structure Drained (ρ : Type) where
  libpq : Libpq ρ
  heap  : Heap ρ
  r     : Option ρ
  t     : Option ρ

-- The loop: as long as libpq is not busy it takes the results and clears all but the last one.
def drain {ρ : Type} (pq : Libpq ρ) (heap : Heap ρ) (r t : Option ρ) : Drained ρ :=
  if pq.isBusy.1 then
    { libpq := pq.isBusy.2, heap, r, t }
  else
    match _h : pq.isBusy.2.getResult with
    | (none, pq)   => { libpq := pq, heap, r, t := none }
    | (some t, pq) => drain pq.consumeInput (r.elim heap heap.delete) (some t) (some t)
termination_by pq.results.length
decreasing_by
  have hr := (Libpq.getResult_some _h).left
  rw [Libpq.isBusy_results] at hr
  simp [hr]

section

variable {ρ : Type} {pq pq' : Libpq ρ} {heap : Heap ρ} {r t : Option ρ} {t' : ρ}

theorem drain_busy (h : pq.isBusy.1) : drain pq heap r t = { libpq := pq.isBusy.2, heap, r, t } := by
  rw [drain, if_pos h]

theorem drain_none (h : ¬pq.isBusy.1) (hg : pq.isBusy.2.getResult = (none, pq')) :
    drain pq heap r t = { libpq := pq', heap, r, t := none } := by
  rw [drain, if_neg h]
  split <;> simp_all

theorem drain_some (h : ¬pq.isBusy.1) (hg : pq.isBusy.2.getResult = (some t', pq')) :
    drain pq heap r t = drain pq'.consumeInput (r.elim heap heap.delete) (some t') (some t') := by
  rw [drain, if_neg h]
  split <;> simp_all

end

namespace Execution

variable {ρ : Type} (x : Execution ρ)

def doPoll : Execution ρ :=
  { x with polls := x.polls + 1 }

-- The handler of the user gets a copy of what it is called with.
def complete (ec : Nat) (result : Option Nat) : Execution ρ := {
  x with
  heap        := result.elim x.heap x.heap.copy
  handles     := result.toList ++ x.handles
  completions := x.completions ++ [{ ec, result := result.bind x.heap.get, returned := x.libpq.returned }]
}

-- `__M_r.emplace(result_set(r))`
def emplace (r : ρ) : Execution ρ := {
  x with
  heap   := x.result.elim (x.heap.share r) (x.heap.share r).drop
  result := some x.heap.fresh
}

-- `__M_r.reset()`
def reset : Execution ρ :=
  { x with heap := x.result.elim x.heap x.heap.drop, result := none }

-- The handler of `ev_poll` after the loop. Without a `t` there are no more results.
def store (ec : Nat) (d : Drained ρ) : Execution ρ :=
  let x := { x with libpq := d.libpq, heap := d.heap }
  let x := d.r.elim x.reset x.emplace
  if d.t.isNone then x.complete ec x.result else x.doPoll

-- The handler after it has read and written.
def getResults (ec : Nat) : Execution ρ :=
  if x.libpq.isBusy.1 then
    { x with libpq := x.libpq.isBusy.2 }.doPoll
  else
    match x.libpq.isBusy.2.getResult with
    | (none, pq)   => { x with libpq := pq }.complete ec x.result
    | (some r, pq) => x.store ec (drain pq x.heap (some r) (some r))

def onPoll (ec flags : Nat) : Execution ρ :=
  if ec = 0 then
    let pq := if flags &&& pollOut ≠ 0 then x.libpq.flush else x.libpq
    let pq := if flags &&& pollIn ≠ 0 then pq.consumeInput else pq
    { x with libpq := pq }.getResults ec
  else
    x.complete ec none

end Execution

-- A poll completes, the operation is destroyed, or the user copies or drops a result.
inductive Event where
  | poll (ec flags : Nat)
  | destroy
  | copy (i : Nat)
  | drop (i : Nat)
  deriving DecidableEq

def Execution.step {ρ : Type} (x : Execution ρ) : Event → Option (Execution ρ)
  | .poll ec flags =>
    if x.polls = 0 then none else some ({ x with polls := x.polls - 1 }.onPoll ec flags)
  | .destroy =>
    if x.destroyed then none else some { x.reset with polls := 0, destroyed := true }
  | .copy i =>
    if i ∈ x.handles then some { x with heap := x.heap.copy i, handles := i :: x.handles } else none
  | .drop i =>
    if i ∈ x.handles then some { x with heap := x.heap.drop i, handles := x.handles.erase i } else none

-- What may happen to an operation.
def system {ρ : Type} (rs : Results ρ) (busy : Nat → Bool) : System (Execution ρ) Event where
  start := Execution.doPoll { libpq := { results := rs.list, busy } }
  step  := Execution.step

end ChxSql.Pq

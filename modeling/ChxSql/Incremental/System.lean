import Mathlib

namespace Incremental

-- A system to which one event after another happens. Not every event can happen in every state.
structure System (σ ε : Type) where
  start : σ
  step  : σ → ε → Option σ

namespace System

variable {σ ε : Type} (sys : System σ ε)

def run (es : List ε) : Option σ :=
  es.foldlM sys.step sys.start

-- The system as it goes on from a state.
def resume (s : σ) : System σ ε :=
  { sys with start := s }

variable {sys} {es fs : List ε} {e : ε} {s s' : σ}

@[simp]
theorem run_nil : sys.run [] = some sys.start := rfl

@[simp]
theorem run_concat : sys.run (es ++ [e]) = (sys.run es).bind (sys.step · e) := by
  simp only [run, List.foldlM_append]
  cases es.foldlM sys.step sys.start
  case none   => rfl
  case some s => cases h : sys.step s e <;> simp [h]

theorem run_append : sys.run (es ++ fs) = (sys.run es).bind fun s => (sys.resume s).run fs :=
  List.foldlM_append ..

theorem run_cons : sys.run (e :: es) = (sys.step sys.start e).bind fun s => (sys.resume s).run es :=
  List.foldlM_cons

-- What holds at the start, and after an event if it has held before it, holds after any events.
theorem run_induction {P : List ε → σ → Prop} (start : P [] sys.start)
    (step : ∀ {es s e s'}, sys.run es = some s → P es s → sys.step s e = some s' → P (es ++ [e]) s')
    (h : sys.run es = some s) : P es s := by
  induction es using List.reverseRecOn generalizing s
  case nil => cases h; exact start
  case append_singleton es e ih =>
    rw [run_concat] at h
    have ⟨s', hr, hs⟩ := Option.bind_eq_some_iff.mp h
    exact step hr (ih hr) hs

end System

end Incremental

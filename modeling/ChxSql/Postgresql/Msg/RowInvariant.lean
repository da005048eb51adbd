import ChxSql.Postgresql.Msg.Any

namespace ChxSql.Postgresql

open Incremental

namespace Msg

namespace RowDescription

-- Whatever the next turn stores, it stores in a column that is there.
def InRange (m : RowDescription) : Prop :=
  match m.state with
  | .count _ => True
  | _        => m.idx < m.desc.length

structure Sane (m : RowDescription) : Prop where
  inRange : m.InRange
  length  : m.desc.length < 2 ^ 16
  fresh   : ∀ parser, m.state = .count parser → m.idx = 0 ∧ m.desc = []

theorem Sane.initial : Sane {} :=
  ⟨trivial, by simp, fun _ _ => ⟨rfl, rfl⟩⟩

theorem Sane.store {m : RowDescription} (hi : m.idx < m.desc.length) (hl : m.desc.length < 2 ^ 16)
    {set state} (hs : ∀ parser, state ≠ .count parser) : Sane (m.store set state) where
  inRange := by
    simp only [RowDescription.store, InRange, List.length_modify]
    cases state <;> exact hi
  length  := by simpa [RowDescription.store] using hl
  fresh parser h := absurd h (hs parser)

theorem turn_satisfies {m : RowDescription} (h : m.Sane) (bs : Bytes) :
    (m.turn bs).Satisfies Sane (fun m => m.desc.length < 2 ^ 16) fun _ => True := by
  obtain ⟨hi, hl, hf⟩ := h
  obtain ⟨desc, idx, state⟩ := m
  cases state
  case count parser =>
    obtain ⟨hi, hd⟩ := hf parser rfl
    refine Step.satisfies_turn (fun _ => ⟨trivial, hl, fun _ _ => ⟨hi, hd⟩⟩) (fun n r hn => ?_)
      fun _ => trivial
    have hn := Integer.parse_lt hn
    split
    case isFalse => exact hl
    case isTrue hz =>
      refine ⟨?_, by simpa using hn, by simp⟩
      simpa [InRange, show idx = 0 from hi] using Nat.pos_of_ne_zero hz
  case formatCode parser =>
    refine Step.satisfies_turn (fun _ => ⟨hi, hl, by simp⟩) (fun v r _ => ?_) fun _ => trivial
    dsimp only
    split
    case isTrue h => exact ⟨h, by simpa [store] using hl, by simp [store]⟩
    case isFalse  => simpa [Turn.Satisfies, store] using hl
  all_goals
    refine Step.satisfies_turn (fun _ => ⟨hi, hl, by simp⟩) (fun v r _ => ?_) fun _ => trivial
    exact Sane.store hi hl (by simp)

end RowDescription

namespace DataRow

-- Cf. `RowDescription.InRange`.
def InRange (m : DataRow) : Prop :=
  match m.state with
  | .count _ => True
  | _        => m.idx < m.data.length

-- A row of `n` cells.
structure Sane (n : Nat) (m : DataRow) : Prop where
  inRange : m.InRange
  length  : m.data.length = n
  fresh   : ∀ parser, m.state = .count parser → m.idx = 0

variable {n : Nat}

theorem Sane.initial : Sane n (ofColumns n) :=
  ⟨trivial, by simp [ofColumns], fun _ _ => rfl⟩

theorem Sane.store {m : DataRow} (hl : m.data.length = n) (cell : Option Bytes) (bs : Bytes) :
    (m.store cell bs).Satisfies (Sane n) (fun m => m.data.length = n) fun _ => True := by
  simp only [DataRow.store]
  split
  case isTrue h => exact ⟨h, by simpa using hl, by simp⟩
  case isFalse  => simpa [Turn.Satisfies] using hl

theorem turn_satisfies {m : DataRow} (h : m.Sane n) (bs : Bytes) :
    (m.turn bs).Satisfies (Sane n) (fun m => m.data.length = n) fun _ => True := by
  obtain ⟨hi, hl, hf⟩ := h
  obtain ⟨data, idx, state⟩ := m
  cases state
  case count parser =>
    have hi := hf parser rfl
    refine Step.satisfies_turn (fun _ => ⟨trivial, hl, fun _ _ => hi⟩) (fun _ r _ => ?_)
      fun _ => trivial
    split
    case isFalse => trivial
    case isTrue =>
      split
      case isFalse => exact hl
      case isTrue hd =>
        refine ⟨?_, hl, by simp⟩
        simpa [InRange, show idx = 0 from hi] using List.length_pos_iff.mpr hd
  case length parser =>
    refine Step.satisfies_turn (fun _ => ⟨hi, hl, by simp⟩) (fun len r _ => ?_) fun _ => trivial
    split
    case isTrue  => exact ⟨hi, hl, by simp⟩
    case isFalse => exact Sane.store hl none r
  case value parser =>
    refine Step.satisfies_turn (fun _ => ⟨hi, hl, by simp⟩) (fun v r _ => ?_) fun _ => trivial
    exact Sane.store hl (some v) r

end DataRow

end Msg

open Msg

-- What holds of a message after a part of its body has been read.
def Body.Satisfies {M : Type} (I Q : M → Prop) : Body M → Prop
  | success m  => Q m
  | needMore m => I m
  | fail _     => True

theorem Body.satisfies_ofStep {M : Type} {I Q : M → Prop} {E : ParseResult → Prop}
    {st : Step Byte M M ParseResult} (h : st.Satisfies I Q E) : (Body.ofStep st).Satisfies I Q := by
  cases st
  case more => exact h
  case fail => trivial
  case done =>
    simp only [ofStep, makeSuccess]
    split
    case isTrue  => exact h
    case isFalse => trivial

theorem Body.satisfies_map {M M' : Type} {I Q : M → Prop} {I' Q' : M' → Prop} {b : Body M}
    {f : M → M'} (h : b.Satisfies I Q) (hi : ∀ m, I m → I' (f m)) (hq : ∀ m, Q m → Q' (f m)) :
    (b.map f).Satisfies I' Q' := by
  cases b
  case success m  => exact hq m h
  case needMore m => exact hi m h
  case fail       => trivial

namespace AnyMessage

-- What a message that is being read is like, if the rows of the result have `n` cells.
def Sane (n : Nat) : AnyMessage → Prop
  | rowDescription m => m.Sane
  | dataRow m        => m.Sane n
  | _                => True

-- What it is like when it has been read.
def Complete (n : Nat) : AnyMessage → Prop
  | rowDescription m => m.desc.length < 2 ^ 16
  | dataRow m        => m.data.length = n
  | _                => True

variable {n : Nat}

theorem onBody_satisfies {m : AnyMessage} (h : m.Sane n) (bs : Bytes) :
    (Message.onBody m bs).Satisfies (Sane n) (Complete n) := by
  cases m
  case rowDescription m =>
    have hr : (m.read bs).Satisfies _ _ _ := Loop.run_satisfies RowDescription.turn_satisfies h
    exact Body.satisfies_map (Body.satisfies_ofStep hr) (fun _ h => h) fun _ h => h
  case dataRow m =>
    have hr : (m.read bs).Satisfies _ _ _ := Loop.run_satisfies DataRow.turn_satisfies h
    exact Body.satisfies_map (Body.satisfies_ofStep hr) (fun _ h => h) fun _ h => h
  all_goals
    rename_i m
    refine Body.satisfies_map (I := fun _ => True) (Q := fun _ => True) ?_ (fun _ _ => trivial)
      fun _ _ => trivial
    cases Message.onBody m bs <;> trivial

-- All that is stored while a part of the body is read is stored in range.
def WritesInRange (m : AnyMessage) (bs : Bytes) : Prop :=
  match m with
  | rowDescription m => RowDescription.loop.Always (fun m _ => m.InRange) m bs
  | dataRow m        => DataRow.loop.Always (fun m _ => m.InRange) m bs
  | _                => True

theorem writesInRange {m : AnyMessage} (h : m.Sane n) (bs : Bytes) : m.WritesInRange bs := by
  cases m
  case rowDescription m =>
    refine Loop.always (I := RowDescription.Sane) (fun h _ => h.inRange) (fun {m bs _ _} h hb => ?_) h
    have ht := RowDescription.turn_satisfies h bs
    rwa [show m.turn bs = _ from hb] at ht
  case dataRow m =>
    refine Loop.always (I := DataRow.Sane n) (fun h _ => h.inRange) (fun {m bs _ _} h hb => ?_) h
    have ht := DataRow.turn_satisfies h bs
    rwa [show m.turn bs = _ from hb] at ht
  all_goals trivial

end AnyMessage

namespace BasicParser

variable {n : Nat} {p : BasicParser AnyMessage}

theorem turn_satisfies (h : p.result.Sane n) (bs : Bytes) :
    (p.turn bs).Satisfies (·.result.Sane n) (AnyMessage.Complete n) fun _ => True := by
  have ⟨phase, remain, m⟩ := p
  cases phase <;> simp only [turn]
  case type =>
    cases bs
    case nil  => exact h
    case cons => dsimp only; split <;> first | exact h | trivial
  case length =>
    refine Step.satisfies_turn (fun _ => h) (fun len r _ => ?_) fun _ => trivial
    split
    case isTrue  => trivial
    case isFalse => split <;> first | exact h | trivial
  case body =>
    have hb := AnyMessage.onBody_satisfies h (bs.take (min remain bs.length))
    cases hm : Message.onBody m (bs.take (min remain bs.length)) <;> rw [hm] at hb <;>
      simp only [closeBody]
    case success  => split <;> first | exact hb | trivial
    case needMore => split <;> first | exact hb | trivial
    case fail     => trivial

theorem parse_satisfies (h : p.result.Sane n) (bs : Bytes) :
    (p.parse bs).Satisfies (·.result.Sane n) (AnyMessage.Complete n) fun _ => True :=
  Loop.run_satisfies turn_satisfies h

-- Cf. `AnyMessage.WritesInRange`.
def WritesInRange (p : BasicParser AnyMessage) (bs : Bytes) : Prop :=
  loop.Always (fun p bs =>
    p.phase = .body → p.result.WritesInRange (bs.take (min p.bodyRemain bs.length))) p bs

theorem writesInRange (h : p.result.Sane n) (bs : Bytes) : p.WritesInRange bs := by
  refine Loop.always (I := (·.result.Sane n)) (fun h _ _ => AnyMessage.writesInRange h _)
    (fun {p bs _ _} h hb => ?_) h
  have ht := turn_satisfies h bs
  rwa [show p.turn bs = _ from hb] at ht

end BasicParser

end ChxSql.Postgresql

import ChxSql.Incremental.Bytes
import ChxSql.Incremental.Step

namespace Incremental

-- A container that is to hold `n` bytes and holds some of them.
structure Filling (C : Type) [Container C] (n : Nat) where
  held : C := Container.empty
  le   : Container.size held ≤ n := by simp

namespace Filling

variable {C ε : Type} [Container C] {n : Nat}

abbrev empty : Filling C n := {}

instance [DecidableEq C] : DecidableEq (Filling C n)
  | ⟨c, _⟩, ⟨c', _⟩ => decidable_of_iff (c = c') (by simp)

-- Moves as many bytes as are missing from the chunk to the container.
def fill (p : Filling C n) (bs : Bytes) : Step Byte (Filling C n) C ε :=
  let consumed := min bs.length (n - Container.size p.held)
  let held := Container.insert p.held (bs.take consumed)
  have le : Container.size held ≤ n := by
    have := p.le
    simp only [held, consumed, Container.size_insert, List.length_take]
    omega
  if Container.size held = n then
    .done held (bs.drop consumed)
  else
    .more ⟨held, le⟩ (bs.drop consumed)

theorem fill_full {p : Filling C n} {xs : Bytes} (h : Container.size p.held + xs.length = n)
    (ys : Bytes) :
    p.fill (xs ++ ys) = (.done (Container.insert p.held xs) ys : Step _ _ _ ε) := by
  have hc : min (xs.length + ys.length) (n - Container.size p.held) = xs.length := by omega
  simp [fill, hc, h]

theorem fill_short {p : Filling C n} {xs : Bytes} (h : Container.size p.held + xs.length < n) :
    p.fill xs = (.more ⟨Container.insert p.held xs, by simp; omega⟩ [] : Step _ _ _ ε) := by
  have hc : min xs.length (n - Container.size p.held) = xs.length := by omega
  simp [fill, hc]
  omega

-- The first chunk either fills the container or it does not.
theorem cases_on_chunk (p : Filling C n) (xs : Bytes) :
    (Container.size p.held + xs.length < n) ∨
    (∃ ys zs, xs = ys ++ zs ∧ Container.size p.held + ys.length = n) := by
  by_cases h : Container.size p.held + xs.length < n
  case pos => exact .inl h
  case neg =>
    have := p.le
    refine .inr ⟨xs.take (n - Container.size p.held), xs.drop _, (List.take_append_drop ..).symm, ?_⟩
    simp only [List.length_take]
    omega

theorem resumable : Resumable (fill (C := C) (n := n) (ε := ε)) := by
  refine .of_extends fun p xs ys => ?_
  obtain h | ⟨xs, zs, rfl, h⟩ := p.cases_on_chunk xs
  case inr => rw [fill_full h, List.append_assoc, fill_full h]; exact .done
  case inl =>
    rw [fill_short h]
    refine .of_eq_more trivial ?_
    obtain h' | ⟨ys, zs, rfl, h'⟩ := cases_on_chunk (n := n) ⟨Container.insert p.held xs, by simp; omega⟩ ys
    all_goals simp only [Container.size_insert] at h'
    case inl =>
      have h₁ : Container.size p.held + (xs ++ ys).length < n := by simp; omega
      rw [fill_short h₁, fill_short (by simpa)]
      simp [Container.insert_append]
    case inr =>
      have h₁ : Container.size p.held + (xs ++ ys).length = n := by simp; omega
      rw [← List.append_assoc, fill_full h₁, fill_full (by simpa), Container.insert_append]

theorem shrinks : Shrinks (fill (C := C) (n := n) (ε := ε)) := by
  intro p bs
  simp only [fill]
  split <;> exact List.drop_suffix ..

theorem fill_ne_fail {p : Filling C n} {bs e r} : p.fill bs ≠ (.fail e r : Step _ _ _ ε) := by
  simp only [fill]
  split <;> nofun

theorem fill_size {p : Filling C n} {bs c r} (h : p.fill bs = (.done c r : Step _ _ _ ε)) :
    Container.size c = n := by
  simp only [fill] at h
  split at h <;> cases h
  assumption

-- A filling that is done has read the bytes that were missing.
theorem fill_done {p : Filling C n} {bs c r} (h : p.fill bs = (.done c r : Step _ _ _ ε)) :
    ∃ xs, bs = xs ++ r ∧ c = Container.insert p.held xs ∧ Container.size p.held + xs.length = n := by
  obtain h' | ⟨xs, zs, rfl, h'⟩ := p.cases_on_chunk bs
  case inl => simp [fill_short h'] at h
  case inr =>
    rw [fill_full h'] at h
    cases h
    exact ⟨xs, rfl, rfl, h'⟩

theorem fill_length {p : Filling C n} {bs c r} (h : p.fill bs = (.done c r : Step _ _ _ ε)) :
    bs.length + Container.size p.held = r.length + n := by
  have ⟨xs, hb, _, hl⟩ := fill_done h
  rw [hb, List.length_append]
  omega

end Filling

-- A container for a number of bytes that is known beforehand.
structure Sized (C : Type) [Container C] where
  targetLength : Nat
  result       : Filling C targetLength := .empty
  deriving DecidableEq

namespace Sized

variable {C ε : Type} [Container C]

def parse (p : Sized C) (bs : Bytes) : Step Byte (Sized C) C ε :=
  (p.result.fill bs).andThen (.mk p.targetLength) .done

theorem resumable : Resumable (parse (C := C) (ε := ε)) :=
  .of_extends fun _ xs ys => (Filling.resumable.extend trivial xs ys).andThen
    (fun _ _ => trivial) (fun _ _ => rfl) (fun _ _ => .done)

theorem shrinks : Shrinks (parse (C := C) (ε := ε)) :=
  fun p bs => Step.rest_andThen_suffix (Filling.shrinks p.result bs) fun _ r => List.suffix_refl r

theorem parse_ne_fail {p : Sized C} {bs e r} : p.parse bs ≠ (.fail e r : Step _ _ _ ε) := by
  cases hp : (p.result.fill bs : Step _ _ _ ε)
  case fail => exact absurd hp Filling.fill_ne_fail
  all_goals simp [parse, hp, Step.andThen]

theorem parse_full (xs ys : Bytes) :
    ({ targetLength := xs.length } : Sized C).parse (xs ++ ys) =
      (.done (Container.insert Container.empty xs) ys : Step _ _ _ ε) := by
  have hf := Filling.fill_full (ε := ε) (p := (.empty : Filling C xs.length))
    (show Container.size (Container.empty : C) + xs.length = xs.length by simp) ys
  simp [parse, hf, Step.andThen]

theorem parse_done {n : Nat} {bs v r : Bytes}
    (h : ({ targetLength := n } : Sized Bytes).parse bs = (.done v r : Step _ _ _ ε)) :
    bs = v ++ r ∧ v.length = n := by
  cases hf : ((.empty : Filling Bytes n).fill bs : Step _ _ _ ε) <;>
    simp only [parse, hf, Step.andThen, reduceCtorEq] at h
  cases h
  have ⟨xs, hb, hv, hl⟩ := Filling.fill_done hf
  rw [Container.insert_empty_bytes] at hv
  exact ⟨hv ▸ hb, by simpa [hv] using hl⟩

end Sized

end Incremental

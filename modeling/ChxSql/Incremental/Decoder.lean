import ChxSql.Incremental.Bytes

namespace Incremental

-- Reads something from the beginning of its input, and leaves the rest.
abbrev Decoder := StateT Bytes Option

namespace Decoder

-- `bs` is what a decoder reads, and `a` is what it makes of it.
def Decodes {α : Type} (d : Decoder α) (bs : Bytes) (a : α) : Prop :=
  ∀ rest, d.run (bs ++ rest) = some (a, rest)

def take (n : Nat) : Decoder Bytes := fun bs =>
  if n ≤ bs.length then some (bs.take n, bs.drop n) else none

def integer (k : Nat) : Decoder Nat :=
  ofBigEndian <$> take k

def littleEndian (k : Nat) : Decoder Nat :=
  ofLittleEndian <$> take k

-- A string that is terminated by a zero byte.
def string : Decoder Bytes := fun bs =>
  if 0 ∈ bs then some (bs.takeWhile (· != 0), (bs.dropWhile (· != 0)).tail) else none

def replicate {α : Type} (d : Decoder α) : Nat → Decoder (List α)
  | 0     => pure []
  | n + 1 => do
    let a ← d
    let as ← replicate d n
    return a :: as

-- Something that is there only under a condition.
def optional {α : Type} (c : Prop) [Decidable c] (d : Decoder α) : Decoder (Option α) :=
  if c then some <$> d else pure none

-- What a decoder makes of bytes if it uses them up.
def whole {α : Type} (d : Decoder α) (bs : Bytes) : Option α :=
  match d.run bs with
  | some (a, []) => some a
  | _            => none

-- Something that takes up exactly the next `n` bytes.
def exactly {α : Type} (n : Nat) (d : Decoder α) : Decoder α := fun bs =>
  if n ≤ bs.length then (d.whole (bs.take n)).map (·, bs.drop n) else none

variable {α β : Type} {d : Decoder α} {bs cs : Bytes} {a : α} {b : β}

theorem exists_of_bind {f : α → Decoder β} {rest : Bytes} (h : (d >>= f).run bs = some (b, rest)) :
    ∃ a bs', d.run bs = some (a, bs') ∧ (f a).run bs' = some (b, rest) := by
  rw [StateT.run_bind, Option.bind_eq_bind, Option.bind_eq_some_iff] at h
  have ⟨⟨a, bs'⟩, hd, hf⟩ := h
  exact ⟨a, bs', hd, hf⟩

-- The strings that are read have no zero byte in them.
theorem zero_notMem_of_string {s rest : Bytes} (h : string.run bs = some (s, rest)) : 0 ∉ s := by
  simp only [string, StateT.run] at h
  split at h
  case isFalse => cases h
  case isTrue =>
    cases h
    intro hz
    have := List.mem_takeWhile_imp hz
    simp at this

theorem whole_eq_some : d.whole bs = some a ↔ d.run bs = some (a, []) := by
  rw [whole]
  split
  case h_1 hr => simp [hr]
  case h_2 hr => exact iff_of_false nofun (hr a)

theorem length_of_take {n : Nat} {bs' rest : Bytes} (h : (take n).run bs = some (bs', rest)) :
    rest.length + n = bs.length := by
  simp only [take, StateT.run, Option.ite_none_right_eq_some, Option.some.injEq, Prod.mk.injEq] at h
  obtain ⟨hl, -, rfl⟩ := h
  rw [List.length_drop]
  omega

theorem length_of_integer {k n : Nat} {rest : Bytes} (h : (integer k).run bs = some (n, rest)) :
    rest.length + k = bs.length := by
  rw [integer, map_eq_pure_bind] at h
  obtain ⟨bs', rest', ht, hp⟩ := exists_of_bind h
  cases hp
  exact length_of_take ht

theorem run_of_exactly {n : Nat} {rest : Bytes} (h : (exactly n d).run bs = some (a, rest)) :
    d.run (bs.take n) = some (a, []) := by
  simp only [exactly, StateT.run] at h
  split at h
  case isFalse => cases h
  case isTrue =>
    have ⟨a', hw, he⟩ := Option.map_eq_some_iff.mp h
    cases he
    exact whole_eq_some.mp hw

namespace Decodes

theorem pure : Decodes (pure a) [] a :=
  fun _ => rfl

theorem bind {f : α → Decoder β} (h : Decodes d bs a) (hf : Decodes (f a) cs b) :
    Decodes (d >>= f) (bs ++ cs) b := by
  intro rest
  rw [StateT.run_bind, List.append_assoc, h]
  exact hf rest

theorem map (f : α → β) (h : Decodes d bs a) : Decodes (f <$> d) bs (f a) := by
  intro rest
  rw [StateT.run_map, h]
  rfl

theorem bind_pure {f : α → β} (h : Decodes d bs a) :
    Decodes (d >>= fun a => Pure.pure (f a)) bs (f a) := by
  rw [← List.append_nil bs]
  exact h.bind pure

theorem take (bs : Bytes) : Decodes (take bs.length) bs bs := by
  intro rest
  simp [Decoder.take, StateT.run]

theorem integer {k n : Nat} (h : n < 256 ^ k) : Decodes (integer k) (toBigEndian k n) n := by
  have := (take (toBigEndian k n)).map ofBigEndian
  rwa [toBigEndian_length, ofBigEndian_toBigEndian h] at this

theorem littleEndian {k n : Nat} (h : n < 256 ^ k) :
    Decodes (littleEndian k) (toLittleEndian k n) n := by
  have := (take (toLittleEndian k n)).map ofLittleEndian
  rwa [toLittleEndian_length, ofLittleEndian_toLittleEndian h] at this

theorem string (h : 0 ∉ bs) : Decodes string (bs ++ [0]) bs := by
  intro rest
  have hd : (bs ++ 0 :: rest).dropWhile (· != 0) = 0 :: rest := by
    rw [List.dropWhile_append_of_pos (by grind)]
    simp
  simp [Decoder.string, StateT.run, takeWhile_ne_zero_append h, hd]

theorem optional {c : Prop} [Decidable c] (h : c → Decodes d bs a) :
    Decodes (optional c d) (if c then bs else []) (if c then some a else none) := by
  rw [Decoder.optional]
  split
  case isTrue hc => exact (h hc).map some
  case isFalse   => exact pure

theorem whole (h : Decodes d bs a) : d.whole bs = some a := by
  have hr := h []
  rw [List.append_nil] at hr
  exact whole_eq_some.mpr hr

theorem exactly (h : Decodes d bs a) : Decodes (exactly bs.length d) bs a := by
  intro rest
  simp [Decoder.exactly, StateT.run, h.whole]

theorem replicate {ι : Type} {xs : List ι} {encode : ι → Bytes} {value : ι → α}
    (h : ∀ x ∈ xs, Decodes d (encode x) (value x)) :
    Decodes (replicate d xs.length) (xs.flatMap encode) (xs.map value) := by
  induction xs
  case nil => exact pure
  case cons x xs ih =>
    have ht := ih fun x hx => h x (by simp [hx])
    exact (h x (by simp)).bind (ht.map (value x :: ·))

end Decodes

-- A decoder that has read something reads the same if more bytes follow.
def Stable (d : Decoder α) : Prop :=
  ∀ bs a rest, d.run bs = some (a, rest) → ∀ ys, d.run (bs ++ ys) = some (a, rest ++ ys)

namespace Stable

theorem pure : Stable (pure a : Decoder α) := by
  intro bs a rest h ys
  cases h
  rfl

theorem failure : Stable (failure : Decoder α) := by
  rintro bs a rest ⟨⟩

theorem bind {f : α → Decoder β} (h : d.Stable) (hf : ∀ a, (f a).Stable) : (d >>= f).Stable := by
  intro bs b rest hb ys
  have ⟨a, bs', ha, hb⟩ := exists_of_bind hb
  rw [StateT.run_bind, h _ _ _ ha ys]
  exact hf a _ _ _ hb ys

theorem map (f : α → β) (h : d.Stable) : (f <$> d).Stable := by
  rw [map_eq_pure_bind]
  exact h.bind fun _ => pure

theorem take (n : Nat) : (take n).Stable := by
  intro bs a rest h ys
  simp only [Decoder.take, StateT.run, Option.ite_none_right_eq_some, Option.some.injEq, Prod.mk.injEq] at h ⊢
  obtain ⟨hl, rfl, rfl⟩ := h
  exact ⟨by rw [List.length_append]; omega, List.take_append_of_le_length hl, List.drop_append_of_le_length hl⟩

theorem integer (k : Nat) : (integer k).Stable :=
  (take k).map _

theorem littleEndian (k : Nat) : (littleEndian k).Stable :=
  (take k).map _

theorem exactly (n : Nat) (d : Decoder α) : (exactly n d).Stable := by
  intro bs a rest h ys
  simp only [Decoder.exactly, StateT.run, Option.ite_none_right_eq_some, Option.map_eq_some_iff, Prod.mk.injEq] at h ⊢
  obtain ⟨hl, b, hb, rfl, rfl⟩ := h
  exact ⟨by rw [List.length_append]; omega, b, by rwa [List.take_append_of_le_length hl], rfl,
    List.drop_append_of_le_length hl⟩

end Stable

end Decoder

end Incremental

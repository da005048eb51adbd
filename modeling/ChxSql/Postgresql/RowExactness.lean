import ChxSql.Postgresql.Framing

namespace ChxSql.Postgresql

open Incremental Msg

-- Cf. `Resumable.feed_done_iff`.
theorem BasicParser.feed_done_iff {M : Type} [Message M] [LawfulMessage M] {m m' : M} {cs : List Bytes}
    {rest : Bytes} :
    (∃ left unfed, feed BasicParser.parse { result := m } cs = (.done m' left, unfed) ∧
        left ++ unfed.flatten = rest) ↔
      ∃ f : Frame, cs.flatten = f.encode ++ rest ∧ Message.receive m f.type f.body = some m' := by
  rw [resumable.feed_done_iff, parse_done_iff, and_iff_right_of_imp]
  rintro ⟨f, hf, _⟩ rfl
  exact Frame.encode_ne_nil (List.append_eq_nil_iff.mp hf.symm).left

-- Cf. `feed_done_iff`, for a part of what has been read.
theorem BasicParser.feed_content_iff {M C : Type} [Message M] [LawfulMessage M] {m₀ : M} {content : M → C}
    {c : C} {cs : List Bytes} {rest : Bytes} :
    (∃ m left unfed, feed BasicParser.parse { result := m₀ } cs = (.done m left, unfed) ∧
        left ++ unfed.flatten = rest ∧ content m = c) ↔
      ∃ f : Frame, cs.flatten = f.encode ++ rest ∧
        ∃ m, Message.receive m₀ f.type f.body = some m ∧ content m = c := by
  constructor
  case mp =>
    rintro ⟨m, left, unfed, hf, hr, hc⟩
    have ⟨f, he, hm⟩ := feed_done_iff.mp ⟨left, unfed, hf, hr⟩
    exact ⟨f, he, m, hm, hc⟩
  case mpr =>
    rintro ⟨f, he, m, hm, hc⟩
    have ⟨left, unfed, hf, hr⟩ := feed_done_iff.mpr ⟨f, he, hm⟩
    exact ⟨m, left, unfed, hf, hr, hc⟩

theorem Frame.exists_iff {P : Prop} {type : Byte} {body bs rest : Bytes} :
    (∃ f : Frame, bs = f.encode ++ rest ∧ f.type = type ∧ P ∧ f.body = body) ↔
      P ∧ body.length + 4 < 256 ^ 4 ∧ bs = frame type body ++ rest := by
  constructor
  case mp =>
    rintro ⟨⟨_, _, hl⟩, hb, rfl, hp, rfl⟩
    exact ⟨hp, hl, hb⟩
  case mpr =>
    rintro ⟨hp, hl, hb⟩
    exact ⟨⟨type, body, hl⟩, hb, rfl, hp, rfl⟩

namespace Msg

namespace RowDescription

variable {m : RowDescription} {pre post cols : List ColumnDescription} {d₀ : ColumnDescription}
variable {bs rest : Bytes}

-- What the description of a column that is done has read, field by field.
theorem column_of_read (h : read ⟨pre ++ d₀ :: post, pre.length, .fieldName {}⟩ bs = .done m rest) :
    ∃ d : ColumnDescription, d.WellFormed ∧ ∃ tail, bs = d.encode ++ tail := by
  obtain ⟨_, r₁, hp, h⟩ := loop.goto_of_done (({} : Str Bytes).parse bs) rfl h
  obtain ⟨name, hb₁, _, hz⟩ := Terminated.parse_done hp
  obtain ⟨tableId, r₂, hp, h⟩ := loop.goto_of_done (({} : Integer 4).parse r₁) rfl h
  obtain ⟨hl₂, hb₂⟩ := Integer.exists_of_parse hp
  obtain ⟨number, r₃, hp, h⟩ := loop.goto_of_done (({} : Integer 2).parse r₂) rfl h
  obtain ⟨hl₃, hb₃⟩ := Integer.exists_of_parse hp
  obtain ⟨dataType, r₄, hp, h⟩ := loop.goto_of_done (({} : Integer 4).parse r₃) rfl h
  obtain ⟨hl₄, hb₄⟩ := Integer.exists_of_parse hp
  obtain ⟨size, r₅, hp, h⟩ := loop.goto_of_done (({} : Integer 2).parse r₄) rfl h
  obtain ⟨hl₅, hb₅⟩ := Integer.exists_of_parse hp
  obtain ⟨modifier, r₆, hp, h⟩ := loop.goto_of_done (({} : Integer 4).parse r₅) rfl h
  obtain ⟨hl₆, hb₆⟩ := Integer.exists_of_parse hp
  obtain ⟨format, r₇, hp⟩ := loop.parse_of_done (({} : Integer 2).parse r₆) rfl h
  obtain ⟨hl₇, hb₇⟩ := Integer.exists_of_parse hp
  have hs : (UInt16.ofNat size).toInt16.toUInt16.toNat = size := by
    rw [UInt16.toUInt16_toInt16]
    exact UInt16.toNat_ofNat_of_lt' hl₅
  refine ⟨⟨name, tableId, number, dataType, (UInt16.ofNat size).toInt16, modifier, format⟩,
    ⟨hz, hl₂, hl₃, hl₄, hl₆, hl₇⟩, r₇, ?_⟩
  rw [hb₁, hb₂, hb₃, hb₄, hb₅, hb₆, hb₇]
  simp only [ColumnDescription.encode, hs, List.append_assoc, List.cons_append]

-- The induction is on the columns that are still to come.
theorem columns_of_read (pre : List ColumnDescription) (d₀ : ColumnDescription) {n : Nat}
    (h : read ⟨pre ++ d₀ :: .replicate n {}, pre.length, .fieldName {}⟩ bs = .done m rest) :
    ∃ cols, cols.length = n + 1 ∧ (∀ d ∈ cols, d.WellFormed) ∧ m.desc = pre ++ cols ∧
      bs = cols.flatMap ColumnDescription.encode ++ rest := by
  induction n generalizing pre d₀ bs
  all_goals
    have ⟨d, hd, tail, hb⟩ := column_of_read h
    rw [hb, read_column pre _ d₀ hd tail] at h
  case zero =>
    cases h
    exact ⟨[d], rfl, by simp [hd], rfl, by simp [hb]⟩
  case succ n ih =>
    let next : ColumnDescription := {}
    have hn : read ⟨(pre ++ [d]) ++ next :: .replicate n {}, (pre ++ [d]).length, .fieldName {}⟩ tail =
        .done m rest := by
      rw [if_neg (by simp)] at h
      simpa [List.replicate_succ] using h
    have ⟨cols, hl, hw, hm, ht⟩ := ih (pre ++ [d]) next hn
    refine ⟨d :: cols, by rw [List.length_cons, hl], List.forall_mem_cons.mpr ⟨hd, hw⟩,
      by rw [hm, List.append_assoc]; rfl, ?_⟩
    rw [hb, ht, List.flatMap_cons, List.append_assoc]

-- Exactly the descriptions of well-formed columns are read.
theorem read_done_iff : (∃ m, read {} bs = .done m [] ∧ m.desc = cols) ↔
    (∀ d ∈ cols, d.WellFormed) ∧ cols.length < 256 ^ 2 ∧ bs = encode cols := by
  constructor
  case mpr =>
    rintro ⟨hd, hl, rfl⟩
    obtain ⟨m, hr, hm⟩ := receive hd hl
    exact ⟨m, Body.ofStep_eq_success.mp (Message.receive_eq_some.mp hr).right, hm⟩
  case mp =>
    rintro ⟨m, h, rfl⟩
    obtain ⟨sz, r, hp⟩ := loop.parse_of_done (({} : Integer 2).parse bs) rfl h
    obtain ⟨hl, hb⟩ := Integer.exists_of_parse hp
    cases sz
    case zero =>
      have hd : loop.body {} bs = .done {} r := by
        simp [loop, turn, hp, Step.turn]
      rw [read, Loop.run_done hd] at h
      cases h
      exact ⟨by simp, hl, hb⟩
    case succ n =>
      have hg : loop.body {} bs = .goto ⟨.replicate (n + 1) {}, 0, .fieldName {}⟩ r := by
        simp [loop, turn, hp, Step.turn]
      rw [read, Loop.run_goto hg] at h
      obtain ⟨cols, hn, hw, hm, hr⟩ := columns_of_read [] {} h
      rw [List.nil_append] at hm
      rw [hm, encode, hn]
      exact ⟨hw, hl, by rw [hb, hr, List.append_nil]⟩

theorem receive_iff {type : Byte} :
    (∃ m, Message.receive ({} : RowDescription) type bs = some m ∧ m.desc = cols) ↔
      type = letter 'T' ∧ ((∀ d ∈ cols, d.WellFormed) ∧ cols.length < 256 ^ 2) ∧ bs = encode cols := by
  have ht : Message.onMessageType ({} : RowDescription) type = .success ↔ type = letter 'T' := by
    simp [Message.onMessageType, acceptIf]
  have hb {m : RowDescription} : Message.onBody ({} : RowDescription) bs = .success m ↔ read {} bs = .done m [] :=
    Body.ofStep_eq_success
  simp only [Message.receive_eq_some, ht, hb, and_assoc, exists_and_left, read_done_iff]
  exact and_congr_right fun _ => and_iff_right rfl

end RowDescription

namespace DataRow

variable {m : DataRow} {pre post cells : Cells} {c₀ : Option Bytes} {bs rest : Bytes}

-- What a cell that is done has read. The length that a value has is not that of NULL.
theorem cell_of_read (h : read ⟨pre ++ c₀ :: post, pre.length, .length {}⟩ bs = .done m rest) :
    ∃ c, Cells.WellFormed [c] ∧ ∃ tail, bs = encodeCell c ++ tail := by
  obtain ⟨len, r₁, hp⟩ := loop.parse_of_done (({} : Integer 4).parse bs) rfl h
  obtain ⟨hl, hb⟩ := Integer.exists_of_parse hp
  by_cases hn : len = 0xffffffff
  case pos => exact ⟨none, by simp [Cells.WellFormed], r₁, by rw [hb, hn, encodeCell]⟩
  case neg =>
    have hg : loop.body ⟨pre ++ c₀ :: post, pre.length, .length {}⟩ bs =
        .goto ⟨pre ++ c₀ :: post, pre.length, .value { targetLength := len }⟩ r₁ := by
      simp [loop, turn, hp, Step.turn, hn]
    rw [read, Loop.run_goto hg] at h
    obtain ⟨v, r₂, hp⟩ := loop.parse_of_done (({ targetLength := len } : ByteN Bytes).parse r₁) rfl h
    obtain ⟨hr, hv⟩ := Sized.parse_done hp
    refine ⟨some v, ?_, r₂, by rw [hb, hr, encodeCell, hv, List.append_assoc]⟩
    intro v' hm
    cases List.mem_singleton.mp hm
    omega

-- The induction is on the cells that are still to come.
theorem cells_of_read (pre : Cells) (c₀ : Option Bytes) {n : Nat}
    (h : read ⟨pre ++ c₀ :: .replicate n none, pre.length, .length {}⟩ bs = .done m rest) :
    ∃ cells, cells.length = n + 1 ∧ m.data = pre ++ cells ∧ bs = cells.flatMap encodeCell ++ rest := by
  induction n generalizing pre c₀ bs
  all_goals
    have ⟨c, hc, tail, hb⟩ := cell_of_read h
    rw [hb, read_cell pre _ c₀ hc tail] at h
  case zero =>
    cases h
    exact ⟨[c], rfl, rfl, by simp [hb]⟩
  case succ n ih =>
    have hn : read ⟨(pre ++ [c]) ++ none :: .replicate n none, (pre ++ [c]).length, .length {}⟩ tail =
        .done m rest := by
      rw [if_neg (by simp)] at h
      simpa [List.replicate_succ] using h
    have ⟨cells, hl, hm, ht⟩ := ih (pre ++ [c]) none hn
    refine ⟨c :: cells, by rw [List.length_cons, hl], by rw [hm, List.append_assoc]; rfl, ?_⟩
    rw [hb, ht, List.flatMap_cons, List.append_assoc]

-- Exactly the rows of `n` cells are read.
theorem read_done_iff {n : Nat} (hf : bs.length + 4 < 256 ^ 4) :
    (∃ m, read (ofColumns n) bs = .done m [] ∧ m.data = cells) ↔
      cells.length = n ∧ n < 256 ^ 2 ∧ bs = encode cells := by
  constructor
  case mpr =>
    rintro ⟨rfl, hl, rfl⟩
    obtain ⟨m, hr, hm⟩ := receive (wellFormed_of_fits hf) hl
    exact ⟨m, Body.ofStep_eq_success.mp (Message.receive_eq_some.mp hr).right, hm⟩
  case mp =>
    rintro ⟨m, h, rfl⟩
    obtain ⟨k, r, hp⟩ := loop.parse_of_done (({} : Integer 2).parse bs) rfl h
    obtain ⟨hl, hb⟩ := Integer.exists_of_parse hp
    have hk : k = n := by
      by_contra hk
      have he : loop.body (ofColumns n) bs = .fail .malformed r := by
        simp [loop, turn, ofColumns, hp, Step.turn, hk]
      rw [read, Loop.run_fail he] at h
      cases h
    cases hk
    cases n
    case zero =>
      have hd : loop.body (ofColumns 0) bs = .done ⟨[], 0, .length {}⟩ r := by
        simp [loop, turn, ofColumns, hp, Step.turn]
      rw [read, Loop.run_done hd] at h
      cases h
      exact ⟨rfl, hl, hb⟩
    case succ n =>
      have hg : loop.body (ofColumns (n + 1)) bs = .goto ⟨.replicate (n + 1) none, 0, .length {}⟩ r := by
        simp [loop, turn, ofColumns, hp, Step.turn]
      rw [read, Loop.run_goto hg] at h
      obtain ⟨cells, hn, hm, hr⟩ := cells_of_read [] none h
      rw [List.nil_append] at hm
      rw [hm, encode, hn]
      exact ⟨rfl, hl, by rw [hb, hr, List.append_nil]⟩

theorem receive_iff {n : Nat} {type : Byte} (hf : bs.length + 4 < 256 ^ 4) :
    (∃ m, Message.receive (ofColumns n) type bs = some m ∧ m.data = cells) ↔
      type = letter 'D' ∧ (cells.length = n ∧ n < 256 ^ 2) ∧ bs = encode cells := by
  have ht : Message.onMessageType (ofColumns n) type = .success ↔ type = letter 'D' := by
    simp [Message.onMessageType, acceptIf]
  have hb {m : DataRow} : Message.onBody (ofColumns n) bs = .success m ↔ read (ofColumns n) bs = .done m [] :=
    Body.ofStep_eq_success
  simp only [Message.receive_eq_some, ht, hb, and_assoc, exists_and_left, read_done_iff hf]
  exact and_congr_right fun _ => and_iff_right rfl

end DataRow

end Msg

-- What is accepted is exactly the descriptions of rows, and exactly the rows with the number of cells
-- that the parser was made for, however the input is cut into chunks.
theorem feed_row_iff (cs : List Bytes) (rest : Bytes) :
    (∀ cols, (∃ m left unfed,
        feed BasicParser.parse { result := ({} : RowDescription) } cs = (.done m left, unfed) ∧
        left ++ unfed.flatten = rest ∧ m.desc = cols) ↔
      (∀ d ∈ cols, d.WellFormed) ∧ cols.length < 256 ^ 2 ∧
        (RowDescription.encode cols).length + 4 < 256 ^ 4 ∧
        cs.flatten = frame (letter 'T') (RowDescription.encode cols) ++ rest) ∧
    (∀ (n : UInt16) (cells : Cells), (∃ m left unfed,
        feed BasicParser.parse { result := DataRow.ofColumns n.toNat } cs = (.done m left, unfed) ∧
        left ++ unfed.flatten = rest ∧ m.data = cells) ↔
      cells.length = n.toNat ∧ (DataRow.encode cells).length + 4 < 256 ^ 4 ∧
        cs.flatten = frame (letter 'D') (DataRow.encode cells) ++ rest) := by
  constructor
  case left =>
    intro cols
    rw [BasicParser.feed_content_iff]
    simp only [RowDescription.receive_iff]
    rw [Frame.exists_iff, and_assoc]
  case right =>
    intro n cells
    rw [BasicParser.feed_content_iff]
    have hr (f : Frame) : (∃ m, Message.receive (DataRow.ofColumns n.toNat) f.type f.body = some m ∧
        m.data = cells) ↔ _ := DataRow.receive_iff f.fits
    have hn : n.toNat < 256 ^ 2 := n.toNat_lt
    simp only [hr]
    rw [Frame.exists_iff, and_iff_left hn]

end ChxSql.Postgresql

import ChxSql.Postgresql.Msg.Status

namespace ChxSql.Postgresql

open Incremental

-- Cf. `postgresql::row_description`: the description of one column.
structure ColumnDescription where
  fieldName             : Bytes := []
  tableId               : Nat   := 0
  columnAttributeNumber : Nat   := 0
  fieldDataTypeId       : Nat   := 0
  dataTypeSize          : Int16 := 0
  typeModifier          : Nat   := 0
  formatCode            : Nat   := 0
  deriving DecidableEq

namespace ColumnDescription

structure WellFormed (d : ColumnDescription) : Prop where
  fieldName             : 0 ∉ d.fieldName
  tableId               : d.tableId < 256 ^ 4
  columnAttributeNumber : d.columnAttributeNumber < 256 ^ 2
  fieldDataTypeId       : d.fieldDataTypeId < 256 ^ 4
  typeModifier          : d.typeModifier < 256 ^ 4
  formatCode            : d.formatCode < 256 ^ 2

instance : DecidablePred WellFormed := fun d =>
  decidable_of_iff (0 ∉ d.fieldName ∧ d.tableId < 256 ^ 4 ∧ d.columnAttributeNumber < 256 ^ 2 ∧
    d.fieldDataTypeId < 256 ^ 4 ∧ d.typeModifier < 256 ^ 4 ∧ d.formatCode < 256 ^ 2)
    ⟨fun ⟨h₁, h₂, h₃, h₄, h₅, h₆⟩ => ⟨h₁, h₂, h₃, h₄, h₅, h₆⟩,
      fun ⟨h₁, h₂, h₃, h₄, h₅, h₆⟩ => ⟨h₁, h₂, h₃, h₄, h₅, h₆⟩⟩

def encode (d : ColumnDescription) : Bytes :=
  d.fieldName ++ 0 :: (toBigEndian 4 d.tableId ++ (toBigEndian 2 d.columnAttributeNumber ++
    (toBigEndian 4 d.fieldDataTypeId ++ (toBigEndian 2 d.dataTypeSize.toUInt16.toNat ++
    (toBigEndian 4 d.typeModifier ++ toBigEndian 2 d.formatCode)))))

end ColumnDescription

-- The cells of a row: a cell without a value is NULL.
abbrev Cells := List (Option Bytes)

-- The length that marks a cell as NULL is not the length of any value.
def Cells.WellFormed (cells : Cells) : Prop :=
  ∀ v, some v ∈ cells → v.length < 0xffffffff

def encodeCell : Option Bytes → Bytes
  | none   => toBigEndian 4 0xffffffff
  | some v => toBigEndian 4 v.length ++ v

namespace Msg

-- Cf. `msg::row_description`: the alternatives of `__M_state`.
inductive RowDescriptionState where
  | count                 (parser : Integer 2)
  | fieldName             (parser : Str Bytes)
  | tableId               (parser : Integer 4)
  | columnAttributeNumber (parser : Integer 2)
  | fieldDataTypeId       (parser : Integer 4)
  | dataTypeSize          (parser : Integer 2)
  | typeModifier          (parser : Integer 4)
  | formatCode            (parser : Integer 2)
  deriving DecidableEq

structure RowDescription where
  desc  : List ColumnDescription := []
  idx   : Nat := 0
  state : RowDescriptionState := .count {}
  deriving DecidableEq

namespace RowDescription

-- Storing a field of the current column.
def store (m : RowDescription) (set : ColumnDescription → ColumnDescription)
    (state : RowDescriptionState) : RowDescription :=
  { m with desc := m.desc.modify m.idx set, state }

-- Nothing reads the state of a message that is complete.
def turn (m : RowDescription) (bs : Bytes) : Turn Byte RowDescription RowDescription ParseResult :=
  match m.state with
  | .count parser =>
    (parser.parse bs).turn ({ m with state := .count · }) fun sz bs =>
      if sz ≠ 0 then
        .goto { m with desc := .replicate sz {}, state := .fieldName {} } bs
      else
        .done { m with state := .count {} } bs
  | .fieldName parser =>
    (parser.parse bs).turn ({ m with state := .fieldName · }) fun v bs =>
      .goto (m.store ({ · with fieldName := v }) (.tableId {})) bs
  | .tableId parser =>
    (parser.parse bs).turn ({ m with state := .tableId · }) fun v bs =>
      .goto (m.store ({ · with tableId := v }) (.columnAttributeNumber {})) bs
  | .columnAttributeNumber parser =>
    (parser.parse bs).turn ({ m with state := .columnAttributeNumber · }) fun v bs =>
      .goto (m.store ({ · with columnAttributeNumber := v }) (.fieldDataTypeId {})) bs
  | .fieldDataTypeId parser =>
    (parser.parse bs).turn ({ m with state := .fieldDataTypeId · }) fun v bs =>
      .goto (m.store ({ · with fieldDataTypeId := v }) (.dataTypeSize {})) bs
  | .dataTypeSize parser =>
    (parser.parse bs).turn ({ m with state := .dataTypeSize · }) fun v bs =>
      .goto (m.store ({ · with dataTypeSize := (UInt16.ofNat v).toInt16 }) (.typeModifier {})) bs
  | .typeModifier parser =>
    (parser.parse bs).turn ({ m with state := .typeModifier · }) fun v bs =>
      .goto (m.store ({ · with typeModifier := v }) (.formatCode {})) bs
  | .formatCode parser =>
    (parser.parse bs).turn ({ m with state := .formatCode · }) fun v bs =>
      let m := { m.store ({ · with formatCode := v }) (.fieldName {}) with idx := m.idx + 1 }
      if m.idx < m.desc.length then .goto m bs else .done m bs

def rank (m : RowDescription) : Nat :=
  match m.state with
  | .count _                 => 7
  | .tableId _               => 6
  | .columnAttributeNumber _ => 5
  | .fieldDataTypeId _       => 4
  | .dataTypeSize _          => 3
  | .typeModifier _          => 2
  | .formatCode _            => 1
  | .fieldName _             => 0

theorem turn_progress {m m' : RowDescription} {bs r} (h : m.turn bs = .goto m' r) :
    r.length * 8 + m'.rank < bs.length * 8 + m.rank := by
  have ⟨desc, idx, state⟩ := m
  cases state <;> simp only [turn] at h
  case fieldName parser =>
    cases hp : (parser.parse bs : Step _ _ _ ParseResult) <;> simp only [hp, Step.turn, reduceCtorEq] at h
    have := Terminated.parse_lt hp
    cases h
    simp [rank, store]
    omega
  all_goals
    rename_i parser
    cases hp : parser.parse bs <;> simp only [hp, Step.turn, reduceCtorEq] at h
    have := Integer.shrinks.length_le hp
    try split at h
    all_goals
      cases h
      try simp only [rank, store]
      try omega

def loop : Loop Byte RowDescription RowDescription ParseResult where
  body     := turn
  weight   := 8
  rank     := rank
  progress := turn_progress

def read (m : RowDescription) (bs : Bytes) : Step Byte RowDescription RowDescription ParseResult :=
  loop.run m bs

theorem turn_extends (m : RowDescription) (xs ys : Bytes) :
    (m.turn xs).Extends (fun _ => True) turn ys (m.turn (xs ++ ys)) := by
  have ⟨desc, idx, state⟩ := m
  cases state
  case fieldName =>
    exact (Terminated.resumable.extend trivial xs ys).turn (fun _ _ => trivial) (fun _ _ => rfl)
      (fun _ _ => .goto trivial)
  all_goals
    refine (Integer.resumable.extend trivial xs ys).turn (fun _ _ => trivial) (fun _ _ => rfl)
      (fun _ _ => ?_)
    try dsimp only
    try split
    all_goals first | exact .goto trivial | exact .done

theorem resumable : Resumable read :=
  Loop.resumable turn_extends

theorem turn_ne_fail {m : RowDescription} {bs e r} : m.turn bs ≠ .fail e r := by
  obtain ⟨desc, idx, state⟩ := m
  cases state <;> simp only [turn]
  case fieldName =>
    simp only [Terminated.parse]
    split <;> rintro ⟨⟩
  all_goals
    rename_i parser
    cases hp : parser.parse bs
    case fail => exact absurd hp Integer.parse_ne_fail
    all_goals simp only [Step.turn]
    all_goals try split
    all_goals rintro ⟨⟩

theorem read_ne_fail {m : RowDescription} {bs e r} : m.read bs ≠ .fail e r := by
  refine loop.run_induction (P := fun _ _ => True) (Q := fun st => st ≠ .fail e r)
    (fun _ _ => trivial) (fun _ _ => nofun) (fun _ _ => nofun) (fun _ h => ?_) trivial
  exact absurd h turn_ne_fail

instance : Message RowDescription where
  messageType _        := letter 'T'
  onMessageType _ type := acceptIf (type = letter 'T')
  onMessageLength _ _  := .success
  onBody m bs          := .ofStep (m.read bs)

instance : LawfulMessage RowDescription :=
  .of_machine resumable (fun _ _ => rfl) (fun _ _ => acceptIf_defined) (fun _ _ => .inl rfl)
    fun _ _ _ => read_ne_fail

def encode (cols : List ColumnDescription) : Bytes :=
  toBigEndian 2 cols.length ++ cols.flatMap ColumnDescription.encode

theorem modify_middle {pre post : List ColumnDescription} {d f} :
    (pre ++ d :: post).modify pre.length f = pre ++ f d :: post := by
  induction pre <;> simp_all

-- Reading the description of one column, when the ones before it have been read.
theorem read_column (pre post : List ColumnDescription) (d₀ : ColumnDescription)
    {d : ColumnDescription} (hd : d.WellFormed) (rest : Bytes) :
    read ⟨pre ++ d₀ :: post, pre.length, .fieldName {}⟩ (d.encode ++ rest) =
      if post = [] then
        .done ⟨pre ++ [d], pre.length + 1, .fieldName {}⟩ rest
      else
        read ⟨pre ++ d :: post, pre.length + 1, .fieldName {}⟩ rest := by
  have hs : d.dataTypeSize.toUInt16.toNat < 256 ^ 2 := d.dataTypeSize.toUInt16.toNat_lt
  simp only [ColumnDescription.encode, List.append_assoc, List.cons_append]
  rw [read, Loop.run_goto (by
    simp only [loop, turn, Terminated.parse_full hd.fieldName, Step.turn]; rfl)]
  rw [Loop.run_goto (by
    simp only [loop, turn, store, Integer.parse_digits hd.tableId, Step.turn]; rfl)]
  rw [Loop.run_goto (by
    simp only [loop, turn, store, Integer.parse_digits hd.columnAttributeNumber, Step.turn]; rfl)]
  rw [Loop.run_goto (by
    simp only [loop, turn, store, Integer.parse_digits hd.fieldDataTypeId, Step.turn]; rfl)]
  rw [Loop.run_goto (by
    simp only [loop, turn, store, Integer.parse_digits hs, Step.turn]; rfl)]
  rw [Loop.run_goto (by
    simp only [loop, turn, store, Integer.parse_digits hd.typeModifier, Step.turn]; rfl)]
  have hl : loop.body ⟨pre ++ { d with formatCode := d₀.formatCode } :: post, pre.length, .formatCode {}⟩
      (toBigEndian 2 d.formatCode ++ rest) =
      if post = [] then
        .done ⟨pre ++ [d], pre.length + 1, .fieldName {}⟩ rest
      else
        .goto ⟨pre ++ d :: post, pre.length + 1, .fieldName {}⟩ rest := by
    simp only [loop, turn, Integer.parse_digits hd.formatCode, Step.turn, store, modify_middle]
    cases post <;> simp
  simp only [modify_middle, UInt16.ofNat_toNat, Int16.toInt16_toUInt16]
  cases post
  case nil  => exact Loop.run_done hl
  case cons => exact Loop.run_goto hl

-- The induction is on the columns that are still to come.
theorem read_columns (pre : List ColumnDescription) (d₀ d : ColumnDescription)
    {cols : List ColumnDescription} (h : ∀ d' ∈ d :: cols, d'.WellFormed) (rest : Bytes) :
    read ⟨pre ++ d₀ :: .replicate cols.length {}, pre.length, .fieldName {}⟩
      ((d :: cols).flatMap ColumnDescription.encode ++ rest) =
      .done ⟨pre ++ d :: cols, pre.length + cols.length + 1, .fieldName {}⟩ rest := by
  induction cols generalizing pre d d₀
  case nil => simpa using read_column pre [] d₀ (h d (by simp)) rest
  case cons d' cols ih =>
    have hc := read_column pre (.replicate (cols.length + 1) {}) d₀ (h d (by simp))
      ((d' :: cols).flatMap ColumnDescription.encode ++ rest)
    have ih := ih (pre ++ [d]) {} d' (by grind)
    rw [List.flatMap_cons, List.append_assoc, List.length_cons, hc, if_neg (by simp)]
    simpa [List.replicate_succ, Nat.add_assoc, Nat.add_comm, Nat.add_left_comm] using ih

theorem receive {cols : List ColumnDescription} (h : ∀ d ∈ cols, d.WellFormed)
    (hl : cols.length < 256 ^ 2) :
    ∃ m, Message.receive ({} : RowDescription) (letter 'T') (encode cols) = some m ∧
      m.desc = cols := by
  have ⟨m, hr, hd⟩ : ∃ m : RowDescription, read {} (encode cols) = .done m [] ∧ m.desc = cols := by
    cases cols
    case nil => exact ⟨{}, Loop.run_done rfl, rfl⟩
    case cons d cols =>
      have hg : loop.body {} (encode (d :: cols)) =
          .goto ⟨.replicate (cols.length + 1) {}, 0, .fieldName {}⟩
            ((d :: cols).flatMap ColumnDescription.encode) := by
        simp only [List.length_cons] at hl
        simp [loop, turn, encode, Integer.parse_digits hl, Step.turn]
      have hc := read_columns [] {} _ h []
      rw [List.append_nil] at hc
      exact ⟨_, (Loop.run_goto hg).trans hc, rfl⟩
  refine ⟨m, ?_, hd⟩
  simp [Message.receive, Message.onMessageType, Message.onMessageLength, Message.onBody, acceptIf,
    hr, Body.ofStep, makeSuccess]

end RowDescription

-- Cf. `msg::data_row`: the alternatives of `__M_state`.
inductive DataRowState where
  | count  (parser : Integer 2)
  | length (parser : Integer 4)
  | value  (parser : ByteN Bytes)
  deriving DecidableEq

structure DataRow where
  data  : Cells
  idx   : Nat := 0
  state : DataRowState := .count {}
  deriving DecidableEq

namespace DataRow

-- The constructor `data_row(col_n)`.
def ofColumns (n : Nat) : DataRow :=
  { data := .replicate n none }

-- Storing the current cell. Nothing reads the state of a message that is complete.
def store (m : DataRow) (cell : Option Bytes) (bs : Bytes) : Turn Byte DataRow DataRow ParseResult :=
  let m := { data := m.data.set m.idx cell, idx := m.idx + 1, state := .length {} : DataRow }
  if m.idx < m.data.length then .goto m bs else .done m bs

def turn (m : DataRow) (bs : Bytes) : Turn Byte DataRow DataRow ParseResult :=
  match m.state with
  | .count parser =>
    (parser.parse bs).turn ({ m with state := .count · }) fun n bs =>
      if n = m.data.length then
        if m.data ≠ [] then
          .goto { m with state := .length {} } bs
        else
          .done { m with state := .length {} } bs
      else
        .fail .malformed bs
  | .length parser =>
    (parser.parse bs).turn ({ m with state := .length · }) fun len bs =>
      if len ≠ 0xffffffff then
        .goto { m with state := .value { targetLength := len } } bs
      else
        m.store none bs
  | .value parser =>
    (parser.parse bs).turn ({ m with state := .value · }) fun v bs => m.store (some v) bs

def rank (m : DataRow) : Nat :=
  match m.state with
  | .count _       => 3
  | .length parser => if parser = {} then 0 else 2
  | .value _       => 1

theorem rank_store {m m' : DataRow} {cell bs r} (h : m.store cell bs = .goto m' r) :
    m'.rank = 0 ∧ r = bs := by
  simp only [store] at h
  split at h <;> cases h
  exact ⟨rfl, rfl⟩

theorem turn_progress {m m' : DataRow} {bs r} (h : m.turn bs = .goto m' r) :
    r.length * 4 + m'.rank < bs.length * 4 + m.rank := by
  obtain ⟨data, idx, state⟩ := m
  cases state <;> simp only [turn] at h
  case count parser =>
    cases hp : parser.parse bs <;> simp only [hp, Step.turn, reduceCtorEq] at h
    have := Integer.shrinks.length_le hp
    split at h <;> try cases h
    split at h <;> cases h
    simp only [rank, if_true]
    omega
  case length parser =>
    cases hp : parser.parse bs with
    | done len rest =>
      have hl : rest.length * 4 + 1 < bs.length * 4 + (DataRow.mk data idx (.length parser)).rank := by
        simp only [rank]
        split
        case isTrue hf => have := Integer.parse_length (hf ▸ hp); omega
        case isFalse   => have := Integer.shrinks.length_le hp; omega
      simp only [hp, Step.turn] at h
      split at h
      case isTrue => cases h; exact hl
      case isFalse =>
        obtain ⟨h₁, h₂⟩ := rank_store h
        rw [h₁, h₂]
        omega
    | _ => simp only [hp, Step.turn, reduceCtorEq] at h
  case value parser =>
    cases hp : (parser.parse bs : Step _ _ _ ParseResult) <;> simp only [hp, Step.turn, reduceCtorEq] at h
    have := Sized.shrinks.length_le hp
    obtain ⟨h₁, h₂⟩ := rank_store h
    rw [h₁, h₂]
    simp only [rank]
    omega

def loop : Loop Byte DataRow DataRow ParseResult where
  body     := turn
  weight   := 4
  rank     := rank
  progress := turn_progress

def read (m : DataRow) (bs : Bytes) : Step Byte DataRow DataRow ParseResult :=
  loop.run m bs

theorem store_extends (m : DataRow) (cell : Option Bytes) (bs ys : Bytes) :
    (m.store cell bs).Extends (fun _ => True) turn ys (m.store cell (bs ++ ys)) := by
  simp only [store]
  split
  case isTrue  => exact .goto trivial
  case isFalse => exact .done

theorem turn_extends (m : DataRow) (xs ys : Bytes) :
    (m.turn xs).Extends (fun _ => True) turn ys (m.turn (xs ++ ys)) := by
  have ⟨data, idx, state⟩ := m
  cases state
  case count =>
    refine (Integer.resumable.extend trivial xs ys).turn (fun _ _ => trivial) (fun _ _ => rfl)
      (fun _ _ => ?_)
    split
    case isFalse => exact .fail
    case isTrue =>
      split
      case isTrue  => exact .goto trivial
      case isFalse => exact .done
  case length =>
    refine (Integer.resumable.extend trivial xs ys).turn (fun _ _ => trivial) (fun _ _ => rfl)
      (fun _ _ => ?_)
    split
    case isTrue  => exact .goto trivial
    case isFalse => exact store_extends ..
  case value =>
    exact (Sized.resumable.extend trivial xs ys).turn (fun _ _ => trivial) (fun _ _ => rfl)
      (fun _ _ => store_extends ..)

theorem resumable : Resumable read :=
  Loop.resumable turn_extends

theorem store_ne_fail {m : DataRow} {cell bs e r} : m.store cell bs ≠ .fail e r := by
  simp only [store]
  split <;> rintro ⟨⟩

theorem turn_ne_undefined {m : DataRow} {bs r} : m.turn bs ≠ .fail .undefined r := by
  obtain ⟨data, idx, state⟩ := m
  cases state <;> rename_i parser <;> simp only [turn] <;> cases hp : (parser.parse bs : Step _ _ _ ParseResult) <;>
    simp only [Step.turn, ne_eq, reduceCtorEq, not_false_eq_true]
  case count.done =>
    split
    case isTrue  => split <;> rintro ⟨⟩
    case isFalse => rintro ⟨⟩
  case length.done =>
    split
    case isTrue  => rintro ⟨⟩
    case isFalse => exact store_ne_fail
  case value.done => exact store_ne_fail
  case value.fail => exact absurd hp Sized.parse_ne_fail
  all_goals exact absurd hp Integer.parse_ne_fail

theorem read_ne_undefined {m : DataRow} {bs r} : m.read bs ≠ .fail .undefined r := by
  refine loop.run_induction (P := fun _ _ => True) (Q := fun st => st ≠ .fail .undefined r)
    (fun _ _ => trivial) (fun _ _ => nofun) (fun _ _ => nofun) (fun _ h he => ?_) trivial
  cases he
  exact turn_ne_undefined h

instance : Message DataRow where
  messageType _        := letter 'D'
  onMessageType _ type := acceptIf (type = letter 'D')
  onMessageLength _ _  := .success
  onBody m bs          := .ofStep (m.read bs)

instance : LawfulMessage DataRow :=
  .of_machine resumable (fun _ _ => rfl) (fun _ _ => acceptIf_defined) (fun _ _ => .inl rfl)
    fun _ _ _ => read_ne_undefined

def encode (cells : Cells) : Bytes :=
  toBigEndian 2 cells.length ++ cells.flatMap encodeCell

-- A row that fits into a message has no cell that is too long.
theorem wellFormed_of_fits {cells : Cells} (h : (encode cells).length + 4 < 256 ^ 4) :
    cells.WellFormed := by
  intro v hv
  have hs : (encodeCell (some v)).length ≤ (cells.flatMap encodeCell).length :=
    (List.sublist_flatten_of_mem (List.mem_map_of_mem hv)).length_le
  simp only [encode, encodeCell, List.length_append, toBigEndian_length] at h hs
  omega

-- Reading one cell, when the ones before it have been read.
theorem read_cell (pre post : Cells) (c₀ : Option Bytes) {c : Option Bytes}
    (hc : Cells.WellFormed [c]) (rest : Bytes) :
    read ⟨pre ++ c₀ :: post, pre.length, .length {}⟩ (encodeCell c ++ rest) =
      if post = [] then
        .done ⟨pre ++ [c], pre.length + 1, .length {}⟩ rest
      else
        read ⟨pre ++ c :: post, pre.length + 1, .length {}⟩ rest := by
  have hs (c : Option Bytes) (state) : store ⟨pre ++ c₀ :: post, pre.length, state⟩ c rest =
      if post = [] then
        .done ⟨pre ++ [c], pre.length + 1, .length {}⟩ rest
      else
        .goto ⟨pre ++ c :: post, pre.length + 1, .length {}⟩ rest := by
    simp only [store]
    cases post <;> simp
  have hr {m bs} {c : Option Bytes} (ht : turn m bs = store ⟨pre ++ c₀ :: post, pre.length, m.state⟩ c rest) :
      read m bs = if post = [] then
        .done ⟨pre ++ [c], pre.length + 1, .length {}⟩ rest
      else
        read ⟨pre ++ c :: post, pre.length + 1, .length {}⟩ rest := by
    rw [hs] at ht
    split at ht
    case isTrue h  => rw [if_pos h]; exact Loop.run_done ht
    case isFalse h => rw [if_neg h]; exact Loop.run_goto ht
  cases c
  case none =>
    refine hr ?_
    simp [turn, encodeCell, Integer.parse_digits (k := 4) (v := 0xffffffff) (by decide), Step.turn]
  case some v =>
    have hv := hc v (by simp)
    have hn : v.length ≠ 0xffffffff := by omega
    have hg : loop.body ⟨pre ++ c₀ :: post, pre.length, .length {}⟩ (encodeCell (some v) ++ rest) =
        .goto ⟨pre ++ c₀ :: post, pre.length, .value { targetLength := v.length }⟩ (v ++ rest) := by
      have hd : v.length < 256 ^ 4 := by omega
      simp [loop, turn, encodeCell, Integer.parse_digits hd, Step.turn, hn]
    rw [read, Loop.run_goto hg]
    refine hr ?_
    simp [turn, Sized.parse_full, Step.turn]

-- The induction is on the cells that are still to come.
theorem read_cells (pre : Cells) (c₀ c : Option Bytes) {cells : Cells}
    (h : Cells.WellFormed (c :: cells)) (rest : Bytes) :
    read ⟨pre ++ c₀ :: .replicate cells.length none, pre.length, .length {}⟩
      ((c :: cells).flatMap encodeCell ++ rest) =
      .done ⟨pre ++ c :: cells, pre.length + cells.length + 1, .length {}⟩ rest := by
  induction cells generalizing pre c c₀
  case nil => simpa using read_cell pre [] c₀ h rest
  case cons c' cells ih =>
    have hc := read_cell pre (.replicate (cells.length + 1) none) c₀ (c := c)
      (fun v hv => h v (by grind)) ((c' :: cells).flatMap encodeCell ++ rest)
    have ih := ih (pre ++ [c]) none c' (fun v hv => h v (by grind))
    rw [List.flatMap_cons, List.append_assoc, List.length_cons, hc, if_neg (by simp)]
    simpa [List.replicate_succ, Nat.add_assoc, Nat.add_comm, Nat.add_left_comm] using ih

theorem receive {cells : Cells} (h : cells.WellFormed) (hl : cells.length < 256 ^ 2) :
    ∃ m, Message.receive (ofColumns cells.length) (letter 'D') (encode cells) = some m ∧
      m.data = cells := by
  have ⟨m, hr, hd⟩ : ∃ m : DataRow,
      read (ofColumns cells.length) (encode cells) = .done m [] ∧ m.data = cells := by
    cases cells
    case nil => exact ⟨_, Loop.run_done rfl, rfl⟩
    case cons c cells =>
      have hg : loop.body (ofColumns (cells.length + 1)) (encode (c :: cells)) =
          .goto ⟨.replicate (cells.length + 1) none, 0, .length {}⟩
            ((c :: cells).flatMap encodeCell) := by
        simp only [List.length_cons] at hl
        simp [loop, turn, ofColumns, encode, Integer.parse_digits hl, Step.turn]
      have hc := read_cells [] none _ h []
      rw [List.append_nil] at hc
      exact ⟨_, (Loop.run_goto hg).trans hc, rfl⟩
  refine ⟨m, ?_, hd⟩
  simp [Message.receive, Message.onMessageType, Message.onMessageLength, Message.onBody, acceptIf,
    hr, Body.ofStep, makeSuccess]

-- A row that has another number of cells than the parser was made for.
theorem receive_mismatch {n : Nat} {cells : Cells} (hn : cells.length ≠ n)
    (hl : cells.length < 256 ^ 2) :
    Message.receive (ofColumns n) (letter 'D') (encode cells) = none := by
  have hr : read (ofColumns n) (encode cells) = .fail .malformed (cells.flatMap encodeCell) := by
    refine Loop.run_fail ?_
    simp [loop, turn, ofColumns, encode, Integer.parse_digits hl, Step.turn, hn]
  simp [Message.receive, Message.onMessageType, Message.onMessageLength, Message.onBody, acceptIf,
    hr, Body.ofStep]

end DataRow

end Msg

end ChxSql.Postgresql

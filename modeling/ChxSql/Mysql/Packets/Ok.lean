import ChxSql.Mysql.LengthEncoded

namespace ChxSql.Mysql

open Incremental

-- `OK_Packet`
structure OkPacket where
  affectedRows     : Nat    := 0
  lastInsertId     : Nat    := 0
  statusFlags      : UInt16 := 0
  warnings         : UInt16 := 0
  info             : Bytes  := []
  sessionStateInfo : Bytes  := []
  deriving DecidableEq

namespace OkPacket

-- The stages of the parser, each with the alternative of `__M_parsers` that it uses.
inductive Stage where
  | header
  | affectedRows          (parser : LengthEncodedInteger)
  | lastInsertId          (parser : LengthEncodedInteger)
  | statusFlags           (parser : FixedLengthInteger 2)
  | warnings              (parser : FixedLengthInteger 2)
  | sessionTrackInfo      (parser : LengthEncodedString Bytes)
  | sessionTrackStateInfo (parser : LengthEncodedString Bytes)
  | info
  deriving DecidableEq

structure Parser (headerCh : Byte) where
  stage  : Stage := .header
  result : OkPacket := {}
  deriving DecidableEq

namespace Parser

variable {headerCh : Byte}

-- What the two stages of the session state make of their string. They go on with what the string
-- holds if it is *not* complete, and the packet is complete if the string is. The value of a string
-- whose length is not known is undefined.
def turnString (p : Parser headerCh) (parser : LengthEncodedString Bytes) (bs : Bytes)
    (k : Bytes → Bytes → Turn Byte (Parser headerCh) OkPacket PayloadFailure) :
    Turn Byte (Parser headerCh) OkPacket PayloadFailure :=
  match parser.parse bs with
  | .done _ bs           => .done p.result bs
  | .more (.str part) bs => k part.result.held bs
  | .more (.len _) bs    => .fail .undefined bs
  | .fail _ bs           => .fail .undefined bs

def turn (clientCap : UInt32) (isFinal : Bool) (p : Parser headerCh) (bs : Bytes) :
    Turn Byte (Parser headerCh) OkPacket PayloadFailure :=
  match p.stage with
  | .header =>
    match bs with
    | []      => .more p []
    | b :: bs =>
      if b = headerCh then .goto { p with stage := .affectedRows {} } bs else .fail .malformedHeader bs
  | .affectedRows parser =>
    (parser.parse bs).turn ({ p with stage := .affectedRows · }) fun v bs =>
      .goto ⟨.lastInsertId {}, { p.result with affectedRows := v }⟩ bs
  | .lastInsertId parser =>
    (parser.parse bs).turn ({ p with stage := .lastInsertId · }) fun v bs =>
      .goto ⟨.statusFlags {}, { p.result with lastInsertId := v }⟩ bs
  | .statusFlags parser =>
    (parser.parse bs).turn ({ p with stage := .statusFlags · }) fun v bs =>
      .goto ⟨.warnings {}, { p.result with statusFlags := .ofNat v }⟩ bs
  | .warnings parser =>
    (parser.parse bs).turn ({ p with stage := .warnings · }) fun v bs =>
      let result := { p.result with warnings := .ofNat v }
      if clientCap &&& CapabilitiesFlags.clientSessionTrack ≠ 0 then
        .goto ⟨.sessionTrackInfo (.len {}), result⟩ bs
      else
        .goto ⟨.info, result⟩ bs
  | .sessionTrackInfo parser =>
    p.turnString parser bs fun info bs =>
      let result := { p.result with info }
      if p.result.statusFlags &&& (1 : UInt16) <<< 14 ≠ 0 then
        .goto ⟨.sessionTrackStateInfo (.len {}), result⟩ bs
      else
        .done result bs
  | .sessionTrackStateInfo parser =>
    p.turnString parser bs fun sessionStateInfo bs => .done { p.result with sessionStateInfo } bs
  | .info =>
    let p := { p with result.info := p.result.info ++ bs }
    if isFinal then .done p.result [] else .more p []

def rank (p : Parser headerCh) : Nat :=
  match p.stage with
  | .header                  => 6
  | .affectedRows _          => 5
  | .lastInsertId _          => 4
  | .statusFlags _           => 3
  | .warnings _              => 2
  | .sessionTrackInfo _      => 1
  | .sessionTrackStateInfo _ => 0
  | .info                    => 0

variable {clientCap : UInt32} {isFinal : Bool}

theorem turnString_suffix {p : Parser headerCh} {parser bs k} (hk : ∀ v r, (k v r).rest <:+ r) :
    (p.turnString parser bs k).rest <:+ bs := by
  have hs := LengthEncodedString.shrinks parser bs
  simp only [turnString]
  split <;> rename_i hp <;> rw [hp, Step.rest] at hs
  case h_2 => exact (hk _ _).trans hs
  all_goals exact hs

theorem turn_suffix (p : Parser headerCh) (bs : Bytes) : (p.turn clientCap isFinal bs).rest <:+ bs := by
  have ⟨stage, result⟩ := p
  cases stage <;> simp only [turn]
  case header =>
    cases bs
    case nil => exact List.nil_suffix
    case cons => dsimp only; split <;> exact List.suffix_cons ..
  case affectedRows | lastInsertId =>
    exact Step.rest_turn_suffix (LengthEncodedInteger.shrinks _ bs) fun _ => List.suffix_refl
  case statusFlags =>
    exact Step.rest_turn_suffix (FixedLengthInteger.shrinks _ bs) fun _ => List.suffix_refl
  case warnings =>
    refine Step.rest_turn_suffix (FixedLengthInteger.shrinks _ bs) fun _ r => ?_
    split <;> exact List.suffix_refl r
  case sessionTrackInfo =>
    refine turnString_suffix fun _ r => ?_
    split <;> exact List.suffix_refl r
  case sessionTrackStateInfo => exact turnString_suffix fun _ => List.suffix_refl
  case info => split <;> exact List.nil_suffix

theorem rank_turn {p p' : Parser headerCh} {bs r} (h : p.turn clientCap isFinal bs = .goto p' r) :
    p'.rank < p.rank := by
  have ⟨stage, result⟩ := p
  cases stage <;> simp only [turn] at h
  case header =>
    cases bs <;> dsimp only at h
    case nil => cases h
    case cons => split at h <;> cases h; simp [rank]
  case sessionTrackInfo parser =>
    simp only [turnString] at h
    split at h <;> try cases h
    split at h <;> cases h
    simp [rank]
  case sessionTrackStateInfo parser =>
    simp only [turnString] at h
    split at h <;> cases h
  case info => split at h <;> cases h
  all_goals
    rename_i parser
    cases hp : parser.parse bs <;> simp only [hp, Step.turn, reduceCtorEq] at h
    try split at h
    all_goals
      cases h
      simp [rank]

def loop (clientCap : UInt32) (isFinal : Bool) :
    Loop Byte (Parser headerCh) OkPacket PayloadFailure :=
  .ofRank (turn clientCap isFinal) rank turn_suffix rank_turn

def parse (clientCap : UInt32) (isFinal : Bool) (p : Parser headerCh) (bs : Bytes) :
    Step Byte (Parser headerCh) OkPacket PayloadFailure :=
  (loop clientCap isFinal).run p bs

theorem parse_goto {p p' : Parser headerCh} {bs r} (h : p.turn clientCap isFinal bs = .goto p' r) :
    p.parse clientCap isFinal bs = p'.parse clientCap isFinal r :=
  Loop.run_goto h

theorem parse_done {p : Parser headerCh} {bs packet r}
    (h : p.turn clientCap isFinal bs = .done packet r) :
    p.parse clientCap isFinal bs = .done packet r :=
  Loop.run_done h

-- Without session tracking the parser does not look for a session state.
structure Untracked (p : Parser headerCh) : Prop where
  info      : ∀ parser, p.stage ≠ .sessionTrackInfo parser
  stateInfo : ∀ parser, p.stage ≠ .sessionTrackStateInfo parser

theorem Untracked.fresh : ({} : Parser headerCh).Untracked :=
  ⟨nofun, nofun⟩

theorem turn_extends (hc : clientCap &&& CapabilitiesFlags.clientSessionTrack = 0)
    {p : Parser headerCh} (hp : p.Untracked) (xs ys : Bytes) :
    (p.turn clientCap false xs).Extends Untracked (turn clientCap isFinal) ys
      (p.turn clientCap isFinal (xs ++ ys)) := by
  have ⟨stage, result⟩ := p
  cases stage
  case header =>
    cases xs
    case nil => exact .of_eq_more ⟨nofun, nofun⟩ rfl
    case cons =>
      simp only [turn, List.cons_append]
      split
      case isTrue  => exact .goto ⟨nofun, nofun⟩
      case isFalse => exact .fail
  case affectedRows | lastInsertId =>
    exact (LengthEncodedInteger.resumable.extend trivial xs ys).turn (fun _ _ => ⟨nofun, nofun⟩)
      (fun _ _ => rfl) (fun _ _ => .goto ⟨nofun, nofun⟩)
  case statusFlags =>
    exact (FixedLengthInteger.resumable.extend trivial xs ys).turn (fun _ _ => ⟨nofun, nofun⟩)
      (fun _ _ => rfl) (fun _ _ => .goto ⟨nofun, nofun⟩)
  case warnings =>
    refine (FixedLengthInteger.resumable.extend trivial xs ys).turn (fun _ _ => ⟨nofun, nofun⟩)
      (fun _ _ => rfl) (fun _ _ => ?_)
    simp only [hc, ne_eq, not_true, if_false]
    exact .goto ⟨nofun, nofun⟩
  case sessionTrackInfo parser      => exact absurd rfl (hp.info parser)
  case sessionTrackStateInfo parser => exact absurd rfl (hp.stateInfo parser)
  case info => exact .of_eq_more ⟨nofun, nofun⟩ (by simp [turn])

-- The info ends where the packet ends.
theorem resumes (hc : clientCap &&& CapabilitiesFlags.clientSessionTrack = 0) :
    Resumes (Untracked : Parser headerCh → Prop) (parse clientCap false) (parse clientCap isFinal) :=
  Loop.resumes fun _ => turn_extends hc

theorem turn_untracked (hc : clientCap &&& CapabilitiesFlags.clientSessionTrack = 0)
    {p p' : Parser headerCh} {bs r} (hp : p.Untracked)
    (h : p.turn clientCap isFinal bs = .goto p' r ∨ p.turn clientCap isFinal bs = .more p' r) :
    p'.Untracked := by
  obtain ⟨stage, result⟩ := p
  cases stage <;> simp only [turn, hc, ne_eq, not_true, if_false] at h
  case sessionTrackInfo parser      => exact absurd rfl (hp.info parser)
  case sessionTrackStateInfo parser => exact absurd rfl (hp.stateInfo parser)
  case header =>
    cases bs <;> dsimp only at h
    case nil  => obtain h | h := h <;> cases h; exact hp
    case cons => split at h <;> obtain h | h := h <;> cases h; exact ⟨by simp, by simp⟩
  case info => split at h <;> obtain h | h := h <;> cases h; exact ⟨by simp, by simp⟩
  all_goals
    rename_i parser
    cases hp : parser.parse bs <;> simp only [hp, Step.turn] at h
    all_goals
      obtain h | h := h <;> cases h
      all_goals exact ⟨by simp, by simp⟩

theorem turn_fail (hc : clientCap &&& CapabilitiesFlags.clientSessionTrack = 0)
    {p : Parser headerCh} {bs e r} (hp : p.Untracked) (h : p.turn clientCap isFinal bs = .fail e r) :
    e ≠ .undefined := by
  obtain ⟨stage, result⟩ := p
  cases stage <;> simp only [turn, hc, ne_eq, not_true, if_false] at h
  case sessionTrackInfo parser      => exact absurd rfl (hp.info parser)
  case sessionTrackStateInfo parser => exact absurd rfl (hp.stateInfo parser)
  case header =>
    cases bs <;> dsimp only at h
    case nil  => cases h
    case cons => split at h <;> cases h; simp
  case info => split at h <;> cases h
  all_goals
    rename_i parser
    cases hp : parser.parse bs <;> simp only [hp, Step.turn, reduceCtorEq] at h
    cases h
    first
      | exact absurd hp FixedLengthInteger.parse_ne_fail
      | exact LengthEncodedInteger.parse_fail hp ▸ by simp

theorem parse_fail (hc : clientCap &&& CapabilitiesFlags.clientSessionTrack = 0)
    {p : Parser headerCh} {bs e r} (hp : p.Untracked) (h : p.parse clientCap isFinal bs = .fail e r) :
    e ≠ .undefined :=
  Loop.run_fails (I := Untracked) (Q := (· ≠ .undefined))
    (fun hp h => turn_untracked hc hp (.inl h)) (turn_fail hc) hp h

theorem parse_untracked (hc : clientCap &&& CapabilitiesFlags.clientSessionTrack = 0)
    {p p' : Parser headerCh} {bs r} (hp : p.Untracked)
    (hm : p.parse clientCap isFinal bs = .more p' r) : p'.Untracked :=
  Loop.run_keeps (turn_untracked hc) hp hm

end Parser

def encode (headerCh : Byte) (clientCap : UInt32) (packet : OkPacket) : Bytes :=
  headerCh :: (lenencInteger packet.affectedRows ++ (lenencInteger packet.lastInsertId ++
    (toLittleEndian 2 packet.statusFlags.toNat ++ (toLittleEndian 2 packet.warnings.toNat ++
    if clientCap &&& CapabilitiesFlags.clientSessionTrack ≠ 0 then
      lenencStr packet.info ++
        if packet.statusFlags &&& (1 : UInt16) <<< 14 ≠ 0 then lenencStr packet.sessionStateInfo else []
    else
      packet.info))))

-- The fields in front of the info.
theorem parse_fields (clientCap : UInt32) (isFinal : Bool) (packet : OkPacket) (headerCh : Byte) (ys : Bytes) :
    ({} : Parser headerCh).parse clientCap isFinal
      (headerCh :: (lenencInteger packet.affectedRows ++ (lenencInteger packet.lastInsertId ++
        (toLittleEndian 2 packet.statusFlags.toNat ++ (toLittleEndian 2 packet.warnings.toNat ++ ys))))) =
    Parser.parse clientCap isFinal
      { stage := if clientCap &&& CapabilitiesFlags.clientSessionTrack ≠ 0 then
          .sessionTrackInfo (.len {}) else .info
        result := { packet with
          affectedRows     := LengthEncodedInteger.decoded packet.affectedRows
          lastInsertId     := LengthEncodedInteger.decoded packet.lastInsertId
          info             := []
          sessionStateInfo := [] } } ys := by
  rw [Parser.parse_goto (by simp only [Parser.turn, if_true]; rfl)]
  rw [Parser.parse_goto (by
    simp only [Parser.turn, LengthEncodedInteger.parse_lenencInteger, Step.turn]; rfl)]
  rw [Parser.parse_goto (by
    simp only [Parser.turn, LengthEncodedInteger.parse_lenencInteger, Step.turn]; rfl)]
  rw [Parser.parse_goto (by simp only [Parser.turn, FixedLengthInteger.parse_uint16, Step.turn]; rfl)]
  split_ifs with hc
  all_goals
    rw [Parser.parse_goto (by
      simp only [Parser.turn, FixedLengthInteger.parse_uint16, Step.turn, hc, ne_eq, if_false]
      rfl)]
    simp only [UInt16.ofNat_toNat]

theorem parse_encode {clientCap : UInt32} (packet : OkPacket) (headerCh : Byte)
    (hc : clientCap &&& CapabilitiesFlags.clientSessionTrack = 0) :
    ({} : Parser headerCh).parse clientCap true (packet.encode headerCh clientCap) = .done
      { packet with
        affectedRows     := LengthEncodedInteger.decoded packet.affectedRows
        lastInsertId     := LengthEncodedInteger.decoded packet.lastInsertId
        sessionStateInfo := [] } [] := by
  simp only [encode, parse_fields, hc, ne_eq, not_true, if_false]
  rw [Parser.parse_done (by simp only [Parser.turn, if_true]; rfl)]
  rfl

end OkPacket

end ChxSql.Mysql

import ChxSql.Postgresql.Connect

namespace ChxSql.Postgresql

open Incremental Msg

namespace Frame

-- No message is the beginning of another one.
theorem encode_append_inj {f g : Frame} {xs ys : Bytes} (h : f.encode ++ xs = g.encode ++ ys) :
    f = g ∧ xs = ys := by
  obtain ⟨type, body, fits⟩ := f
  obtain ⟨type', body', fits'⟩ := g
  simp only [encode, frame, List.cons_append, List.append_assoc, List.cons.injEq] at h
  obtain ⟨ht, h⟩ := h
  obtain ⟨hl, h⟩ := List.append_inj h (by simp)
  have hn := congrArg ofBigEndian hl
  rw [ofBigEndian_toBigEndian fits, ofBigEndian_toBigEndian fits'] at hn
  obtain ⟨hb, hx⟩ := List.append_inj h (by omega)
  cases ht
  cases hb
  exact ⟨rfl, hx⟩

theorem encodeAll_injective {fs gs : List Frame} (h : encodeAll fs = encodeAll gs) : fs = gs := by
  induction fs generalizing gs
  case nil => exact (encodeAll_eq_nil h.symm).symm
  case cons f fs ih =>
    cases gs
    case nil => exact absurd (encodeAll_eq_nil h) (List.cons_ne_nil _ _)
    case cons g gs =>
      rw [encodeAll_cons, encodeAll_cons] at h
      have ⟨hf, hs⟩ := encode_append_inj h
      rw [hf, ih hs]

-- What may stand at the beginning of a stream: a whole message, a part of one, or a message whose
-- length is too small to count itself.
inductive Beginning : Bytes → Prop
  | whole (f : Frame) (rest : Bytes) : Beginning (f.encode ++ rest)
  | part {bs} (f : Frame) (ys : Bytes) : ys ≠ [] → bs ++ ys = f.encode → Beginning bs
  | short (type : Byte) (len : Nat) (rest : Bytes) : len < 4 →
    Beginning (type :: (toBigEndian 4 len ++ rest))

theorem beginning_of_header (type : Byte) {header : Bytes} (hl : header.length = 4) (body : Bytes) :
    Beginning (type :: (header ++ body)) := by
  have hh := toBigEndian_ofBigEndian header
  have hn := ofBigEndian_lt header
  generalize ofBigEndian header = len at hh hn
  rw [hl] at hh hn
  rw [← hh]
  by_cases h₄ : len < 4
  case pos => exact .short type len body h₄
  case neg =>
    by_cases hb : len - 4 ≤ body.length
    case pos =>
      have hf : (body.take (len - 4)).length + 4 = len := by
        rw [List.length_take, Nat.min_eq_left hb]
        omega
      have := Beginning.whole ⟨type, body.take (len - 4), hf.trans_lt hn⟩ (body.drop (len - 4))
      simpa [encode, frame, hf, Nat.min_eq_left hb, show len - 4 + 4 = len by omega] using this
    case neg =>
      have hf : (body ++ List.replicate (len - 4 - body.length) 0).length + 4 = len := by
        rw [List.length_append, List.length_replicate]
        omega
      refine .part ⟨type, _, hf.trans_lt hn⟩ (.replicate (len - 4 - body.length) 0) ?_ ?_
      case refine_1 => rw [ne_eq, List.replicate_eq_nil_iff]; omega
      case refine_2 => simp only [encode, frame, hf, List.cons_append, List.append_assoc]

theorem beginning (type : Byte) (bs : Bytes) : Beginning (type :: bs) := by
  by_cases hl : 4 ≤ bs.length
  case pos =>
    rw [← List.take_append_drop 4 bs]
    exact beginning_of_header type (List.length_take_of_le hl) _
  case neg =>
    -- The header is completed with bytes that make its length large enough.
    obtain ⟨n, hn⟩ : ∃ n, 4 - bs.length = n + 1 := ⟨3 - bs.length, by omega⟩
    have hh : (bs ++ List.replicate (n + 1) 255).length = 4 := by
      rw [List.length_append, List.length_replicate]
      omega
    have hr : List.replicate (n + 1) (255 : Byte) ≠ [] := by simp
    have hb := beginning_of_header type hh []
    rw [List.append_nil] at hb
    generalize hs : type :: (bs ++ List.replicate (n + 1) 255) = stream at hb
    cases hb
    case part f ys _ he =>
      refine .part f (List.replicate (n + 1) 255 ++ ys) (by simp) ?_
      rw [← he, ← hs, List.cons_append, List.cons_append, List.append_assoc]
    case whole f rest =>
      have hl := congrArg List.length hs
      simp only [encode, frame, List.length_append, List.length_cons, toBigEndian_length] at hl hh
      have hrest : rest = [] := List.length_eq_zero_iff.mp (by omega)
      rw [hrest, List.append_nil] at hs
      exact .part f _ hr hs
    case short type' len rest h₄ =>
      obtain ⟨_, hs⟩ := List.cons.inj hs
      have he : bs ++ List.replicate (n + 1) 255 ++ [] = toBigEndian 4 len ++ rest := by
        rw [List.append_nil, hs]
      obtain ⟨hd, _⟩ := List.append_inj he (by rw [hh, toBigEndian_length])
      have hv := congrArg ofBigEndian hd
      rw [List.replicate_succ', ← List.append_assoc, ofBigEndian_concat,
        ofBigEndian_toBigEndian (by omega), show (255 : Byte).toNat = 255 from rfl] at hv
      omega

end Frame

section

variable {σ κ S : Type} {parse : S → Bytes → Step Byte S κ (Failure κ)}
variable {onFrame : σ → Frame → Move σ κ} {embed : σ → S}

-- An operation does not complete at a message whose length does not count itself.
def RejectsShort (parse : S → Bytes → Step Byte S κ (Failure κ)) (embed : σ → S) : Prop :=
  ∀ s type len rest k r, len < 4 → parse (embed s) (type :: (toBigEndian 4 len ++ rest)) ≠ .done k r

-- What an operation consumes until it completes is whole messages. The induction is on the length of
-- the input, of which the first message is taken off.
theorem Refines.exists_frames (h : Refines parse onFrame embed) (hr : Resumable parse)
    (hs : RejectsShort parse embed) {s : σ} {bs r : Bytes} {k : κ} (hd : parse (embed s) bs = .done k r) :
    ∃ fs, bs = Frame.encodeAll fs ++ r ∧ onFrames onFrame s fs = (.complete k, []) := by
  induction hn : bs.length using Nat.strongRecOn generalizing s bs
  case ind n ih =>
    cases bs
    case nil => rw [h.idle] at hd; cases hd
    case cons type bs =>
      have hb := Frame.beginning type bs
      generalize type :: bs = stream at hb hd hn
      cases hb
      case short type len rest h₄ => exact absurd hd (hs s type len rest k r h₄)
      case part f ys hy he =>
        have hx := hr.stays trivial hd ys
        rw [he, ← List.append_nil f.encode] at hx
        cases ho : onFrame s f
        case goto     => rw [h.goto ho, h.idle] at hx; cases hx
        case complete =>
          rw [h.complete ho] at hx
          exact absurd (List.append_eq_nil_iff.mp (Step.done.inj hx).right.symm).right hy
        case fail     => obtain ⟨_, hf⟩ := h.fail ho []; rw [hf] at hx; cases hx
      case whole f rest =>
        cases ho : onFrame s f
        case fail     => obtain ⟨_, hf⟩ := h.fail ho rest; rw [hf] at hd; cases hd
        case complete =>
          rw [h.complete ho] at hd
          cases hd
          exact ⟨[f], by simp, by simp [onFrames, ho]⟩
        case goto s' =>
          rw [h.goto ho] at hd
          have hl : rest.length < n := by
            have := List.length_pos_iff.mpr (Frame.encode_ne_nil (f := f))
            rw [← hn, List.length_append]
            omega
          obtain ⟨fs, hfs, hc⟩ := ih rest.length hl hd rfl
          exact ⟨f :: fs, by rw [hfs, Frame.encodeAll_cons, List.append_assoc], by simp [onFrames, ho, hc]⟩

end

theorem BasicParser.parse_short {M : Type} [Message M] [LawfulMessage M] (m : M) (type : Byte) {len : Nat}
    (h : len < 4) (rest : Bytes) : ∃ e r,
    ({ result := m } : BasicParser M).parse (type :: (toBigEndian 4 len ++ rest)) = .fail e r := by
  rcases LawfulMessage.onMessageType_defined (m := m) type with ht | ht
  case inr =>
    have hf : loop.body ⟨.type, 0, m⟩ (type :: (toBigEndian 4 len ++ rest)) =
        .fail .malformed (toBigEndian 4 len ++ rest) := by
      simp [loop, turn, ht]
    exact ⟨_, _, Loop.run_fail hf⟩
  case inl =>
    have hg : loop.body ⟨.type, 0, m⟩ (type :: (toBigEndian 4 len ++ rest)) =
        .goto ⟨.length {}, 0, m⟩ (toBigEndian 4 len ++ rest) := by
      simp [loop, turn, ht]
    have hf : loop.body ⟨.length {}, 0, m⟩ (toBigEndian 4 len ++ rest) =
        .fail .malformedIncomplete rest := by
      simp only [loop, turn, Integer.parse_digits (show len < 256 ^ 4 by omega), Step.turn, if_pos h]
    exact ⟨_, _, (Loop.run_goto hg).trans (Loop.run_fail hf)⟩

-- What a parser of a message accepts is a whole message.
theorem BasicParser.parse_done_iff {M : Type} [Message M] [LawfulMessage M] {m m' : M} {bs rest : Bytes} :
    ({ result := m } : BasicParser M).parse bs = .done m' rest ↔
      ∃ f : Frame, bs = f.encode ++ rest ∧ Message.receive m f.type f.body = some m' := by
  -- What the parser makes of a whole message.
  have hw {f : Frame} {r rest : Bytes} : ({ result := m } : BasicParser M).parse (f.encode ++ r) = .done m' rest ↔
      r = rest ∧ Message.receive m f.type f.body = some m' := by
    obtain ⟨_, hm, hp⟩ | ⟨hm, _, _, hp⟩ := parse_frame m f.type f.fits r
    all_goals
      rw [← Frame.encode] at hp
      simp [hp, hm, and_comm]
  constructor
  case mpr =>
    rintro ⟨f, rfl, hm⟩
    exact hw.mpr ⟨rfl, hm⟩
  case mp =>
    intro h
    cases bs
    case nil =>
      have hn : ({ result := m } : BasicParser M).parse [] = .more { result := m } [] := Loop.run_more rfl
      rw [hn] at h
      cases h
    case cons type bs =>
      have hb := Frame.beginning type bs
      generalize type :: bs = stream at hb h
      cases hb
      case whole f r =>
        obtain ⟨hr, hm⟩ := hw.mp h
        exact ⟨f, hr ▸ rfl, hm⟩
      case part f ys hy he =>
        have hs := resumable.stays trivial h ys
        rw [he, ← List.append_nil f.encode] at hs
        obtain ⟨hr, _⟩ := hw.mp hs
        exact absurd (List.append_eq_nil_iff.mp hr.symm).right hy
      case short type len r hl =>
        obtain ⟨_, _, hf⟩ := parse_short m type hl r
        rw [hf] at h
        cases h

theorem Dialogue.rejectsShort {σ : Type} (d : Dialogue σ) :
    RejectsShort d.doParse fun s => (⟨s, none⟩ : Dialogue.State σ) := by
  intro s type len rest k r hl hd
  generalize hbs : type :: (toBigEndian 4 len ++ rest) = bs at hd
  have hg : d.loop.body ⟨s, none⟩ bs = _ := body_of_head (hbs ▸ rfl : bs.head? = some type)
  rw [doParse] at hd
  cases hs : d.select s type <;> rw [hs] at hg
  case malformed => rw [Loop.run_fail hg] at hd; cases hd
  case undefined => rw [Loop.run_fail hg] at hd; cases hd
  case parse m s' =>
    obtain ⟨e, r, hp⟩ := BasicParser.parse_short m type hl rest
    obtain ⟨e, r, hf⟩ : ∃ e r, d.loop.body ⟨s', some { result := m }⟩ bs = .fail e r := by
      simp only [loop, turn, ← hbs, hp]
      cases e <;> exact ⟨_, _, rfl⟩
    rw [Loop.run_goto hg, Loop.run_fail hf] at hd
    cases hd

theorem Connect.rejectsShort {para : ConnectParameters} :
    RejectsShort (doRead para) fun ctl => ({ ctl } : Connect.State) := by
  intro ctl type len rest k r hl hd
  have ⟨e, r, hf⟩ : ∃ e r, (loop para).body { ctl } (type :: (toBigEndian 4 len ++ rest)) = .fail e r := by
    have ⟨e, r, hp⟩ : ∃ e r, MessageParser.parse ctl.stage.table ctl.stage.parser
        (type :: (toBigEndian 4 len ++ rest)) = .fail e r := by
      cases ht : ctl.stage.table type
      case none   => exact ⟨_, _, MessageParser.parse_none ht⟩
      case some m =>
        have ⟨e, r, hp⟩ := BasicParser.parse_short m type hl rest
        exact ⟨e, r, (MessageParser.parse_some ht).trans hp⟩
    simp only [loop, turn, hp]
    cases e <;> exact ⟨_, _, rfl⟩
  rw [doRead, Loop.run_fail hf] at hd
  cases hd

end ChxSql.Postgresql

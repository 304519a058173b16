import SpanTree.Proofs.Tiling
import SpanTree.Proofs.Utf8.Character

/-!
# Decoding

What a strict reader of UTF-8 says of a buffer, without any of its tables. It returns a text
exactly if the buffer is the encoding of this text (`decode_eq_ok_iff`), and where there is no
such text it returns the first ill-formed sequence (`decode_eq_error_iff`): behind the longest
well-formed bytes at the front of the buffer, the longest beginning of a character, or a single
byte if this begins none.

A piece is either a character that the buffer begins with or such a sequence (`pieces_cases`),
and since no character's encoding continues another's, the characters in front of it cannot be
read in another way (`flatMap_encodeChar_eq_append`).
-/

namespace SpanTree

namespace Utf8

/-! ## One piece -/

/-- The first `size` bytes are the ill-formed sequence that a buffer opens with. -/
structure OpensIllFormed (size : Nat) (b : Bytes) : Prop where
  pos : 0 < size
  le_three : size ≤ 3
  le_length : size ≤ b.length
  /-- no character stands at the front -/
  noCharacter : ∀ c, ¬ String.utf8EncodeChar c <+: b
  /-- they are the beginning of a character, or a single byte -/
  opens : size = 1 ∨ Opens (b.take size)
  /-- with the bytes behind them they are the beginning of none -/
  maximal : ∀ n, size < n → n ≤ b.length → ¬ Opens (b.take n)

theorem length_encodeChar_pos (c : Char) : 0 < (String.utf8EncodeChar c).length := by
  obtain ⟨lead, following, ranges, hc, -⟩ := exists_complete c
  rw [hc]
  exact Nat.succ_pos _

/-- A byte that cannot lead is ill-formed by itself. -/
theorem opensIllFormed_one {lead : UInt8} {rest : Bytes} (h : continuations lead = none) :
    OpensIllFormed 1 (lead :: rest) := by
  refine ⟨Nat.one_pos, by decide, Nat.le_add_left 1 _, ?_, Or.inl rfl, ?_⟩
  · intro c hc
    obtain ⟨ranges, hleads, -⟩ := encodeChar_prefix_cons hc
    rw [h] at hleads
    cases hleads
  · intro n hn _ hopens
    obtain ⟨n, rfl⟩ := Nat.exists_eq_add_of_lt hn
    obtain ⟨ranges, hleads, -⟩ := opens_cons_iff.mp hopens
    rw [h] at hleads
    cases hleads

/-- A lead byte whose ranges the buffer leaves too early is ill-formed with the bytes that
lie in them. -/
theorem opensIllFormed_agreeing {lead : UInt8} {rest : Bytes} {ranges : List (UInt8 × UInt8)}
    (h : continuations lead = some ranges) (hn : agreeing ranges rest ≠ ranges.length) :
    OpensIllFormed (agreeing ranges rest + 1) (lead :: rest) := by
  have hle := agreeing_le ranges rest
  have hthree := length_continuations_le h
  refine ⟨Nat.succ_pos _, by omega, Nat.succ_le_succ hle.2, ?_, Or.inr ?_, ?_⟩
  · intro c hc
    obtain ⟨ranges', hleads, hall⟩ := encodeChar_prefix_cons hc
    obtain rfl := Option.some.inj (h.symm.trans hleads)
    exact hn hall
  · rw [List.take_succ_cons]
    exact opens_cons_iff.mpr ⟨ranges, h, (follows_take_iff hle.2).mpr (Nat.le_refl _)⟩
  · intro n hlt hlength hopens
    obtain ⟨n, rfl⟩ := Nat.exists_eq_add_one_of_ne_zero (Nat.ne_zero_of_lt hlt)
    obtain ⟨ranges', hleads, hfollows⟩ := opens_cons_iff.mp hopens
    obtain rfl := Option.some.inj (h.symm.trans hleads)
    have hmore := (follows_take_iff (Nat.le_of_succ_le_succ hlength)).mp hfollows
    omega

/-- **What a piece is**: a character that stands at the front, or the ill-formed sequence
there. -/
theorem piece_cases (lead : UInt8) (rest : Bytes) :
    (∃ c more, lead :: rest = String.utf8EncodeChar c ++ more ∧
      piece lead rest = .scalar c (String.utf8EncodeChar c).length) ∨
    (∃ size, (piece lead rest = .illFormed size ∨ piece lead rest = .truncated size) ∧
      OpensIllFormed size (lead :: rest)) := by
  rcases h : continuations lead with _ | ranges
  · refine Or.inr ⟨1, Or.inl ?_, opensIllFormed_one h⟩
    simp only [piece, h]
  · have hle := agreeing_le ranges rest
    by_cases hall : agreeing ranges rest = ranges.length
    · have hlength : (rest.take (agreeing ranges rest)).length = agreeing ranges rest := by
        rw [List.length_take, Nat.min_eq_left hle.2]
      have complete : Complete lead (rest.take (agreeing ranges rest)) ranges :=
        ⟨h, hlength.trans hall, (follows_take_iff hle.2).mpr (Nat.le_refl _)⟩
      refine Or.inl ⟨Char.ofNat (codePoint lead (rest.take (agreeing ranges rest))),
        rest.drop (agreeing ranges rest), ?_, ?_⟩
      · rw [complete.encodeChar, List.cons_append, List.take_append_drop]
      · rw [complete.encodeChar, List.length_cons, hlength]
        simp only [piece, h, if_pos hall]
    · refine Or.inr ⟨agreeing ranges rest + 1, ?_, opensIllFormed_agreeing h hall⟩
      simp only [piece, h, if_neg hall]
      split
      · exact Or.inr rfl
      · exact Or.inl rfl

/-! ## All pieces -/

theorem piecesFrom_eq (skip : Nat) (b : Bytes) : piecesFrom skip b = pieces (b.drop skip) := by
  induction b generalizing skip with
  | nil => rw [List.drop_nil, pieces, piecesFrom, piecesFrom]
  | cons first rest ih =>
    rcases skip with _ | skip
    · rfl
    · rw [piecesFrom, ih, List.drop_succ_cons]

theorem pieces_cons (lead : UInt8) (rest : Bytes) : pieces (lead :: rest) =
    piece lead rest :: pieces (rest.drop ((piece lead rest).size - 1)) := by
  rw [pieces, piecesFrom, piecesFrom_eq]

/-- A buffer is empty, or its pieces are a character and those of the rest, or they begin
with an ill-formed one. -/
theorem pieces_cases (b : Bytes) :
    b = [] ∨
    (∃ c more, b = String.utf8EncodeChar c ++ more ∧
      pieces b = .scalar c (String.utf8EncodeChar c).length :: pieces more) ∨
    (∃ size behind, (pieces b = .illFormed size :: behind ∨ pieces b = .truncated size :: behind) ∧
      OpensIllFormed size b) := by
  rcases b with _ | ⟨lead, rest⟩
  · exact Or.inl rfl
  rcases piece_cases lead rest with ⟨c, more, hb, hpiece⟩ | ⟨size, hpiece, hbad⟩
  · refine Or.inr (Or.inl ⟨c, more, hb, ?_⟩)
    obtain ⟨n, hn⟩ := Nat.exists_eq_add_one_of_ne_zero (Nat.ne_of_gt (length_encodeChar_pos c))
    have hmore : (lead :: rest).drop (String.utf8EncodeChar c).length = more := by
      rw [hb, List.drop_left]
    rw [hn, List.drop_succ_cons] at hmore
    rw [pieces_cons, hpiece, Piece.size, hn, Nat.add_sub_cancel, hmore]
  · refine Or.inr (Or.inr ⟨size, pieces (rest.drop (size - 1)), ?_, hbad⟩)
    rw [pieces_cons]
    rcases hpiece with hpiece | hpiece
    · exact Or.inl (by rw [hpiece, Piece.size])
    · exact Or.inr (by rw [hpiece, Piece.size])

/-- The characters read are those that the buffer is the encoding of, as far as the first
ill-formed sequence; this is where the reader stops. -/
theorem charsFrom_pieces (offset : Nat) (b : Bytes) :
    (∃ cs : List Char, b = cs.flatMap String.utf8EncodeChar ∧
      charsFrom offset (pieces b) = .ok cs) ∨
    (∃ (cs : List Char) (tail : Bytes) (size : Nat),
      b = cs.flatMap String.utf8EncodeChar ++ tail ∧ OpensIllFormed size tail ∧
      charsFrom offset (pieces b) =
        .error ⟨offset + (cs.flatMap String.utf8EncodeChar).length,
          offset + (cs.flatMap String.utf8EncodeChar).length + size⟩) := by
  induction hn : b.length using Nat.strongRecOn generalizing offset b with
  | ind n ih =>
    rcases pieces_cases b with rfl | ⟨c, more, rfl, hpieces⟩ | ⟨size, behind, hpieces, hbad⟩
    · exact Or.inl ⟨[], rfl, rfl⟩
    · have hshorter : more.length < n := by
        have := length_encodeChar_pos c
        rw [← hn, List.length_append]
        omega
      rw [hpieces, charsFrom]
      rcases ih _ hshorter (offset + (String.utf8EncodeChar c).length) more rfl with
        ⟨cs, rfl, hcs⟩ | ⟨cs, tail, size, rfl, hbad, hcs⟩
      · exact Or.inl ⟨c :: cs, List.flatMap_cons.symm, by rw [hcs]; rfl⟩
      · refine Or.inr ⟨c :: cs, tail, size, ?_, hbad, ?_⟩
        · rw [List.flatMap_cons, List.append_assoc]
        · rw [hcs, List.flatMap_cons, List.length_append, ← Nat.add_assoc]
          rfl
    · refine Or.inr ⟨[], b, size, rfl, hbad, ?_⟩
      rcases hpieces with hpieces | hpieces <;> rw [hpieces] <;> rfl

/-! ## The text of a buffer -/

/-- Characters that an encoding begins with are those that the text begins with. -/
theorem flatMap_encodeChar_eq_append {cs ds : List Char} {tail : Bytes}
    (h : ds.flatMap String.utf8EncodeChar = cs.flatMap String.utf8EncodeChar ++ tail) :
    ∃ es, ds = cs ++ es ∧ tail = es.flatMap String.utf8EncodeChar := by
  induction cs generalizing ds with
  | nil => exact ⟨ds, rfl, h.symm⟩
  | cons c cs ih =>
    rcases ds with _ | ⟨d, ds⟩
    · have hlength := congrArg List.length h
      have := length_encodeChar_pos c
      rw [List.flatMap_cons, List.append_assoc, List.length_append] at hlength
      simp only [List.flatMap_nil, List.length_nil] at hlength
      omega
    · rw [List.flatMap_cons, List.flatMap_cons, List.append_assoc] at h
      obtain ⟨rfl, hrest⟩ := encodeChar_append_inj h
      obtain ⟨es, rfl, htail⟩ := ih hrest
      exact ⟨es, rfl, htail⟩

/-- Bytes that are the encoding of a text. -/
def WellFormed (b : Bytes) : Prop := ∃ s, encode s = b

theorem encode_ofList (cs : List Char) :
    encode (String.ofList cs) = cs.flatMap String.utf8EncodeChar := by
  rw [encode, String.toList_ofList]

/-- A text is read back from its encoding alone. -/
theorem encode_injective {s t : String} (h : encode s = encode t) : s = t := by
  obtain ⟨es, hes, hnil⟩ := flatMap_encodeChar_eq_append (h.trans (List.append_nil _).symm)
  rcases es with _ | ⟨e, es⟩
  · rw [List.append_nil] at hes
    exact String.toList_inj.mp hes
  · have := length_encodeChar_pos e
    rw [List.flatMap_cons] at hnil
    exact absurd (congrArg List.length hnil) (by rw [List.length_append, List.length_nil]; omega)

/-- Nothing that ends behind the start of an ill-formed sequence is well-formed. -/
theorem OpensIllFormed.not_wellFormed_append {size n : Nat} {s : String} {tail : Bytes}
    (h : OpensIllFormed size tail) (hn : 0 < n) : ¬ WellFormed (encode s ++ tail.take n) := by
  rintro ⟨t, ht⟩
  obtain ⟨es, -, htail⟩ := flatMap_encodeChar_eq_append ht
  rcases es with _ | ⟨e, es⟩
  · have hlength := congrArg List.length htail
    have := h.pos
    have := h.le_length
    rw [List.length_take] at hlength
    simp only [List.flatMap_nil, List.length_nil] at hlength
    omega
  · rw [List.flatMap_cons] at htail
    exact h.noCharacter e ((List.prefix_append _ _).trans (htail ▸ List.take_prefix n tail))

/-- Either a buffer is the encoding of a text, or a text and an ill-formed sequence stand at
its front. -/
theorem decode_cases (b : Bytes) :
    (∃ s, b = encode s ∧ decode b = .ok s) ∨
    (∃ s tail size, b = encode s ++ tail ∧ OpensIllFormed size tail ∧
      decode b = .error ⟨(encode s).length, (encode s).length + size⟩) := by
  rcases charsFrom_pieces 0 b with ⟨cs, hb, hcs⟩ | ⟨cs, tail, size, hb, hbad, hcs⟩
  · exact Or.inl ⟨String.ofList cs, hb.trans (encode_ofList cs).symm, by rw [decode, hcs]; rfl⟩
  · refine Or.inr ⟨String.ofList cs, tail, size, ?_, hbad, ?_⟩
    · rw [encode_ofList, hb]
    · rw [decode, hcs, encode_ofList, Nat.zero_add]
      rfl

/-- The sequence at the range is the first ill-formed one of the buffer. -/
structure IsFirstIllFormed (b : Bytes) (bad : IllFormed) : Prop where
  /-- what is in front of it is well-formed -/
  wellFormed : WellFormed (b.take bad.start)
  /-- and nothing longer is -/
  longest : ∀ n, bad.start < n → ¬ WellFormed (b.take n)
  start_lt_stop : bad.start < bad.stop
  stop_le_length : bad.stop ≤ b.length
  stop_le_add_three : bad.stop ≤ bad.start + 3
  /-- it is the beginning of a character, or a single byte -/
  opens : bad.stop = bad.start + 1 ∨ Opens (b.slice bad.start bad.stop)
  /-- with the bytes behind it, it is the beginning of none -/
  maximal : ∀ stop, bad.stop < stop → stop ≤ b.length → ¬ Opens (b.slice bad.start stop)
  /-- where the buffer breaks off inside a character, it extends to the end -/
  cutOff : Opens (b.drop bad.start) → bad.stop = b.length

theorem IsFirstIllFormed.not_wellFormed {b : Bytes} {bad : IllFormed}
    (h : IsFirstIllFormed b bad) : ¬ WellFormed b := by
  have hlonger := h.longest b.length (Nat.lt_of_lt_of_le h.start_lt_stop h.stop_le_length)
  rwa [List.take_length] at hlonger

theorem OpensIllFormed.isFirstIllFormed {size : Nat} {s : String} {tail : Bytes}
    (h : OpensIllFormed size tail) : IsFirstIllFormed (encode s ++ tail)
      ⟨(encode s).length, (encode s).length + size⟩ := by
  have hslice : ∀ stop, (encode s ++ tail).slice (encode s).length stop =
      tail.take (stop - (encode s).length) := by
    intro stop
    rw [Bytes.slice, List.drop_left]
  have hpos := h.pos
  have hlength := h.le_length
  refine ⟨?_, ?_, ?_, ?_, ?_, ?_, ?_, ?_⟩
  · exact ⟨s, List.take_left.symm⟩
  · intro n hn
    rw [List.take_append, List.take_of_length_le (Nat.le_of_lt hn)]
    exact h.not_wellFormed_append (Nat.sub_pos_of_lt hn)
  · exact Nat.lt_add_of_pos_right hpos
  · rw [List.length_append]
    exact Nat.add_le_add_left hlength _
  · exact Nat.add_le_add_left h.le_three _
  · rw [hslice, Nat.add_sub_cancel_left]
    exact h.opens.imp_left (congrArg _)
  · intro stop hstop hle
    rw [List.length_append] at hle
    rw [hslice]
    refine h.maximal _ ?_ ?_
    · exact Nat.lt_sub_of_add_lt (Nat.add_comm _ _ ▸ hstop)
    · exact Nat.sub_le_of_le_add (Nat.add_comm _ _ ▸ hle)
  · intro hopens
    rw [List.drop_left] at hopens
    rw [List.length_append]
    by_contra hne
    refine h.maximal tail.length (by simp only at hne; omega) (Nat.le_refl _) ?_
    rwa [List.take_length]

/-- Of two sequences at one start none stops later: it would be no single byte, and the other
rules out that it is the beginning of a character. -/
theorem IsFirstIllFormed.stop_le {b : Bytes} {bad bad' : IllFormed}
    (h : IsFirstIllFormed b bad) (h' : IsFirstIllFormed b bad')
    (hstart : bad.start = bad'.start) : bad'.stop ≤ bad.stop := by
  by_contra hlt
  rcases h'.opens with hone | hopens
  · have := h.start_lt_stop
    omega
  · rw [← hstart] at hopens
    exact h.maximal _ (Nat.lt_of_not_le hlt) h'.stop_le_length hopens

/-- There is one first ill-formed sequence at most. -/
theorem IsFirstIllFormed.eq {b : Bytes} {bad bad' : IllFormed} (h : IsFirstIllFormed b bad)
    (h' : IsFirstIllFormed b bad') : bad = bad' := by
  have hstart : bad.start = bad'.start := by
    rcases Nat.lt_trichotomy bad.start bad'.start with hlt | heq | hlt
    · exact absurd h'.wellFormed (h.longest _ hlt)
    · exact heq
    · exact absurd h.wellFormed (h'.longest _ hlt)
  have hstop : bad.stop = bad'.stop :=
    Nat.le_antisymm (h'.stop_le h hstart.symm) (h.stop_le h' hstart)
  cases bad
  cases bad'
  cases hstart
  cases hstop
  rfl

/-- **A buffer is read as a text** exactly if it is the encoding of this text. -/
theorem decode_eq_ok_iff {b : Bytes} {s : String} : decode b = .ok s ↔ encode s = b := by
  rcases decode_cases b with ⟨t, rfl, ht⟩ | ⟨t, tail, size, rfl, hbad, ht⟩
  · rw [ht]
    constructor
    · rintro ⟨⟩
      rfl
    · intro h
      rw [encode_injective h]
  · rw [ht]
    constructor
    · rintro ⟨⟩
    · intro h
      exact absurd ⟨s, h⟩ hbad.isFirstIllFormed.not_wellFormed

/-- **A buffer is refused** exactly at its first ill-formed sequence. -/
theorem decode_eq_error_iff {b : Bytes} {bad : IllFormed} :
    decode b = .error bad ↔ IsFirstIllFormed b bad := by
  rcases decode_cases b with ⟨t, rfl, ht⟩ | ⟨t, tail, size, rfl, hbad, ht⟩
  · rw [ht]
    constructor
    · rintro ⟨⟩
    · intro h
      exact absurd ⟨t, rfl⟩ h.not_wellFormed
  · rw [ht]
    constructor
    · rintro ⟨⟩
      exact hbad.isFirstIllFormed
    · intro h
      rw [hbad.isFirstIllFormed.eq h]

end Utf8

end SpanTree

import Mathlib.Data.List.Basic
import SpanTree.Text.Utf8

/-!
# The encoding of a character

The table `continuations` is what the reader of UTF-8 knows: which bytes lead, and in which
ranges the bytes after them must lie. Here it is compared with the encoding of characters.
Every character is encoded as a lead byte with bytes that lie in its ranges, one for each
(`exists_complete`), and every such sequence encodes a character, the one whose code point
it spells (`Complete.encodeChar`). So bytes can be completed to a character exactly if they
begin with a lead byte and keep to its ranges as far as they go (`opens_cons_iff`).
-/

namespace SpanTree

namespace Utf8

/-! ## The table -/

/-- Bytes that lie in the ranges, one after another; some ranges may be left over. -/
def Follows : List (UInt8 × UInt8) → Bytes → Prop
  | _, [] => True
  | [], _ :: _ => False
  | (lo, hi) :: ranges, b :: rest => (lo ≤ b ∧ b ≤ hi) ∧ Follows ranges rest

@[simp] theorem follows_nil (ranges : List (UInt8 × UInt8)) : Follows ranges [] := by
  cases ranges <;> trivial

/-- What is in front of bytes in the ranges is in them as well. -/
theorem Follows.of_append {ranges : List (UInt8 × UInt8)} {bs more : Bytes}
    (h : Follows ranges (bs ++ more)) : Follows ranges bs := by
  induction bs generalizing ranges with
  | nil => exact follows_nil ranges
  | cons b bs ih =>
    rcases ranges with _ | ⟨range, ranges⟩
    · exact h
    · exact ⟨h.1, ih h.2⟩

/-- `agreeing` counts how many bytes at the front lie in the ranges. -/
theorem follows_take_iff {ranges : List (UInt8 × UInt8)} {rest : Bytes} {k : Nat}
    (hk : k ≤ rest.length) : Follows ranges (rest.take k) ↔ k ≤ agreeing ranges rest := by
  induction k generalizing ranges rest with
  | zero => simp only [List.take_zero, follows_nil, Nat.zero_le]
  | succ k ih =>
    rcases rest with _ | ⟨b, rest⟩
    · cases hk
    · rw [List.take_succ_cons]
      rcases ranges with _ | ⟨⟨lo, hi⟩, ranges⟩
      · simp [Follows, agreeing]
      · rw [Follows, agreeing, ih (Nat.le_of_succ_le_succ hk)]
        split
        · next hb => simp [hb]
        · next hb => simp [hb]

theorem agreeing_le (ranges : List (UInt8 × UInt8)) (rest : Bytes) :
    agreeing ranges rest ≤ ranges.length ∧ agreeing ranges rest ≤ rest.length := by
  induction ranges generalizing rest with
  | nil => simp only [agreeing, Nat.zero_le, and_self]
  | cons range ranges ih =>
    rcases rest with _ | ⟨b, rest⟩
    · simp only [agreeing, Nat.zero_le, and_self]
    · have h := ih rest
      rw [agreeing, List.length_cons, List.length_cons]
      split <;> omega

/-- The range of the byte after a lead byte. It is narrower after four of them, which leaves
out overlong forms, surrogates and values that are too large. -/
def secondRange (lead : Nat) : UInt8 × UInt8 :=
  (if lead = 0xE0 then 0xA0 else if lead = 0xF0 then 0x90 else 0x80,
    if lead = 0xED then 0x9F else if lead = 0xF4 then 0x8F else 0xBF)

/-- The range of the bytes after the second. -/
def tailRange : UInt8 × UInt8 := (0x80, 0xBF)

theorem continuations_eq (lead : UInt8) : continuations lead =
    if lead.toNat < 0x80 then some []
    else if lead.toNat < 0xC2 then none
    else if lead.toNat < 0xE0 then some [secondRange lead.toNat]
    else if lead.toNat < 0xF0 then some [secondRange lead.toNat, tailRange]
    else if lead.toNat < 0xF5 then some [secondRange lead.toNat, tailRange, tailRange]
    else none := by
  simp only [continuations, secondRange, tailRange, UInt8.lt_iff_toNat_lt, ← UInt8.toNat_inj,
    UInt8.reduceToNat]
  grind

/-- A lead byte asks for at most three bytes more. -/
theorem length_continuations_le {lead : UInt8} {ranges : List (UInt8 × UInt8)}
    (h : continuations lead = some ranges) : ranges.length ≤ 3 := by
  rw [continuations_eq] at h
  grind

/-- In each range there is a byte. -/
theorem forall_mem_continuations {lead : UInt8} {ranges : List (UInt8 × UInt8)}
    (h : continuations lead = some ranges) : ∀ range ∈ ranges, range.1 ≤ range.2 := by
  have hsecond : (secondRange lead.toNat).1 ≤ (secondRange lead.toNat).2 := by
    simp only [secondRange]
    grind
  have htail : tailRange.1 ≤ tailRange.2 := by decide
  rw [continuations_eq] at h
  grind

theorem mem_secondRange_iff {lead : Nat} {b : UInt8} :
    (secondRange lead).1 ≤ b ∧ b ≤ (secondRange lead).2 ↔
      0x80 ≤ b.toNat ∧ b.toNat ≤ 0xBF ∧ (lead = 0xE0 → 0xA0 ≤ b.toNat) ∧
        (lead = 0xED → b.toNat ≤ 0x9F) ∧ (lead = 0xF0 → 0x90 ≤ b.toNat) ∧
        (lead = 0xF4 → b.toNat ≤ 0x8F) := by
  simp only [secondRange, UInt8.le_iff_toNat_le, apply_ite UInt8.toNat, UInt8.reduceToNat]
  grind

theorem mem_tailRange_iff {b : UInt8} :
    tailRange.1 ≤ b ∧ b ≤ tailRange.2 ↔ 0x80 ≤ b.toNat ∧ b.toNat ≤ 0xBF := by
  simp only [tailRange, UInt8.le_iff_toNat_le, UInt8.reduceToNat]

@[simp] theorem codePoint_one (lead : UInt8) : codePoint lead [] = lead.toNat := rfl

@[simp] theorem codePoint_two (lead a : UInt8) :
    codePoint lead [a] = lead.toNat % 32 * 64 + a.toNat % 64 := rfl

@[simp] theorem codePoint_three (lead a b : UInt8) :
    codePoint lead [a, b] = (lead.toNat % 16 * 64 + a.toNat % 64) * 64 + b.toNat % 64 := rfl

@[simp] theorem codePoint_four (lead a b c : UInt8) : codePoint lead [a, b, c] =
    ((lead.toNat % 8 * 64 + a.toNat % 64) * 64 + b.toNat % 64) * 64 + c.toNat % 64 := rfl

/-! ## The table and the encoding -/

/-- The encoding of a character, with its code point written as a number. -/
theorem encodeChar_eq (c : Char) : String.utf8EncodeChar c =
    if c.toNat ≤ 0x7F then [UInt8.ofNat c.toNat]
    else if c.toNat ≤ 0x7FF then
      [UInt8.ofNat (c.toNat / 64 % 32 + 0xC0), UInt8.ofNat (c.toNat % 64 + 0x80)]
    else if c.toNat ≤ 0xFFFF then
      [UInt8.ofNat (c.toNat / 4096 % 16 + 0xE0), UInt8.ofNat (c.toNat / 64 % 64 + 0x80),
        UInt8.ofNat (c.toNat % 64 + 0x80)]
    else
      [UInt8.ofNat (c.toNat / 262144 % 8 + 0xF0), UInt8.ofNat (c.toNat / 4096 % 64 + 0x80),
        UInt8.ofNat (c.toNat / 64 % 64 + 0x80), UInt8.ofNat (c.toNat % 64 + 0x80)] := rfl

theorem toNat_ofNat_of_isValidChar {v : Nat} (h : v.isValidChar) : (Char.ofNat v).toNat = v := by
  rw [Char.ofNat, dif_pos h]
  rfl

theorem ofNat_eq_iff {n : Nat} {b : UInt8} (h : n < 256) : UInt8.ofNat n = b ↔ n = b.toNat := by
  rw [← UInt8.toNat_inj, UInt8.toNat_ofNat', Nat.mod_eq_of_lt h]

/-- A lead byte with as many bytes as it asks for, each in its range. -/
structure Complete (lead : UInt8) (following : Bytes) (ranges : List (UInt8 × UInt8)) : Prop where
  leads : continuations lead = some ranges
  length_eq : following.length = ranges.length
  follows : Follows ranges following

/-- A complete sequence encodes the character whose code point it spells. -/
theorem Complete.encodeChar {lead : UInt8} {following : Bytes} {ranges : List (UInt8 × UInt8)}
    (h : Complete lead following ranges) :
    String.utf8EncodeChar (Char.ofNat (codePoint lead following)) = lead :: following := by
  obtain ⟨hleads, hlength, hfollows⟩ := h
  rw [continuations_eq] at hleads
  -- one case for each number of bytes; the ranges keep the code point a valid one
  split at hleads
  · cases hleads
    obtain rfl := List.eq_nil_of_length_eq_zero hlength
    rw [codePoint_one, encodeChar_eq,
      toNat_ofNat_of_isValidChar (by simp only [Nat.isValidChar]; omega), if_pos (by omega)]
    simp only [UInt8.ofNat_toNat]
  split at hleads
  · cases hleads
  split at hleads
  · cases hleads
    obtain ⟨a, rfl⟩ := List.length_eq_one_iff.mp hlength
    simp only [Follows, mem_secondRange_iff] at hfollows
    rw [codePoint_two, encodeChar_eq,
      toNat_ofNat_of_isValidChar (by simp only [Nat.isValidChar]; omega),
      if_neg (by omega), if_pos (by omega)]
    simp only [List.cons.injEq, and_true]
    rw [ofNat_eq_iff (by omega), ofNat_eq_iff (by omega)]
    omega
  split at hleads
  · cases hleads
    obtain ⟨a, b, rfl⟩ := List.length_eq_two.mp hlength
    simp only [Follows, mem_secondRange_iff, mem_tailRange_iff] at hfollows
    rw [codePoint_three, encodeChar_eq,
      toNat_ofNat_of_isValidChar (by simp only [Nat.isValidChar]; omega),
      if_neg (by omega), if_neg (by omega), if_pos (by omega)]
    simp only [List.cons.injEq, and_true]
    rw [ofNat_eq_iff (by omega), ofNat_eq_iff (by omega), ofNat_eq_iff (by omega)]
    omega
  split at hleads
  · cases hleads
    obtain ⟨a, b, c, rfl⟩ := List.length_eq_three.mp hlength
    simp only [Follows, mem_secondRange_iff, mem_tailRange_iff] at hfollows
    rw [codePoint_four, encodeChar_eq,
      toNat_ofNat_of_isValidChar (by simp only [Nat.isValidChar]; omega),
      if_neg (by omega), if_neg (by omega), if_neg (by omega)]
    simp only [List.cons.injEq, and_true]
    rw [ofNat_eq_iff (by omega), ofNat_eq_iff (by omega), ofNat_eq_iff (by omega),
      ofNat_eq_iff (by omega)]
    omega
  · cases hleads

/-- Every character is encoded as a complete sequence, which spells its code point. -/
theorem exists_complete (c : Char) :
    ∃ lead following ranges, String.utf8EncodeChar c = lead :: following ∧
      Complete lead following ranges ∧ codePoint lead following = c.toNat := by
  have hvalid : c.toNat < 0xD800 ∨ (0xDFFF < c.toNat ∧ c.toNat < 0x110000) := c.valid
  rw [encodeChar_eq]
  generalize c.toNat = v at hvalid
  split
  · refine ⟨_, [], [], rfl, ⟨?_, rfl, trivial⟩, ?_⟩
    · rw [continuations_eq, UInt8.toNat_ofNat', if_pos (by omega)]
    · rw [codePoint_one, UInt8.toNat_ofNat']
      omega
  split
  · refine ⟨_, [_], [secondRange (v / 64 % 32 + 0xC0)], rfl, ⟨?_, rfl, ?_⟩, ?_⟩
    · rw [continuations_eq, UInt8.toNat_ofNat', Nat.mod_eq_of_lt (by omega), if_neg (by omega),
        if_neg (by omega), if_pos (by omega)]
    · simp only [Follows, mem_secondRange_iff, UInt8.toNat_ofNat', and_true]
      omega
    · simp only [codePoint_two, UInt8.toNat_ofNat']
      omega
  split
  · refine ⟨_, [_, _], [secondRange (v / 4096 % 16 + 0xE0), tailRange], rfl, ⟨?_, rfl, ?_⟩, ?_⟩
    · rw [continuations_eq, UInt8.toNat_ofNat', Nat.mod_eq_of_lt (by omega), if_neg (by omega),
        if_neg (by omega), if_neg (by omega), if_pos (by omega)]
    · simp only [Follows, mem_secondRange_iff, mem_tailRange_iff, UInt8.toNat_ofNat', and_true]
      omega
    · simp only [codePoint_three, UInt8.toNat_ofNat']
      omega
  · refine ⟨_, [_, _, _], [secondRange (v / 262144 % 8 + 0xF0), tailRange, tailRange], rfl,
      ⟨?_, rfl, ?_⟩, ?_⟩
    · rw [continuations_eq, UInt8.toNat_ofNat', Nat.mod_eq_of_lt (by omega), if_neg (by omega),
        if_neg (by omega), if_neg (by omega), if_neg (by omega), if_pos (by omega)]
    · simp only [Follows, mem_secondRange_iff, mem_tailRange_iff, UInt8.toNat_ofNat', and_true]
      omega
    · simp only [codePoint_four, UInt8.toNat_ofNat']
      omega

/-- No character's encoding continues another's: what it begins with tells the character. -/
theorem encodeChar_append_inj {c d : Char} {rest rest' : Bytes}
    (h : String.utf8EncodeChar c ++ rest = String.utf8EncodeChar d ++ rest') :
    c = d ∧ rest = rest' := by
  obtain ⟨lead, following, ranges, hc, complete, hcode⟩ := exists_complete c
  obtain ⟨lead', following', ranges', hd, complete', hcode'⟩ := exists_complete d
  rw [hc, hd, List.cons_append, List.cons_append] at h
  obtain ⟨rfl, happend⟩ := List.cons.inj h
  have hranges : ranges = ranges' := Option.some.inj (complete.leads.symm.trans complete'.leads)
  have hlength : following.length = following'.length := by
    rw [complete.length_eq, complete'.length_eq, hranges]
  obtain ⟨rfl, hrest⟩ := List.append_inj happend hlength
  exact ⟨Char.toNat_inj.mp (hcode.symm.trans hcode'), hrest⟩

/-! ## What can be completed -/

/-- Bytes that the encoding of some character begins with. -/
def Opens (b : Bytes) : Prop := ∃ c, b <+: String.utf8EncodeChar c

/-- Bytes in the ranges can be followed by more until no range is left over. -/
theorem Follows.exists_append {ranges : List (UInt8 × UInt8)} {bs : Bytes}
    (h : Follows ranges bs) (hranges : ∀ range ∈ ranges, range.1 ≤ range.2) :
    ∃ more, (bs ++ more).length = ranges.length ∧ Follows ranges (bs ++ more) := by
  induction ranges generalizing bs with
  | nil =>
    rcases bs with _ | ⟨b, bs⟩
    · exact ⟨[], rfl, trivial⟩
    · exact h.elim
  | cons range ranges ih =>
    rw [List.forall_mem_cons] at hranges
    rcases bs with _ | ⟨b, bs⟩
    · obtain ⟨more, hlength, hmore⟩ := ih (follows_nil ranges) hranges.2
      exact ⟨range.1 :: more, congrArg (· + 1) hlength, ⟨UInt8.le_refl _, hranges.1⟩, hmore⟩
    · obtain ⟨more, hlength, hmore⟩ := ih h.2 hranges.2
      exact ⟨more, congrArg (· + 1) hlength, h.1, hmore⟩

/-- Bytes open a character exactly if they keep to the table as far as they go. -/
theorem opens_cons_iff {lead : UInt8} {bs : Bytes} :
    Opens (lead :: bs) ↔ ∃ ranges, continuations lead = some ranges ∧ Follows ranges bs := by
  constructor
  · rintro ⟨c, more, hc⟩
    obtain ⟨lead', following, ranges, hc', complete, -⟩ := exists_complete c
    obtain ⟨rfl, rfl⟩ := List.cons.inj (hc.trans hc')
    exact ⟨ranges, complete.leads, complete.follows.of_append⟩
  · rintro ⟨ranges, hleads, hfollows⟩
    obtain ⟨more, hlength, hmore⟩ :=
      hfollows.exists_append (forall_mem_continuations hleads)
    have complete : Complete lead (bs ++ more) ranges := ⟨hleads, hlength, hmore⟩
    exact ⟨_, more, complete.encodeChar.symm⟩

/-- A character at the front keeps to the table as well, with no range left over. -/
theorem encodeChar_prefix_cons {c : Char} {lead : UInt8} {bs : Bytes}
    (h : String.utf8EncodeChar c <+: lead :: bs) :
    ∃ ranges, continuations lead = some ranges ∧ agreeing ranges bs = ranges.length := by
  obtain ⟨more, h⟩ := h
  obtain ⟨lead', following, ranges, hc, complete, -⟩ := exists_complete c
  rw [hc, List.cons_append] at h
  obtain ⟨rfl, rfl⟩ := List.cons.inj h
  refine ⟨ranges, complete.leads, Nat.le_antisymm (agreeing_le _ _).1 ?_⟩
  rw [← complete.length_eq, ← follows_take_iff (by simp), List.take_left]
  exact complete.follows

end Utf8

end SpanTree

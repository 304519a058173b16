import Mathlib.Data.List.TakeWhile
import SpanTree.Position

/-!
# Lines and offsets

The table of a buffer's lines holds its start and what comes right after each line feed, in
ascending order (`mem_starts`, `pairwise_starts`). So an offset splits it at one place, the
same whichever way it is searched for, and there are as many starts up to an offset as line
feeds before it, and one more (`splits_iff`). The last of them is the start of the line that
the offset lies on (`exists_lineStart?`).

Where line and column fit into their words, positions are a code of the offsets in the buffer:
the position of an offset says where the offset is (`names_position`), and the order of
positions is that of the offsets (`Position.Names.lt`).
-/

namespace SpanTree

/-- The line that starts at `start` reaches to the offset. -/
structure Bytes.OnLine (source : Bytes) (start offset : Nat) : Prop where
  le : start ≤ offset
  /-- it is the first line, or it comes right after a line feed -/
  opens : start = 0 ∨ ∃ i, start = i + 1 ∧ source[i]? = some Byte.newline
  /-- there is no line feed between its start and the offset -/
  unbroken : ∀ i, start ≤ i → i < offset → source[i]? ≠ some Byte.newline

namespace LineIndex

theorem length_ofBytes (source : Bytes) : (ofBytes source).length = source.length := rfl

/-! ## The table of line starts -/

/-- Behind an offset lines start where a line feed comes just before. -/
theorem mem_startsAfter {bs : Bytes} {offset s : Nat} :
    s ∈ startsAfter offset bs ↔ ∃ i, s = offset + i + 1 ∧ bs[i]? = some Byte.newline := by
  induction bs generalizing offset with
  | nil => simp [startsAfter]
  | cons b bs ih =>
    have hrest : (∃ i, s = offset + i + 1 ∧ (b :: bs)[i]? = some Byte.newline) ↔
        (s = offset + 1 ∧ b = Byte.newline) ∨ s ∈ startsAfter (offset + 1) bs := by
      rw [ih]
      refine ⟨?_, ?_⟩
      · rintro ⟨_ | i, hs, hi⟩
        · exact .inl ⟨hs, Option.some.inj hi⟩
        · exact .inr ⟨i, by omega, hi⟩
      · rintro (⟨hs, hb⟩ | ⟨i, hs, hi⟩)
        · exact ⟨0, hs, congrArg some hb⟩
        · exact ⟨i + 1, by omega, hi⟩
    rw [hrest, startsAfter]
    split
    · next hb => simp [hb]
    · next hb => simp [hb]

theorem pairwise_startsAfter (bs : Bytes) (offset : Nat) :
    (startsAfter offset bs).Pairwise (· < ·) := by
  induction bs generalizing offset with
  | nil => exact List.Pairwise.nil
  | cons b bs ih =>
    rw [startsAfter]
    split
    · refine List.pairwise_cons.mpr ⟨fun s hs => ?_, ih (offset + 1)⟩
      obtain ⟨i, rfl, -⟩ := mem_startsAfter.mp hs
      omega
    · exact ih (offset + 1)

/-- Of the starts after an offset, one for each line feed comes within the next `n` bytes. -/
theorem countP_startsAfter (bs : Bytes) (offset n : Nat) :
    (startsAfter offset bs).countP (· ≤ offset + n) = (bs.take n).count Byte.newline := by
  induction bs generalizing offset n with
  | nil => simp [startsAfter]
  | cons b bs ih =>
    cases n with
    | zero =>
      rw [List.take_zero, List.count_nil, List.countP_eq_zero]
      intro s hs
      obtain ⟨i, rfl, -⟩ := mem_startsAfter.mp hs
      simp only [decide_eq_true_eq]
      omega
    | succ n =>
      have hrest := ih (offset + 1) n
      rw [Nat.add_assoc, Nat.add_comm 1] at hrest
      rw [startsAfter, List.take_succ_cons, List.count_cons, ← hrest]
      by_cases hb : b = Byte.newline
      · rw [if_pos hb, List.countP_cons]
        simp [hb]
      · rw [if_neg hb]
        simp [hb]

variable {source : Bytes} {offset start k : Nat}

theorem mem_starts : start ∈ (ofBytes source).starts ↔
    start = 0 ∨ ∃ i, start = i + 1 ∧ source[i]? = some Byte.newline := by
  rw [ofBytes, List.mem_cons, mem_startsAfter]
  simp only [Nat.zero_add]

theorem pairwise_starts (source : Bytes) : (ofBytes source).starts.Pairwise (· < ·) := by
  refine List.pairwise_cons.mpr ⟨fun s hs => ?_, pairwise_startsAfter source 0⟩
  obtain ⟨i, rfl, -⟩ := mem_startsAfter.mp hs
  exact Nat.succ_pos _

theorem countP_starts (source : Bytes) (offset : Nat) :
    (ofBytes source).starts.countP (· ≤ offset) = 1 + (source.take offset).count Byte.newline := by
  have hafter := countP_startsAfter source 0 offset
  rw [Nat.zero_add] at hafter
  rw [ofBytes, List.countP_cons, hafter, Nat.add_comm]
  rfl

/-! ## The line of an offset -/

/-- The table splits at `k`: the first `k` starts are at or before the offset, and the others
are behind it. -/
structure Splits (index : LineIndex) (offset k : Nat) : Prop where
  le : k ≤ index.lineCount
  before : ∀ s ∈ index.starts.take k, s ≤ offset
  behind : ∀ s ∈ index.starts.drop k, offset < s

/-- The table splits at one place at most, however that is found. -/
theorem Splits.eq_countP {index : LineIndex} (h : index.Splits offset k) :
    k = index.starts.countP (· ≤ offset) := by
  have hbefore : (index.starts.take k).countP (· ≤ offset) = k := by
    rw [List.countP_eq_length.mpr fun s hs => decide_eq_true (h.before s hs), List.length_take]
    exact Nat.min_eq_left h.le
  have hbehind : (index.starts.drop k).countP (· ≤ offset) = 0 := by
    rw [List.countP_eq_zero]
    intro s hs
    have := h.behind s hs
    rw [decide_eq_true_eq]
    omega
  calc k = (index.starts.take k ++ index.starts.drop k).countP (· ≤ offset) := by
        rw [List.countP_append, hbefore, hbehind, Nat.add_zero]
    _ = index.starts.countP (· ≤ offset) := by rw [List.take_append_drop]

/-- Where the table is made of starts up to the offset and starts behind it, it splits. -/
theorem splits_of_append {index : LineIndex} {front back : List Nat}
    (hstarts : index.starts = front ++ back) (hfront : ∀ s ∈ front, s ≤ offset)
    (hback : ∀ s ∈ back, offset < s) : index.Splits offset front.length where
  le := by
    rw [lineCount, hstarts, List.length_append]
    exact Nat.le_add_right _ _
  before := by rwa [hstarts, List.take_left]
  behind := by rwa [hstarts, List.drop_left]

/-- The starts up to an offset come first in the table. -/
theorem splits_takeWhile (source : Bytes) (offset : Nat) :
    (ofBytes source).Splits offset
      ((ofBytes source).starts.takeWhile (· ≤ offset)).length := by
  refine splits_of_append List.takeWhile_append_dropWhile.symm (fun s hs => ?_) ?_
  · have hs := List.mem_takeWhile_imp hs
    exact of_decide_eq_true hs
  · have hsorted := (pairwise_starts source).sublist (List.dropWhile_sublist (· ≤ offset))
    have hhead := List.head?_dropWhile_not (· ≤ offset) (ofBytes source).starts
    rcases hback : (ofBytes source).starts.dropWhile (· ≤ offset) with _ | ⟨first, rest⟩
    · exact fun _ hs => absurd hs List.not_mem_nil
    · rw [hback] at hsorted hhead
      have hfirst : offset < first := Nat.lt_of_not_le (of_decide_eq_false hhead)
      refine List.forall_mem_cons.mpr ⟨hfirst, fun s hs => ?_⟩
      exact Nat.lt_trans hfirst ((List.pairwise_cons.mp hsorted).1 s hs)

/-- No line starts behind the end of the buffer. -/
theorem splits_length (source : Bytes) :
    (ofBytes source).Splits source.length (ofBytes source).lineCount := by
  refine splits_of_append (List.append_nil _).symm (fun s hs => ?_) ?_
  · rcases mem_starts.mp hs with rfl | ⟨i, rfl, hi⟩
    · exact Nat.zero_le _
    · exact (List.getElem?_eq_some_iff.mp hi).1
  · exact fun _ hs => absurd hs List.not_mem_nil

/-- An offset splits the table behind the start of the buffer and the starts that the line
feeds before it make, and nowhere else. -/
theorem splits_iff : (ofBytes source).Splits offset k ↔
    k = 1 + (source.take offset).count Byte.newline := by
  rw [← countP_starts]
  refine ⟨Splits.eq_countP, ?_⟩
  rintro rfl
  rw [← (splits_takeWhile source offset).eq_countP]
  exact splits_takeWhile source offset

theorem lineOf_eq (source : Bytes) (offset : Nat) :
    (ofBytes source).lineOf offset = (source.take offset).count Byte.newline := by
  rw [lineOf, splits_iff.mp (splits_takeWhile source offset), Nat.add_sub_cancel_left]

/-- The start of an offset's line is in the table, and the line reaches to the offset. -/
theorem exists_lineStart? (source : Bytes) (offset : Nat) :
    ∃ start, (ofBytes source).lineStart? ((ofBytes source).lineOf offset) = some start ∧
      source.OnLine start offset := by
  have hsplits : (ofBytes source).Splits offset ((ofBytes source).lineOf offset + 1) := by
    rw [splits_iff, lineOf_eq, Nat.add_comm]
  have hlt : (ofBytes source).lineOf offset < (ofBytes source).starts.length := hsplits.le
  have hfront := List.take_append_getElem hlt
  have hsorted := (pairwise_starts source).sublist
    (List.take_sublist ((ofBytes source).lineOf offset + 1) _)
  rw [← hfront, List.pairwise_append] at hsorted
  refine ⟨_, List.getElem?_eq_getElem hlt, ?_⟩
  constructor
  case le =>
    apply hsplits.before
    rw [← hfront]
    exact List.mem_append_right _ (List.mem_singleton_self _)
  case opens => exact mem_starts.mp (List.getElem_mem hlt)
  case unbroken =>
    intro i hstart hoffset hnewline
    -- a line starts behind the line feed, and so either at or before this start or too late
    have hmem := mem_starts.mpr (.inr ⟨i, rfl, hnewline⟩)
    rw [← List.take_append_drop ((ofBytes source).lineOf offset + 1) (ofBytes source).starts,
      List.mem_append, ← hfront, List.mem_append, List.mem_singleton] at hmem
    rcases hmem with (hbefore | heq) | hbehind
    · have := hsorted.2.2 _ hbefore _ (List.mem_singleton_self _)
      omega
    · omega
    · have := hsplits.behind _ hbehind
      omega

end LineIndex

/-! ## Positions -/

/-- A position is that of an offset in the source. -/
structure Position.Names (p : Position) (source : Bytes) (offset : Nat) : Prop where
  /-- the line is one more than the line feeds before the offset -/
  line : p.line.toNat = 1 + (source.take offset).count Byte.newline
  /-- it is found in the table of lines, in whatever way the table is searched -/
  splits_iff : ∀ k, (LineIndex.ofBytes source).Splits offset k ↔ k = p.line.toNat
  /-- the column counts from the start of the line, which the table has -/
  column : ∃ start, (LineIndex.ofBytes source).lineStart? (p.line.toNat - 1) = some start ∧
    source.OnLine start offset ∧ p.column.toNat = offset - start ∧
    start + p.column.toNat = offset

/-- A position names one offset only. -/
theorem Position.Names.unique {p : Position} {source : Bytes} {o₁ o₂ : Nat}
    (h₁ : p.Names source o₁) (h₂ : p.Names source o₂) : o₁ = o₂ := by
  obtain ⟨s₁, hs₁, -, -, ho₁⟩ := h₁.column
  obtain ⟨s₂, hs₂, -, -, ho₂⟩ := h₂.column
  obtain rfl : s₁ = s₂ := Option.some.inj (hs₁.symm.trans hs₂)
  omega

/-- Positions are in the order of the offsets that they name. -/
theorem Position.Names.lt {p q : Position} {source : Bytes} {o₁ o₂ : Nat}
    (hp : p.Names source o₁) (hq : q.Names source o₂) (hlt : o₁ < o₂) : p < q := by
  have hcount : (source.take o₁).count Byte.newline ≤ (source.take o₂).count Byte.newline :=
    (List.take_prefix_take_left (Nat.le_of_lt hlt)).count_le _
  have hpline := hp.line
  have hqline := hq.line
  rcases Nat.lt_or_ge p.line.toNat q.line.toNat with hline | hline
  · exact .inl (UInt32.lt_iff_toNat_lt.mpr hline)
  -- on the same line it is the columns that decide
  · have hsame : p.line = q.line := UInt32.toNat_inj.mp (by omega)
    obtain ⟨s₁, hs₁, -, -, ho₁⟩ := hp.column
    obtain ⟨s₂, hs₂, -, -, ho₂⟩ := hq.column
    rw [hsame] at hs₁
    obtain rfl : s₁ = s₂ := Option.some.inj (hs₁.symm.trans hs₂)
    exact .inr ⟨hsame, UInt32.lt_iff_toNat_lt.mpr (by omega)⟩

namespace LineIndex

variable {source : Bytes}

/-- An offset past the end has the position of the end. -/
theorem position_min (source : Bytes) (offset : Nat) :
    (ofBytes source).position (min offset source.length) = (ofBytes source).position offset := by
  simp only [position, length_ofBytes, Nat.min_assoc, Nat.min_self]

/-- The position of an offset in the buffer names it. -/
theorem names_position (hlength : source.length < UInt32.size - 1) {offset : Nat}
    (hle : offset ≤ source.length) : ((ofBytes source).position offset).Names source offset := by
  have hsize : UInt32.size = 4294967296 := rfl
  have hlineOf := lineOf_eq source offset
  obtain ⟨start, hstart, hon⟩ := exists_lineStart? source offset
  have hbound : (ofBytes source).lineOf offset ≤ source.length := by
    rw [hlineOf]
    exact List.count_le_length.trans (List.length_take_le' _ _)
  have hline : ((ofBytes source).position offset).line.toNat =
      (ofBytes source).lineOf offset + 1 := by
    have hsmall : (ofBytes source).lineOf offset < UInt32.size := by omega
    simp only [position, length_ofBytes, Nat.min_eq_left hle, UInt32.toNat_add,
      UInt32.toNat_ofNat_of_lt' hsmall, UInt32.toNat_one]
    exact Nat.mod_eq_of_lt (by omega)
  have hcolumn : ((ofBytes source).position offset).column.toNat = offset - start := by
    have hsmall : offset - start < UInt32.size := by omega
    simp only [position, length_ofBytes, Nat.min_eq_left hle, hstart, Option.getD_some]
    exact UInt32.toNat_ofNat_of_lt' hsmall
  constructor
  case line => rw [hline, hlineOf, Nat.add_comm]
  case splits_iff =>
    intro k
    rw [LineIndex.splits_iff, hline, hlineOf, Nat.add_comm]
  case column =>
    have := hon.le
    refine ⟨start, ?_, hon, hcolumn, by omega⟩
    rw [hline, Nat.add_sub_cancel, hstart]

/-- **Positions are an exact code of offsets, in their order.** In a buffer whose offsets fit
into a word, the position of an offset is that of its line and column; the later of two
offsets has the later position, no two have the same, and the last line is that of the end. -/
theorem position_exact (hlength : source.length < UInt32.size - 1) :
    (∀ offset, ((ofBytes source).position offset).Names source (min offset source.length)) ∧
    (∀ o₁ o₂, o₁ < o₂ → o₂ ≤ source.length →
      (ofBytes source).position o₁ < (ofBytes source).position o₂) ∧
    (∀ o₁ o₂, o₁ ≤ source.length → o₂ ≤ source.length →
      (ofBytes source).position o₁ = (ofBytes source).position o₂ → o₁ = o₂) ∧
    (ofBytes source).lineCount = ((ofBytes source).position source.length).line.toNat := by
  refine ⟨fun offset => ?_, fun o₁ o₂ hlt hle => ?_, fun o₁ o₂ hle₁ hle₂ heq => ?_, ?_⟩
  · rw [← position_min]
    exact names_position hlength (Nat.min_le_right _ _)
  · exact (names_position hlength (by omega)).lt (names_position hlength hle) hlt
  · have h₂ := names_position hlength hle₂
    rw [← heq] at h₂
    exact (names_position hlength hle₁).unique h₂
  · have hend := names_position hlength (Nat.le_refl _)
    exact (hend.splits_iff _).mp (splits_length source)

/-- Four lines: `ab`, `cd`, an empty one and `x`. -/
def fourLines : Bytes := [97, 98, 10, 99, 100, 10, 10, 120]

/-- The offsets around the line feeds of the four lines have these positions, and so has one
past the end. -/
theorem position_exact_fourLines :
    [0, 2, 3, 5, 6, 7, 100].map (ofBytes fourLines).position =
      [⟨1, 0⟩, ⟨1, 2⟩, ⟨2, 0⟩, ⟨2, 2⟩, ⟨3, 0⟩, ⟨4, 0⟩, ⟨4, 1⟩] ∧
    fourLines.length < UInt32.size - 1 ∧
    ((ofBytes fourLines).position 100).Names fourLines 8 ∧
    (ofBytes fourLines).position 6 < (ofBytes fourLines).position 7 ∧
    (ofBytes fourLines).lineCount = ((ofBytes fourLines).position 8).line.toNat := by
  have hlength : fourLines.length < UInt32.size - 1 := by decide
  obtain ⟨hnames, hlt, -, hcount⟩ := position_exact hlength
  exact ⟨by decide, hlength, hnames 100, hlt 6 7 (by decide) (by decide), hcount⟩

end LineIndex

end SpanTree

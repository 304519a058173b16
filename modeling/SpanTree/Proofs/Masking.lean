import SpanTree.Proofs.Pattern

/-!
# What masking keeps

The parser sees a pattern with the marks of its placeholders overwritten, and positions
and white space are read off what the parser sees. That makes no difference. Every byte
that is overwritten is the sigil or a dot (`isMark_of_mem_masked`), and neither these nor the
underscores in their place are white space: no grammar has a sigil that is. So line feeds
stand where they stood (`ofBytes_masked`), and what is blank with the marks overwritten is
blank without that (`all_isSpace_masked`).
-/

namespace SpanTree

/-- The lines of a buffer depend on where its line feeds stand alone. -/
theorem LineIndex.startsAfter_congr {bs cs : Bytes}
    (h : bs.map (· == Byte.newline) = cs.map (· == Byte.newline)) (offset : Nat) :
    startsAfter offset bs = startsAfter offset cs := by
  induction bs generalizing cs offset with
  | nil =>
    cases cs with
    | nil => rfl
    | cons c cs => cases h
  | cons b bs ih =>
    cases cs with
    | nil => cases h
    | cons c cs =>
      obtain ⟨hfirst, hrest⟩ := List.cons.inj h
      dsimp only at hfirst
      have hiff : b = Byte.newline ↔ c = Byte.newline := by
        rw [← beq_iff_eq, hfirst, beq_iff_eq]
      rw [startsAfter, startsAfter, ih hrest]
      simp only [hiff]

theorem Sigil.isSpace_byte (sigil : Sigil) : Byte.isSpace sigil.byte = false := by
  have hadmissible := sigil.admissible
  rw [isSigilChar, Bool.and_eq_true, Bool.not_eq_true'] at hadmissible
  exact hadmissible.2

/-- A line feed is white space. -/
theorem Byte.ne_newline {b : UInt8} (h : isSpace b = false) : b ≠ newline := by
  rintro rfl
  cases h

namespace Placeholder

/-! ## What is overwritten -/

/-- A metavariable starts with the sigil. -/
theorem exists_of_metavariableLength? {sigil : Sigil} {buffer : Bytes} {length : Nat}
    (h : metavariableLength? sigil buffer = some length) :
    ∃ afterSigil, buffer = sigil.byte :: afterSigil := by
  cases buffer with
  | nil => cases h
  | cons b afterSigil =>
    rw [metavariableLength?] at h
    split at h
    · next hsigil => exact ⟨afterSigil, by rw [hsigil]⟩
    · cases h

/-- A byte that marks a placeholder: the sigil or a dot. -/
def IsMark (sigil : Sigil) (b : UInt8) : Prop := b = sigil.byte ∨ b = Byte.dot

variable {sigil : Sigil} {fragment : Bytes} {s : Site}

theorem IsMark.isSpace {b : UInt8} (h : IsMark sigil b) : Byte.isSpace b = false := by
  rcases h with rfl | rfl
  · exact sigil.isSpace_byte
  · rfl

theorem isMark_of_mem_dots : ∀ b ∈ [Byte.dot, Byte.dot, Byte.dot], IsMark sigil b := by
  simp [IsMark]

/-- Of a metavariable the sigil and the dots are overwritten. -/
theorem IsMetavariable.isMark (h : IsMetavariable sigil fragment s) (style : WildcardStyle) :
    ∀ b ∈ fragment.slice (s.masked style).start (s.masked style).stop, IsMark sigil b := by
  obtain ⟨⟨start, stop⟩, kind⟩ := s
  obtain ⟨length, hlength, heq⟩ := h
  dsimp only at hlength heq
  obtain ⟨afterSigil, hbuffer⟩ := exists_of_metavariableLength? hlength
  rw [hbuffer] at heq
  cases heq
  rcases hdots : opensWithDots afterSigil with _ | _
  · have hslice : fragment.slice start (start + 1) = [sigil.byte] := by
      rw [Bytes.slice, hbuffer, Nat.add_sub_cancel_left]
      rfl
    simp only [Site.masked, List.drop_succ_cons, List.drop_zero, hdots]
    rw [hslice, List.forall_mem_singleton]
    exact .inl rfl
  · have hslice : fragment.slice start (start + 4) =
        sigil.byte :: [Byte.dot, Byte.dot, Byte.dot] := by
      rw [Bytes.slice, hbuffer, Nat.add_sub_cancel_left, List.take_succ_cons,
        opensWithDots_iff.mp hdots]
    simp only [Site.masked, List.drop_succ_cons, List.drop_zero, hdots]
    rw [hslice, List.forall_mem_cons]
    exact ⟨.inl rfl, isMark_of_mem_dots⟩

/-- Of a wildcard the dots are overwritten, or nothing is. -/
theorem IsWildcard.isMark {taken : List Site} (h : IsWildcard taken fragment s)
    (style : WildcardStyle) :
    ∀ b ∈ fragment.slice (s.masked style).start (s.masked style).stop, IsMark sigil b := by
  obtain ⟨⟨start, stop⟩, kind⟩ := s
  obtain ⟨heq, hdots, -⟩ := h
  dsimp only at heq hdots
  cases heq
  cases style with
  | native => simp [Site.masked, Bytes.slice_self]
  | identifier =>
    rw [Site.masked, Bytes.slice, Nat.add_sub_cancel_left, opensWithDots_iff.mp hdots]
    exact isMark_of_mem_dots

/-- **Nothing but marks is overwritten.** -/
theorem isMark_of_mem_masked (hs : s ∈ sites sigil fragment) (style : WildcardStyle) :
    ∀ b ∈ fragment.slice (s.masked style).start (s.masked style).stop, IsMark sigil b := by
  rcases (mem_sites sigil fragment).mp hs with hs | hs
  · exact ((inOrder_wildcards sigil fragment).forall_mem s hs).isMark style
  · exact ((inOrder_metavariables sigil fragment).forall_mem s hs).isMark style

/-! ## What stays the same -/

/-- A property that underscores share with the bytes that they replace stays where it was. -/
theorem map_mask {α : Type} {f : UInt8 → α} {style : WildcardStyle} {found : List Site}
    (h : ∀ s ∈ found, ∀ b ∈ fragment.slice (s.masked style).start (s.masked style).stop,
      f b = f Byte.underscore) :
    (mask style found fragment).map f = fragment.map f := by
  apply List.ext_getElem?
  intro i
  rw [List.getElem?_map, List.getElem?_map, mask, List.getElem?_mapIdx]
  rcases hi : fragment[i]? with _ | b
  · rfl
  · simp only [Option.map_some]
    split
    · next hany =>
      obtain ⟨s, hs, hcovers⟩ := List.any_eq_true.mp hany
      obtain ⟨hstart, hstop⟩ := Extent.covers_iff.mp hcovers
      rw [h s hs b (Bytes.mem_slice.mpr ⟨i, hstart, hstop, hi⟩)]
    · rfl

variable (sigil fragment) (style : WildcardStyle)

/-- **Masking moves no line.** -/
theorem ofBytes_masked :
    LineIndex.ofBytes (Placeholders.scan sigil style fragment).masked =
      LineIndex.ofBytes fragment := by
  have hnewline : (mask style (sites sigil fragment) fragment).map (· == Byte.newline) =
      fragment.map (· == Byte.newline) := by
    refine map_mask fun s hs b hb => ?_
    have hne := Byte.ne_newline (isMark_of_mem_masked hs style b hb).isSpace
    rw [beq_eq_false_iff_ne.mpr hne]
    rfl
  rw [Placeholders.scan, LineIndex.ofBytes, LineIndex.ofBytes,
    LineIndex.startsAfter_congr hnewline, length_mask]

/-- **Masking makes nothing blank** and leaves nothing blank that was not. -/
theorem all_isSpace_masked (start stop : Nat) :
    ((Placeholders.scan sigil style fragment).masked.slice start stop).all Byte.isSpace =
      (fragment.slice start stop).all Byte.isSpace := by
  have hspace : (mask style (sites sigil fragment) fragment).map Byte.isSpace =
      fragment.map Byte.isSpace :=
    map_mask fun s hs b hb => (isMark_of_mem_masked hs style b hb).isSpace
  have hall : ∀ buffer : Bytes, (buffer.slice start stop).all Byte.isSpace =
      (((buffer.map Byte.isSpace).drop start).take (stop - start)).all id := by
    intro buffer
    rw [← List.map_drop, ← List.map_take, List.all_map]
    rfl
  rw [hall, hall, ← hspace]
  rfl

end Placeholder

end SpanTree

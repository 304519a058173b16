import SpanTree.Placeholder
import SpanTree.Text.Utf8
import SpanTree.Proofs.Tiling

/-!
# Where placeholders stand

The two passes over a fragment give their sites from left to right, each site behind
the one before it (`InOrder`): after a match the scan skips to the end of the match. A
wildcard is apart from every metavariable because the second pass looks at the sites of
the first. So when the wildcards are inserted among the metavariables by where they
start, the sites come out in order without overlapping (`separated_sites`), and each
of them spells its kind in the fragment (`spelled_of_mem_sites`).
-/

namespace SpanTree

/-! ## Ranges in order -/

/-- The range of a span. -/
def Span.extent (s : Span) : Extent := ⟨s.start, s.stop⟩

namespace Extent

/-- Ranges that all hold something, each ending before the next ones start. -/
structure Separated (es : List Extent) : Prop where
  nonempty : ∀ e ∈ es, e.start < e.stop
  apart : es.Pairwise fun e f => e.stop ≤ f.start

theorem Separated.sublist {es fs : List Extent} (h : Separated fs) (hsub : es.Sublist fs) :
    Separated es where
  nonempty e he := h.nonempty e (hsub.mem he)
  apart := h.apart.sublist hsub

/-- Ranges in order are different ranges. -/
theorem Separated.nodup {es : List Extent} (h : Separated es) : es.Nodup := by
  refine (List.Pairwise.imp_of_mem ?_ h.apart : es.Pairwise (· ≠ ·))
  rintro e f he - hlt rfl
  have := h.nonempty e he
  omega

/-- What is behind the others in a list of ranges in order. -/
theorem Separated.lt_of_append {es : List Extent} {f : Extent}
    (h : Separated (es ++ [f])) : ∀ e ∈ es, e.start < e.stop ∧ e.stop ≤ f.start := by
  intro e he
  refine ⟨h.nonempty e (List.mem_append_left _ he), ?_⟩
  exact (List.pairwise_append.mp h.apart).2.2 e he f (List.mem_singleton_self f)

/-- One of the two ranges ends before the other one starts. -/
def Apart (e f : Extent) : Prop := e.stop ≤ f.start ∨ f.stop ≤ e.start

theorem Apart.symm {e f : Extent} (h : e.Apart f) : f.Apart e := Or.symm h

/-- Ranges that are apart from each other are in order if their starts are. -/
theorem separated_of_sorted {es : List Extent} (hne : ∀ e ∈ es, e.start < e.stop)
    (hapart : es.Pairwise Apart) (hsorted : es.Pairwise fun e f => e.start ≤ f.start) :
    Separated es where
  nonempty := hne
  apart := by
    refine List.Pairwise.imp_of_mem ?_ (hapart.and hsorted)
    rintro e f - hf ⟨hef | hfe, hle⟩
    · exact hef
    · have := hne f hf
      omega

end Extent

/-! ## ASCII text -/

namespace Utf8

theorem piece_of_ascii {b : UInt8} (h : b < 0x80) (rest : Bytes) :
    piece b rest = .scalar (Char.ofNat b.toNat) 1 := by
  simp [piece, continuations, h, agreeing, codePoint]

/-- Every ASCII byte is read as the character of its code. -/
theorem decodeLenient_of_ascii {buffer : Bytes} (h : ∀ b ∈ buffer, b < 0x80) :
    decodeLenient buffer = Placeholder.asciiText buffer := by
  rw [decodeLenient, Placeholder.asciiText, pieces]
  congr 1
  induction buffer with
  | nil => rfl
  | cons b rest ih =>
    rw [List.forall_mem_cons] at h
    rw [piecesFrom, piece_of_ascii h.1, List.map_cons, List.map_cons, Piece.lenient]
    exact congrArg _ (ih h.2)

end Utf8

theorem Sigil.toNat_char_lt (sigil : Sigil) : sigil.char.toNat < 128 := by
  have hadmissible := sigil.admissible
  simp only [isSigilChar, Bool.and_eq_true, decide_eq_true_eq] at hadmissible
  exact hadmissible.1.1

theorem Sigil.byte_lt (sigil : Sigil) : sigil.byte < 0x80 := by
  rw [byte, UInt8.lt_iff_toNat_lt, UInt8.toNat_ofNat']
  exact Nat.lt_of_le_of_lt (Nat.mod_le _ _) sigil.toNat_char_lt

/-- The classes that the passes look at are ASCII. -/
theorem Byte.lt_of_isOperandEnd {b : UInt8} (h : isOperandEnd b = true) : b < 0x80 := by
  simp only [isOperandEnd, isIdentifier, isAlphanumeric, isUpper, isLower, isDigit, underscore,
    Bool.or_eq_true, decide_eq_true_eq, beq_iff_eq, UInt8.le_iff_toNat_le, ← UInt8.toNat_inj] at h
  rw [UInt8.lt_iff_toNat_lt]
  simp only [UInt8.reduceToNat] at h ⊢
  omega

theorem Byte.lt_of_isIdentifier {b : UInt8} (h : isIdentifier b = true) : b < 0x80 := by
  refine lt_of_isOperandEnd ?_
  rw [isOperandEnd, h, Bool.true_or, Bool.true_or]

theorem Byte.isIdentifier_of_isNameRest {b : UInt8} (h : isNameRest b = true) :
    isIdentifier b = true := by
  simp only [isNameRest, isNameStart, isIdentifier, isAlphanumeric, Bool.or_eq_true] at h ⊢
  rcases h with (hupper | hunderscore) | hdigit
  · exact .inl (.inl (.inr hupper))
  · exact .inr hunderscore
  · exact .inl (.inl (.inl hdigit))

theorem Byte.lt_of_isNameRest {b : UInt8} (h : isNameRest b = true) : b < 0x80 :=
  lt_of_isIdentifier (isIdentifier_of_isNameRest h)

/-- The text that a site has in the fragment. -/
def SiteKind.spelling : SiteKind → String
  | metavariable name _ => name
  | wildcard => "..."

/-- A site spells its kind in a fragment: it is a range of the fragment that is not empty,
and what stands there is ASCII and reads as the kind says. -/
structure Site.Spelled (fragment : Bytes) (s : Site) : Prop where
  lt : s.extent.start < s.extent.stop
  le : s.extent.stop ≤ fragment.length
  ascii : ∀ b ∈ fragment.slice s.extent.start s.extent.stop, b < 0x80
  text : Placeholder.asciiText (fragment.slice s.extent.start s.extent.stop) = s.kind.spelling

namespace Placeholder

/-! ## The two kinds of match -/

theorem opensWithDots_iff {buffer : Bytes} :
    opensWithDots buffer = true ↔ buffer.take 3 = [Byte.dot, Byte.dot, Byte.dot] := by
  rcases buffer with _ | ⟨a, _ | ⟨b, _ | ⟨c, rest⟩⟩⟩ <;>
    simp [opensWithDots, and_assoc]

theorem lt_of_mem_dots : ∀ b ∈ [Byte.dot, Byte.dot, Byte.dot], b < 0x80 := by
  have hdot : Byte.dot < 0x80 := by decide
  simp [hdot]

/-- The bytes between the sigil and the name of a metavariable. -/
theorem take_markLength (afterSigil : Bytes) :
    afterSigil.take (markLength afterSigil - 1) =
      if opensWithDots afterSigil then [Byte.dot, Byte.dot, Byte.dot] else [] := by
  rw [markLength]
  split
  · next hdots => exact opensWithDots_iff.mp hdots
  · rfl

/-- What a metavariable consists of: the sigil, the dots or none, and a name. -/
theorem exists_name_of_metavariableLength? {sigil : Sigil} {buffer : Bytes} {length : Nat}
    (h : metavariableLength? sigil buffer = some length) :
    length ≤ buffer.length ∧ ∃ name, name ≠ [] ∧ (∀ b ∈ name, Byte.isNameRest b = true) ∧
      buffer.take length = sigil.byte ::
        ((if opensWithDots (buffer.drop 1) then [Byte.dot, Byte.dot, Byte.dot] else []) ++ name) := by
  rcases buffer with _ | ⟨b, afterSigil⟩
  · cases h
  rw [metavariableLength?] at h
  split at h
  · next hsigil =>
    split at h
    · cases h
    · next first rest hdrop =>
      split at h
      · next hfirst =>
        cases h
        -- the length counts the sigil and the dots, the first byte of the name, and its run
        have hmark : markLength afterSigil = markLength afterSigil - 1 + 1 := by
          rw [markLength]
          split <;> rfl
        have hname : rest.take (rest.takeWhile Byte.isNameRest).length =
            rest.takeWhile Byte.isNameRest :=
          (List.prefix_iff_eq_take.mp (List.takeWhile_prefix _)).symm
        refine ⟨?_, first :: rest.takeWhile Byte.isNameRest, List.cons_ne_nil _ _, ?_, ?_⟩
        · have hlen := congrArg List.length hdrop
          have hle := (List.takeWhile_prefix (l := rest) Byte.isNameRest).length_le
          simp only [List.length_drop, List.length_cons] at hlen ⊢
          omega
        · rw [List.forall_mem_cons]
          refine ⟨?_, List.all_eq_true.mp List.all_takeWhile⟩
          simp only [Byte.isNameRest, hfirst, Bool.true_or]
        · have hlength : markLength afterSigil + 1 + (rest.takeWhile Byte.isNameRest).length =
              markLength afterSigil - 1 + ((rest.takeWhile Byte.isNameRest).length + 1) + 1 := by
            omega
          rw [hlength, List.take_succ_cons, List.take_add, hdrop, List.take_succ_cons, hname,
            take_markLength, hsigil]
          rfl
      · cases h
  · cases h

/-- A metavariable is written in ASCII. -/
theorem lt_of_mem_take {sigil : Sigil} {buffer : Bytes} {length : Nat}
    (h : metavariableLength? sigil buffer = some length) : ∀ b ∈ buffer.take length, b < 0x80 := by
  obtain ⟨-, name, -, hname, htake⟩ := exists_name_of_metavariableLength? h
  rw [htake, List.forall_mem_cons, List.forall_mem_append]
  refine ⟨sigil.byte_lt, ?_, fun b hb => Byte.lt_of_isNameRest (hname b hb)⟩
  split
  · exact lt_of_mem_dots
  · exact fun b hb => absurd hb List.not_mem_nil

/-- A site at which a metavariable stands. -/
def IsMetavariable (sigil : Sigil) (fragment : Bytes) (s : Site) : Prop :=
  ∃ length, metavariableLength? sigil (fragment.drop s.extent.start) = some length ∧
    s = metavariableSite s.extent.start length (fragment.drop s.extent.start)

/-- A site at which three dots stand that belong to none of the sites taken. -/
structure IsWildcard (taken : List Site) (fragment : Bytes) (s : Site) : Prop where
  eq : s = ⟨⟨s.extent.start, s.extent.start + 3⟩, .wildcard⟩
  dots : opensWithDots (fragment.drop s.extent.start) = true
  apart : ∀ t ∈ taken, t.extent.Apart s.extent

theorem IsMetavariable.spelled {sigil : Sigil} {fragment : Bytes} {s : Site}
    (h : IsMetavariable sigil fragment s) : s.Spelled fragment := by
  obtain ⟨⟨start, stop⟩, kind⟩ := s
  obtain ⟨length, hlength, heq⟩ := h
  dsimp only [metavariableSite] at hlength heq
  cases heq
  obtain ⟨hle, name, -, -, htake⟩ := exists_name_of_metavariableLength? hlength
  have hpos : 0 < length := by
    refine Nat.pos_of_ne_zero fun hzero => ?_
    rw [hzero, List.take_zero] at htake
    cases htake
  have hslice : fragment.slice start (start + length) = (fragment.drop start).take length := by
    rw [Bytes.slice, Nat.add_sub_cancel_left]
  refine ⟨Nat.lt_add_of_pos_right hpos, ?_, ?_, ?_⟩
  · simp only [List.length_drop] at hle
    show start + length ≤ fragment.length
    omega
  · show ∀ b ∈ fragment.slice start (start + length), b < 0x80
    rw [hslice]
    exact lt_of_mem_take hlength
  · show asciiText (fragment.slice start (start + length)) = _
    rw [hslice]
    rfl

theorem IsWildcard.spelled {taken : List Site} {fragment : Bytes} {s : Site}
    (h : IsWildcard taken fragment s) : s.Spelled fragment := by
  obtain ⟨⟨start, stop⟩, kind⟩ := s
  obtain ⟨heq, hdots, -⟩ := h
  dsimp only at hdots heq
  cases heq
  rw [opensWithDots_iff] at hdots
  have hslice : fragment.slice start (start + 3) = [Byte.dot, Byte.dot, Byte.dot] := by
    rw [Bytes.slice, Nat.add_sub_cancel_left, hdots]
  refine ⟨Nat.lt_add_of_pos_right (by decide), ?_, ?_, ?_⟩
  · have hlen := congrArg List.length hdots
    simp only [List.length_take, List.length_drop, List.length_cons, List.length_nil] at hlen
    show start + 3 ≤ fragment.length
    omega
  · show ∀ b ∈ fragment.slice start (start + 3), b < 0x80
    rw [hslice]
    exact lt_of_mem_dots
  · show asciiText (fragment.slice start (start + 3)) = "..."
    rw [hslice]
    rfl

/-! ## The two passes -/

/-- Sites that all have a property, in order: the first starts at the offset or later, and
each next one starts where the one before it ends, or later. -/
def InOrder (P : Site → Prop) : Nat → List Site → Prop
  | _, [] => True
  | offset, s :: later => offset ≤ s.extent.start ∧ P s ∧ InOrder P s.extent.stop later

section InOrder

variable {P : Site → Prop}

theorem InOrder.mono {offset offset' : Nat} {found : List Site} (h : InOrder P offset found)
    (hle : offset' ≤ offset) : InOrder P offset' found := by
  cases found with
  | nil => trivial
  | cons s later => exact ⟨Nat.le_trans hle h.1, h.2⟩

theorem InOrder.forall_mem {offset : Nat} {found : List Site} (h : InOrder P offset found) :
    ∀ s ∈ found, P s := by
  induction found generalizing offset with
  | nil => exact fun s hs => absurd hs List.not_mem_nil
  | cons s later ih => exact List.forall_mem_cons.mpr ⟨h.2.1, ih h.2.2⟩

/-- Where sites are never empty, those in order all start at the offset or later. -/
theorem InOrder.le_start (hP : ∀ s, P s → s.extent.start < s.extent.stop) {offset : Nat}
    {found : List Site} (h : InOrder P offset found) : ∀ s ∈ found, offset ≤ s.extent.start := by
  induction found generalizing offset with
  | nil => exact fun s hs => absurd hs List.not_mem_nil
  | cons s later ih =>
    obtain ⟨hle, hs, hlater⟩ := h
    refine List.forall_mem_cons.mpr ⟨hle, ih (hlater.mono ?_)⟩
    have := hP s hs
    omega

theorem InOrder.separated (hP : ∀ s, P s → s.extent.start < s.extent.stop) {offset : Nat}
    {found : List Site} (h : InOrder P offset found) :
    Extent.Separated (found.map (·.extent)) := by
  constructor
  · exact List.forall_mem_map.mpr fun s hs => hP s (h.forall_mem s hs)
  · rw [List.pairwise_map]
    induction found generalizing offset with
    | nil => exact List.Pairwise.nil
    | cons s later ih => exact List.pairwise_cons.mpr ⟨h.2.2.le_start hP, ih h.2.2⟩

end InOrder

/-- The first pass finds metavariables in order. -/
theorem inOrder_metavariablesFrom (sigil : Sigil) {fragment buffer : Bytes} {offset : Nat}
    (skip : Nat) (previous : Option UInt8) (hbuffer : fragment.drop offset = buffer) :
    InOrder (IsMetavariable sigil fragment) (offset + skip)
      (metavariablesFrom sigil offset skip previous buffer) := by
  induction buffer generalizing offset skip previous with
  | nil =>
    rw [metavariablesFrom]
    trivial
  | cons b rest ih =>
    have hrest : fragment.drop (offset + 1) = rest := by
      rw [← List.tail_drop, hbuffer, List.tail_cons]
    rcases skip with _ | skip
    · rw [metavariablesFrom]
      split
      · exact (ih 0 _ hrest).mono (by omega)
      · next length hlength =>
        -- the bytes of the match are passed over, so what is found later starts behind it
        have hlater := (ih (length - 1) (some b) hrest).mono
          (show offset + length ≤ offset + 1 + (length - 1) by omega)
        dsimp only
        split
        · exact hlater.mono (by omega)
        · exact ⟨Nat.le_refl _, ⟨length, hbuffer ▸ hlength, hbuffer ▸ rfl⟩, hlater⟩
    · rw [metavariablesFrom]
      exact (ih skip _ hrest).mono (by omega)

/-- The second pass finds wildcards in order, apart from what the first pass found. -/
theorem inOrder_wildcardsFrom (taken : List Site) {fragment buffer : Bytes} {offset : Nat}
    (skip : Nat) (previous : Option UInt8) (hbuffer : fragment.drop offset = buffer) :
    InOrder (IsWildcard taken fragment) (offset + skip)
      (wildcardsFrom taken offset skip previous buffer) := by
  induction buffer generalizing offset skip previous with
  | nil =>
    rw [wildcardsFrom]
    trivial
  | cons b rest ih =>
    have hrest : fragment.drop (offset + 1) = rest := by
      rw [← List.tail_drop, hbuffer, List.tail_cons]
    rcases skip with _ | skip
    · rw [wildcardsFrom]
      split
      · next hdots =>
        -- the dots are passed over as well, whether they are a wildcard or not
        have hlater := (ih 2 (some b) hrest).mono (show offset + 3 ≤ offset + 1 + 2 by omega)
        have hpassed := hlater.mono (show offset + 0 ≤ offset + 3 by omega)
        dsimp only
        split
        · exact hpassed
        · next hfree =>
          split
          · exact hpassed
          · split
            · exact hpassed
            · refine ⟨Nat.le_refl _, ⟨rfl, hbuffer ▸ hdots, fun t ht => ?_⟩, hlater⟩
              have happart : ¬t.extent.overlaps offset (offset + 3) = true := fun h =>
                hfree (List.any_eq_true.mpr ⟨t, ht, h⟩)
              simp only [Extent.overlaps, decide_eq_true_eq] at happart
              rw [Extent.Apart]
              dsimp only
              omega
      · exact (ih 0 _ hrest).mono (by omega)
    · rw [wildcardsFrom]
      exact (ih skip _ hrest).mono (by omega)

/-! ## All sites of a fragment -/

/-- Sites by where they start. -/
def Sorted (found : List Site) : Prop :=
  found.Pairwise fun s t => s.extent.start ≤ t.extent.start

theorem insertSite_perm (s : Site) (found : List Site) : (insertSite s found).Perm (s :: found) := by
  induction found with
  | nil => exact .refl _
  | cons t rest ih =>
    rw [insertSite]
    split
    · exact (ih.cons t).trans (.swap s t rest)
    · exact .refl _

theorem Sorted.insertSite {found : List Site} (h : Sorted found) (s : Site) :
    Sorted (insertSite s found) := by
  induction found with
  | nil => exact List.pairwise_singleton _ s
  | cons t rest ih =>
    obtain ⟨ht, hrest⟩ := List.pairwise_cons.mp h
    rw [Placeholder.insertSite]
    split
    · next hle =>
      refine List.pairwise_cons.mpr ⟨fun u hu => ?_, ih hrest⟩
      rcases List.mem_cons.mp ((insertSite_perm s rest).mem_iff.mp hu) with rfl | hu
      · exact hle
      · exact ht u hu
    · next hlt =>
      refine List.pairwise_cons.mpr ⟨fun u hu => ?_, h⟩
      rcases List.mem_cons.mp hu with rfl | hu
      · omega
      · have := ht u hu
        omega

theorem foldl_insertSite_perm (more found : List Site) :
    (more.foldl (fun found s => insertSite s found) found).Perm (more ++ found) := by
  induction more generalizing found with
  | nil => exact .refl _
  | cons s more ih =>
    refine (ih (insertSite s found)).trans ?_
    exact ((insertSite_perm s found).append_left more).trans List.perm_middle

theorem Sorted.foldl_insertSite {found : List Site} (h : Sorted found) (more : List Site) :
    Sorted (more.foldl (fun found s => Placeholder.insertSite s found) found) := by
  induction more generalizing found with
  | nil => exact h
  | cons s more ih => exact ih (h.insertSite s)

variable (sigil : Sigil) (fragment : Bytes)

/-- The metavariables of a fragment. -/
def metavariables : List Site := metavariablesFrom sigil 0 0 none fragment

/-- The wildcards of a fragment. -/
def wildcards : List Site := wildcardsFrom (metavariables sigil fragment) 0 0 none fragment

theorem sites_perm :
    (sites sigil fragment).Perm (wildcards sigil fragment ++ metavariables sigil fragment) :=
  foldl_insertSite_perm _ _

theorem inOrder_metavariables :
    InOrder (IsMetavariable sigil fragment) 0 (metavariables sigil fragment) :=
  inOrder_metavariablesFrom sigil 0 none rfl

theorem inOrder_wildcards :
    InOrder (IsWildcard (metavariables sigil fragment) fragment) 0 (wildcards sigil fragment) :=
  inOrder_wildcardsFrom _ 0 none rfl

/-- A site is one of a metavariable or one of a wildcard. -/
theorem mem_sites {s : Site} : s ∈ sites sigil fragment ↔
    s ∈ wildcards sigil fragment ∨ s ∈ metavariables sigil fragment := by
  rw [(sites_perm sigil fragment).mem_iff, List.mem_append]

/-- **Every site spells its kind** in the fragment. -/
theorem spelled_of_mem_sites : ∀ s ∈ sites sigil fragment, s.Spelled fragment := by
  intro s hs
  rcases (mem_sites sigil fragment).mp hs with hs | hs
  · exact ((inOrder_wildcards sigil fragment).forall_mem s hs).spelled
  · exact ((inOrder_metavariables sigil fragment).forall_mem s hs).spelled

/-- **The sites of a fragment are in order**, and no two of them overlap. -/
theorem separated_sites : Extent.Separated ((sites sigil fragment).map (·.extent)) := by
  have hmetavariables := (inOrder_metavariables sigil fragment).separated fun _ h => h.spelled.lt
  have hwildcards := (inOrder_wildcards sigil fragment).separated fun _ h => h.spelled.lt
  -- being apart does not depend on the order, so it may be shown before the sites are sorted
  refine Extent.separated_of_sorted ?_ ?_ ?_
  · exact List.forall_mem_map.mpr fun s hs => (spelled_of_mem_sites sigil fragment s hs).lt
  · rw [List.pairwise_map, (sites_perm sigil fragment).pairwise_iff Extent.Apart.symm,
      List.pairwise_append]
    refine ⟨?_, ?_, fun w hw m hm => ?_⟩
    · exact (List.pairwise_map.mp hwildcards.apart).imp Or.inl
    · exact (List.pairwise_map.mp hmetavariables.apart).imp Or.inl
    · exact (((inOrder_wildcards sigil fragment).forall_mem w hw).apart m hm).symm
  · have hsorted : Sorted (metavariables sigil fragment) :=
      List.Pairwise.imp_of_mem (fun {s t} hs _ hle => by
        have := ((inOrder_metavariables sigil fragment).forall_mem s hs).spelled.lt
        omega) (List.pairwise_map.mp hmetavariables.apart)
    rw [List.pairwise_map]
    exact hsorted.foldl_insertSite (wildcards sigil fragment)

end Placeholder

end SpanTree

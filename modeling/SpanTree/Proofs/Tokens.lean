import Mathlib.Data.List.Pairwise
import SpanTree.Proofs.Unmasking
import SpanTree.Proofs.Wildcards

/-!
# Placeholders that are parsed as tokens

A placeholder is parsed as an identifier of its own if in the masked fragment no byte of an
identifier stands next to it. The passes look at the bytes next to it before the fragment is
masked, and masking makes new bytes of identifiers: a wildcard becomes underscores in front of
a metavariable, and a metavariable becomes a name behind a wildcard. No other placeholders
touch (`kinds_of_touching`). Of the bytes that were there only a small letter behind a
metavariable is let pass, since its name goes on with capitals alone (`behind_of_mem_sites`).
So a placeholder stands alone exactly if no other one touches it and no small letter follows
(`standsAlone_masked_iff`).
-/

namespace SpanTree

/-- No byte of an identifier stands next to a range. -/
def Bytes.StandsAlone (buffer : Bytes) (e : Extent) : Prop :=
  (buffer.before? e.start).any Byte.isIdentifier = false ∧
    (buffer[e.stop]?).any Byte.isIdentifier = false

instance (buffer : Bytes) (e : Extent) : Decidable (buffer.StandsAlone e) :=
  inferInstanceAs (Decidable (_ ∧ _))

instance : Std.Symm Extent.Apart := ⟨fun _ _ => Extent.Apart.symm⟩

namespace Byte

theorem isIdentifier_of_isOperandEnd {b : Option UInt8} (h : b.any isOperandEnd = false) :
    b.any isIdentifier = false := by
  rcases b with _ | b
  · rfl
  · simp only [Option.any_some, isOperandEnd, Bool.or_eq_false_iff] at h ⊢
    exact h.1.1

/-- A byte of an identifier that does not continue a name is a small letter. -/
theorem isIdentifier_iff_isLower {b : Option UInt8} (h : b.any isNameRest = false) :
    b.any isIdentifier = b.any isLower := by
  rcases b with _ | b
  · rfl
  · simp only [Option.any_some, isNameRest, isNameStart, Bool.or_eq_false_iff] at h
    simp only [Option.any_some, isIdentifier, isAlphanumeric, h, Bool.false_or, Bool.or_false]

theorem isLower_of_isIdentifier {b : Option UInt8} (h : b.any isIdentifier = false) :
    b.any isLower = false := by
  rcases b with _ | b
  · rfl
  · simp only [Option.any_some, isIdentifier, isAlphanumeric, Bool.or_eq_false_iff] at h ⊢
    exact h.1.2

end Byte

namespace Placeholder

variable {sigil : Sigil} {fragment : Bytes} {s t : Site}

/-! ## What the passes see -/

/-- In front of a site there was no byte of an identifier. -/
theorem before_of_mem_sites (hs : s ∈ sites sigil fragment) :
    (fragment.before? s.extent.start).any Byte.isIdentifier = false := by
  rcases (mem_sites sigil fragment).mp hs with hs | hs
  · exact Byte.isIdentifier_of_isOperandEnd (mem_wildcards_iff.mp hs).before
  · exact before_of_mem_metavariablesFrom 0 rfl rfl s hs

/-- Behind a wildcard there was no byte of an identifier. -/
theorem behind_of_mem_wildcards (hs : s ∈ wildcards sigil fragment) :
    (fragment[s.extent.stop]?).any Byte.isIdentifier = false := by
  have hstands := mem_wildcards_iff.mp hs
  rw [hstands.stop_eq]
  exact (continuesDots_eq_false_iff.mp hstands.behind).1

/-- Behind a site there was no byte of an identifier except for a small letter. -/
theorem behind_of_mem_sites (hs : s ∈ sites sigil fragment) :
    (fragment[s.extent.stop]?).any Byte.isIdentifier =
      (fragment[s.extent.stop]?).any Byte.isLower := by
  rcases (mem_sites sigil fragment).mp hs with hs | hs
  · have hbehind := behind_of_mem_wildcards hs
    rw [hbehind, Byte.isLower_of_isIdentifier hbehind]
  · have hspot := (inOrder_metavariables sigil fragment).forall_mem s hs
    exact Byte.isIdentifier_iff_isLower (hspot.run_name .identifier).stops

/-! ## Sites that touch -/

/-- Two sites are at the same range, or one is behind the other. -/
theorem extent_cases (hs : s ∈ sites sigil fragment) (ht : t ∈ sites sigil fragment) :
    t.extent = s.extent ∨ t.extent.Apart s.extent := by
  have hsep := separated_sites sigil fragment
  have hapart : ((sites sigil fragment).map (·.extent)).Pairwise Extent.Apart := hsep.apart.imp .inl
  refine or_iff_not_imp_left.mpr fun hne => ?_
  exact hapart.forall (List.mem_map_of_mem ht) (List.mem_map_of_mem hs) hne

/-- What is overwritten beside a site belongs to another one, apart from it. -/
theorem apart_of_covers (hs : s ∈ sites sigil fragment) (ht : t ∈ sites sigil fragment)
    {style : WildcardStyle} {i : Nat} (hcovers : (t.masked style).covers i = true)
    (hi : i < s.extent.start ∨ s.extent.stop ≤ i) :
    t.extent.start ≤ i ∧ i < t.extent.stop ∧
      (t.extent.stop ≤ s.extent.start ∨ s.extent.stop ≤ t.extent.start) := by
  rw [Extent.covers_iff] at hcovers
  have hwithin := masked_within ht style
  refine ⟨by omega, by omega, (extent_cases hs ht).resolve_left fun heq => ?_⟩
  rw [heq] at hwithin
  omega

/-- If one site ends where another starts, the one is a wildcard and the other a metavariable. -/
theorem kinds_of_touching (hs : s ∈ sites sigil fragment) (ht : t ∈ sites sigil fragment)
    (htouch : t.extent.stop = s.extent.start) : t.kind = .wildcard ∧ s.kind ≠ .wildcard := by
  rcases (mem_sites sigil fragment).mp ht with ht | ht
  · have hstands := mem_wildcards_iff.mp ht
    refine ⟨hstands.kind_eq, fun hkind => ?_⟩
    -- another wildcard would have a dot behind this one
    have hdots := (mem_wildcards_iff.mp (mem_wildcards_of_mem_sites hs hkind)).dots
    rw [← htouch, hstands.stop_eq] at hdots
    exact (continuesDots_eq_false_iff.mp hstands.behind).2 (opensWithDots_iff_getElem?.mp hdots).1
  · -- the last byte of a metavariable would be in front of the other site
    have hrun := ((inOrder_metavariables sigil fragment).forall_mem t ht).run_name .identifier
    have hlt := hrun.lt
    obtain ⟨k, hk⟩ := Nat.exists_eq_succ_of_ne_zero (show s.extent.start ≠ 0 by omega)
    have hbefore := before_of_mem_sites hs
    have hlast := isIdentifier_of_isNameRest (hrun.all k (by omega) (by omega))
    rw [hk, Bytes.before?, hlast] at hbefore
    cases hbefore

/-! ## What stands next to a masked site -/

/-- In front of a masked site there is a byte of an identifier exactly if another one ends there. -/
theorem any_before_masked_iff (hs : s ∈ sites sigil fragment) :
    ((mask .identifier (sites sigil fragment) fragment).before? s.extent.start).any
        Byte.isIdentifier = true ↔
      ∃ t ∈ sites sigil fragment, t.extent.stop = s.extent.start := by
  have hbefore := before_of_mem_sites hs
  rcases hk : s.extent.start with _ | k
  · refine iff_of_false nofun ?_
    rintro ⟨t, ht, htouch⟩
    have := (spelled_of_mem_sites sigil fragment t ht).lt
    omega
  · rw [hk, Bytes.before?] at hbefore
    rw [Bytes.before?]
    constructor
    · intro hmask
      rcases any_isIdentifier_mask.mp hmask with ⟨-, t, ht, hcovers⟩ | hany
      · obtain ⟨hstart, hstop, happart⟩ := apart_of_covers hs ht hcovers (by omega)
        have hlt := (spelled_of_mem_sites sigil fragment s hs).lt
        exact ⟨t, ht, by omega⟩
      · rw [hbefore] at hany
        cases hany
    · rintro ⟨t, ht, htouch⟩
      have hlt := (spelled_of_mem_sites sigil fragment t ht).lt
      exact any_isIdentifier_mask_of_mem ht (.inr rfl) (by omega) (by omega)

/-- Behind a masked site there is a byte of an identifier exactly if another one starts there, or
there was a small letter. -/
theorem any_behind_masked_iff (hs : s ∈ sites sigil fragment) :
    ((mask .identifier (sites sigil fragment) fragment)[s.extent.stop]?).any Byte.isIdentifier =
        true ↔
      (∃ t ∈ sites sigil fragment, t.extent.start = s.extent.stop) ∨
        (fragment[s.extent.stop]?).any Byte.isLower = true := by
  rw [any_isIdentifier_mask, behind_of_mem_sites hs]
  refine or_congr_left ⟨?_, ?_⟩
  · rintro ⟨-, t, ht, hcovers⟩
    obtain ⟨hstart, hstop, happart⟩ := apart_of_covers hs ht hcovers (by omega)
    have hlt := (spelled_of_mem_sites sigil fragment s hs).lt
    exact ⟨t, ht, by omega⟩
  · rintro ⟨t, ht, htouch⟩
    have hspelled := spelled_of_mem_sites sigil fragment t ht
    have hlt := hspelled.lt
    have hle := hspelled.le
    refine ⟨by omega, t, ht, ?_⟩
    rw [← htouch]
    exact (masked_opens ht (.inr rfl)).1

end Placeholder

namespace Placeholders

variable {sigil : Sigil} {fragment : Bytes} {s : Site}

/-- **A masked placeholder is a token of its own exactly if no other one touches it** and no
small letter follows it. Those that touch are a wildcard and the metavariable behind it, and
small letters follow metavariables alone. -/
theorem standsAlone_masked_iff (hs : s ∈ (scan sigil .identifier fragment).sites) :
    ((scan sigil .identifier fragment).masked.StandsAlone s.extent ↔
      (∀ t ∈ (scan sigil .identifier fragment).sites,
        t.extent.stop ≠ s.extent.start ∧ t.extent.start ≠ s.extent.stop) ∧
      (fragment[s.extent.stop]?).any Byte.isLower = false) ∧
    (∀ t ∈ (scan sigil .identifier fragment).sites, t.extent.stop = s.extent.start →
      t.kind = .wildcard ∧ s.kind ≠ .wildcard) ∧
    (s.kind = .wildcard → (fragment[s.extent.stop]?).any Byte.isLower = false) := by
  rw [scan] at hs ⊢
  dsimp only at hs ⊢
  refine ⟨?_, fun t ht => Placeholder.kinds_of_touching hs ht, fun hkind => ?_⟩
  · rw [Bytes.StandsAlone, ← Bool.not_eq_true, ← Bool.not_eq_true,
      Placeholder.any_before_masked_iff hs, Placeholder.any_behind_masked_iff hs,
      ← Bool.not_eq_true]
    constructor
    · rintro ⟨hbefore, hbehind⟩
      rw [not_or] at hbehind
      exact ⟨fun t ht => ⟨fun h => hbefore ⟨t, ht, h⟩, fun h => hbehind.1 ⟨t, ht, h⟩⟩, hbehind.2⟩
    · rintro ⟨htouch, hlower⟩
      constructor
      · rintro ⟨t, ht, h⟩
        exact (htouch t ht).1 h
      · rintro (⟨t, ht, h⟩ | hany)
        · exact (htouch t ht).2 h
        · exact hlower hany
  · have hbehind := Placeholder.behind_of_mem_wildcards
      (Placeholder.mem_wildcards_of_mem_sites hs hkind)
    exact Byte.isLower_of_isIdentifier hbehind

/-- In `f(...$X, $Yz)` the metavariable behind the wildcard touches it. -/
theorem standsAlone_masked_iff_besideMetavariable :
    ⟨⟨2, 5⟩, .wildcard⟩ ∈ (scan .dollar .identifier (Utf8.encode "f(...$X, $Yz)")).sites ∧
      ((scan .dollar .identifier (Utf8.encode "f(...$X, $Yz)")).masked.StandsAlone ⟨2, 5⟩ ↔
        (∀ t ∈ (scan .dollar .identifier (Utf8.encode "f(...$X, $Yz)")).sites,
          t.extent.stop ≠ 2 ∧ t.extent.start ≠ 5) ∧
        ((Utf8.encode "f(...$X, $Yz)")[5]?).any Byte.isLower = false) ∧
      (∀ t ∈ (scan .dollar .identifier (Utf8.encode "f(...$X, $Yz)")).sites, t.extent.stop = 2 →
        t.kind = .wildcard ∧ SiteKind.wildcard ≠ .wildcard) ∧
      (SiteKind.wildcard = .wildcard →
        ((Utf8.encode "f(...$X, $Yz)")[5]?).any Byte.isLower = false) := by
  have hs : ⟨⟨2, 5⟩, .wildcard⟩ ∈
      (scan .dollar .identifier (Utf8.encode "f(...$X, $Yz)")).sites := by
    decide +kernel
  exact ⟨hs, standsAlone_masked_iff hs⟩

/-- A wildcard and the metavariable behind it are parsed as one identifier, and so is a
metavariable with the small letters behind it. -/
theorem not_standsAlone_wildcardBeforeMetavariable :
    (scan .dollar .identifier (Utf8.encode "...$X")).masked = Utf8.encode "____X" ∧
      (∃ s ∈ (scan .dollar .identifier (Utf8.encode "...$X")).sites,
        ¬ (scan .dollar .identifier (Utf8.encode "...$X")).masked.StandsAlone s.extent) ∧
      ∃ s ∈ (scan .dollar .identifier (Utf8.encode "$Foo")).sites,
        ¬ (scan .dollar .identifier (Utf8.encode "$Foo")).masked.StandsAlone s.extent := by
  decide +kernel

end Placeholders

end SpanTree

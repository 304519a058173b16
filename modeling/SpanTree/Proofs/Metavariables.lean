import SpanTree.Proofs.Masking

/-!
# Where metavariables stand

The first pass over a fragment passes over every match, also over one that is dropped
because it is in the middle of an identifier. What it passes over are dots and the bytes of
names, so unless the sigil is itself a dot or an underscore no other match can start there
(`MetavariableAt.ne_sigil`). Hence whether a metavariable stands somewhere is seen on the spot, by
the bytes there and the byte in front (`metavariable_mem_scan_iff`), and nothing that is
dropped hides a metavariable behind it.
-/

namespace SpanTree

namespace Bytes

/-! ## Neighbours and runs -/

/-- The byte in front of an offset. -/
def before? (buffer : Bytes) : Nat → Option UInt8
  | 0 => none
  | offset + 1 => buffer[offset]?

/-- The bytes from `start` to `stop` are of a class, at least one, and the one behind them is
not of it. -/
structure Run (p : UInt8 → Bool) (buffer : Bytes) (start stop : Nat) : Prop where
  lt : start < stop
  all : ∀ i, start ≤ i → i < stop → (buffer[i]?).any p = true
  stops : (buffer[stop]?).any p = false

theorem getElem?_of_drop_eq_nil {buffer : Bytes} {offset : Nat} (h : buffer.drop offset = []) :
    buffer[offset]? = none := by
  rw [← List.head?_drop, h, List.head?_nil]

/-- What a buffer has at an offset where it is not at its end. -/
theorem of_drop_eq_cons {buffer rest : Bytes} {offset : Nat} {b : UInt8}
    (h : buffer.drop offset = b :: rest) :
    buffer[offset]? = some b ∧ buffer.drop (offset + 1) = rest := by
  constructor
  · rw [← List.head?_drop, h, List.head?_cons]
  · rw [← List.tail_drop, h, List.tail_cons]

/-- How long the bytes of a class at the front are. -/
theorem length_takeWhile_eq_iff {p : UInt8 → Bool} {buffer : Bytes} {n : Nat} :
    (buffer.takeWhile p).length = n ↔
      (∀ i < n, (buffer[i]?).any p = true) ∧ (buffer[n]?).any p = false := by
  induction buffer generalizing n with
  | nil =>
    cases n with
    | zero => simp
    | succ n => exact iff_of_false (by simp) fun h => by simpa using h.1 0 (Nat.succ_pos n)
  | cons b rest ih =>
    rcases hb : p b with _ | _
    · rw [List.takeWhile_cons_of_neg (by simp [hb])]
      cases n with
      | zero => simp [hb]
      | succ n =>
        refine iff_of_false (by simp) fun h => ?_
        have := h.1 0 (Nat.succ_pos n)
        simp [hb] at this
    · rw [List.takeWhile_cons_of_pos hb, List.length_cons]
      cases n with
      | zero => simp [hb]
      | succ n =>
        rw [Nat.add_right_cancel_iff, ih, List.getElem?_cons_succ]
        refine and_congr_left fun _ => ⟨fun h i hi => ?_, fun h i hi => ?_⟩
        · cases i with
          | zero => simp [hb]
          | succ i => exact h i (Nat.lt_of_succ_lt_succ hi)
        · exact h (i + 1) (Nat.succ_lt_succ hi)

theorem length_takeWhile_pos {p : UInt8 → Bool} {buffer : Bytes} {start : Nat}
    (h : (buffer[start]?).any p = true) : 0 < ((buffer.drop start).takeWhile p).length := by
  refine Nat.pos_of_ne_zero fun hzero => ?_
  have hnone := (length_takeWhile_eq_iff.mp hzero).2
  rw [List.getElem?_drop, Nat.add_zero, h] at hnone
  cases hnone

/-- A run ends where the bytes of its class do. -/
theorem run_iff {p : UInt8 → Bool} {buffer : Bytes} {start stop : Nat} :
    buffer.Run p start stop ↔
      start < stop ∧ ((buffer.drop start).takeWhile p).length = stop - start := by
  rw [length_takeWhile_eq_iff]
  constructor
  · rintro ⟨hlt, hall, hstops⟩
    refine ⟨hlt, fun i hi => ?_, ?_⟩
    · rw [List.getElem?_drop]
      exact hall _ (Nat.le_add_right _ _) (by omega)
    · rw [List.getElem?_drop, Nat.add_sub_cancel' (Nat.le_of_lt hlt)]
      exact hstops
  · rintro ⟨hlt, hall, hstops⟩
    refine ⟨hlt, fun i hstart hstop => ?_, ?_⟩
    · have := hall (i - start) (by omega)
      rwa [List.getElem?_drop, Nat.add_sub_cancel' hstart] at this
    · rwa [List.getElem?_drop, Nat.add_sub_cancel' (Nat.le_of_lt hlt)] at hstops

end Bytes

namespace Sigil

/-! ## Sigils -/

theorem ofNat_byte (sigil : Sigil) : Char.ofNat sigil.byte.toNat = sigil.char := by
  have hlt := sigil.toNat_char_lt
  rw [byte, UInt8.toNat_ofNat', Nat.mod_eq_of_lt (by omega), Char.ofNat_toNat]

theorem byte_ne_dot {sigil : Sigil} (h : sigil.char ≠ '.') : sigil.byte ≠ Byte.dot := by
  intro hdot
  apply h
  rw [← sigil.ofNat_byte, hdot]
  rfl

/-- No sigil is a letter or a digit, so only an underscore can be part of a name. -/
theorem isNameRest_byte {sigil : Sigil} (h : sigil.char ≠ '_') :
    Byte.isNameRest sigil.byte = false := by
  have hunderscore : sigil.byte ≠ Byte.underscore := by
    intro hunderscore
    apply h
    rw [← sigil.ofNat_byte, hunderscore]
    rfl
  have hadmissible := sigil.admissible
  simp only [isSigilChar, Bool.and_eq_true, Bool.not_eq_true', Byte.isAlphanumeric,
    Bool.or_eq_false_iff] at hadmissible
  obtain ⟨⟨-, ⟨hdigit, hupper⟩, -⟩, -⟩ := hadmissible
  rw [Byte.isNameRest, Byte.isNameStart, Bool.or_eq_false_iff, Bool.or_eq_false_iff]
  exact ⟨⟨hupper, beq_eq_false_iff_ne.mpr hunderscore⟩, hdigit⟩

end Sigil

namespace Placeholder

/-! ## What a metavariable is written as -/

/-- Where the name of a metavariable may start: behind the dots if there are any. -/
def FirstOfName (fragment : Bytes) (start first : Nat) : Prop :=
  first = start + 1 ∨
    first = start + 4 ∧
      fragment.slice (start + 1) (start + 4) = [Byte.dot, Byte.dot, Byte.dot]

/-- A metavariable is written from `start` to `stop`: the sigil, then three dots or none, then
a capital or an underscore with all capitals, digits and underscores behind it. -/
structure MetavariableAt (sigil : Sigil) (fragment : Bytes) (start stop : Nat) : Prop where
  sigil : fragment[start]? = some sigil.byte
  name : ∃ first, FirstOfName fragment start first ∧
      (fragment[first]?).any Byte.isNameStart = true ∧ fragment.Run Byte.isNameRest first stop

variable {sigil : Sigil} {fragment : Bytes} {start stop : Nat}

theorem opensWithDots_iff_slice {i : Nat} : opensWithDots (fragment.drop i) = true ↔
    fragment.slice i (i + 3) = [Byte.dot, Byte.dot, Byte.dot] := by
  rw [opensWithDots_iff, Bytes.slice, Nat.add_sub_cancel_left]

theorem firstOfName_markLength (fragment : Bytes) (start : Nat) :
    FirstOfName fragment start (start + markLength (fragment.drop (start + 1))) := by
  rw [markLength]
  split
  · next hdots => exact .inr ⟨rfl, opensWithDots_iff_slice.mp hdots⟩
  · exact .inl rfl

/-- The name starts behind the dots if there are any, since no name starts with a dot. -/
theorem FirstOfName.eq_of_isNameStart {first : Nat} (h : FirstOfName fragment start first)
    (hname : (fragment[first]?).any Byte.isNameStart = true) :
    first = start + markLength (fragment.drop (start + 1)) := by
  rw [markLength]
  rcases h with rfl | ⟨rfl, hdots⟩
  · rw [if_neg]
    intro hdots
    have hdot : fragment[start + 1]? = some Byte.dot := by
      have hhead : ((fragment.drop (start + 1)).take 3).head? = some Byte.dot := by
        rw [opensWithDots_iff.mp hdots]
        rfl
      rwa [List.head?_take, if_neg (by decide), List.head?_drop] at hhead
    rw [hdot] at hname
    cases hname
  · rw [if_pos (opensWithDots_iff_slice.mpr hdots)]

theorem any_isNameRest {b : Option UInt8} (h : b.any Byte.isNameStart = true) :
    b.any Byte.isNameRest = true := by
  rcases b with _ | b
  · cases h
  · rw [Option.any_some] at h ⊢
    rw [Byte.isNameRest, h, Bool.true_or]

/-- The first pass matches the sigil and the dots, and the name that starts behind them. -/
theorem metavariableLength?_drop {length mark : Nat}
    (hmark : mark = markLength (fragment.drop (start + 1))) :
    metavariableLength? sigil (fragment.drop start) = some length ↔
      fragment[start]? = some sigil.byte ∧
        (fragment[start + mark]?).any Byte.isNameStart = true ∧
        length = mark + ((fragment.drop (start + mark)).takeWhile Byte.isNameRest).length := by
  rcases hdrop : fragment.drop start with _ | ⟨b, afterSigil⟩
  · rw [Bytes.getElem?_of_drop_eq_nil hdrop]
    exact iff_of_false (by rintro ⟨⟩) (by rintro ⟨⟨⟩, -⟩)
  obtain ⟨hb, rfl⟩ := Bytes.of_drop_eq_cons hdrop
  rw [metavariableLength?, ← hmark, List.drop_drop, hb, Option.some_inj]
  have hpos : start + 1 + (mark - 1) = start + mark := by
    rw [hmark, markLength]
    split <;> omega
  rw [hpos]
  by_cases hsigil : b = sigil.byte
  · rw [if_pos hsigil, and_iff_right hsigil]
    rcases hname : fragment.drop (start + mark) with _ | ⟨first, rest⟩
    · rw [Bytes.getElem?_of_drop_eq_nil hname]
      exact iff_of_false (by rintro ⟨⟩) (by rintro ⟨⟨⟩, -⟩)
    · obtain ⟨hfirst, -⟩ := Bytes.of_drop_eq_cons hname
      rw [hfirst, Option.any_some]
      dsimp only
      by_cases hstart : Byte.isNameStart first = true
      · have hrest : Byte.isNameRest first = true := by
          rw [Byte.isNameRest, hstart, Bool.true_or]
        rw [if_pos hstart, and_iff_right hstart, List.takeWhile_cons_of_pos hrest, List.length_cons,
          Option.some_inj]
        omega
      · rw [if_neg hstart]
        exact iff_of_false (by rintro ⟨⟩) fun h => hstart h.1
  · rw [if_neg hsigil]
    exact iff_of_false (by rintro ⟨⟩) fun h => hsigil h.1

/-- What the first pass matches is what a metavariable is written as. -/
theorem metavariableLength?_drop_eq_some_iff {length : Nat} :
    metavariableLength? sigil (fragment.drop start) = some length ↔
      MetavariableAt sigil fragment start (start + length) := by
  rw [metavariableLength?_drop rfl]
  constructor
  · rintro ⟨hsigil, hstart, hlength⟩
    refine ⟨hsigil, _, firstOfName_markLength fragment start, hstart, ?_⟩
    refine Bytes.run_iff.mpr ⟨?_, by omega⟩
    have := Bytes.length_takeWhile_pos (any_isNameRest hstart)
    omega
  · rintro ⟨hsigil, first, hfirst, hstart, hrun⟩
    obtain rfl := hfirst.eq_of_isNameStart hstart
    obtain ⟨hlt, hlength⟩ := Bytes.run_iff.mp hrun
    exact ⟨hsigil, hstart, by omega⟩

theorem MetavariableAt.lt (h : MetavariableAt sigil fragment start stop) : start < stop := by
  obtain ⟨-, first, hfirst, -, hrun⟩ := h
  have := hrun.lt
  rcases hfirst with rfl | ⟨rfl, -⟩ <;> omega

theorem IsMetavariable.metavariableAt {s : Site} (h : IsMetavariable sigil fragment s) :
    MetavariableAt sigil fragment s.extent.start s.extent.stop := by
  obtain ⟨length, hlength, heq⟩ := h
  rw [metavariableLength?_drop_eq_some_iff] at hlength
  rw [heq]
  exact hlength

/-! ## What the first pass finds -/

/-- A metavariable that is found does not follow a byte of an identifier. -/
theorem before_of_mem_metavariablesFrom {buffer : Bytes} {offset : Nat} (skip : Nat)
    {previous : Option UInt8} (hbuffer : fragment.drop offset = buffer)
    (hprevious : fragment.before? offset = previous) :
    ∀ s ∈ metavariablesFrom sigil offset skip previous buffer,
      (fragment.before? s.extent.start).any Byte.isIdentifier = false := by
  induction buffer generalizing offset skip previous with
  | nil =>
    rw [metavariablesFrom]
    exact fun _ hs => absurd hs List.not_mem_nil
  | cons b rest ih =>
    obtain ⟨hb, hrest⟩ := Bytes.of_drop_eq_cons hbuffer
    rcases skip with _ | skip
    · rw [metavariablesFrom]
      split
      · exact ih 0 hrest hb
      · next length _ =>
        dsimp only
        split
        · exact ih (length - 1) hrest hb
        · next hfree =>
          refine List.forall_mem_cons.mpr ⟨?_, ih (length - 1) hrest hb⟩
          show (fragment.before? offset).any Byte.isIdentifier = false
          rw [hprevious]
          exact Bool.eq_false_iff.mpr hfree
    · rw [metavariablesFrom]
      exact ih skip hrest hb

/-- Behind the sigil of a metavariable there are dots and bytes of its name, so that no other
one starts there unless it is marked by these. -/
theorem MetavariableAt.ne_sigil {i : Nat} (h : MetavariableAt sigil fragment start stop)
    (hdot : sigil.byte ≠ Byte.dot) (hname : Byte.isNameRest sigil.byte = false)
    (hstart : start < i) (hstop : i < stop) : fragment[i]? ≠ some sigil.byte := by
  intro hsigil
  obtain ⟨-, first, hfirst, -, hrun⟩ := h
  rcases Nat.lt_or_ge i first with hlt | hge
  · rcases hfirst with rfl | ⟨rfl, hdots⟩
    · omega
    · have hmem : sigil.byte ∈ fragment.slice (start + 1) (start + 4) :=
        Bytes.mem_slice.mpr ⟨i, hstart, hlt, hsigil⟩
      rw [hdots] at hmem
      simp only [List.mem_cons, List.not_mem_nil, or_false, or_self] at hmem
      exact hdot hmem
  · have hrest := hrun.all i hge hstop
    rw [hsigil, Option.any_some, hname] at hrest
    cases hrest

/-- The first pass misses nothing: where what it passes over has no sigil in it, every
metavariable that does not follow a byte of an identifier is found. -/
theorem mem_metavariablesFrom {buffer : Bytes} {offset skip : Nat} {previous : Option UInt8}
    (hdot : sigil.byte ≠ Byte.dot) (hname : Byte.isNameRest sigil.byte = false)
    (hbuffer : fragment.drop offset = buffer) (hprevious : fragment.before? offset = previous)
    (hskip : ∀ i, offset ≤ i → i < offset + skip → fragment[i]? ≠ some sigil.byte)
    {length : Nat} (hoffset : offset ≤ start)
    (hlength : metavariableLength? sigil (fragment.drop start) = some length)
    (hfree : (fragment.before? start).any Byte.isIdentifier = false) :
    metavariableSite start length (fragment.drop start) ∈
      metavariablesFrom sigil offset skip previous buffer := by
  induction buffer generalizing offset skip previous with
  | nil =>
    rw [List.drop_eq_nil_of_le (Nat.le_trans (List.drop_eq_nil_iff.mp hbuffer) hoffset)] at hlength
    cases hlength
  | cons b rest ih =>
    obtain ⟨hb, hrest⟩ := Bytes.of_drop_eq_cons hbuffer
    rcases Nat.eq_or_lt_of_le hoffset with rfl | hlt
    · -- the metavariable is the next match, since what is passed over has no sigil
      rcases skip with _ | skip
      · rw [metavariablesFrom, ← hbuffer, hlength]
        dsimp only
        rw [← hprevious, hfree, if_neg Bool.false_ne_true]
        exact List.mem_cons_self
      · have hsigil := (metavariableLength?_drop_eq_some_iff.mp hlength).sigil
        exact absurd hsigil (hskip offset (Nat.le_refl _) (by omega))
    · rcases skip with _ | skip
      · rw [metavariablesFrom]
        split
        · exact ih hrest hb (fun i hi hi' => by omega) hlt
        · next length' hlength' =>
          rw [← hbuffer, metavariableLength?_drop_eq_some_iff] at hlength'
          have hpassed : ∀ i, offset + 1 ≤ i → i < offset + 1 + (length' - 1) →
              fragment[i]? ≠ some sigil.byte :=
            fun i hi hi' => hlength'.ne_sigil hdot hname hi (by omega)
          have hlater := ih hrest hb hpassed hlt
          dsimp only
          split
          · exact hlater
          · exact List.mem_cons_of_mem _ hlater
      · rw [metavariablesFrom]
        exact ih hrest hb (fun i hi hi' => hskip i (by omega) (by omega)) hlt

/-! ## The metavariables of a fragment -/

/-- A site of a metavariable is one that the first pass found. -/
theorem mem_metavariables_of_mem_sites {s : Site} (hs : s ∈ sites sigil fragment)
    (hkind : s.kind ≠ .wildcard) : s ∈ metavariables sigil fragment := by
  rcases (mem_sites sigil fragment).mp hs with hs | hs
  · have heq := ((inOrder_wildcards sigil fragment).forall_mem s hs).eq
    rw [heq] at hkind
    exact absurd rfl hkind
  · exact hs

/-- **Metavariables are found by what stands at the spot.** Where the sigil is no byte of a name
and no dot, there is a metavariable from `start` to `stop` exactly if one is written there and
the byte in front is none of an identifier. -/
theorem metavariable_mem_scan_iff {sigil : Sigil} (hunderscore : sigil.char ≠ '_')
    (hdot : sigil.char ≠ '.') (style : WildcardStyle) (fragment : Bytes) (start stop : Nat) :
    (∃ name ellipsis, ⟨⟨start, stop⟩, .metavariable name ellipsis⟩ ∈
      (Placeholders.scan sigil style fragment).sites) ↔
    MetavariableAt sigil fragment start stop ∧
      (fragment.before? start).any Byte.isIdentifier = false := by
  constructor
  · rintro ⟨name, ellipsis, hs⟩
    have hmem := mem_metavariables_of_mem_sites hs nofun
    have hspot := (inOrder_metavariables sigil fragment).forall_mem _ hmem
    exact ⟨hspot.metavariableAt, before_of_mem_metavariablesFrom 0 rfl rfl _ hmem⟩
  · rintro ⟨hat, hfree⟩
    obtain ⟨length, rfl⟩ := Nat.exists_eq_add_of_le (Nat.le_of_lt hat.lt)
    have hlength := metavariableLength?_drop_eq_some_iff.mpr hat
    have hmem : metavariableSite start length (fragment.drop start) ∈
        metavariables sigil fragment :=
      mem_metavariablesFrom (Sigil.byte_ne_dot hdot) (Sigil.isNameRest_byte hunderscore) rfl rfl
        (fun i hi hi' => absurd hi' (by omega)) (Nat.zero_le start) hlength hfree
    exact ⟨_, _, (mem_sites sigil fragment).mpr (.inr hmem)⟩

/-- In `a$B$$...C_1` the first match is dropped, and does not hide the second one. -/
theorem metavariable_mem_scan_iff_afterDropped :
    Sigil.dollar.char ≠ '_' ∧ Sigil.dollar.char ≠ '.' ∧
      (Placeholders.scan .dollar .identifier (Utf8.encode "a$B$$...C_1")).sites =
        [⟨⟨4, 11⟩, .metavariable "$...C_1" true⟩] ∧
      ((∃ name ellipsis, ⟨⟨4, 11⟩, .metavariable name ellipsis⟩ ∈
        (Placeholders.scan .dollar .identifier (Utf8.encode "a$B$$...C_1")).sites) ↔
      MetavariableAt .dollar (Utf8.encode "a$B$$...C_1") 4 11 ∧
        ((Utf8.encode "a$B$$...C_1").before? 4).any Byte.isIdentifier = false) :=
  ⟨by decide, by decide, by decide +kernel,
    metavariable_mem_scan_iff (by decide) (by decide) .identifier _ 4 11⟩

end Placeholder

end SpanTree

import SpanTree.Proofs.Metavariables
import SpanTree.Proofs.Utf8.Decoding

/-!
# Masking can be undone

A scan keeps what it overwrites in the names of its sites. Every site is spelled in the
fragment as its kind says, and overwriting stays inside the sites (`masked_within`). So
writing each site's spelling over the masked fragment gives the fragment back
(`unmask_mask`). The masked fragment is text again, since only ASCII bytes are overwritten
and by ASCII bytes (`Utf8.WellFormed.mapIdx`), and where a metavariable stands it reads as an
identifier (`any_isIdentifier_mask_of_mem`).
-/

namespace SpanTree

namespace Utf8

/-! ## ASCII bytes in a text -/

/-- An ASCII byte is a character by itself. -/
theorem encodeChar_of_ascii {b : UInt8} (h : b < 0x80) :
    String.utf8EncodeChar (Char.ofNat b.toNat) = [b] := by
  have hcomplete : Complete b [] [] := ⟨by rw [continuations, if_pos h], rfl, trivial⟩
  exact hcomplete.encodeChar

theorem encode_asciiText {buffer : Bytes} (h : ∀ b ∈ buffer, b < 0x80) :
    encode (Placeholder.asciiText buffer) = buffer := by
  rw [Placeholder.asciiText, encode_ofList]
  induction buffer with
  | nil => rfl
  | cons b rest ih =>
    rw [List.forall_mem_cons] at h
    rw [List.map_cons, List.flatMap_cons, encodeChar_of_ascii h.1, ih h.2]
    rfl

theorem ofNat_lt_iff (n : Nat) : UInt8.ofNat n < 0x80 ↔ n % 256 < 0x80 := by
  rw [UInt8.lt_iff_toNat_lt, UInt8.toNat_ofNat']
  rfl

/-- An ASCII character is one ASCII byte. -/
theorem encodeChar_of_lt {c : Char} (h : c.toNat < 128) :
    String.utf8EncodeChar c = [UInt8.ofNat c.toNat] := by
  rw [encodeChar_eq, if_pos (Nat.le_of_lt_succ h)]

/-- Any other character is written without ASCII bytes. -/
theorem not_lt_of_mem_encodeChar {c : Char} (h : ¬ c.toNat < 128) :
    ∀ b ∈ String.utf8EncodeChar c, ¬ b < 0x80 := by
  rw [encodeChar_eq]
  generalize c.toNat = v at h
  rw [if_neg (by omega)]
  split
  · simp only [List.forall_mem_cons, ofNat_lt_iff]
    exact ⟨by omega, by omega, nofun⟩
  · split
    · simp only [List.forall_mem_cons, ofNat_lt_iff]
      exact ⟨by omega, by omega, by omega, nofun⟩
    · simp only [List.forall_mem_cons, ofNat_lt_iff]
      exact ⟨by omega, by omega, by omega, by omega, nofun⟩

/-- A text stays a text if ASCII bytes of it are replaced by ASCII bytes. -/
theorem WellFormed.mapIdx {f : Nat → UInt8 → UInt8} {buffer : Bytes} (h : WellFormed buffer)
    (hf : ∀ i b, buffer[i]? = some b → f i b = b ∨ b < 0x80 ∧ f i b < 0x80) :
    WellFormed (buffer.mapIdx f) := by
  obtain ⟨s, rfl⟩ := h
  rw [encode] at hf ⊢
  generalize s.toList = cs at hf ⊢
  induction cs generalizing f with
  | nil => exact ⟨"", rfl⟩
  | cons c cs ih =>
    rw [List.flatMap_cons] at hf ⊢
    obtain ⟨t, ht⟩ := ih (f := fun i => f (i + (String.utf8EncodeChar c).length)) fun i b hb => by
      refine hf _ b ?_
      rw [List.getElem?_append_right (Nat.le_add_left _ _), Nat.add_sub_cancel]
      exact hb
    -- one ASCII byte becomes another, and the bytes of any other character stay
    obtain ⟨d, hd⟩ : ∃ d, (String.utf8EncodeChar c).mapIdx f = String.utf8EncodeChar d := by
      by_cases hc : c.toNat < 128
      · rw [encodeChar_of_lt hc] at hf ⊢
        have hascii : f 0 (UInt8.ofNat c.toNat) < 0x80 := by
          rcases hf 0 _ rfl with heq | ⟨-, hlt⟩
          · rw [heq, ofNat_lt_iff]
            omega
          · exact hlt
        exact ⟨_, (encodeChar_of_ascii hascii).symm⟩
      · refine ⟨c, List.ext_getElem? fun i => ?_⟩
        rw [List.getElem?_mapIdx]
        rcases hi : (String.utf8EncodeChar c)[i]? with _ | b
        · rfl
        · have hlt := (List.getElem?_eq_some_iff.mp hi).1
          rcases hf i b (by rw [List.getElem?_append_left hlt, hi]) with heq | ⟨hascii, -⟩
          · exact congrArg some heq
          · exact absurd hascii (not_lt_of_mem_encodeChar hc b (List.mem_of_getElem? hi))
    refine ⟨String.ofList (d :: t.toList), ?_⟩
    rw [encode_ofList, List.flatMap_cons, List.mapIdx_append, hd, ← ht]
    rfl

end Utf8

namespace Placeholder

variable {sigil : Sigil} {fragment : Bytes} {s : Site} {found : List Site}

/-! ## What a mask leaves -/

/-- Of a metavariable everything in front of its name is overwritten. -/
theorem IsMetavariable.masked_eq (h : IsMetavariable sigil fragment s) (style : WildcardStyle) :
    s.masked style =
      ⟨s.extent.start, s.extent.start + markLength (fragment.drop (s.extent.start + 1))⟩ := by
  obtain ⟨⟨start, stop⟩, kind⟩ := s
  obtain ⟨length, -, heq⟩ := h
  dsimp only at heq ⊢
  cases heq
  rw [List.drop_drop, markLength]
  rcases opensWithDots (fragment.drop (start + 1)) with _ | _ <;> rfl

/-- What is not overwritten of a metavariable is its name. -/
theorem IsMetavariable.run_name (h : IsMetavariable sigil fragment s) (style : WildcardStyle) :
    fragment.Run Byte.isNameRest (s.masked style).stop s.extent.stop := by
  obtain ⟨-, first, hfirst, hstart, hrun⟩ := h.metavariableAt
  rw [h.masked_eq, ← hfirst.eq_of_isNameStart hstart]
  exact hrun

/-- Only bytes of a site are overwritten for it. -/
theorem masked_within (hs : s ∈ sites sigil fragment) (style : WildcardStyle) :
    s.extent.start ≤ (s.masked style).start ∧ (s.masked style).stop ≤ s.extent.stop := by
  rcases (mem_sites sigil fragment).mp hs with hs | hs
  · have heq := ((inOrder_wildcards sigil fragment).forall_mem s hs).eq
    rw [heq]
    cases style with
    | native => exact ⟨Nat.le_refl _, Nat.le_add_right _ _⟩
    | identifier => exact ⟨Nat.le_refl _, Nat.le_refl _⟩
  · have hspot := (inOrder_metavariables sigil fragment).forall_mem s hs
    have hstart : (s.masked style).start = s.extent.start := by rw [hspot.masked_eq]
    exact ⟨Nat.le_of_eq hstart.symm, Nat.le_of_lt (hspot.run_name style).lt⟩

/-- A masked fragment has underscores where bytes were overwritten, and the rest as it was. -/
theorem getElem?_mask {style : WildcardStyle} (i : Nat) : (mask style found fragment)[i]? =
    if found.any fun s => (s.masked style).covers i then fragment[i]?.map fun _ => Byte.underscore
    else fragment[i]? := by
  rw [mask, List.getElem?_mapIdx]
  split
  · rfl
  · exact Option.map_id'

theorem isIdentifier_of_isNameRest {b : Option UInt8} (h : b.any Byte.isNameRest = true) :
    b.any Byte.isIdentifier = true := by
  rcases b with _ | b
  · cases h
  · exact Byte.isIdentifier_of_isNameRest h

/-- A byte of a masked fragment is one of an identifier if it was overwritten, or was one. -/
theorem any_isIdentifier_mask {style : WildcardStyle} {i : Nat} :
    ((mask style found fragment)[i]?).any Byte.isIdentifier = true ↔
      (i < fragment.length ∧ ∃ s ∈ found, (s.masked style).covers i = true) ∨
        (fragment[i]?).any Byte.isIdentifier = true := by
  rw [getElem?_mask, ← List.any_eq_true]
  rcases hi : fragment[i]? with _ | b
  · have hlength := List.getElem?_eq_none_iff.mp hi
    rw [Option.map_none, ite_self]
    refine iff_of_false nofun ?_
    rintro (⟨hlt, -⟩ | ⟨⟨⟩⟩)
    omega
  · have hlength := (List.getElem?_eq_some_iff.mp hi).1
    split
    · next hcovers => exact iff_of_true rfl (.inl ⟨hlength, hcovers⟩)
    · next hcovers => exact ⟨.inr, fun h => h.resolve_left fun h => hcovers h.2⟩

/-- A site is overwritten from its start on, and what is left of it are bytes of its name. -/
theorem masked_opens (hs : s ∈ sites sigil fragment) {style : WildcardStyle}
    (h : s.kind ≠ .wildcard ∨ style = .identifier) :
    (s.masked style).covers s.extent.start = true ∧
      ∀ i, s.extent.start ≤ i → i < s.extent.stop →
        (s.masked style).covers i = true ∨ (fragment[i]?).any Byte.isNameRest = true := by
  rcases (mem_sites sigil fragment).mp hs with hs | hs
  · have heq := ((inOrder_wildcards sigil fragment).forall_mem s hs).eq
    rw [heq] at h ⊢
    obtain rfl := h.resolve_left fun hne => hne rfl
    refine ⟨Extent.covers_iff.mpr ⟨Nat.le_refl _, Nat.lt_add_of_pos_right (by decide)⟩, ?_⟩
    exact fun i hi hi' => .inl (Extent.covers_iff.mpr ⟨hi, hi'⟩)
  · have hspot := (inOrder_metavariables sigil fragment).forall_mem s hs
    have hrun := hspot.run_name style
    have hmark : 0 < markLength (fragment.drop (s.extent.start + 1)) := by
      rw [markLength]
      split <;> decide
    rw [hspot.masked_eq] at hrun ⊢
    simp only [Extent.covers_iff] at hrun ⊢
    refine ⟨⟨Nat.le_refl _, Nat.lt_add_of_pos_right hmark⟩, fun i hi hi' => ?_⟩
    rcases Nat.lt_or_ge i (s.extent.start + markLength (fragment.drop (s.extent.start + 1)))
      with hlt | hge
    · exact .inl ⟨hi, hlt⟩
    · exact .inr (hrun.all i hge hi')

/-- In a masked fragment every byte of a site is one of an identifier. -/
theorem any_isIdentifier_mask_of_mem (hs : s ∈ sites sigil fragment) {style : WildcardStyle}
    (h : s.kind ≠ .wildcard ∨ style = .identifier) {i : Nat} (hstart : s.extent.start ≤ i)
    (hstop : i < s.extent.stop) :
    ((mask style (sites sigil fragment) fragment)[i]?).any Byte.isIdentifier = true := by
  rw [any_isIdentifier_mask]
  have := (spelled_of_mem_sites sigil fragment s hs).le
  rcases (masked_opens hs h).2 i hstart hstop with hcovers | hname
  · exact .inl ⟨by omega, s, hs, hcovers⟩
  · exact .inr (isIdentifier_of_isNameRest hname)

/-! ## Writing the spellings back -/

end Placeholder

/-- A buffer with the spelling of a site written over the site. -/
def Site.writeOver (s : Site) (buffer : Bytes) : Bytes :=
  buffer.take s.extent.start ++ Utf8.encode s.kind.spelling ++ buffer.drop s.extent.stop

/-- A buffer with the spellings of sites written over the sites. -/
def Placeholder.unmask (found : List Site) (buffer : Bytes) : Bytes :=
  found.foldl (fun buffer s => s.writeOver buffer) buffer

theorem Bytes.length_slice {buffer : Bytes} {start stop : Nat} (h : stop ≤ buffer.length) :
    (buffer.slice start stop).length = stop - start := by
  rw [slice, List.length_take, List.length_drop]
  omega

theorem Site.Spelled.encode_spelling {fragment : Bytes} {s : Site} (h : s.Spelled fragment) :
    Utf8.encode s.kind.spelling = fragment.slice s.extent.start s.extent.stop := by
  rw [← h.text, Utf8.encode_asciiText h.ascii]

namespace Placeholder

variable {sigil : Sigil} {fragment : Bytes} {s : Site} {found : List Site}

theorem length_writeOver {buffer : Bytes} (h : s.Spelled fragment)
    (hlength : buffer.length = fragment.length) :
    (s.writeOver buffer).length = fragment.length := by
  have := h.lt
  have := h.le
  simp only [Site.writeOver, h.encode_spelling, List.length_append, List.length_take,
    List.length_drop, Bytes.length_slice h.le]
  omega

/-- Writing a site that is spelled in a fragment puts the bytes of the fragment there. -/
theorem getElem?_writeOver {buffer : Bytes} (h : s.Spelled fragment)
    (hlength : buffer.length = fragment.length) (i : Nat) :
    (s.writeOver buffer)[i]? = if s.extent.covers i then fragment[i]? else buffer[i]? := by
  have hlt := h.lt
  have hle := h.le
  have hfront : (buffer.take s.extent.start).length = s.extent.start := by
    rw [List.length_take]
    omega
  have hmiddle : (fragment.slice s.extent.start s.extent.stop).length =
      s.extent.stop - s.extent.start := Bytes.length_slice hle
  rw [Site.writeOver, h.encode_spelling, List.append_assoc]
  rcases Nat.lt_or_ge i s.extent.start with hi | hi
  · rw [List.getElem?_append_left (by omega), List.getElem?_take_of_lt hi,
      if_neg (by simp only [Extent.covers_iff]; omega)]
  · rw [List.getElem?_append_right (by omega), hfront]
    rcases Nat.lt_or_ge i s.extent.stop with hi' | hi'
    · rw [List.getElem?_append_left (by omega),
        if_pos (Extent.covers_iff.mpr ⟨hi, hi'⟩), Bytes.slice, List.getElem?_take_of_lt (by omega),
        List.getElem?_drop, Nat.add_sub_cancel' hi]
    · rw [List.getElem?_append_right (by omega), hmiddle, List.getElem?_drop,
        if_neg (by simp only [Extent.covers_iff]; omega)]
      congr 1
      omega

theorem getElem?_unmask {buffer : Bytes} (hfound : ∀ s ∈ found, s.Spelled fragment)
    (hlength : buffer.length = fragment.length) (i : Nat) : (unmask found buffer)[i]? =
      if found.any fun s => s.extent.covers i then fragment[i]? else buffer[i]? := by
  induction found generalizing buffer with
  | nil => rfl
  | cons s rest ih =>
    rw [List.forall_mem_cons] at hfound
    obtain ⟨hs, hrest⟩ := hfound
    rw [unmask, List.foldl_cons, ← unmask, ih hrest (length_writeOver hs hlength),
      getElem?_writeOver hs hlength, List.any_cons]
    rcases s.extent.covers i with _ | _
    · rfl
    · simp

/-- **Writing back what the sites are spelled as undoes the mask.** -/
theorem unmask_mask (sigil : Sigil) (style : WildcardStyle) (fragment : Bytes) :
    unmask (sites sigil fragment) (mask style (sites sigil fragment) fragment) = fragment := by
  apply List.ext_getElem?
  intro i
  rw [getElem?_unmask (spelled_of_mem_sites sigil fragment) (length_mask _ _ _), getElem?_mask]
  split
  · rfl
  · next hcovers =>
    rw [if_neg]
    intro hmasked
    obtain ⟨s, hs, hi⟩ := List.any_eq_true.mp hmasked
    rw [Extent.covers_iff] at hi
    have hwithin := masked_within hs style
    exact hcovers (List.any_eq_true.mpr ⟨s, hs, Extent.covers_iff.mpr ⟨by omega, by omega⟩⟩)

/-! ## Names -/

/-- No byte of a name is the character of a dot. -/
theorem ofNat_ne_dot {b : UInt8} (h : Byte.isNameRest b = true) : Char.ofNat b.toNat ≠ '.' := by
  intro hdot
  have hlt : b.toNat < 128 := UInt8.lt_iff_toNat_lt.mp (Byte.lt_of_isNameRest h)
  have htoNat := Utf8.toNat_ofNat_of_isValidChar (v := b.toNat) (.inl (by omega))
  rw [hdot] at htoNat
  have heq : b = Byte.dot := UInt8.toNat_inj.mp htoNat.symm
  rw [heq] at h
  cases h

/-- The name of a metavariable starts with the sigil, and with three dots behind it exactly if
it stands for a sequence. -/
theorem exists_name {name : String} {ellipsis : Bool} (hs : s ∈ sites sigil fragment)
    (hkind : s.kind = .metavariable name ellipsis) :
    ∃ rest, name.toList = sigil.char :: rest ∧ (ellipsis = true ↔ ['.', '.', '.'] <+: rest) := by
  have hmem : s ∈ metavariables sigil fragment := by
    refine mem_metavariables_of_mem_sites hs fun hwildcard => ?_
    rw [hkind] at hwildcard
    cases hwildcard
  obtain ⟨length, hlength, heq⟩ := (inOrder_metavariables sigil fragment).forall_mem s hmem
  obtain ⟨-, bytes, hne, hbytes, htake⟩ := exists_name_of_metavariableLength? hlength
  rw [heq, metavariableSite] at hkind
  cases hkind
  rw [htake, asciiText, String.toList_ofList, List.map_cons, sigil.ofNat_byte, List.map_append]
  refine ⟨_, rfl, ?_⟩
  rcases opensWithDots ((fragment.drop s.extent.start).drop 1) with _ | _
  · refine iff_of_false Bool.false_ne_true ?_
    -- the first byte of the name is none of the dots
    rcases bytes with _ | ⟨b, bytes⟩
    · exact absurd rfl hne
    · rintro ⟨more, hmore⟩
      obtain ⟨hdot, -⟩ := List.cons.inj hmore
      exact ofNat_ne_dot (hbytes b List.mem_cons_self) hdot.symm
  · exact iff_of_true rfl (List.prefix_append _ _)

/-- Only ASCII bytes are overwritten, so that a masked text is a text. -/
theorem wellFormed_mask (sigil : Sigil) (style : WildcardStyle) (text : String) :
    Utf8.WellFormed (mask style (sites sigil (Utf8.encode text)) (Utf8.encode text)) := by
  rw [mask]
  refine Utf8.WellFormed.mapIdx ⟨text, rfl⟩ fun i b hb => ?_
  split
  · next hcovers =>
    obtain ⟨s, hs, hi⟩ := List.any_eq_true.mp hcovers
    rw [Extent.covers_iff] at hi
    have hwithin := masked_within hs style
    refine .inr ⟨(spelled_of_mem_sites sigil _ s hs).ascii b ?_, by decide⟩
    exact Bytes.mem_slice.mpr ⟨i, by omega, by omega, hb⟩
  · exact .inl rfl

end Placeholder

namespace Placeholders

/-- What a scan makes of a fragment can be undone by means of the sites. -/
structure Undoable (sigil : Sigil) (style : WildcardStyle) (fragment : Bytes)
    (p : Placeholders) : Prop where
  /-- the sites are in order, none of them empty, and no two overlap -/
  separated : Extent.Separated (p.sites.map (·.extent))
  /-- they are inside the fragment -/
  stop_le : ∀ s ∈ p.sites, s.extent.stop ≤ fragment.length
  /-- the fragment has the name of a metavariable, or three dots, where the site is -/
  spelled : ∀ s ∈ p.sites,
    Utf8.encode s.kind.spelling = fragment.slice s.extent.start s.extent.stop
  /-- a name starts with the sigil, and it is that of a sequence if three dots follow -/
  named : ∀ s ∈ p.sites, ∀ name ellipsis, s.kind = .metavariable name ellipsis →
    ∃ rest, name.toList = sigil.char :: rest ∧ (ellipsis = true ↔ ['.', '.', '.'] <+: rest)
  length_masked : p.masked.length = fragment.length
  /-- what is parsed is a text -/
  wellFormed : Utf8.WellFormed p.masked
  /-- with all spellings written back it is the fragment -/
  unmask_masked : Placeholder.unmask p.sites p.masked = fragment
  /-- a site is parsed as an identifier, except for wildcards that are left as they are -/
  identifier : ∀ s ∈ p.sites, s.kind ≠ .wildcard ∨ style = .identifier →
    p.masked[s.extent.start]? = some Byte.underscore ∧
      ∀ b ∈ p.masked.slice s.extent.start s.extent.stop, Byte.isIdentifier b = true

/-- **A scan rewrites a text reversibly**, in the same length, and finds the same sites whatever
the grammar makes of wildcards. -/
theorem scan_undoable (sigil : Sigil) (style : WildcardStyle) (text : String) :
    (scan sigil style (Utf8.encode text)).Undoable sigil style (Utf8.encode text) ∧
      ∀ style', (scan sigil style' (Utf8.encode text)).sites =
        (scan sigil style (Utf8.encode text)).sites := by
  have hspelled := Placeholder.spelled_of_mem_sites sigil (Utf8.encode text)
  refine ⟨⟨Placeholder.separated_sites sigil _, fun s hs => (hspelled s hs).le,
    fun s hs => (hspelled s hs).encode_spelling, fun s hs _ _ => Placeholder.exists_name hs,
    Placeholder.length_mask _ _ _, Placeholder.wellFormed_mask sigil style text,
    Placeholder.unmask_mask sigil style _, fun s hs h => ⟨?_, fun b hb => ?_⟩⟩, fun _ => rfl⟩
  · obtain ⟨b, hb⟩ : ∃ b, (Utf8.encode text)[s.extent.start]? = some b :=
      ⟨_, List.getElem?_eq_getElem (Nat.lt_of_lt_of_le (hspelled s hs).lt (hspelled s hs).le)⟩
    have hcovers : ((Placeholder.sites sigil (Utf8.encode text)).any fun s' =>
        (s'.masked style).covers s.extent.start) = true :=
      List.any_eq_true.mpr ⟨s, hs, (Placeholder.masked_opens hs h).1⟩
    rw [scan, Placeholder.getElem?_mask, if_pos hcovers, hb]
    rfl
  · obtain ⟨i, hstart, hstop, hi⟩ := Bytes.mem_slice.mp hb
    have hany := Placeholder.any_isIdentifier_mask_of_mem hs h hstart hstop
    rw [scan] at hi
    rwa [hi] at hany

end Placeholders

end SpanTree

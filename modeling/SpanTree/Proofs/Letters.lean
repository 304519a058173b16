import SpanTree.Proofs.Tokens

/-!
# Letters beyond ASCII next to placeholders

The passes look at one byte on either side of a placeholder and know the bytes of ASCII letters
only. A letter beyond ASCII is written without ASCII bytes, so that no pass takes it for part
of an identifier. Hence next to a placeholder there may stand such a letter and no other
character of an identifier (`clearOf_isIdentifierChar_iff`): in `é$B` there is a metavariable,
and in `...été` and `é...` there is a wildcard.

More than that, the passes see nothing of what is not ASCII. They give the same for a buffer
in which all bytes beyond ASCII are made equal (`sites_blur`), and so for two texts that
differ only in characters beyond ASCII of the same length (`Text.Alike`).
-/

namespace SpanTree

/-! ## Bytes beyond ASCII made equal -/

namespace Byte

/-- An ASCII byte as it is, and one byte for all that are not ASCII. -/
def blur (b : UInt8) : UInt8 := if b < 0x80 then b else 0x80

theorem blur_of_lt {b : UInt8} (h : b < 0x80) : blur b = b := if_pos h

theorem blur_of_not_lt {b : UInt8} (h : ¬ b < 0x80) : blur b = 0x80 := if_neg h

/-- A class of ASCII bytes does not see the difference. -/
theorem apply_blur {p : UInt8 → Bool} (hp : ∀ b, p b = true → b < 0x80) (b : UInt8) :
    p (blur b) = p b := by
  have hbeyond : ∀ b, ¬ b < 0x80 → p b = false := fun b hb =>
    Bool.eq_false_iff.mpr fun htrue => hb (hp b htrue)
  by_cases hb : b < 0x80
  · rw [blur_of_lt hb]
  · rw [blur_of_not_lt hb, hbeyond b hb, hbeyond 0x80 (by decide)]

theorem isOperandEnd_blur (b : UInt8) : isOperandEnd (blur b) = isOperandEnd b :=
  apply_blur (fun _ => lt_of_isOperandEnd) b

theorem isIdentifier_blur (b : UInt8) : isIdentifier (blur b) = isIdentifier b :=
  apply_blur (fun _ => lt_of_isIdentifier) b

theorem isNameRest_blur (b : UInt8) : isNameRest (blur b) = isNameRest b :=
  apply_blur (fun _ => lt_of_isNameRest) b

theorem isNameStart_blur (b : UInt8) : isNameStart (blur b) = isNameStart b := by
  refine apply_blur (fun b hb => lt_of_isNameRest ?_) b
  rw [isNameRest, hb, Bool.true_or]

/-- An ASCII byte is found where it was and nowhere else. -/
theorem blur_beq {a : UInt8} (h : a < 0x80) (b : UInt8) : (blur b == a) = (b == a) :=
  apply_blur (p := (· == a)) (fun b hb => by rwa [eq_of_beq hb]) b

theorem map_blur_of_lt {buffer : Bytes} (h : ∀ b ∈ buffer, b < 0x80) :
    buffer.map blur = buffer :=
  (List.map_congr_left fun b hb => blur_of_lt (h b hb)).trans (List.map_id' buffer)

theorem map_blur_of_not_lt {buffer : Bytes} (h : ∀ b ∈ buffer, ¬ b < 0x80) :
    buffer.map blur = List.replicate buffer.length 0x80 := by
  refine List.eq_replicate_iff.mpr ⟨List.length_map .., fun b hb => ?_⟩
  obtain ⟨a, ha, rfl⟩ := List.mem_map.mp hb
  exact blur_of_not_lt (h a ha)

end Byte

namespace Placeholder

variable {sigil : Sigil} {buffer : Bytes}

theorem opensWithDots_blur (buffer : Bytes) :
    opensWithDots (buffer.map Byte.blur) = opensWithDots buffer := by
  have hdot : Byte.dot < 0x80 := by decide
  rcases buffer with _ | ⟨a, _ | ⟨b, _ | ⟨c, rest⟩⟩⟩
  · rfl
  · rfl
  · rfl
  · simp only [List.map_cons, opensWithDots, Byte.blur_beq hdot]

theorem metavariableLength?_blur (sigil : Sigil) (buffer : Bytes) :
    metavariableLength? sigil (buffer.map Byte.blur) = metavariableLength? sigil buffer := by
  rcases buffer with _ | ⟨b, afterSigil⟩
  · rfl
  have hmark : markLength (afterSigil.map Byte.blur) = markLength afterSigil := by
    rw [markLength, opensWithDots_blur, markLength]
  have hsigil : Byte.blur b = sigil.byte ↔ b = sigil.byte := by
    rw [← beq_iff_eq, Byte.blur_beq sigil.byte_lt, beq_iff_eq]
  have hrest : Byte.isNameRest ∘ Byte.blur = Byte.isNameRest := funext Byte.isNameRest_blur
  rw [List.map_cons, metavariableLength?, metavariableLength?, hmark, ← List.map_drop]
  simp only [hsigil]
  rcases afterSigil.drop (markLength afterSigil - 1) with _ | ⟨first, rest⟩
  · rfl
  · simp only [List.map_cons, Byte.isNameStart_blur, List.takeWhile_map, hrest, List.length_map]

/-- A metavariable is the same site, since its name is ASCII. -/
theorem metavariableSite_blur {length : Nat} (h : metavariableLength? sigil buffer = some length)
    (offset : Nat) : metavariableSite offset length (buffer.map Byte.blur) =
      metavariableSite offset length buffer := by
  rw [metavariableSite, ← List.map_take, Byte.map_blur_of_lt (lt_of_mem_take h), ← List.map_drop,
    opensWithDots_blur, metavariableSite]

theorem any_blur {p : UInt8 → Bool} (hp : ∀ b, p (Byte.blur b) = p b) (b : Option UInt8) :
    (b.map Byte.blur).any p = b.any p := by
  rcases b with _ | b
  · rfl
  · exact hp b

theorem metavariablesFrom_blur (sigil : Sigil) (offset skip : Nat) (previous : Option UInt8)
    (buffer : Bytes) :
    metavariablesFrom sigil offset skip (previous.map Byte.blur) (buffer.map Byte.blur) =
      metavariablesFrom sigil offset skip previous buffer := by
  induction buffer generalizing offset skip previous with
  | nil => rw [List.map_nil, metavariablesFrom, metavariablesFrom]
  | cons b rest ih =>
    rcases skip with _ | skip
    · have hlength := metavariableLength?_blur sigil (b :: rest)
      rw [List.map_cons] at hlength ⊢
      rw [metavariablesFrom, metavariablesFrom, hlength]
      rcases hmatch : metavariableLength? sigil (b :: rest) with _ | length
      · exact ih (offset + 1) 0 (some b)
      · have hsite := metavariableSite_blur hmatch offset
        have hlater := ih (offset + 1) (length - 1) (some b)
        rw [List.map_cons] at hsite
        rw [Option.map_some] at hlater
        simp only [any_blur Byte.isIdentifier_blur, hsite, hlater]
    · rw [List.map_cons, metavariablesFrom, metavariablesFrom]
      exact ih (offset + 1) skip (some b)

theorem continuesDots_blur (b : Option UInt8) :
    continuesDots (b.map Byte.blur) = continuesDots b := by
  have hdot : Byte.dot < 0x80 := by decide
  refine any_blur (fun b => ?_) b
  rw [Byte.isIdentifier_blur, Byte.blur_beq hdot]

theorem wildcardsFrom_blur (taken : List Site) (offset skip : Nat) (previous : Option UInt8)
    (buffer : Bytes) :
    wildcardsFrom taken offset skip (previous.map Byte.blur) (buffer.map Byte.blur) =
      wildcardsFrom taken offset skip previous buffer := by
  induction buffer generalizing offset skip previous with
  | nil => rw [List.map_nil, wildcardsFrom, wildcardsFrom]
  | cons b rest ih =>
    rcases skip with _ | skip
    · have hdots := opensWithDots_blur (b :: rest)
      have hone := ih (offset + 1) 0 (some b)
      have hthree := ih (offset + 1) 2 (some b)
      rw [List.map_cons] at hdots ⊢
      rw [Option.map_some] at hone hthree
      rw [wildcardsFrom, wildcardsFrom, hdots, hone, hthree, ← List.map_drop, List.head?_map,
        continuesDots_blur, any_blur Byte.isOperandEnd_blur]
    · rw [List.map_cons, wildcardsFrom, wildcardsFrom]
      exact ih (offset + 1) skip (some b)

/-- The passes see nothing of what is not ASCII. -/
theorem sites_blur (sigil : Sigil) (fragment : Bytes) :
    sites sigil (fragment.map Byte.blur) = sites sigil fragment := by
  have hmetavariables := metavariablesFrom_blur sigil 0 0 none fragment
  have hwildcards := wildcardsFrom_blur (metavariablesFrom sigil 0 0 none fragment) 0 0 none fragment
  rw [Option.map_none] at hmetavariables hwildcards
  rw [sites, hmetavariables, hwildcards, sites]

end Placeholder

/-! ## Characters next to an offset -/

namespace Text

/-- What is spelled in an identifier: `_`, the letters and digits of ASCII, and the letters and
digits beyond ASCII, whichever these are. -/
def isIdentifierChar (letters : Char → Bool) (c : Char) : Bool :=
  if c.toNat < 128 then c.isAlphanum || c == '_' else letters c

/-- The letters and digits beyond ASCII. -/
def beyondAscii (letters : Char → Bool) (c : Char) : Bool := decide (128 ≤ c.toNat) && letters c

/-- A character of a text starts at the offset. -/
def StartsAt (text : String) (offset : Nat) (c : Char) : Prop :=
  ∃ front back, text.toList = front ++ c :: back ∧
    (Utf8.encode (String.ofList front)).length = offset

/-- A character of a text ends at the offset. -/
def EndsAt (text : String) (offset : Nat) (c : Char) : Prop :=
  ∃ front back, text.toList = front ++ c :: back ∧
    (Utf8.encode (String.ofList (front ++ [c]))).length = offset

variable {text : String} {offset : Nat} {c : Char}

/-- The bytes of a text from a character of it on. -/
theorem encode_eq_append {front back : List Char} (h : text.toList = front ++ c :: back) :
    Utf8.encode text = Utf8.encode (String.ofList front) ++
      (String.utf8EncodeChar c ++ Utf8.encode (String.ofList back)) := by
  rw [Utf8.encode, h, List.flatMap_append, List.flatMap_cons, Utf8.encode_ofList,
    Utf8.encode_ofList]

theorem StartsAt.getElem? (h : StartsAt text offset c) (hc : c.toNat < 128) :
    (Utf8.encode text)[offset]? = some (UInt8.ofNat c.toNat) := by
  obtain ⟨front, back, htext, rfl⟩ := h
  rw [encode_eq_append htext, Utf8.encodeChar_of_lt hc, List.getElem?_append_right (Nat.le_refl _),
    Nat.sub_self]
  rfl

theorem EndsAt.before? (h : EndsAt text offset c) (hc : c.toNat < 128) :
    (Utf8.encode text).before? offset = some (UInt8.ofNat c.toNat) := by
  obtain ⟨front, back, htext, rfl⟩ := h
  have hstarts : StartsAt text (Utf8.encode (String.ofList front)).length c :=
    ⟨front, back, htext, rfl⟩
  rw [Utf8.encode_ofList, List.flatMap_append, List.flatMap_singleton, Utf8.encodeChar_of_lt hc,
    List.length_append, ← Utf8.encode_ofList, List.length_singleton, Bytes.before?]
  exact hstarts.getElem? hc

theorem isIdentifier_ofNat : ∀ n < 128, Byte.isIdentifier (UInt8.ofNat n) =
    ((Char.ofNat n).isAlphanum || Char.ofNat n == '_') := by
  decide

/-- Where the byte is none of an identifier, only a letter beyond ASCII makes the character one. -/
theorem isIdentifierChar_eq_beyondAscii (letters : Char → Bool) {b : Option UInt8}
    (hb : b.any Byte.isIdentifier = false) (h : c.toNat < 128 → b = some (UInt8.ofNat c.toNat)) :
    isIdentifierChar letters c = beyondAscii letters c := by
  by_cases hc : c.toNat < 128
  · have hclass := isIdentifier_ofNat c.toNat hc
    rw [h hc, Option.any_some, hclass, Char.ofNat_toNat] at hb
    rw [isIdentifierChar, if_pos hc, hb, beyondAscii, decide_eq_false (by omega), Bool.false_and]
  · rw [isIdentifierChar, if_neg hc, beyondAscii, decide_eq_true (by omega), Bool.true_and]

/-- Two texts that differ only in characters beyond ASCII, each in one of the same length. -/
def Alike (s t : String) : Prop :=
  List.Forall₂ (fun c d => c = d ∨ 128 ≤ c.toNat ∧ 128 ≤ d.toNat ∧ c.utf8Size = d.utf8Size)
    s.toList t.toList

theorem map_blur_encodeChar (hc : 128 ≤ c.toNat) :
    (String.utf8EncodeChar c).map Byte.blur = List.replicate c.utf8Size 0x80 := by
  have hbytes := Utf8.not_lt_of_mem_encodeChar (show ¬ c.toNat < 128 by omega)
  rw [Byte.map_blur_of_not_lt hbytes, String.length_utf8EncodeChar]

theorem Alike.encode_blur {s t : String} (h : Alike s t) :
    (Utf8.encode s).map Byte.blur = (Utf8.encode t).map Byte.blur := by
  rw [Utf8.encode, Utf8.encode]
  unfold Alike at h
  generalize s.toList = cs, t.toList = ds at h
  induction h with
  | nil => rfl
  | cons hchar _ ih =>
    rw [List.flatMap_cons, List.map_append, ih, List.flatMap_cons, List.map_append]
    rcases hchar with rfl | ⟨hc, hd, hsize⟩
    · rfl
    · rw [map_blur_encodeChar hc, map_blur_encodeChar hd, hsize]

end Text

/-! ## What stands next to a site -/

/-- No character of a class stands next to a site: in front of it, and behind it too if it is a
wildcard. -/
structure Site.ClearOf (p : Char → Bool) (text : String) (s : Site) : Prop where
  before : ∀ c, Text.EndsAt text s.extent.start c → p c = false
  behind : s.kind = .wildcard → ∀ c, Text.StartsAt text s.extent.stop c → p c = false

theorem Site.ClearOf.imp {p q : Char → Bool} {text : String} {s : Site} (h : s.ClearOf p text)
    (hbefore : ∀ c, Text.EndsAt text s.extent.start c → q c = p c)
    (hbehind : s.kind = .wildcard → ∀ c, Text.StartsAt text s.extent.stop c → q c = p c) :
    s.ClearOf q text :=
  ⟨fun c hc => (hbefore c hc).trans (h.before c hc),
    fun hkind c hc => (hbehind hkind c hc).trans (h.behind hkind c hc)⟩

namespace Placeholder

variable {sigil : Sigil} {text : String} {s : Site} {c : Char}

theorem isIdentifierChar_before (letters : Char → Bool) (hs : s ∈ sites sigil (Utf8.encode text))
    (h : Text.EndsAt text s.extent.start c) :
    Text.isIdentifierChar letters c = Text.beyondAscii letters c :=
  Text.isIdentifierChar_eq_beyondAscii letters (before_of_mem_sites hs) h.before?

theorem isIdentifierChar_behind (letters : Char → Bool) (hs : s ∈ sites sigil (Utf8.encode text))
    (hkind : s.kind = .wildcard) (h : Text.StartsAt text s.extent.stop c) :
    Text.isIdentifierChar letters c = Text.beyondAscii letters c :=
  Text.isIdentifierChar_eq_beyondAscii letters
    (behind_of_mem_wildcards (mem_wildcards_of_mem_sites hs hkind)) h.getElem?

/-- Next to a site only letters beyond ASCII can be characters of an identifier. -/
theorem clearOf_iff (letters : Char → Bool) (hs : s ∈ sites sigil (Utf8.encode text)) :
    s.ClearOf (Text.isIdentifierChar letters) text ↔
      s.ClearOf (Text.beyondAscii letters) text := by
  constructor
  · intro h
    exact h.imp (fun c hc => (isIdentifierChar_before letters hs hc).symm)
      fun hkind c hc => (isIdentifierChar_behind letters hs hkind hc).symm
  · intro h
    exact h.imp (fun c hc => isIdentifierChar_before letters hs hc)
      fun hkind c hc => isIdentifierChar_behind letters hs hkind hc

end Placeholder

namespace Placeholders

/-- **The scan respects identifiers exactly as far as ASCII goes.** No character of an
identifier stands in front of a placeholder, nor behind it if it is a wildcard, if and only if no
letter beyond ASCII does. The scan finds the same placeholders whichever characters beyond ASCII
there are, so it cannot tell letters from others. -/
theorem clearOf_isIdentifierChar_iff (letters : Char → Bool) (sigil : Sigil)
    (style : WildcardStyle) (text : String) :
    (∀ s ∈ (scan sigil style (Utf8.encode text)).sites,
      (s.ClearOf (Text.isIdentifierChar letters) text ↔
        s.ClearOf (Text.beyondAscii letters) text)) ∧
    ∀ text', Text.Alike text text' →
      (scan sigil style (Utf8.encode text')).sites =
        (scan sigil style (Utf8.encode text)).sites := by
  simp only [scan]
  constructor
  · exact fun s hs => Placeholder.clearOf_iff letters hs
  · intro text' halike
    rw [← Placeholder.sites_blur, ← halike.encode_blur, Placeholder.sites_blur]

/-- An accented letter in front of a metavariable or on either side of a wildcard does not keep
it from being a placeholder. -/
theorem not_clearOf_besideAccents :
    (scan .dollar .identifier (Utf8.encode "é$B")).sites =
        [⟨⟨2, 4⟩, .metavariable "$B" false⟩] ∧
      (scan .dollar .identifier (Utf8.encode "...été")).sites = [⟨⟨0, 3⟩, .wildcard⟩] ∧
      (scan .dollar .identifier (Utf8.encode "é...")).sites = [⟨⟨2, 5⟩, .wildcard⟩] ∧
      ¬ ∃ letters : Char → Bool, letters 'é' = true ∧ ∀ text,
        ∀ s ∈ (scan .dollar .identifier (Utf8.encode text)).sites,
          s.ClearOf (Text.isIdentifierChar letters) text := by
  have hmetavariable : (scan .dollar .identifier (Utf8.encode "é$B")).sites =
      [⟨⟨2, 4⟩, .metavariable "$B" false⟩] := by
    decide +kernel
  refine ⟨hmetavariable, by decide +kernel, by decide +kernel, ?_⟩
  rintro ⟨letters, hletter, hclear⟩
  have hmem := List.mem_singleton_self (⟨⟨2, 4⟩, .metavariable "$B" false⟩ : Site)
  rw [← hmetavariable] at hmem
  have hends : Text.EndsAt "é$B" 2 'é' := ⟨[], ['$', 'B'], by decide, by decide⟩
  have hfalse := (hclear "é$B" _ hmem).before 'é' hends
  rw [Text.isIdentifierChar, if_neg (by decide), hletter] at hfalse
  cases hfalse

end Placeholders

end SpanTree

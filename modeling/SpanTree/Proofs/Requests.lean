import SpanTree.Engine
import SpanTree.Proofs.Pattern
import SpanTree.Proofs.Registry
import SpanTree.Proofs.Target
import SpanTree.Proofs.Utf8.Decoding

/-!
# Requests

A request names a language, a source and a mode. Of the source only its bytes matter, whatever
form they come in (`Engine.parse_bytes`): a target is parsed from them as they are, and a
pattern from the text that they encode. Where they encode none, a pattern is refused at the
first ill-formed sequence.

The language is looked up before the source of a target is read, but after that of a pattern.
So a language that is not registered is reported for every target, and for every pattern whose
source has a text (`Engine.parse_unknownLanguage`). Any other pattern fails for its source.
-/

namespace SpanTree

/-! ## Sources -/

namespace Source

/-- The bytes of a text are read as this text. -/
theorem textOfBytes_encode (s : String) : textOfBytes (Utf8.encode s) = .ok s := by
  have hdecode : Utf8.decode (Utf8.encode s) = .ok s := Utf8.decode_eq_ok_iff.mpr rfl
  rw [textOfBytes, hdecode]

theorem exists_of_textOfBytes_eq_ok {b : Bytes} {s : String} (h : textOfBytes b = .ok s) :
    Utf8.encode s = b := by
  rw [textOfBytes] at h
  split at h
  · next hdecode =>
    cases h
    exact Utf8.decode_eq_ok_iff.mp hdecode
  · cases h

/-- Bytes that are no text are refused at the first ill-formed sequence. -/
theorem exists_textOfBytes_eq_error {b : Bytes} (h : ¬ Utf8.WellFormed b) :
    ∃ bad, Utf8.IsFirstIllFormed b bad ∧ textOfBytes b =
      .error (.unparseablePattern (.ofRange (LineIndex.ofBytes b) bad.start bad.stop) .notUtf8) := by
  rcases hdecode : Utf8.decode b with bad | s
  · refine ⟨bad, Utf8.decode_eq_error_iff.mp hdecode, ?_⟩
    rw [textOfBytes, hdecode]
  · exact absurd ⟨s, Utf8.decode_eq_ok_iff.mp hdecode⟩ h

/-- What is read of a file that the provider returns is what is read of its bytes. -/
theorem read_path {provider : SourceProvider} {file : String} {b : Bytes}
    (h : provider file = .ok b) : (path file).read provider = (bytes b).read provider ∧
      (path file).readText provider = (bytes b).readText provider := by
  refine ⟨h, ?_⟩
  simp only [readText, h, ok_bind]

/-- What is read of a text is what is read of its bytes. -/
theorem read_text (provider : SourceProvider) (s : String) :
    (text s).read provider = (bytes (Utf8.encode s)).read provider ∧
      (text s).readText provider = (bytes (Utf8.encode s)).readText provider :=
  ⟨rfl, (textOfBytes_encode s).symm⟩

/-- Whether a source can be read, and its bytes are the encoding of a text. -/
def IsText (provider : SourceProvider) : Source → Prop
  | text _ => True
  | bytes b => Utf8.WellFormed b
  | path file => ∃ b, provider file = .ok b ∧ Utf8.WellFormed b

theorem wellFormed_iff {b : Bytes} : Utf8.WellFormed b ↔ ∃ s, textOfBytes b = .ok s := by
  constructor
  · rintro ⟨s, rfl⟩
    exact ⟨s, textOfBytes_encode s⟩
  · rintro ⟨s, hs⟩
    exact ⟨s, exists_of_textOfBytes_eq_ok hs⟩

/-- The text of a source is read exactly if there is one. -/
theorem isText_iff {provider : SourceProvider} {source : Source} :
    source.IsText provider ↔ ∃ s, source.readText provider = .ok s := by
  cases source with
  | text s => exact iff_of_true trivial ⟨s, rfl⟩
  | bytes b => exact wellFormed_iff
  | path file =>
    rw [IsText]
    rcases h : provider file with e | b
    · constructor
      · rintro ⟨b, hb, -⟩
        cases hb
      · rintro ⟨s, hs⟩
        rw [readText, h] at hs
        cases hs
    · rw [(read_path h).2, readText, ← wellFormed_iff]
      constructor
      · rintro ⟨_, ⟨⟩, hb⟩
        exact hb
      · intro hb
        exact ⟨b, rfl, hb⟩

end Source

/-! ## Answers -/

namespace Engine

variable {e : Engine} {language : String} {source source' : Source} {mode : Mode}
  {trees : Choice.RuleTrees}

theorem parse_target (e : Engine) (language : String) (source : Source)
    (trees : Choice.RuleTrees) :
    e.parse ⟨language, source, .target⟩ trees =
      (e.parseTarget language source (trees 0)).map .target := rfl

theorem parse_pattern (e : Engine) (language : String) (source : Source) (expressionOnly : Bool)
    (trees : Choice.RuleTrees) :
    e.parse ⟨language, source, .pattern expressionOnly⟩ trees =
      (source.readText e.provider).bind fun text =>
        (e.parsePattern expressionOnly language text trees).map .pattern := rfl

/-- Sources of which the same is read are answered alike. -/
theorem parse_congr (h : source.read e.provider = source'.read e.provider ∧
    source.readText e.provider = source'.readText e.provider) :
    e.parse ⟨language, source, mode⟩ trees = e.parse ⟨language, source', mode⟩ trees := by
  cases mode with
  | target => rw [parse_target, parse_target, parseTarget, parseTarget, h.1]
  | pattern expressionOnly => rw [parse_pattern, parse_pattern, h.2]

/-- The tree of a target lies over the bytes that are read of its source. -/
theorem source_of_parseTarget {t : RawTree} {tree : SyntaxTree}
    (h : e.parseTarget language source t = .ok tree) :
    source.read e.provider = .ok tree.source := by
  rw [parseTarget] at h
  rcases hentry : e.registry.resolveEntry language with err | entry
  · rw [hentry] at h
    cases h
  · rcases hread : source.read e.provider with err | b
    · simp only [hentry, hread, ok_bind] at h
      cases h
    · simp only [hentry, hread, ok_bind, SyntaxTree.ofTarget_eq] at h
      cases h
      rfl

/-- The tree of a pattern lies over the bytes of its text. -/
theorem source_of_parsePattern {expressionOnly : Bool} {text : String} {p : PatternTree}
    (h : e.parsePattern expressionOnly language text trees = .ok p) :
    p.tree.source = Utf8.encode text := by
  rw [parsePattern] at h
  rcases hentry : e.registry.resolveEntry language with err | entry
  · rw [hentry] at h
    cases h
  · simp only [hentry, ok_bind] at h
    obtain ⟨c, -, -, -, rfl⟩ := PatternTree.exists_of_ofText_eq_ok h
    rfl

/-- The tree of an answer lies over the bytes of the source, all of them. -/
theorem source_of_parse {b : Bytes} {parsed : Parsed}
    (h : e.parse ⟨language, .bytes b, mode⟩ trees = .ok parsed) : parsed.tree.source = b := by
  cases mode with
  | target =>
    rw [parse_target] at h
    rcases htarget : e.parseTarget language (.bytes b) (trees 0) with err | tree
    · rw [htarget] at h
      cases h
    · rw [htarget] at h
      cases h
      exact (Except.ok.inj (source_of_parseTarget htarget)).symm
  | pattern expressionOnly =>
    rw [parse_pattern] at h
    rcases hread : (Source.bytes b).readText e.provider with err | text
    · rw [hread] at h
      cases h
    · rcases hpattern : e.parsePattern expressionOnly language text trees with err | p
      · simp only [hread, Except.bind, hpattern] at h
        cases h
      · simp only [hread, Except.bind, hpattern] at h
        cases h
        exact (source_of_parsePattern hpattern).trans (Source.exists_of_textOfBytes_eq_ok hread)

/-- **The form of a source does not matter**, only its bytes: a file with these bytes, and the
text that they encode, are answered like the bytes. The parser is given the same to parse in
each form, so its trees are the same. As a pattern, bytes that encode no text are refused at
the first ill-formed sequence. The tree of an answer lies over the bytes as they are. -/
theorem parse_bytes (e : Engine) (language : String) (b : Bytes) (mode : Mode)
    (trees : Choice.RuleTrees) :
    (∀ file, e.provider file = .ok b →
      e.parse ⟨language, .path file, mode⟩ trees = e.parse ⟨language, .bytes b, mode⟩ trees) ∧
    (∀ s, Utf8.encode s = b →
      e.parse ⟨language, .text s, mode⟩ trees = e.parse ⟨language, .bytes b, mode⟩ trees) ∧
    (∀ expressionOnly, mode = .pattern expressionOnly → ¬ Utf8.WellFormed b →
      ∃ bad, Utf8.IsFirstIllFormed b bad ∧
        e.parse ⟨language, .bytes b, mode⟩ trees = .error (.unparseablePattern
          (.ofRange (LineIndex.ofBytes b) bad.start bad.stop) .notUtf8)) ∧
    ∀ parsed, e.parse ⟨language, .bytes b, mode⟩ trees = .ok parsed →
      parsed.tree.source = b := by
  refine ⟨?_, ?_, ?_, ?_⟩
  · intro file hfile
    exact parse_congr (Source.read_path hfile)
  · rintro s rfl
    exact parse_congr (Source.read_text e.provider s)
  · rintro expressionOnly rfl hb
    obtain ⟨bad, hbad, heq⟩ := Source.exists_textOfBytes_eq_error hb
    refine ⟨bad, hbad, ?_⟩
    rw [parse_pattern, Source.readText, heq]
    rfl
  · intro parsed h
    exact source_of_parse h

/-- A line, and a second line that breaks off inside a character. -/
def brokenOff : Bytes := [0x61, 0x0A, 0xF0, 0x9F, 0x98]

theorem isFirstIllFormed_brokenOff : Utf8.IsFirstIllFormed brokenOff ⟨2, 5⟩ :=
  Utf8.decode_eq_error_iff.mp rfl

/-- An engine with one language, and with one file that is broken off. -/
def oneFile : Engine where
  registry := ⟨[⟨⟨"python"⟩, ⟨0, PatternTree.bracketGrammar⟩⟩], 1⟩
  provider := fun file => if file = "smile.py" then .ok brokenOff else .error (.sourceNotFound file)
  strict := false

/-- The backend finds nothing in any of the sources. -/
def emptyTrees : Choice.RuleTrees := fun _ => ⟨"module", true, false, false, false, 0, 0, []⟩

/-- As a pattern the file is refused where it breaks off, and as a target it is parsed as it is.
A text is answered like its bytes. -/
theorem parse_bytes_oneFile :
    oneFile.parse ⟨"Python", .path "smile.py", .pattern false⟩ emptyTrees =
      .error (.unparseablePattern ⟨2, 5, ⟨2, 0⟩, ⟨2, 3⟩⟩ .notUtf8) ∧
    (∃ parsed, oneFile.parse ⟨"Python", .bytes brokenOff, .target⟩ emptyTrees = .ok parsed ∧
      parsed.tree.source = brokenOff) ∧
    oneFile.parse ⟨"Python", .text "é", .pattern true⟩ emptyTrees =
      oneFile.parse ⟨"Python", .bytes [0xC3, 0xA9], .pattern true⟩ emptyTrees := by
  refine ⟨?_, ⟨_, rfl, ?_⟩, ?_⟩
  · obtain ⟨hpath, -, hpattern, -⟩ :=
      parse_bytes oneFile "Python" brokenOff (.pattern false) emptyTrees
    obtain ⟨bad, hbad, heq⟩ := hpattern false rfl isFirstIllFormed_brokenOff.not_wellFormed
    obtain rfl := hbad.eq isFirstIllFormed_brokenOff
    rw [hpath "smile.py" rfl, heq]
    rfl
  · exact (parse_bytes oneFile "Python" brokenOff .target emptyTrees).2.2.2 _ rfl
  · exact (parse_bytes oneFile "Python" [0xC3, 0xA9] (.pattern true) emptyTrees).2.1 "é" rfl

/-! ## Unknown languages -/

theorem parsePattern_of_not_mem {expressionOnly : Bool} {text : String}
    (h : LanguageId.ofSpelling language ∉ e.languages) :
    e.parsePattern expressionOnly language text trees = .error (.unknownLanguage language) := by
  rw [parsePattern, (Registry.findsNothing h).resolveEntry_eq]
  rfl

/-- **A language that is not registered is reported** for every target, and for every pattern
whose source has a text. Any other pattern fails with what reading its source fails with. -/
theorem parse_unknownLanguage {r : Request} (h : LanguageId.ofSpelling r.language ∉ e.languages) :
    (r.mode = .target ∨ r.source.IsText e.provider →
      e.parse r trees = .error (.unknownLanguage r.language)) ∧
    (¬ (r.mode = .target ∨ r.source.IsText e.provider) →
      ∃ err, r.source.readText e.provider = .error err ∧ e.parse r trees = .error err) := by
  obtain ⟨language, source, mode⟩ := r
  cases mode with
  | target =>
    refine ⟨fun _ => ?_, fun hnot => absurd (Or.inl rfl) hnot⟩
    rw [parse_target, parseTarget, (Registry.findsNothing h).resolveEntry_eq]
    rfl
  | pattern expressionOnly =>
    rw [parse_pattern, Source.isText_iff]
    rcases hread : source.readText e.provider with err | text
    · refine ⟨?_, fun _ => ⟨err, rfl, rfl⟩⟩
      rintro (hmode | ⟨s, hs⟩)
      · cases hmode
      · cases hs
    · refine ⟨fun _ => ?_, fun hnot => absurd (Or.inr ⟨text, rfl⟩) hnot⟩
      rw [Except.bind, parsePattern_of_not_mem h]
      rfl

/-- A target in a language that is not registered is refused for its language even if the file
is missing, and so is a pattern whose bytes are a text. A pattern in a file that is no text is
refused for the file. -/
theorem parse_unknownLanguage_cobol :
    oneFile.parse ⟨" Cobol", .path "missing.cbl", .target⟩ emptyTrees =
      .error (.unknownLanguage " Cobol") ∧
    oneFile.parse ⟨" Cobol", .bytes [0xC3, 0xA9], .pattern false⟩ emptyTrees =
      .error (.unknownLanguage " Cobol") ∧
    oneFile.parse ⟨" Cobol", .path "smile.py", .pattern false⟩ emptyTrees =
      .error (.unparseablePattern ⟨2, 5, ⟨2, 0⟩, ⟨2, 3⟩⟩ .notUtf8) := by
  have hnot : LanguageId.ofSpelling " Cobol" ∉ oneFile.languages := by decide
  refine ⟨?_, ?_, ?_⟩
  · exact (parse_unknownLanguage (r := ⟨" Cobol", .path "missing.cbl", .target⟩) hnot).1
      (Or.inl rfl)
  · exact (parse_unknownLanguage (r := ⟨" Cobol", .bytes [0xC3, 0xA9], .pattern false⟩) hnot).1
      (Or.inr ⟨"é", rfl⟩)
  · have hsource : ¬ (Mode.pattern false = .target ∨
        (Source.path "smile.py").IsText oneFile.provider) := by
      rintro (hmode | ⟨b, hb, hwell⟩)
      · cases hmode
      · cases hb
        exact isFirstIllFormed_brokenOff.not_wellFormed hwell
    obtain ⟨err, hread, heq⟩ :=
      (parse_unknownLanguage (r := ⟨" Cobol", .path "smile.py", .pattern false⟩) hnot).2 hsource
    have hbytes : (Source.path "smile.py").readText oneFile.provider =
        .error (.unparseablePattern ⟨2, 5, ⟨2, 0⟩, ⟨2, 3⟩⟩ .notUtf8) := rfl
    rw [heq, Except.error.inj (hread.symm.trans hbytes)]

/-- In a language that no built-in grammar serves, a pattern that is no text is refused for its
bytes, and one in a file that is missing for the file. -/
theorem parse_unknownLanguage_unread :
    ∃ e, ofConfig (fun file => .error (.sourceNotFound file)) .default = .ok e ∧
      LanguageId.ofSpelling "cobol" ∉ e.languages ∧
      e.parse ⟨"cobol", .bytes [0xFF], .pattern false⟩ emptyTrees =
        .error (.unparseablePattern ⟨0, 1, ⟨1, 0⟩, ⟨1, 1⟩⟩ .notUtf8) ∧
      e.parse ⟨"cobol", .path "missing.cbl", .pattern false⟩ emptyTrees =
        .error (.sourceNotFound "missing.cbl") := by
  refine ⟨_, rfl, ?_, rfl, rfl⟩
  decide +kernel

end Engine

end SpanTree

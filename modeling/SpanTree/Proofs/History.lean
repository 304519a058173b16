import SpanTree.Proofs.Registry
import SpanTree.Registry.Builtin

/-!
# The history of a registry

A host changes a registry by calls, each of which may be refused. The calls are run here as
they act in place, so that ids which a call had bound before it was refused would stay bound
(`bindInPlace`). None does: a call that is refused leaves the registry as it was, and any
other puts its bindings behind the entries that are there (`Call.run_cases`).

It follows for any number of calls that the entries are those of the calls that were not
refused, in order (`entries_after`), that nothing is ever moved or bound again
(`entries_prefix_after`), and that the registry stays a map from normal forms of ids
(`Sound.after`). The built-in registries are themselves made by such calls.
-/

namespace SpanTree

namespace Registry

/-! ## One call -/

/-- A call on a registry. -/
inductive Call where
  /-- make a grammar that ids can be bound to -/
  | share (g : Grammar)
  /-- bind one id -/
  | register (spelling : String) (bound : SharedGrammar)
  /-- make a grammar and bind several ids to it -/
  | registerFamily (spellings : List String) (g : Grammar)
  deriving DecidableEq, Repr

/-- What a call answers, and what it leaves of the registry. -/
structure Outcome where
  refusal : Option Error
  registry : Registry
  deriving DecidableEq, Repr

/-- Bind ids one after another. Those in front of one that is refused stay bound. -/
def bindInPlace (bound : SharedGrammar) : Registry → List LanguageId → Outcome
  | r, [] => ⟨none, r⟩
  | r, id :: ids =>
    match r.register id bound with
    | .ok r => bindInPlace bound r ids
    | .error e => ⟨some e, r⟩

/-- A call in place. -/
def Call.run (r : Registry) : Call → Outcome
  | share g => ⟨none, (r.share g).2⟩
  | register spelling bound => bindInPlace bound r [.ofSpelling spelling]
  | registerFamily spellings g =>
    match r.firstDuplicate [] (spellings.map .ofSpelling) with
    | some id => ⟨some (.duplicateLanguage id.name), r⟩
    | none => bindInPlace (r.share g).1 (r.share g).2 (spellings.map .ofSpelling)

/-- The entries that a call asks for. -/
def Call.bindings (r : Registry) : Call → List RegistryEntry
  | share _ => []
  | register spelling bound => [⟨.ofSpelling spelling, bound⟩]
  | registerFamily spellings g =>
    spellings.map fun spelling => ⟨.ofSpelling spelling, (r.share g).1⟩

variable {r start : Registry}

theorem bindInPlace_eq {ids : List LanguageId} {bound : SharedGrammar} (h : r.Admits ids) :
    bindInPlace bound r ids = ⟨none, r.bindAll bound ids⟩ := by
  have hfold := foldlM_register_eq bound h
  generalize r.bindAll bound ids = r' at hfold
  clear h
  induction ids generalizing r with
  | nil =>
    cases hfold
    rfl
  | cons id ids ih =>
    rw [List.foldlM_cons] at hfold
    rw [bindInPlace]
    rcases hregister : r.register id bound with e | next
    · rw [hregister] at hfold
      cases hfold
    · rw [hregister] at hfold
      exact ih hfold

/-- The outcome in place of what would return a changed registry. -/
def Outcome.ofResult (r : Registry) : Except Error Registry → Outcome
  | .ok changed => ⟨none, changed⟩
  | .error e => ⟨some e, r⟩

/-- Registering in place is registering, and a refusal leaves the registry. -/
theorem Call.run_register (r : Registry) (spelling : String) (bound : SharedGrammar) :
    (Call.register spelling bound).run r =
      .ofResult r (r.register (.ofSpelling spelling) bound) := by
  rw [run, bindInPlace]
  rcases r.register (.ofSpelling spelling) bound with e | next <;> rfl

theorem Call.run_registerFamily (r : Registry) (spellings : List String) (g : Grammar) :
    (Call.registerFamily spellings g).run r =
      .ofResult r ((r.registerFamily spellings g).map (·.2)) := by
  rw [run, registerFamily_eq]
  rcases h : r.firstDuplicate [] (spellings.map .ofSpelling) with _ | id
  · exact bindInPlace_eq (admits_share_iff.mpr (firstDuplicate_eq_none_iff.mp h).1)
  · rfl

/-- **What one call does.** If all ids that it asks for can be bound, it puts its bindings
behind the entries. Otherwise it is refused for one of them and changes nothing. -/
theorem Call.run_cases (r : Registry) (call : Call) :
    (r.Admits ((call.bindings r).map (·.id)) ∧ (call.run r).refusal = none ∧
      (call.run r).registry.entries = r.entries ++ call.bindings r) ∨
    (¬ r.Admits ((call.bindings r).map (·.id)) ∧ ∃ id ∈ (call.bindings r).map (·.id),
      call.run r = ⟨some (.duplicateLanguage id.name), r⟩) := by
  cases call with
  | share g =>
    exact Or.inl ⟨⟨List.forall_mem_nil _, List.nodup_nil⟩, rfl, (List.append_nil _).symm⟩
  | register spelling bound =>
    rw [run_register, register_eq, bindings, List.map_singleton, admits_singleton_iff]
    by_cases hlisted : LanguageId.ofSpelling spelling ∈ r.languages
    · rw [if_pos hlisted]
      exact Or.inr ⟨not_not_intro hlisted, _, List.mem_singleton_self _, rfl⟩
    · rw [if_neg hlisted]
      exact Or.inl ⟨hlisted, rfl, rfl⟩
  | registerFamily spellings g =>
    have hids : ((registerFamily spellings g).bindings r).map (·.id) =
        spellings.map .ofSpelling := by
      rw [bindings, List.map_map]
      rfl
    rw [run_registerFamily, registerFamily_eq, hids]
    rcases h : r.firstDuplicate [] (spellings.map .ofSpelling) with _ | id
    · refine Or.inl ⟨(firstDuplicate_eq_none_iff.mp h).1, rfl, ?_⟩
      exact congrArg (r.entries ++ ·) List.map_map
    · refine Or.inr ⟨fun hadmits => ?_, id, mem_of_firstDuplicate_eq_some h, rfl⟩
      have hnone := firstDuplicate_eq_none_iff.mpr ⟨hadmits, fun _ _ => List.not_mem_nil⟩
      rw [h] at hnone
      cases hnone

/-! ## Any number of calls -/

/-- What calls one after another leave of a registry. -/
def after : Registry → List Call → Registry
  | r, [] => r
  | r, call :: calls => (call.run r).registry.after calls

/-- The bindings of the calls that are not refused. -/
def registered : Registry → List Call → List RegistryEntry
  | _, [] => []
  | r, call :: calls =>
    (if (call.run r).refusal = none then call.bindings r else []) ++
      (call.run r).registry.registered calls

theorem after_append (r : Registry) (calls later : List Call) :
    r.after (calls ++ later) = (r.after calls).after later := by
  induction calls generalizing r with
  | nil => rfl
  | cons call calls ih => exact ih _

/-- **The entries are those registered**, in order, behind those at the start. -/
theorem entries_after (r : Registry) (calls : List Call) :
    (r.after calls).entries = r.entries ++ r.registered calls := by
  induction calls generalizing r with
  | nil => exact (List.append_nil _).symm
  | cons call calls ih =>
    rw [after, registered, ih]
    rcases call.run_cases r with ⟨-, haccepted, hentries⟩ | ⟨-, id, -, hrun⟩
    · rw [if_pos haccepted, hentries, List.append_assoc]
    · rw [hrun, if_neg (Option.some_ne_none _), List.nil_append]

/-- Later calls keep every entry, at its place. -/
theorem entries_prefix_after (r : Registry) (calls : List Call) :
    r.entries <+: (r.after calls).entries := by
  rw [entries_after]
  exact List.prefix_append _ _

/-! ## What calls preserve -/

/-- The ids of a registry are in normal form, and none is repeated. -/
structure Sound (r : Registry) : Prop where
  nodup : r.languages.Nodup
  normal : ∀ id ∈ r.languages, id.Normal

theorem sound_empty : Registry.empty.Sound := ⟨List.nodup_nil, List.forall_mem_nil _⟩

theorem Call.normal_bindings {call : Call} : ∀ id ∈ (call.bindings r).map (·.id), id.Normal := by
  intro id hid
  obtain ⟨entry, hentry, rfl⟩ := List.mem_map.mp hid
  cases call with
  | share g => cases hentry
  | register spelling bound =>
    obtain rfl := List.mem_singleton.mp hentry
    exact LanguageId.normal_ofSpelling spelling
  | registerFamily spellings g =>
    obtain ⟨spelling, -, rfl⟩ := List.mem_map.mp hentry
    exact LanguageId.normal_ofSpelling spelling

/-- A call keeps the ids in normal form and apart from one another. -/
theorem Sound.run (h : r.Sound) (call : Call) : (call.run r).registry.Sound := by
  rcases call.run_cases r with ⟨hadmits, -, hentries⟩ | ⟨-, id, -, hrun⟩
  · have hlanguages : (call.run r).registry.languages =
        r.languages ++ (call.bindings r).map (·.id) := by
      rw [languages, hentries, List.map_append, languages]
    refine ⟨?_, ?_⟩
    · rw [hlanguages, List.nodup_append']
      exact ⟨h.nodup, hadmits.nodup, fun id hid hnew => hadmits.fresh id hnew hid⟩
    · intro id hid
      rw [hlanguages, List.mem_append] at hid
      exact hid.elim (h.normal id) (Call.normal_bindings id)
  · rw [hrun]
    exact h

theorem Sound.after (h : r.Sound) (calls : List Call) : (r.after calls).Sound := by
  induction calls generalizing r with
  | nil => exact h
  | cons call calls ih => exact ih (h.run call)

/-- Adding a built-in family is a call, or none at all. -/
theorem exists_after_of_addFamily {only : Option (List String)} {family : Grammar.Family}
    {r' : Registry} (h : addFamily only r family = .ok r') : ∃ calls, r.after calls = r' := by
  rw [addFamily] at h
  split at h
  · cases h
    exact ⟨[], rfl⟩
  · rcases hg : family.grammar with e | g
    · rw [hg] at h
      cases h
    · refine ⟨[.registerFamily (wanted only family.ids) g], ?_⟩
      rw [after, after, Call.run_registerFamily]
      simp only [hg, ok_bind] at h
      rcases hfamily : r.registerFamily (wanted only family.ids) g with e | ⟨bound, next⟩
      · rw [hfamily] at h
        cases h
      · rw [hfamily] at h
        cases h
        rfl

theorem exists_after_of_foldlM {only : Option (List String)} {families : List Grammar.Family}
    {r' : Registry} (h : families.foldlM (addFamily only) r = .ok r') :
    ∃ calls, r.after calls = r' := by
  induction families generalizing r with
  | nil =>
    cases h
    exact ⟨[], rfl⟩
  | cons family families ih =>
    rw [List.foldlM_cons] at h
    rcases hfamily : addFamily only r family with e | next
    · rw [hfamily] at h
      cases h
    · rw [hfamily] at h
      obtain ⟨calls, rfl⟩ := exists_after_of_addFamily hfamily
      obtain ⟨later, rfl⟩ := ih h
      exact ⟨calls ++ later, after_append r calls later⟩

/-- A built-in registry is made from the empty one by calls. -/
theorem exists_after_of_builtin {only : Option (List String)} (h : builtin only = .ok start) :
    ∃ calls, empty.after calls = start := by
  rw [builtin] at h
  split at h
  · cases h
  · exact exists_after_of_foldlM h

theorem sound_of_start (h : start = empty ∨ ∃ only, builtin only = .ok start) : start.Sound := by
  rcases h with rfl | ⟨only, h⟩
  · exact sound_empty
  · obtain ⟨calls, rfl⟩ := exists_after_of_builtin h
    exact sound_empty.after calls

/-- A registry that calls have left of another is an ordered map to which entries were only
ever appended. -/
structure IsAppended (start : Registry) (calls : List Call) (r : Registry) : Prop where
  sound : r.Sound
  /-- the languages are those registered, in order -/
  languages_eq : r.languages = start.languages ++ (start.registered calls).map (·.id)
  /-- a call that is refused changes nothing, and any other only appends -/
  step : ∀ call : Call,
    ((call.run r).refusal ≠ none ∧ (call.run r).registry = r) ∨
    ((call.run r).refusal = none ∧
      (call.run r).registry.entries = r.entries ++ call.bindings r)
  /-- an id stays where it is and bound to what it is -/
  kept : ∀ later, r.entries <+: (start.after (calls ++ later)).entries
  /-- a spelling is resolved to the entry that was registered for its id, and to no other -/
  resolves : ∀ spelling entry, r.resolveEntry spelling = .ok entry ↔
    entry ∈ start.entries ++ start.registered calls ∧ entry.id = .ofSpelling spelling
  /-- all lookups find something for a spelling of an id that is registered -/
  finds : ∀ spelling, LanguageId.ofSpelling spelling ∈ r.languages →
    ∃ entry, r.Finds spelling entry
  /-- and any other spelling finds nothing -/
  findsNothing : ∀ spelling, LanguageId.ofSpelling spelling ∉ r.languages →
    r.FindsNothing spelling

/-- **A registry is an append-only map**, from the empty or a built-in one on through any
number of calls. -/
theorem isAppended_after (h : start = empty ∨ ∃ only, builtin only = .ok start)
    (calls : List Call) : IsAppended start calls (start.after calls) where
  sound := (sound_of_start h).after calls
  languages_eq := by
    rw [languages, entries_after, List.map_append, languages]
  step := by
    intro call
    rcases call.run_cases (start.after calls) with ⟨-, haccepted, hentries⟩ | ⟨-, id, -, hrun⟩
    · exact Or.inr ⟨haccepted, hentries⟩
    · rw [hrun]
      exact Or.inl ⟨Option.some_ne_none _, rfl⟩
  kept := by
    intro later
    rw [after_append]
    exact entries_prefix_after _ later
  resolves := by
    intro spelling entry
    rw [← entries_after]
    exact resolveEntry_eq_ok_iff ((sound_of_start h).after calls).nodup
  finds := by
    intro spelling hlisted
    obtain ⟨entry, -, -, hfinds⟩ := exists_finds hlisted
    exact ⟨entry, hfinds⟩
  findsNothing := fun _ => Registry.findsNothing

/-- Calls that register ids in several spellings. Two of them are refused as duplicates. -/
def severalSpellings : List Call :=
  [ .share default,
    .register "\u2003Cobol\t" ⟨5, default⟩,
    .register "COBOL" ⟨0, default⟩,
    .registerFamily ["ada", "Python"] default,
    .registerFamily ["ADA ", "Ä"] default ]

/-- On the built-in registry the calls leave the built-in languages and three more, of which
one keeps a capital letter that is not ASCII. -/
theorem isAppended_after_severalSpellings :
    ∃ start, builtin none = .ok start ∧
      IsAppended start severalSpellings (start.after severalSpellings) ∧
      (start.after severalSpellings).languages.map (·.name) =
        ["html", "xml", "python", "python2", "python3", "javascript", "rust", "go", "cobol",
          "ada", "Ä"] := by
  have hnames : (builtin none).toOption.map
      (fun start => (start.after severalSpellings).languages.map (·.name)) =
        some ["html", "xml", "python", "python2", "python3", "javascript", "rust", "go", "cobol",
          "ada", "Ä"] := by
    decide +kernel
  rcases hstart : builtin none with e | start
  · rw [hstart] at hnames
    cases hnames
  · rw [hstart] at hnames
    refine ⟨start, rfl, ?_, Option.some.inj hnames⟩
    exact isAppended_after (Or.inr ⟨none, hstart⟩) severalSpellings

end Registry

end SpanTree

import Mathlib.Algebra.GroupWithZero.Nat
import SpanTree.Proofs.History
import SpanTree.Proofs.Restriction

/-!
# Families of languages

Ids that are bound to one grammar object form a family. What is one object is told by the
handle, and a host can bind an id only to a grammar that it holds: one that a call gave it,
or one that it looked up (`UsesHeld`). Along every such history different grammars have
different handles (`Owned.after`), so that the test of the program is equality.

The families then partition the languages: the family of an id are the ids that resolve to
the same object, the different objects are listed once each, in the order of their first
ids, and their families have every language once (`Partitioned`, `partitioned_after`).
-/

namespace SpanTree

namespace Registry

/-! ## Grammars that a host holds -/

/-- The grammars that a call gives to the host. -/
def Call.made (r : Registry) : Call → List SharedGrammar
  | share g => [(r.share g).1]
  | register _ _ => []
  | registerFamily spellings g =>
    if ((registerFamily spellings g).run r).refusal = none then [(r.share g).1] else []

/-- Whether a call binds an id to no grammar but one of those held, or to one that it makes. -/
def Call.Uses (held : List SharedGrammar) : Call → Prop
  | share _ => True
  | register _ bound => bound ∈ held
  | registerFamily _ _ => True

instance (held : List SharedGrammar) : (call : Call) → Decidable (call.Uses held)
  | .share _ => inferInstanceAs (Decidable True)
  | .register _ bound => inferInstanceAs (Decidable (bound ∈ held))
  | .registerFamily _ _ => inferInstanceAs (Decidable True)

/-- Calls one after another bind ids only to grammars that the host holds by then; at first
it holds those given. -/
def UsesHeld : Registry → List SharedGrammar → List Call → Prop
  | _, _, [] => True
  | r, held, call :: calls =>
    call.Uses held ∧ UsesHeld (call.run r).registry (held ++ call.made r) calls

instance usesHeldDecidable :
    (r : Registry) → (held : List SharedGrammar) → (calls : List Call) →
      Decidable (UsesHeld r held calls)
  | _, _, [] => inferInstanceAs (Decidable True)
  | r, held, call :: calls =>
    have := usesHeldDecidable (call.run r).registry (held ++ call.made r) calls
    inferInstanceAs (Decidable (_ ∧ _))

/-- Different grammars that are held have different handles, all of them given out, and ids
are bound to none but these. -/
structure Owned (r : Registry) (held : List SharedGrammar) : Prop where
  bound_mem : ∀ entry ∈ r.entries, entry.bound ∈ held
  handle_lt : ∀ g ∈ held, g.handle < r.nextHandle
  handle_inj : ∀ g ∈ held, ∀ h ∈ held, g.handle = h.handle → g = h

variable {r start : Registry} {held : List SharedGrammar}

/-- A grammar that is shared is held along with the others. -/
theorem Owned.share (h : r.Owned held) (g : Grammar) :
    (r.share g).2.Owned (held ++ [(r.share g).1]) where
  bound_mem := fun entry hentry => List.mem_append_left _ (h.bound_mem entry hentry)
  handle_lt := by
    intro g' hg'
    rcases List.mem_append.mp hg' with hg' | hg'
    · exact Nat.lt_succ_of_lt (h.handle_lt g' hg')
    · obtain rfl := List.mem_singleton.mp hg'
      exact Nat.lt_succ_self r.nextHandle
  handle_inj := by
    intro g₁ h₁ g₂ h₂ heq
    rcases List.mem_append.mp h₁ with h₁ | h₁ <;> rcases List.mem_append.mp h₂ with h₂ | h₂
    · exact h.handle_inj g₁ h₁ g₂ h₂ heq
    · obtain rfl := List.mem_singleton.mp h₂
      exact absurd heq (Nat.ne_of_lt (h.handle_lt g₁ h₁))
    · obtain rfl := List.mem_singleton.mp h₁
      exact absurd heq.symm (Nat.ne_of_lt (h.handle_lt g₂ h₂))
    · rw [List.mem_singleton.mp h₁, List.mem_singleton.mp h₂]

/-- Ids may be bound to a grammar that is held. -/
theorem Owned.bindAll (h : r.Owned held) {bound : SharedGrammar} (hbound : bound ∈ held)
    (ids : List LanguageId) : (r.bindAll bound ids).Owned held where
  bound_mem := by
    intro entry hentry
    rcases List.mem_append.mp hentry with hentry | hentry
    · exact h.bound_mem entry hentry
    · obtain ⟨id, -, rfl⟩ := List.mem_map.mp hentry
      exact hbound
  handle_lt := h.handle_lt
  handle_inj := h.handle_inj

/-- A call that binds a grammar that is held keeps the grammars apart. -/
theorem Owned.run (h : r.Owned held) {call : Call} (huses : call.Uses held) :
    (call.run r).registry.Owned (held ++ call.made r) := by
  cases call with
  | share g => exact h.share g
  | register spelling bound =>
    rw [Call.made, List.append_nil, Call.run_register, register_eq]
    split
    · exact h
    · exact h.bindAll huses _
  | registerFamily spellings g =>
    rw [Call.made, Call.run_registerFamily, registerFamily_eq]
    rcases r.firstDuplicate [] (spellings.map .ofSpelling) with _ | id
    · exact (h.share g).bindAll (List.mem_append_right _ List.mem_cons_self) _
    · exact (List.append_nil held).symm ▸ h

theorem Owned.after {calls : List Call} (h : r.Owned held) (huses : UsesHeld r held calls) :
    ∃ held', (r.after calls).Owned held' := by
  induction calls generalizing r held with
  | nil => exact ⟨held, h⟩
  | cons call calls ih => exact ih (h.run huses.1) huses.2

theorem owned_bindGroups (groups : List Group) :
    (empty.bindGroups groups).Owned ((empty.bindGroups groups).entries.map (·.bound)) where
  bound_mem := fun _ hentry => List.mem_map_of_mem hentry
  handle_lt := by
    intro g hg
    obtain ⟨entry, hentry, rfl⟩ := List.mem_map.mp hg
    obtain ⟨n, group, hgroup, -, hbound⟩ := mem_groupEntries.mp hentry
    rw [hbound]
    exact Nat.add_lt_add_left (List.getElem?_eq_some_iff.mp hgroup).1 0
  handle_inj := by
    intro g hg g' hg' heq
    obtain ⟨entry, hentry, rfl⟩ := List.mem_map.mp hg
    obtain ⟨other, hother, rfl⟩ := List.mem_map.mp hg'
    obtain ⟨n, group, hgroup, -, hbound⟩ := mem_groupEntries.mp hentry
    obtain ⟨m, group', hgroup', -, hbound'⟩ := mem_groupEntries.mp hother
    rw [hbound, hbound'] at heq ⊢
    obtain rfl : n = m := Nat.add_left_cancel heq
    obtain rfl : group = group' := Option.some.inj (hgroup.symm.trans hgroup')
    rfl

/-- In a registry to start from different grammars have different handles. -/
theorem owned_of_start (h : start = empty ∨ ∃ only, builtin only = .ok start) :
    start.Owned (start.entries.map (·.bound)) := by
  rcases h with rfl | ⟨only, h⟩
  · exact owned_bindGroups []
  · rcases hunknown : only.bind firstUnknown with _ | spelling
    · rw [builtin_eq hunknown] at h
      cases h
      exact owned_bindGroups (groups only)
    · rw [builtin_eq_error hunknown] at h
      cases h

/-! ## Grammars and their families -/

/-- The registered ids that resolve to a grammar object, in order. -/
def idsOf (r : Registry) (bound : SharedGrammar) : List LanguageId :=
  r.languages.filter fun id => decide (r.resolve id.name = .ok bound)

/-- A registered id resolves to the object that it is bound to. -/
theorem Sound.resolve_id (h : r.Sound) {entry : RegistryEntry} (hentry : entry ∈ r.entries) :
    r.resolve entry.id.name = .ok entry.bound := by
  have hid : LanguageId.ofSpelling entry.id.name = entry.id := by
    have hnormal := h.normal entry.id (List.mem_map_of_mem hentry)
    rw [LanguageId.ofSpelling, hnormal]
  rw [resolve, (resolveEntry_eq_ok_iff h.nodup).mpr ⟨hentry, hid.symm⟩]
  rfl

theorem Sound.idsOf_eq (h : r.Sound) (bound : SharedGrammar) :
    r.idsOf bound = (r.entries.filter fun entry => decide (entry.bound = bound)).map (·.id) := by
  rw [idsOf, languages, List.filter_map]
  congr 1
  refine List.filter_congr fun entry hentry => ?_
  simp only [Function.comp_apply, h.resolve_id hentry, Except.ok.injEq]

theorem Sound.mem_idsOf (h : r.Sound) {bound : SharedGrammar} {id : LanguageId} :
    id ∈ r.idsOf bound ↔ ∃ entry ∈ r.entries, entry.bound = bound ∧ entry.id = id := by
  rw [h.idsOf_eq, List.mem_map]
  simp only [List.mem_filter, decide_eq_true_iff, and_assoc]

/-- An id is in the family of one grammar only. -/
theorem Sound.eq_of_mem_idsOf (h : r.Sound) {g g' : SharedGrammar} {id : LanguageId}
    (hg : id ∈ r.idsOf g) (hg' : id ∈ r.idsOf g') : g = g' := by
  obtain ⟨entry, hentry, rfl, hid⟩ := h.mem_idsOf.mp hg
  obtain ⟨other, hother, rfl, hid'⟩ := h.mem_idsOf.mp hg'
  rw [List.inj_on_of_nodup_map h.nodup hentry hother (hid.trans hid'.symm)]

/-! ## Listing the different grammars -/

section Distinct

variable {es : List RegistryEntry} {seen : List SharedGrammar}

/-- Among grammars that are apart the program's test is equality. -/
theorem Owned.isSame_iff (h : r.Owned held) {g g' : SharedGrammar} (hg : g ∈ held)
    (hg' : g' ∈ held) : g.isSame g' = true ↔ g = g' := by
  rw [SharedGrammar.isSame, beq_iff_eq]
  exact ⟨h.handle_inj g hg g' hg', congrArg _⟩

theorem Owned.any_isSame_iff (h : r.Owned held) {g : SharedGrammar} (hseen : ∀ s ∈ seen, s ∈ held)
    (hg : g ∈ held) : seen.any (·.isSame g) = true ↔ g ∈ seen := by
  rw [List.any_eq_true]
  constructor
  · rintro ⟨s, hs, hsame⟩
    exact (h.isSame_iff (hseen s hs) hg).mp hsame ▸ hs
  · intro hin
    exact ⟨g, hin, (h.isSame_iff hg hg).mpr rfl⟩

theorem Owned.distinctFrom_cons (h : r.Owned held) {entry : RegistryEntry}
    (hseen : ∀ s ∈ seen, s ∈ held) (hentry : entry.bound ∈ held) :
    distinctFrom seen (entry :: es) =
      if entry.bound ∈ seen then distinctFrom seen es
      else entry.bound :: distinctFrom (seen ++ [entry.bound]) es := by
  rw [distinctFrom]
  exact if_congr (h.any_isSame_iff hseen hentry) rfl rfl

theorem forall_mem_concat {p : SharedGrammar → Prop} {g : SharedGrammar} (hseen : ∀ s ∈ seen, p s)
    (hg : p g) : ∀ s ∈ seen ++ [g], p s :=
  List.forall_mem_append.mpr ⟨hseen, List.forall_mem_singleton.mpr hg⟩

/-- What is listed are the grammars bound that were not seen. -/
theorem Owned.mem_distinctFrom (h : r.Owned held) (hseen : ∀ s ∈ seen, s ∈ held)
    (hes : ∀ entry ∈ es, entry.bound ∈ held) {g : SharedGrammar} :
    g ∈ distinctFrom seen es ↔ g ∉ seen ∧ ∃ entry ∈ es, entry.bound = g := by
  induction es generalizing seen with
  | nil => simp [distinctFrom]
  | cons entry es ih =>
    obtain ⟨hentry, hes⟩ := List.forall_mem_cons.mp hes
    rw [h.distinctFrom_cons hseen hentry, List.exists_mem_cons_iff]
    split
    · next hin =>
      rw [ih hseen hes]
      grind
    · next hnotin =>
      rw [List.mem_cons, ih (forall_mem_concat hseen hentry) hes, List.mem_append,
        List.mem_singleton]
      grind

theorem Owned.nodup_distinctFrom (h : r.Owned held) (hseen : ∀ s ∈ seen, s ∈ held)
    (hes : ∀ entry ∈ es, entry.bound ∈ held) : (distinctFrom seen es).Nodup := by
  induction es generalizing seen with
  | nil => exact List.nodup_nil
  | cons entry es ih =>
    obtain ⟨hentry, hes⟩ := List.forall_mem_cons.mp hes
    rw [h.distinctFrom_cons hseen hentry]
    split
    · exact ih hseen hes
    · have hlater := forall_mem_concat hseen hentry
      refine List.nodup_cons.mpr ⟨fun hin => ?_, ih hlater hes⟩
      exact ((h.mem_distinctFrom hlater hes).mp hin).1 (by simp)

/-- The first of the entries that are bound to a grammar. -/
def firstEntry (es : List RegistryEntry) (g : SharedGrammar) : Option RegistryEntry :=
  es.find? fun entry => decide (entry.bound = g)

theorem firstEntry_self (entry : RegistryEntry) (es : List RegistryEntry) :
    firstEntry (entry :: es) entry.bound = some entry :=
  List.find?_cons_of_pos (decide_eq_true rfl)

theorem firstEntry_cons_of_ne {entry : RegistryEntry} {g : SharedGrammar} (h : entry.bound ≠ g) :
    firstEntry (entry :: es) g = firstEntry es g :=
  List.find?_cons_of_neg (decide_eq_false h ▸ Bool.false_ne_true)

/-- The first entries of the grammars, in the order in which these are listed, are in order. -/
theorem Owned.firsts_sublist (h : r.Owned held) (hseen : ∀ s ∈ seen, s ∈ held)
    (hes : ∀ entry ∈ es, entry.bound ∈ held) :
    ((distinctFrom seen es).filterMap (firstEntry es)).Sublist es := by
  induction es generalizing seen with
  | nil => exact List.Sublist.refl _
  | cons entry es ih =>
    obtain ⟨hentry, hes⟩ := List.forall_mem_cons.mp hes
    -- grammars that are listed after the entry was seen have their first entries behind it
    have hskip : ∀ {seen : List SharedGrammar}, (∀ s ∈ seen, s ∈ held) → entry.bound ∈ seen →
        (distinctFrom seen es).filterMap (firstEntry (entry :: es)) =
          (distinctFrom seen es).filterMap (firstEntry es) := by
      intro seen hseen hin
      refine List.filterMap_congr fun g hg => firstEntry_cons_of_ne ?_
      rintro rfl
      exact ((h.mem_distinctFrom hseen hes).mp hg).1 hin
    rw [h.distinctFrom_cons hseen hentry]
    split
    · next hin =>
      rw [hskip hseen hin]
      exact (ih hseen hes).cons entry
    · have hlater := forall_mem_concat hseen hentry
      rw [List.filterMap_cons_some (firstEntry_self entry es), hskip hlater (by simp)]
      exact (ih hlater hes).cons_cons entry

end Distinct

/-! ## The partition -/

/-- The families of a registry partition its languages. -/
structure Partitioned (r : Registry) : Prop where
  /-- the family of a registered id are the ids that resolve to the same object, and it is
  one of them -/
  family : ∀ spelling, LanguageId.ofSpelling spelling ∈ r.languages →
    ∃ bound, r.resolve spelling = .ok bound ∧ r.family spelling = .ok (r.idsOf bound) ∧
      .ofSpelling spelling ∈ r.idsOf bound
  /-- two families are the same or have no id in common -/
  eq_or_disjoint : ∀ s t a b, r.family s = .ok a → r.family t = .ok b → a = b ∨ a.Disjoint b
  /-- no grammar is listed twice -/
  nodup : r.grammars.Nodup
  /-- those listed are those that an id is bound to -/
  mem_grammars : ∀ g, g ∈ r.grammars ↔ ∃ entry ∈ r.entries, entry.bound = g
  /-- they stand in the order of their first ids -/
  firsts : (r.grammars.filterMap fun g => (r.idsOf g).head?).Sublist r.languages
  /-- each has a family -/
  ne_nil : ∀ g ∈ r.grammars, r.idsOf g ≠ []
  /-- and these families have every language once -/
  perm : (r.grammars.flatMap r.idsOf).Perm r.languages
  length_sum : (r.grammars.map fun g => (r.idsOf g).length).sum = r.size

theorem Owned.exists_family_eq (h : r.Owned held) (hsound : r.Sound) {spelling : String}
    (hlisted : LanguageId.ofSpelling spelling ∈ r.languages) :
    ∃ bound, r.resolve spelling = .ok bound ∧ r.family spelling = .ok (r.idsOf bound) ∧
      .ofSpelling spelling ∈ r.idsOf bound := by
  obtain ⟨entry, hentry, hid, hfinds⟩ := exists_finds hlisted
  refine ⟨entry.bound, hfinds.resolve_eq, ?_, hsound.mem_idsOf.mpr ⟨entry, hentry, rfl, hid⟩⟩
  rw [hfinds.family_eq, hsound.idsOf_eq]
  congr 2
  refine List.filter_congr fun other hother => ?_
  rw [Bool.eq_iff_iff, decide_eq_true_iff]
  exact h.isSame_iff (h.bound_mem other hother) (h.bound_mem entry hentry)

/-- Who has a family is registered, so the family is that of a grammar. -/
theorem Owned.exists_of_family_eq_ok (h : r.Owned held) (hsound : r.Sound) {spelling : String}
    {ids : List LanguageId} (heq : r.family spelling = .ok ids) :
    ∃ bound, ids = r.idsOf bound := by
  by_cases hlisted : LanguageId.ofSpelling spelling ∈ r.languages
  · obtain ⟨bound, -, hfamily, -⟩ := h.exists_family_eq hsound hlisted
    rw [hfamily] at heq
    cases heq
    exact ⟨bound, rfl⟩
  · rw [(findsNothing hlisted).family_eq] at heq
    cases heq

theorem Owned.partitioned (h : r.Owned held) (hsound : r.Sound) : r.Partitioned := by
  have hnil : ∀ s ∈ ([] : List SharedGrammar), s ∈ held := List.forall_mem_nil _
  have hmem : ∀ g, g ∈ r.grammars ↔ ∃ entry ∈ r.entries, entry.bound = g := by
    intro g
    rw [grammars, h.mem_distinctFrom hnil h.bound_mem]
    exact and_iff_right List.not_mem_nil
  have hnodup : r.grammars.Nodup := h.nodup_distinctFrom hnil h.bound_mem
  have hperm : (r.grammars.flatMap r.idsOf).Perm r.languages := by
    have hdisjoint : r.grammars.Pairwise (Function.onFun List.Disjoint r.idsOf) :=
      hnodup.imp fun hne id hid hid' => hne (hsound.eq_of_mem_idsOf hid hid')
    refine (List.perm_ext_iff_of_nodup ?_ hsound.nodup).mpr fun id => ?_
    · exact List.nodup_flatMap.mpr ⟨fun g _ => hsound.nodup.filter _, hdisjoint⟩
    · rw [List.mem_flatMap, languages, List.mem_map]
      constructor
      · rintro ⟨g, -, hid⟩
        obtain ⟨entry, hentry, -, rfl⟩ := hsound.mem_idsOf.mp hid
        exact ⟨entry, hentry, rfl⟩
      · rintro ⟨entry, hentry, rfl⟩
        exact ⟨entry.bound, (hmem _).mpr ⟨entry, hentry, rfl⟩,
          hsound.mem_idsOf.mpr ⟨entry, hentry, rfl, rfl⟩⟩
  refine ⟨fun spelling => h.exists_family_eq hsound, ?_, hnodup, hmem, ?_, ?_, hperm, ?_⟩
  · intro s t a b ha hb
    obtain ⟨g, rfl⟩ := h.exists_of_family_eq_ok hsound ha
    obtain ⟨g', rfl⟩ := h.exists_of_family_eq_ok hsound hb
    by_cases heq : g = g'
    · exact Or.inl (congrArg _ heq)
    · exact Or.inr fun id hid hid' => heq (hsound.eq_of_mem_idsOf hid hid')
  · have hheads : (fun g => (r.idsOf g).head?) = fun g => (firstEntry r.entries g).map (·.id) := by
      funext g
      rw [hsound.idsOf_eq, List.head?_map, List.head?_filter, firstEntry]
    rw [hheads, ← List.map_filterMap]
    exact (h.firsts_sublist hnil h.bound_mem).map _
  · intro g hg
    obtain ⟨entry, hentry, hbound⟩ := (hmem g).mp hg
    exact List.ne_nil_of_mem (hsound.mem_idsOf.mpr ⟨entry, hentry, hbound, rfl⟩)
  · rw [← List.length_flatMap, hperm.length_eq, languages, List.length_map, size]

/-- **Families partition the languages**, after any number of calls on a registry to start
from, as long as ids are bound to grammars that the host holds. -/
theorem partitioned_after (h : start = empty ∨ ∃ only, builtin only = .ok start)
    {calls : List Call} (huses : UsesHeld start (start.entries.map (·.bound)) calls) :
    (start.after calls).Partitioned := by
  obtain ⟨held, howned⟩ := (owned_of_start h).after huses
  exact howned.partitioned ((sound_of_start h).after calls)

/-- Calls that bind more ids to a grammar that is looked up, in between those that bind ids
to grammars of their own. One of them is refused. -/
def moreDialects (bound : SharedGrammar) : List Call :=
  [ .register "Starlark" bound,
    .share default,
    .registerFamily ["ada", "ada95"] default,
    .register " jython\t" bound,
    .registerFamily ["cobol", "JYTHON"] default,
    .register "xhtml" ⟨5, default⟩,
    .register "cobol" ⟨6, default⟩ ]

/-- With more dialects of Python the families of the built-in registry still partition it. -/
theorem partitioned_after_moreDialects :
    ∃ start bound, builtin none = .ok start ∧ start.resolve "python" = .ok bound ∧
      UsesHeld start (start.entries.map (·.bound)) (moreDialects bound) ∧
      (start.after (moreDialects bound)).Partitioned ∧
      (start.after (moreDialects bound)).family "Python2" =
        .ok [⟨"python"⟩, ⟨"python2"⟩, ⟨"python3"⟩, ⟨"starlark"⟩, ⟨"jython"⟩] := by
  have hfacts : (builtin none).toOption.any (fun start =>
      (start.resolve "python").toOption.any fun bound =>
        decide (UsesHeld start (start.entries.map (·.bound)) (moreDialects bound)) &&
        decide ((start.after (moreDialects bound)).family "Python2" =
          .ok [⟨"python"⟩, ⟨"python2"⟩, ⟨"python3"⟩, ⟨"starlark"⟩, ⟨"jython"⟩])) = true := by
    decide +kernel
  rcases hstart : builtin none with e | start
  · rw [hstart] at hfacts
    cases hfacts
  rcases hbound : start.resolve "python" with e | bound
  · simp only [hstart, Except.toOption, Option.any_some, hbound, Option.any_none] at hfacts
    cases hfacts
  · simp only [hstart, Except.toOption, Option.any_some, hbound, Bool.and_eq_true,
      decide_eq_true_iff] at hfacts
    exact ⟨start, bound, rfl, hbound, hfacts.1, partitioned_after (Or.inr ⟨none, hstart⟩) hfacts.1,
      hfacts.2⟩

end Registry

end SpanTree

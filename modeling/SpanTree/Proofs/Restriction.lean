import SpanTree.Engine
import SpanTree.Proofs.Registry

/-!
# Restricting the built-in languages

A built-in registry holds one group of ids for each family of which an id is asked for, and
the groups get their handles one after another (`bindGroups`). The ids of the families are in
normal form and none is repeated, so no group is ever refused, and which groups there are
depends on the set of ids asked for alone (`builtin_eq`).

What a restriction keeps is read off the groups: the languages in their order, the grammars
in theirs, and which languages share one (`mem_groupEntries`, `distinctFrom_groupEntries`,
`isSame_iff`). The main statement is `builtin_restricted`.
-/

namespace SpanTree

namespace Registry

variable {r : Registry} {only : Option (List String)}

/-! ## Groups of ids -/

/-- Ids that are bound to one grammar. -/
structure Group where
  ids : List LanguageId
  grammar : Grammar

/-- The entries of groups whose grammars get the handles from `handle` on. -/
def groupEntries : (handle : Nat) → List Group → List RegistryEntry
  | _, [] => []
  | handle, group :: rest =>
    group.ids.map (fun id => ⟨id, ⟨handle, group.grammar⟩⟩) ++ groupEntries (handle + 1) rest

/-- The registry with groups behind the entries that it has. -/
def bindGroups (r : Registry) (groups : List Group) : Registry :=
  ⟨r.entries ++ groupEntries r.nextHandle groups, r.nextHandle + groups.length⟩

theorem bindGroups_nil (r : Registry) : r.bindGroups [] = r := by
  rw [bindGroups, groupEntries, List.append_nil]
  rfl

theorem groupEntries_append (handle : Nat) (groups more : List Group) :
    groupEntries handle (groups ++ more) =
      groupEntries handle groups ++ groupEntries (handle + groups.length) more := by
  induction groups generalizing handle with
  | nil => rfl
  | cons group rest ih =>
    rw [List.cons_append, groupEntries, groupEntries, ih, List.append_assoc, List.length_cons,
      Nat.add_assoc, Nat.add_comm 1]

theorem bindGroups_append (r : Registry) (groups more : List Group) :
    r.bindGroups (groups ++ more) = (r.bindGroups groups).bindGroups more := by
  rw [bindGroups, bindGroups, bindGroups, groupEntries_append, List.append_assoc,
    List.length_append, Nat.add_assoc]

theorem map_id_groupEntries (handle : Nat) (groups : List Group) :
    (groupEntries handle groups).map (·.id) = groups.flatMap (·.ids) := by
  induction groups generalizing handle with
  | nil => rfl
  | cons group rest ih =>
    rw [groupEntries, List.map_append, List.map_map, ih, List.flatMap_cons]
    exact congrArg (· ++ _) (List.map_id' group.ids)

theorem languages_bindGroups (r : Registry) (groups : List Group) :
    (r.bindGroups groups).languages = r.languages ++ groups.flatMap (·.ids) := by
  rw [languages, bindGroups, List.map_append, map_id_groupEntries, languages]

/-- The entry of an id has the handle of its group. -/
theorem mem_groupEntries {handle : Nat} {groups : List Group} {entry : RegistryEntry} :
    entry ∈ groupEntries handle groups ↔ ∃ n group, groups[n]? = some group ∧
      entry.id ∈ group.ids ∧ entry.bound = ⟨handle + n, group.grammar⟩ := by
  induction groups generalizing handle with
  | nil => simp [groupEntries]
  | cons first rest ih =>
    rw [groupEntries, List.mem_append, List.mem_map, ih]
    constructor
    · rintro (⟨id, hid, rfl⟩ | ⟨n, group, hgroup, hid, hbound⟩)
      · exact ⟨0, first, rfl, hid, rfl⟩
      · exact ⟨n + 1, group, hgroup, hid, by rw [hbound, Nat.add_right_comm, Nat.add_assoc]⟩
    · rintro ⟨_ | n, group, hgroup, hid, hbound⟩
      · cases hgroup
        exact Or.inl ⟨entry.id, hid, by rw [← Nat.add_zero handle, ← hbound]⟩
      · exact Or.inr ⟨n, group, hgroup, hid, by rw [hbound, Nat.add_right_comm, Nat.add_assoc]⟩

/-- Entries of a grammar that was seen give no further one. -/
theorem distinctFrom_append_of_seen {seen : List SharedGrammar} {es rest : List RegistryEntry}
    (h : ∀ entry ∈ es, seen.any (·.isSame entry.bound) = true) :
    distinctFrom seen (es ++ rest) = distinctFrom seen rest := by
  induction es with
  | nil => rfl
  | cons entry es ih =>
    rw [List.forall_mem_cons] at h
    rw [List.cons_append, distinctFrom, if_pos h.1, ih h.2]

/-- The grammars of groups that are not empty are those of the groups, in order. -/
theorem distinctFrom_groupEntries {handle : Nat} {groups : List Group} {seen : List SharedGrammar}
    (hne : ∀ group ∈ groups, group.ids ≠ []) (hseen : ∀ g ∈ seen, g.handle < handle) :
    (distinctFrom seen (groupEntries handle groups)).map (·.grammar) =
      groups.map (·.grammar) := by
  induction groups generalizing handle seen with
  | nil => rfl
  | cons group rest ih =>
    rw [List.forall_mem_cons] at hne
    obtain ⟨hgroup, hrest⟩ := hne
    obtain ⟨first, others, hids⟩ := List.exists_cons_of_ne_nil hgroup
    have hnew : seen.any (·.isSame ⟨handle, group.grammar⟩) = false := by
      rw [List.any_eq_false]
      intro g hg
      have hlt := hseen g hg
      simp only [SharedGrammar.isSame, beq_iff_eq]
      omega
    have hlater : ∀ g ∈ seen ++ [⟨handle, group.grammar⟩], g.handle < handle + 1 := by
      intro g hg
      rcases List.mem_append.mp hg with hg | hg
      · exact Nat.lt_succ_of_lt (hseen g hg)
      · obtain rfl := List.mem_singleton.mp hg
        exact Nat.lt_succ_self handle
    rw [groupEntries, hids, List.map_cons, List.cons_append, distinctFrom, hnew, if_neg (by simp),
      distinctFrom_append_of_seen, List.map_cons, ih hrest hlater, List.map_cons]
    intro entry hentry
    obtain ⟨id, -, rfl⟩ := List.mem_map.mp hentry
    simp [SharedGrammar.isSame]

/-! ## The groups of the families -/

/-- Whether an id is asked for, in whatever spelling; each is if nothing is said. -/
def Asked : (only : Option (List String)) → (id : String) → Prop
  | none, _ => True
  | some only, id => id ∈ only.map normalizeId

instance : (only : Option (List String)) → (id : String) → Decidable (Asked only id)
  | none, _ => inferInstanceAs (Decidable True)
  | some only, id => inferInstanceAs (Decidable (id ∈ only.map normalizeId))

theorem wanted_eq (only : Option (List String)) (ids : List String) :
    wanted only ids = ids.filter fun id => decide (Asked only id) := by
  rcases only with _ | list
  · exact (List.filter_eq_self.mpr fun id _ => rfl).symm
  · refine List.filter_congr fun id _ => ?_
    rw [Bool.eq_iff_iff, List.any_eq_true, decide_eq_true_iff, Asked, List.mem_map]
    simp only [beq_iff_eq]

theorem mem_wanted {ids : List String} {id : String} :
    id ∈ wanted only ids ↔ id ∈ ids ∧ Asked only id := by
  rw [wanted_eq, List.mem_filter, decide_eq_true_iff]

/-- The group of a family, if an id of it is asked for and its table loads. -/
def groupOf (only : Option (List String)) (family : Grammar.Family) : Option Group :=
  if wanted only family.ids = [] then none
  else family.grammar.toOption.map fun g => ⟨(wanted only family.ids).map .ofSpelling, g⟩

theorem groupOf_eq_none {family : Grammar.Family} (h : wanted only family.ids = []) :
    groupOf only family = none :=
  if_pos h

theorem groupOf_eq_some {family : Grammar.Family} {g : Grammar} (hg : family.grammar = .ok g)
    (h : wanted only family.ids ≠ []) :
    groupOf only family = some ⟨(wanted only family.ids).map .ofSpelling, g⟩ := by
  rw [groupOf, if_neg h, hg]
  rfl

theorem exists_of_groupOf_eq_some {family : Grammar.Family} {group : Group}
    (h : groupOf only family = some group) :
    group.ids = (wanted only family.ids).map .ofSpelling ∧ family.grammar = .ok group.grammar ∧
      group.ids ≠ [] := by
  rw [groupOf] at h
  split at h
  · cases h
  · next hne =>
    rcases hg : family.grammar with e | g
    · rw [hg] at h
      cases h
    · rw [hg] at h
      cases h
      exact ⟨rfl, rfl, fun hnil => hne (List.map_eq_nil_iff.mp hnil)⟩

/-- What has to hold of families for all of them to be registered: their tables load, and
their ids are in normal form and none is repeated. -/
structure Registrable (families : List Grammar.Family) : Prop where
  loads : ∀ family ∈ families, ∃ g, family.grammar = .ok g
  nodup : (families.flatMap (·.ids)).Nodup
  normal : ∀ id ∈ families.flatMap (·.ids), normalizeId id = id

section Families

variable {families : List Grammar.Family}

theorem Admits.left {ids more : List LanguageId} (h : r.Admits (ids ++ more)) : r.Admits ids :=
  ⟨fun id hid => h.fresh id (List.mem_append_left _ hid), (List.nodup_append'.mp h.nodup).1⟩

/-- What can be bound together can be bound after some of it is. -/
theorem Admits.right {r' : Registry} {ids more : List LanguageId} (h : r.Admits (ids ++ more))
    (hr' : r'.languages = r.languages ++ ids) : r'.Admits more := by
  obtain ⟨-, hmore, hdisjoint⟩ := List.nodup_append'.mp h.nodup
  refine ⟨fun id hid => ?_, hmore⟩
  rw [hr', List.mem_append, not_or]
  exact ⟨h.fresh id (List.mem_append_right _ hid), fun hin => hdisjoint hin hid⟩

/-- A family is registered as its group, or not at all. -/
theorem addFamily_eq {family : Grammar.Family} {g : Grammar} (hg : family.grammar = .ok g)
    (hadmits : r.Admits ((wanted only family.ids).map .ofSpelling)) :
    addFamily only r family = .ok (r.bindGroups (groupOf only family).toList) := by
  rw [addFamily]
  by_cases hwanted : wanted only family.ids = []
  · rw [groupOf_eq_none hwanted, Option.toList_none, bindGroups_nil, hwanted]
    rfl
  · have hnone := firstDuplicate_eq_none_iff.mpr ⟨hadmits, fun _ _ => List.not_mem_nil⟩
    rw [groupOf_eq_some hg hwanted, hg, List.isEmpty_eq_false_iff.mpr hwanted]
    simp only [ok_bind, Bool.false_eq_true, if_false, registerFamily_eq, hnone]
    rw [Option.toList_some, bindGroups, groupEntries, groupEntries, List.append_nil]
    rfl

theorem groups_cons (only : Option (List String)) (family : Grammar.Family)
    (rest : List Grammar.Family) : (family :: rest).filterMap (groupOf only) =
      (groupOf only family).toList ++ rest.filterMap (groupOf only) := by
  rw [List.filterMap_cons]
  rcases groupOf only family with _ | group <;> rfl

theorem wanted_flatMap_cons (only : Option (List String)) (family : Grammar.Family)
    (rest : List Grammar.Family) : wanted only ((family :: rest).flatMap (·.ids)) =
      wanted only family.ids ++ wanted only (rest.flatMap (·.ids)) := by
  rw [wanted_eq, wanted_eq, wanted_eq, List.flatMap_cons, List.filter_append]

/-- The ids of the group of a family are those that are asked for. -/
theorem flatMap_ids_toList_groupOf {family : Grammar.Family} {g : Grammar}
    (hg : family.grammar = .ok g) : (groupOf only family).toList.flatMap (·.ids) =
      (wanted only family.ids).map .ofSpelling := by
  by_cases hwanted : wanted only family.ids = []
  · rw [groupOf_eq_none hwanted, hwanted]
    rfl
  · rw [groupOf_eq_some hg hwanted, Option.toList_some, List.flatMap_singleton]

theorem flatMap_ids_groups (hloads : ∀ family ∈ families, ∃ g, family.grammar = .ok g) :
    (families.filterMap (groupOf only)).flatMap (·.ids) =
      (wanted only (families.flatMap (·.ids))).map .ofSpelling := by
  induction families with
  | nil => rcases only with _ | list <;> rfl
  | cons family rest ih =>
    obtain ⟨⟨g, hg⟩, hrest⟩ := List.forall_mem_cons.mp hloads
    rw [groups_cons, wanted_flatMap_cons, List.flatMap_append, List.map_append, ih hrest,
      flatMap_ids_toList_groupOf hg]

/-- Registering families binds their groups, one behind the other. -/
theorem foldlM_addFamily_eq (hloads : ∀ family ∈ families, ∃ g, family.grammar = .ok g)
    (hadmits : r.Admits ((wanted only (families.flatMap (·.ids))).map .ofSpelling)) :
    families.foldlM (addFamily only) r =
      .ok (r.bindGroups (families.filterMap (groupOf only))) := by
  induction families generalizing r with
  | nil =>
    rw [List.filterMap_nil, bindGroups_nil]
    rfl
  | cons family rest ih =>
    obtain ⟨⟨g, hg⟩, hrest⟩ := List.forall_mem_cons.mp hloads
    rw [wanted_flatMap_cons, List.map_append] at hadmits
    have hlanguages : (r.bindGroups (groupOf only family).toList).languages =
        r.languages ++ (wanted only family.ids).map .ofSpelling := by
      rw [languages_bindGroups, flatMap_ids_toList_groupOf hg]
    rw [List.foldlM_cons, addFamily_eq hg hadmits.left, ok_bind,
      ih hrest (hadmits.right hlanguages), groups_cons, bindGroups_append]

/-- The grammars of the groups are those of the families of which an id is asked for. -/
theorem map_grammar_groups (hloads : ∀ family ∈ families, ∃ g, family.grammar = .ok g) :
    (families.filterMap (groupOf only)).map (fun group => Except.ok group.grammar) =
      (families.filter fun family => family.ids.any fun id => decide (Asked only id)).map
        (·.grammar) := by
  induction families with
  | nil => rfl
  | cons family rest ih =>
    obtain ⟨⟨g, hg⟩, hrest⟩ := List.forall_mem_cons.mp hloads
    have hany : (family.ids.any fun id => decide (Asked only id)) = true ↔
        wanted only family.ids ≠ [] := by
      rw [wanted_eq, List.any_eq_true, ne_eq, List.filter_eq_nil_iff]
      simp only [not_forall, not_not, exists_prop]
    rw [groups_cons, List.map_append, ih hrest]
    by_cases hwanted : wanted only family.ids = []
    · have hskip : ¬ (family.ids.any fun id => decide (Asked only id)) = true :=
        fun h => hany.mp h hwanted
      rw [groupOf_eq_none hwanted, List.filter_cons, if_neg hskip]
      rfl
    · rw [groupOf_eq_some hg hwanted, List.filter_cons, if_pos (hany.mpr hwanted), List.map_cons,
        hg]
      rfl

theorem groups_congr {other : Option (List String)}
    (h : ∀ id ∈ families.flatMap (·.ids), Asked only id ↔ Asked other id) :
    families.filterMap (groupOf only) = families.filterMap (groupOf other) := by
  refine List.filterMap_congr fun family hfamily => ?_
  have hwanted : wanted only family.ids = wanted other family.ids := by
    rw [wanted_eq, wanted_eq]
    refine List.filter_congr fun id hid => decide_eq_decide.mpr (h id ?_)
    exact List.mem_flatMap.mpr ⟨family, hfamily, hid⟩
  rw [groupOf, groupOf, hwanted]

theorem Registrable.map_ofSpelling (h : Registrable families) (only : Option (List String)) :
    (wanted only (families.flatMap (·.ids))).map .ofSpelling =
      (wanted only (families.flatMap (·.ids))).map LanguageId.mk := by
  refine List.map_congr_left fun id hid => ?_
  rw [LanguageId.ofSpelling, h.normal id (mem_wanted.mp hid).1]

theorem Registrable.nodup_ids (h : Registrable families) (only : Option (List String)) :
    ((families.filterMap (groupOf only)).flatMap (·.ids)).Nodup := by
  have hwanted : (wanted only (families.flatMap (·.ids))).Nodup := by
    rw [wanted_eq]
    exact h.nodup.filter _
  rw [flatMap_ids_groups h.loads, h.map_ofSpelling]
  exact hwanted.map fun _ _ h => LanguageId.mk.inj h

/-! ## Which languages share a grammar -/

/-- A family has a group if an id of it is asked for, and the group has all such ids. -/
theorem Registrable.mem_ids_iff (h : Registrable families) {family : Grammar.Family}
    {group : Group} (hfamily : family ∈ families) (hgroup : groupOf only family = some group)
    {id : LanguageId} : id ∈ group.ids ↔ id.name ∈ family.ids ∧ Asked only id.name := by
  have hnormal : ∀ name ∈ family.ids, LanguageId.ofSpelling name = ⟨name⟩ := by
    intro name hname
    rw [LanguageId.ofSpelling, h.normal name (List.mem_flatMap.mpr ⟨family, hfamily, hname⟩)]
  rw [(exists_of_groupOf_eq_some hgroup).1, List.mem_map]
  constructor
  · rintro ⟨name, hname, rfl⟩
    rw [hnormal name (mem_wanted.mp hname).1]
    exact mem_wanted.mp hname
  · rintro ⟨hname, hasked⟩
    exact ⟨id.name, mem_wanted.mpr ⟨hname, hasked⟩, hnormal id.name hname⟩

theorem Registrable.exists_group (h : Registrable families) {family : Grammar.Family}
    {id : LanguageId} (hfamily : family ∈ families) (hid : id.name ∈ family.ids)
    (hasked : Asked only id.name) : ∃ group, groupOf only family = some group := by
  obtain ⟨g, hg⟩ := h.loads family hfamily
  refine ⟨_, groupOf_eq_some hg fun hnil => ?_⟩
  have hmem := mem_wanted.mpr ⟨hid, hasked⟩
  rw [hnil] at hmem
  cases hmem

/-- An id is in one group only. -/
theorem eq_of_mem_ids {groups : List Group} {n m : Nat} {a b : Group} {id : LanguageId}
    (hnodup : (groups.flatMap (·.ids)).Nodup) (ha : groups[n]? = some a)
    (hb : groups[m]? = some b) (hida : id ∈ a.ids) (hidb : id ∈ b.ids) : n = m := by
  have hdisjoint := (List.nodup_flatMap.mp hnodup).2
  rw [List.pairwise_iff_getElem] at hdisjoint
  obtain ⟨hn, rfl⟩ := List.getElem?_eq_some_iff.mp ha
  obtain ⟨hm, rfl⟩ := List.getElem?_eq_some_iff.mp hb
  rcases Nat.lt_trichotomy n m with hlt | heq | hlt
  · exact absurd hidb (hdisjoint n m hn hm hlt hida)
  · exact heq
  · exact absurd hida (hdisjoint m n hm hn hlt hidb)

/-- Two entries share a grammar exactly if their ids are of one family. -/
theorem Registrable.isSame_iff (h : Registrable families) {entry other : RegistryEntry}
    (hentry : entry ∈ (empty.bindGroups (families.filterMap (groupOf only))).entries)
    (hother : other ∈ (empty.bindGroups (families.filterMap (groupOf only))).entries) :
    entry.bound.isSame other.bound = true ↔
      ∃ family ∈ families, entry.id.name ∈ family.ids ∧ other.id.name ∈ family.ids := by
  obtain ⟨n, group, hn, hid, hbound⟩ := mem_groupEntries.mp hentry
  obtain ⟨m, group', hm, hid', hbound'⟩ := mem_groupEntries.mp hother
  obtain ⟨family, hfamily, hgroup⟩ := List.mem_filterMap.mp (List.mem_of_getElem? hn)
  obtain ⟨family', hfamily', hgroup'⟩ := List.mem_filterMap.mp (List.mem_of_getElem? hm)
  have hmem := (h.mem_ids_iff hfamily hgroup).mp hid
  have hmem' := (h.mem_ids_iff hfamily' hgroup').mp hid'
  rw [SharedGrammar.isSame, hbound, hbound', beq_iff_eq, Nat.add_left_cancel_iff]
  constructor
  · rintro rfl
    obtain rfl : group = group' := Option.some.inj (hn.symm.trans hm)
    exact ⟨family, hfamily, hmem.1, ((h.mem_ids_iff hfamily hgroup).mp hid').1⟩
  · -- the group of a family that both ids are of is the group of either
    rintro ⟨common, hcommon, hname, hname'⟩
    obtain ⟨whole, hwhole⟩ := h.exists_group hcommon hname hmem.2
    obtain ⟨k, hk⟩ := List.mem_iff_getElem?.mp (List.mem_filterMap.mpr ⟨common, hcommon, hwhole⟩)
    have hnodup := h.nodup_ids only
    have hin := (h.mem_ids_iff hcommon hwhole).mpr ⟨hname, hmem.2⟩
    have hin' := (h.mem_ids_iff hcommon hwhole).mpr ⟨hname', hmem'.2⟩
    rw [eq_of_mem_ids hnodup hn hk hid hin, eq_of_mem_ids hnodup hm hk hid' hin']

end Families

/-! ## The built-in families -/

theorem registrable_families : Registrable Grammar.families where
  loads := by
    have hloads : ∀ family ∈ Grammar.families, family.grammar.toOption.isSome = true := by
      decide +kernel
    intro family hfamily
    rcases hg : family.grammar with e | g
    · have := hloads family hfamily
      rw [hg] at this
      cases this
    · exact ⟨g, rfl⟩
  nodup := by decide
  normal := by decide +kernel

/-- The groups of the built-in families. -/
def groups (only : Option (List String)) : List Group :=
  Grammar.families.filterMap (groupOf only)

/-- **The built-in registry is that of the groups** of the ids asked for, unless an id is
asked for that is not built in. -/
theorem builtin_eq (h : only.bind firstUnknown = none) :
    builtin only = .ok (empty.bindGroups (groups only)) := by
  have hadmits : empty.Admits ((wanted only Grammar.builtinIds).map .ofSpelling) := by
    have hnodup := registrable_families.nodup_ids only
    rw [flatMap_ids_groups registrable_families.loads] at hnodup
    exact ⟨fun _ _ => List.not_mem_nil, hnodup⟩
  rw [builtin, h]
  exact foldlM_addFamily_eq registrable_families.loads hadmits

theorem builtin_eq_error {spelling : String} (h : only.bind firstUnknown = some spelling) :
    builtin only = .error (.unknownLanguage spelling) := by
  rw [builtin, h]
  rfl

/-- What is asked for is built in, or there is a first spelling of which that is not so. -/
theorem firstUnknown_cases (only : List String) :
    (firstUnknown only = none ∧ ∀ spelling ∈ only, normalizeId spelling ∈ Grammar.builtinIds) ∨
    ∃ before spelling after, firstUnknown only = some spelling ∧
      only = before ++ spelling :: after ∧
      (∀ s ∈ before, normalizeId s ∈ Grammar.builtinIds) ∧
      normalizeId spelling ∉ Grammar.builtinIds := by
  rcases h : firstUnknown only with _ | spelling
  · rw [firstUnknown, List.find?_eq_none] at h
    simp only [Bool.not_eq_true', Bool.not_eq_false, List.contains_iff_mem] at h
    exact Or.inl ⟨rfl, h⟩
  · obtain ⟨hunknown, before, after, honly, hbefore⟩ := List.find?_eq_some_iff_append.mp h
    simp only [Bool.not_not, List.contains_iff_mem] at hbefore
    rw [Bool.not_eq_true', Bool.eq_false_iff, ne_eq, List.contains_iff_mem] at hunknown
    exact Or.inr ⟨before, spelling, after, rfl, honly, hbefore, hunknown⟩

/-- Two spellings name ids that are bound to one grammar. -/
def Shares (r : Registry) (s t : String) : Prop :=
  ∃ b c, r.resolve s = .ok b ∧ r.resolve t = .ok c ∧ b.isSame c = true

/-- Languages share a grammar exactly if they are of one family, whatever else is asked for. -/
theorem shares_bindGroups_iff {s t : String}
    (hs : LanguageId.ofSpelling s ∈ (empty.bindGroups (groups only)).languages)
    (ht : LanguageId.ofSpelling t ∈ (empty.bindGroups (groups only)).languages) :
    (empty.bindGroups (groups only)).Shares s t ↔
      ∃ family ∈ Grammar.families, normalizeId s ∈ family.ids ∧ normalizeId t ∈ family.ids := by
  obtain ⟨entry, hentry, hid, hfinds⟩ := exists_finds hs
  obtain ⟨other, hother, hid', hfinds'⟩ := exists_finds ht
  have hsame := registrable_families.isSame_iff hentry hother
  rw [hid, hid'] at hsame
  refine Iff.trans ?_ hsame
  constructor
  · rintro ⟨b, c, hb, hc, hbc⟩
    rw [hfinds.resolve_eq] at hb
    rw [hfinds'.resolve_eq] at hc
    cases hb
    cases hc
    exact hbc
  · intro hbc
    exact ⟨_, _, hfinds.resolve_eq, hfinds'.resolve_eq, hbc⟩

theorem languages_builtin (only : Option (List String)) :
    (empty.bindGroups (groups only)).languages =
      (Grammar.builtinIds.filter fun id => decide (Asked only id)).map LanguageId.mk := by
  rw [languages_bindGroups, groups, flatMap_ids_groups registrable_families.loads,
    registrable_families.map_ofSpelling, wanted_eq]
  exact List.nil_append _

theorem mem_languages_builtin {id : LanguageId} :
    id ∈ (empty.bindGroups (groups only)).languages ↔
      id.name ∈ Grammar.builtinIds ∧ Asked only id.name := by
  rw [languages_builtin, List.mem_map]
  simp only [List.mem_filter, decide_eq_true_iff]
  constructor
  · rintro ⟨name, hname, rfl⟩
    exact hname
  · intro hname
    exact ⟨id.name, hname, rfl⟩

theorem grammars_builtin (only : Option (List String)) :
    (empty.bindGroups (groups only)).grammars.map (fun g => Except.ok g.grammar) =
      (Grammar.families.filter fun family => family.ids.any fun id => decide (Asked only id)).map
        (·.grammar) := by
  have hne : ∀ group ∈ groups only, group.ids ≠ [] := by
    intro group hgroup
    obtain ⟨family, -, hfamily⟩ := List.mem_filterMap.mp hgroup
    exact (exists_of_groupOf_eq_some hfamily).2.2
  have hgrammars : (distinctFrom [] (groupEntries 0 (groups only))).map (·.grammar) =
      (groups only).map (·.grammar) :=
    distinctFrom_groupEntries hne (List.forall_mem_nil _)
  calc (empty.bindGroups (groups only)).grammars.map (fun g => Except.ok g.grammar)
      = ((distinctFrom [] (groupEntries 0 (groups only))).map (·.grammar)).map Except.ok :=
        List.map_map.symm
    _ = ((groups only).map (·.grammar)).map Except.ok := by rw [hgrammars]
    _ = _ := List.map_map.trans (map_grammar_groups registrable_families.loads)

/-- What the built-in registry keeps when it is restricted to the ids asked for; `full` is
the whole one. -/
structure Restricted (full : Registry) (only : List String) (r : Registry) : Prop where
  /-- the languages asked for, in the order of the families -/
  languages_eq : r.languages.map (·.name) =
    Grammar.builtinIds.filter fun id => decide (id ∈ only.map normalizeId)
  /-- the grammars of the families of which a language is left, in their order -/
  grammars_eq : r.grammars.map (fun g => Except.ok g.grammar) =
    (Grammar.families.filter fun family =>
      family.ids.any fun id => decide (id ∈ only.map normalizeId)).map (·.grammar)
  /-- a language has the grammar of its family -/
  bound : ∀ entry ∈ r.entries, ∃ family ∈ Grammar.families,
    entry.id.name ∈ family.ids ∧ family.grammar = .ok entry.bound.grammar
  /-- languages share a grammar if and only if they do in the whole registry -/
  shares_iff : ∀ s t, LanguageId.ofSpelling s ∈ r.languages →
    LanguageId.ofSpelling t ∈ r.languages → (r.Shares s t ↔ full.Shares s t)
  /-- nothing counts but which ids are asked for, however they are spelled -/
  congr : ∀ other : List String,
    (∀ id, id ∈ other.map normalizeId ↔ id ∈ only.map normalizeId) → builtin (some other) = .ok r
  /-- who asks for all ids gets the whole registry -/
  whole : (∀ id ∈ Grammar.builtinIds, id ∈ only.map normalizeId) → r = full

theorem restricted_groups (only : List String)
    (hknown : ∀ spelling ∈ only, normalizeId spelling ∈ Grammar.builtinIds) :
    Restricted (empty.bindGroups (groups none)) only
      (empty.bindGroups (groups (some only))) where
  languages_eq := by
    rw [languages_builtin, List.map_map]
    exact List.map_id' _
  grammars_eq := grammars_builtin (some only)
  bound := by
    intro entry hentry
    obtain ⟨n, group, hgroup, hid, hbound⟩ := mem_groupEntries.mp hentry
    obtain ⟨family, hfamily, hgroupOf⟩ := List.mem_filterMap.mp (List.mem_of_getElem? hgroup)
    refine ⟨family, hfamily, ((registrable_families.mem_ids_iff hfamily hgroupOf).mp hid).1, ?_⟩
    rw [(exists_of_groupOf_eq_some hgroupOf).2.1, hbound]
  shares_iff := by
    intro s t hs ht
    have hfull : ∀ id ∈ (empty.bindGroups (groups (some only))).languages,
        id ∈ (empty.bindGroups (groups none)).languages := by
      intro id hid
      exact mem_languages_builtin.mpr ⟨(mem_languages_builtin.mp hid).1, trivial⟩
    rw [shares_bindGroups_iff hs ht, shares_bindGroups_iff (hfull _ hs) (hfull _ ht)]
  congr := by
    intro other hother
    rcases firstUnknown_cases other with ⟨hnone, -⟩ | ⟨before, spelling, after, -, heq, -, hunknown⟩
    · have hgroups : groups (some other) = groups (some only) :=
        groups_congr fun id _ => hother id
      have hbound : (some other).bind firstUnknown = none := hnone
      rw [builtin_eq hbound, hgroups]
    · -- such a spelling would be one of an id that the other list asks for too
      have hin : normalizeId spelling ∈ only.map normalizeId := by
        rw [← hother, heq]
        exact List.mem_map_of_mem (List.mem_append_right _ List.mem_cons_self)
      obtain ⟨s, hs, hnormal⟩ := List.mem_map.mp hin
      exact absurd (hnormal ▸ hknown s hs) hunknown
  whole := by
    intro hall
    have hgroups : groups (some only) = groups none :=
      groups_congr fun id hid => iff_of_true (hall id hid) trivial
    rw [hgroups]

/-- An engine offers the languages that its configuration leaves, and cannot be made
exactly if these cannot. -/
theorem languages_ofConfig (provider : SourceProvider) (c : Config) :
    (Engine.ofConfig provider c).map Engine.languages = (builtin c.languages).map languages := by
  rw [Engine.ofConfig]
  rcases builtin c.languages with e | r <;> rfl

/-- **Restricting the built-in languages.** If a spelling is asked for that names no built-in
id, the first one is reported, and nothing else ever goes wrong. Otherwise the restriction
keeps the order of the languages and of their grammars, and depends on the set of ids asked
for alone. An engine made from a configuration offers the same. -/
theorem builtin_restricted (only : List String) :
    ∃ full, builtin none = .ok full ∧ full.languages.map (·.name) = Grammar.builtinIds ∧
      ((∃ before spelling after, only = before ++ spelling :: after ∧
          (∀ s ∈ before, normalizeId s ∈ Grammar.builtinIds) ∧
          normalizeId spelling ∉ Grammar.builtinIds ∧
          builtin (some only) = .error (.unknownLanguage spelling)) ∨
        ((∀ spelling ∈ only, normalizeId spelling ∈ Grammar.builtinIds) ∧
          ∃ r, builtin (some only) = .ok r ∧ Restricted full only r)) ∧
      ∀ provider strict, (Engine.ofConfig provider ⟨some only, strict⟩).map Engine.languages =
        (builtin (some only)).map languages := by
  refine ⟨empty.bindGroups (groups none), builtin_eq rfl, ?_, ?_, fun provider strict =>
    languages_ofConfig provider ⟨some only, strict⟩⟩
  · have hall : Grammar.builtinIds.filter (fun id => decide (Asked none id)) =
        Grammar.builtinIds := List.filter_eq_self.mpr fun id _ => rfl
    rw [languages_builtin, hall, List.map_map]
    exact List.map_id' _
  · rcases firstUnknown_cases only with ⟨hnone, hknown⟩ | ⟨before, spelling, after, hfirst, honly,
      hbefore, hunknown⟩
    · exact Or.inr ⟨hknown, _, builtin_eq hnone, restricted_groups only hknown⟩
    · exact Or.inl ⟨before, spelling, after, honly, hbefore, hunknown, builtin_eq_error hfirst⟩

end Registry

end SpanTree

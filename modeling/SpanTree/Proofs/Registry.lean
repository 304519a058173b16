import Mathlib.Data.List.DropRight
import Mathlib.Data.List.Nodup
import SpanTree.Registry

/-!
# The registry as a map

Ids are compared in their normal form, and to normalize an id once more changes nothing
(`normalizeId_normalizeId`). So a registry without repeated ids is a map: a spelling names
the entry whose id is its normal form, and there is one such entry at most
(`resolveEntry_eq_ok_iff`). All lookups agree on which spellings name something (`Finds`,
`FindsNothing`).

Binding puts entries behind those that are there. A family is checked as a whole beforehand,
after which nothing can stop its ids from being bound (`foldlM_register_eq`).
-/

namespace SpanTree

/-! ## Normal forms of ids -/

theorem Text.toNat_toLower (c : Char) :
    c.toLower.toNat = if 65 ≤ c.toNat ∧ c.toNat ≤ 90 then c.toNat + 32 else c.toNat := by
  delta Char.toLower
  simp only [ge_iff_le, UInt32.le_iff_toNat_le, Char.reduceVal, UInt32.reduceToNat, Char.toNat_val]
  split
  · next h =>
    simp only [Char.toNat, UInt32.toNat_add]
    grind
  · rfl

theorem Text.toLower_toLower (c : Char) : c.toLower.toLower = c.toLower := by
  rw [← Char.toNat_inj, toNat_toLower, toNat_toLower]
  grind

/-- Capital letters are not blank, and the letters they are lowered to are not either. -/
theorem Text.isBlankChar_toLower (c : Char) : isBlankChar c.toLower = isBlankChar c := by
  simp only [isBlankChar, toNat_toLower]
  grind

theorem Text.trimChars_eq (cs : List Char) :
    trimChars cs = (cs.dropWhile isBlankChar).rdropWhile isBlankChar := rfl

theorem Text.trimChars_trimChars (cs : List Char) : trimChars (trimChars cs) = trimChars cs := by
  rw [trimChars_eq, trimChars_eq]
  have hfront : ((cs.dropWhile isBlankChar).rdropWhile isBlankChar).dropWhile isBlankChar =
      (cs.dropWhile isBlankChar).rdropWhile isBlankChar := by
    rw [List.dropWhile_eq_self_iff]
    intro hpos
    -- its first character is the first that is not blank
    have hpre := List.rdropWhile_prefix isBlankChar (cs.dropWhile isBlankChar)
    rw [hpre.getElem hpos]
    exact List.dropWhile_get_zero_not isBlankChar cs (Nat.lt_of_lt_of_le hpos hpre.length_le)
  rw [hfront, List.rdropWhile_idempotent]

theorem Text.trimChars_map_toLower (cs : List Char) :
    trimChars (cs.map Char.toLower) = (trimChars cs).map Char.toLower := by
  have hcomp : isBlankChar ∘ Char.toLower = isBlankChar := funext isBlankChar_toLower
  rw [trimChars, trimChars, List.dropWhile_map, hcomp, ← List.map_reverse, List.dropWhile_map,
    hcomp, ← List.map_reverse]

/-- **To normalize an id again changes nothing.** -/
theorem normalizeId_normalizeId (spelling : String) :
    normalizeId (normalizeId spelling) = normalizeId spelling := by
  have hlower : Char.toLower ∘ Char.toLower = Char.toLower := funext Text.toLower_toLower
  rw [normalizeId, normalizeId, String.toList_ofList, Text.trimChars_map_toLower,
    Text.trimChars_trimChars, List.map_map, hlower]

/-- Whether the name of an id is in normal form. -/
def LanguageId.Normal (id : LanguageId) : Prop := normalizeId id.name = id.name

theorem LanguageId.normal_ofSpelling (spelling : String) : (ofSpelling spelling).Normal :=
  normalizeId_normalizeId spelling

namespace Registry

variable {r : Registry} {spelling : String}

/-! ## Looking up -/

theorem entry?_eq_none_iff {id : LanguageId} : r.entry? id = none ↔ id ∉ r.languages := by
  simp only [ entry?, languages, List.find?_eq_none, List.mem_map, beq_iff_eq]
  grind

theorem isSome_entry?_iff {id : LanguageId} : (r.entry? id).isSome = true ↔ id ∈ r.languages := by
  rw [Option.isSome_iff_ne_none, ne_eq, entry?_eq_none_iff, not_not]

theorem of_entry?_eq_some {id : LanguageId} {entry : RegistryEntry}
    (h : r.entry? id = some entry) : entry ∈ r.entries ∧ entry.id = id := by
  rw [ entry?] at h
  have hid := List.find?_some h
  exact ⟨List.mem_of_find?_eq_some h, eq_of_beq hid⟩

/-- The lookups find an entry for a spelling. -/
structure Finds (r : Registry) (spelling : String) (entry : RegistryEntry) : Prop where
  resolveEntry_eq : r.resolveEntry spelling = .ok entry
  resolve_eq : r.resolve spelling = .ok entry.bound
  contains_eq : r.contains spelling = true
  family_eq : r.family spelling =
    .ok ((r.entries.filter (·.bound.isSame entry.bound)).map (·.id))

/-- The lookups find nothing for a spelling, and report it as it is spelled. -/
structure FindsNothing (r : Registry) (spelling : String) : Prop where
  resolveEntry_eq : r.resolveEntry spelling = .error (.unknownLanguage spelling)
  resolve_eq : r.resolve spelling = .error (.unknownLanguage spelling)
  contains_eq : r.contains spelling = false
  family_eq : r.family spelling = .error (.unknownLanguage spelling)

/-- A spelling of a registered id finds an entry of this id. -/
theorem exists_finds (h : LanguageId.ofSpelling spelling ∈ r.languages) :
    ∃ entry ∈ r.entries, entry.id = .ofSpelling spelling ∧ r.Finds spelling entry := by
  rcases hentry : r.entry? (.ofSpelling spelling) with _ | entry
  · exact absurd h (entry?_eq_none_iff.mp hentry)
  · obtain ⟨hmem, hid⟩ := of_entry?_eq_some hentry
    have hresolveEntry : r.resolveEntry spelling = .ok entry := by rw [resolveEntry, hentry]
    have hresolve : r.resolve spelling = .ok entry.bound := by
      rw [resolve, hresolveEntry]
      rfl
    refine ⟨entry, hmem, hid, hresolveEntry, hresolve, ?_, ?_⟩
    · rw [contains, hresolve]
      rfl
    · rw [family, hresolve]
      rfl

/-- A spelling of any other id finds nothing. -/
theorem findsNothing (h : LanguageId.ofSpelling spelling ∉ r.languages) :
    r.FindsNothing spelling := by
  have hresolveEntry : r.resolveEntry spelling = .error (.unknownLanguage spelling) := by
    rw [resolveEntry, entry?_eq_none_iff.mpr h]
  have hresolve : r.resolve spelling = .error (.unknownLanguage spelling) := by
    rw [resolve, hresolveEntry]
    rfl
  refine ⟨hresolveEntry, hresolve, ?_, ?_⟩
  · rw [contains, hresolve]
    rfl
  · rw [family, hresolve]
    rfl

/-- **Without repeated ids a registry is a map.** The entry that a spelling names is the one
whose id is the normal form of it. -/
theorem resolveEntry_eq_ok_iff {entry : RegistryEntry} (h : r.languages.Nodup) :
    r.resolveEntry spelling = .ok entry ↔
      entry ∈ r.entries ∧ entry.id = .ofSpelling spelling := by
  constructor
  · intro heq
    rw [resolveEntry] at heq
    split at heq
    · next hentry =>
      cases heq
      exact of_entry?_eq_some hentry
    · cases heq
  · rintro ⟨hmem, hid⟩
    have hlisted : LanguageId.ofSpelling spelling ∈ r.languages :=
      hid ▸ List.mem_map_of_mem hmem
    obtain ⟨found, hfound, hfoundId, hfinds⟩ := exists_finds hlisted
    rw [hfinds.resolveEntry_eq, List.inj_on_of_nodup_map h hfound hmem (hfoundId.trans hid.symm)]

/-! ## Binding -/

/-- The registry with ids bound to a grammar behind the entries that it has. -/
def bindAll (r : Registry) (bound : SharedGrammar) (ids : List LanguageId) : Registry :=
  { r with entries := r.entries ++ ids.map fun id => ⟨id, bound⟩ }

@[simp] theorem languages_bindAll (r : Registry) (bound : SharedGrammar) (ids : List LanguageId) :
    (r.bindAll bound ids).languages = r.languages ++ ids := by
  rw [languages, bindAll, List.map_append, List.map_map]
  exact congrArg _ (List.map_id' ids)

/-- The ids can be bound: all are new to the registry, and none is repeated. -/
structure Admits (r : Registry) (ids : List LanguageId) : Prop where
  fresh : ∀ id ∈ ids, id ∉ r.languages
  nodup : ids.Nodup

theorem register_eq (r : Registry) (id : LanguageId) (bound : SharedGrammar) :
    r.register id bound =
      if id ∈ r.languages then .error (.duplicateLanguage id.name)
      else .ok (r.bindAll bound [id]) := by
  rw [register]
  split
  · next entry hentry =>
    have hlisted : id ∈ r.languages := by
      obtain ⟨hmem, rfl⟩ := of_entry?_eq_some hentry
      exact List.mem_map_of_mem hmem
    rw [if_pos hlisted]
  · next hentry =>
    rw [if_neg (entry?_eq_none_iff.mp hentry)]
    rfl

theorem admits_cons_iff {id : LanguageId} {ids : List LanguageId} :
    r.Admits (id :: ids) ↔ id ∉ r.languages ∧ id ∉ ids ∧ r.Admits ids := by
  constructor
  · rintro ⟨hfresh, hnodup⟩
    rw [List.forall_mem_cons] at hfresh
    rw [List.nodup_cons] at hnodup
    exact ⟨hfresh.1, hnodup.1, hfresh.2, hnodup.2⟩
  · rintro ⟨hid, hnotin, hfresh, hnodup⟩
    exact ⟨List.forall_mem_cons.mpr ⟨hid, hfresh⟩, List.nodup_cons.mpr ⟨hnotin, hnodup⟩⟩

theorem admits_singleton_iff {id : LanguageId} : r.Admits [id] ↔ id ∉ r.languages := by
  constructor
  · intro h
    exact h.fresh id (List.mem_singleton_self id)
  · intro hid
    exact ⟨List.forall_mem_singleton.mpr hid, List.nodup_singleton id⟩

/-- After the check of a family nothing stops its ids from being bound. -/
theorem foldlM_register_eq {ids : List LanguageId} (bound : SharedGrammar) (h : r.Admits ids) :
    ids.foldlM (fun r id => r.register id bound) r = .ok (r.bindAll bound ids) := by
  induction ids generalizing r with
  | nil =>
    rw [bindAll, List.map_nil, List.append_nil]
    rfl
  | cons id ids ih =>
    obtain ⟨hid, hnotin, hids⟩ := admits_cons_iff.mp h
    have hrest : (r.bindAll bound [id]).Admits ids := by
      refine ⟨fun other hother => ?_, hids.nodup⟩
      rw [languages_bindAll, List.mem_append, List.mem_singleton, not_or]
      refine ⟨hids.fresh other hother, ?_⟩
      rintro rfl
      exact hnotin hother
    rw [List.foldlM_cons, register_eq, if_neg hid]
    refine (ih hrest).trans (congrArg Except.ok ?_)
    simp only [bindAll, List.map_cons, List.map_nil, List.append_assoc, List.singleton_append]

/-- The check of a family passes exactly if its ids can be bound. -/
theorem firstDuplicate_eq_none_iff {earlier ids : List LanguageId} :
    r.firstDuplicate earlier ids = none ↔ r.Admits ids ∧ ∀ id ∈ ids, id ∉ earlier := by
  induction ids generalizing earlier with
  | nil =>
    have hadmits : r.Admits [] := ⟨List.forall_mem_nil _, List.nodup_nil⟩
    exact iff_of_true rfl ⟨hadmits, List.forall_mem_nil _⟩
  | cons id ids ih =>
    rw [firstDuplicate, admits_cons_iff]
    split
    · next h =>
      rw [Bool.or_eq_true, isSome_entry?_iff, List.contains_iff_mem] at h
      grind
    · next h =>
      rw [Bool.or_eq_true, isSome_entry?_iff, List.contains_iff_mem, not_or] at h
      rw [ih]
      grind

/-- What the check of a family names is one of its ids. -/
theorem mem_of_firstDuplicate_eq_some {earlier ids : List LanguageId} {id : LanguageId}
    (h : r.firstDuplicate earlier ids = some id) : id ∈ ids := by
  induction ids generalizing earlier with
  | nil => cases h
  | cons first ids ih =>
    rw [firstDuplicate] at h
    split at h
    · cases h
      exact List.mem_cons_self
    · exact List.mem_cons_of_mem _ (ih h)

theorem admits_share_iff {g : Grammar} {ids : List LanguageId} :
    (r.share g).2.Admits ids ↔ r.Admits ids :=
  ⟨fun h => ⟨h.fresh, h.nodup⟩, fun h => ⟨h.fresh, h.nodup⟩⟩

/-- **A family is bound as a whole or not at all.** -/
theorem registerFamily_eq (r : Registry) (spellings : List String) (g : Grammar) :
    r.registerFamily spellings g =
      match r.firstDuplicate [] (spellings.map .ofSpelling) with
      | some id => .error (.duplicateLanguage id.name)
      | none =>
        .ok ((r.share g).1, (r.share g).2.bindAll (r.share g).1 (spellings.map .ofSpelling)) := by
  rw [registerFamily]
  rcases h : r.firstDuplicate [] (spellings.map .ofSpelling) with _ | id
  · have hadmits : (r.share g).2.Admits (spellings.map .ofSpelling) :=
      admits_share_iff.mpr (firstDuplicate_eq_none_iff.mp h).1
    simp only [foldlM_register_eq _ hadmits]
    rfl
  · rfl

end Registry

end SpanTree

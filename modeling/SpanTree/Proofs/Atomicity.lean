import SpanTree.Proofs.History

/-!
# Registering a family

A family is registered in two passes. The first looks at every id, against the registry and
against the ids in front of it in the list; the second binds the ids one after another, and
each binding looks at its id against a registry in which the ids in front of it are bound. So
both passes look for the same, the second refuses nothing that the first let pass
(`register_bindAll_eq`), and what the first refuses is the first id that cannot be bound
(`exists_of_firstDuplicate_eq_some`). Since nothing is bound before the check is over, a family
is registered as a whole or the registry stays what it was (`registerFamily_atomic`).
-/

namespace SpanTree

namespace Registry

variable {r : Registry} {bound : SharedGrammar}

/-! ## The two passes -/

/-- The check of a family names the first id that is registered or repeats an earlier one:
those in front of it can all be bound. -/
theorem exists_of_firstDuplicate_eq_some {earlier ids : List LanguageId} {id : LanguageId}
    (h : r.firstDuplicate earlier ids = some id) :
    ∃ before rest, ids = before ++ id :: rest ∧ r.Admits before ∧ (∀ x ∈ before, x ∉ earlier) ∧
      (id ∈ r.languages ∨ id ∈ earlier ∨ id ∈ before) := by
  induction ids generalizing earlier with
  | nil => cases h
  | cons first ids ih =>
    rw [firstDuplicate] at h
    split at h
    · next hclash =>
      cases h
      rw [Bool.or_eq_true, isSome_entry?_iff, List.contains_iff_mem] at hclash
      have hadmits : r.Admits [] := ⟨List.forall_mem_nil _, List.nodup_nil⟩
      exact ⟨[], ids, rfl, hadmits, List.forall_mem_nil _, hclash.imp_right .inl⟩
    · next hclear =>
      rw [Bool.or_eq_true, isSome_entry?_iff, List.contains_iff_mem, not_or] at hclear
      obtain ⟨before, rest, rfl, hadmits, hfree, hclash⟩ := ih h
      -- the id that passed is an earlier one for those behind it
      have hnotin : first ∉ before := fun hmem =>
        hfree first hmem (List.mem_append_right _ (List.mem_singleton_self first))
      refine ⟨first :: before, rest, rfl, admits_cons_iff.mpr ⟨hclear.1, hnotin, hadmits⟩, ?_, ?_⟩
      · refine List.forall_mem_cons.mpr ⟨hclear.2, fun x hx hmem => ?_⟩
        exact hfree x hx (List.mem_append_left _ hmem)
      · rw [List.mem_append, List.mem_singleton] at hclash
        rw [List.mem_cons]
        tauto

/-- Where the ids in front of an id are bound, binding it is refused only if it could not be
bound along with them. -/
theorem register_bindAll_eq {before rest : List LanguageId} {id : LanguageId}
    (h : r.Admits (before ++ id :: rest)) :
    (r.bindAll bound before).register id bound = .ok (r.bindAll bound (before ++ [id])) := by
  have hfresh : id ∉ (r.bindAll bound before).languages := by
    rw [languages_bindAll, List.mem_append, not_or]
    refine ⟨h.fresh id (List.mem_append_right _ List.mem_cons_self), fun hmem => ?_⟩
    exact List.disjoint_of_nodup_append h.nodup hmem List.mem_cons_self
  rw [register_eq, if_neg hfresh]
  simp only [bindAll, List.map_append, List.map_cons, List.map_nil, List.append_assoc]

/-! ## Looking up after ids were bound -/

theorem find?_map_bound (bound : SharedGrammar) (ids : List LanguageId) (id : LanguageId) :
    (ids.map fun id => RegistryEntry.mk id bound).find? (·.id == id) =
      if id ∈ ids then some ⟨id, bound⟩ else none := by
  induction ids with
  | nil => rfl
  | cons first ids ih =>
    rw [List.map_cons, List.find?_cons]
    by_cases heq : first = id
    · subst heq
      rw [if_pos List.mem_cons_self, beq_self_eq_true]
    · rw [beq_eq_false_iff_ne.mpr heq, ih]
      simp only [List.mem_cons, Ne.symm heq, false_or]

/-- An id is looked up among the entries that were there, and then among those put behind. -/
theorem entry?_bindAll (r : Registry) (bound : SharedGrammar) (ids : List LanguageId)
    (id : LanguageId) : Registry.entry? (r.bindAll bound ids) id =
      (r.entry? id).or (if id ∈ ids then some ⟨id, bound⟩ else none) := by
  rw [ entry?, bindAll, List.find?_append, find?_map_bound, ← entry?]

/-! ## A family is registered as a whole -/

/-- A registry with ids put behind those that it has, in order, all of them bound to one
grammar. -/
structure IsExtended (r : Registry) (ids : List LanguageId) (bound : SharedGrammar)
    (r' : Registry) : Prop where
  entries_eq : r'.entries = r.entries ++ ids.map fun id => ⟨id, bound⟩
  resolve_eq : ∀ spelling, LanguageId.ofSpelling spelling ∈ ids → r'.resolve spelling = .ok bound
  resolveEntry_eq : ∀ spelling, LanguageId.ofSpelling spelling ∉ ids →
    r'.resolveEntry spelling = r.resolveEntry spelling

theorem isExtended_bindAll {ids : List LanguageId} (h : r.Admits ids) :
    r.IsExtended ids bound (r.bindAll bound ids) where
  entries_eq := rfl
  resolve_eq := by
    intro spelling hmem
    rw [resolve, resolveEntry, entry?_bindAll, if_pos hmem,
      entry?_eq_none_iff.mpr (h.fresh _ hmem)]
    rfl
  resolveEntry_eq := by
    intro spelling hnotin
    rw [resolveEntry, resolveEntry, entry?_bindAll, if_neg hnotin, Option.or_none]

/-- **A family is registered as a whole or not at all.** If its ids are different and new to
the registry, none of them is refused, and they are all put behind those that are there, in
order, bound to the grammar that is returned. Otherwise the first id that is registered or
repeats an earlier one is to blame, in its normal form, and the registry is what it was. -/
theorem registerFamily_atomic (r : Registry) (spellings : List String) (g : Grammar) :
    (r.Admits (spellings.map .ofSpelling) →
      ∃ bound r', r.registerFamily spellings g = .ok (bound, r') ∧
        (Call.registerFamily spellings g).run r = ⟨none, r'⟩ ∧
        bound.grammar = g ∧ r.IsExtended (spellings.map .ofSpelling) bound r' ∧
        ∀ before id rest, spellings.map .ofSpelling = before ++ id :: rest →
          ((r.share g).2.bindAll bound before).register id bound =
            .ok ((r.share g).2.bindAll bound (before ++ [id]))) ∧
    (¬ r.Admits (spellings.map .ofSpelling) →
      ∃ before spelling rest, spellings = before ++ spelling :: rest ∧
        r.Admits (before.map .ofSpelling) ∧
        (.ofSpelling spelling ∈ r.languages ∨
          LanguageId.ofSpelling spelling ∈ before.map .ofSpelling) ∧
        r.registerFamily spellings g = .error (.duplicateLanguage (normalizeId spelling)) ∧
        (Call.registerFamily spellings g).run r =
          ⟨some (.duplicateLanguage (normalizeId spelling)), r⟩) := by
  rw [Call.run_registerFamily, registerFamily_eq]
  rcases hfirst : r.firstDuplicate [] (spellings.map .ofSpelling) with _ | id
  · have hadmits := (firstDuplicate_eq_none_iff.mp hfirst).1
    refine ⟨fun _ => ⟨_, _, rfl, rfl, rfl, ?_, ?_⟩, fun hnot => absurd hadmits hnot⟩
    · -- sharing the grammar leaves the entries alone
      have hextended : (r.share g).2.IsExtended (spellings.map .ofSpelling) (r.share g).1
          ((r.share g).2.bindAll (r.share g).1 (spellings.map .ofSpelling)) :=
        isExtended_bindAll (admits_share_iff.mpr hadmits)
      exact ⟨hextended.entries_eq, hextended.resolve_eq, hextended.resolveEntry_eq⟩
    · intro before id rest heq
      rw [heq] at hadmits
      exact register_bindAll_eq (admits_share_iff.mpr hadmits)
  · obtain ⟨before, rest, heq, hbefore, -, hclash⟩ := exists_of_firstDuplicate_eq_some hfirst
    obtain ⟨front, back, rfl, rfl, hback⟩ := List.map_eq_append_iff.mp heq
    obtain ⟨spelling, rest, rfl, rfl, -⟩ := List.map_eq_cons_iff.mp hback
    have hrepeats := hclash.imp_right fun h => h.resolve_left List.not_mem_nil
    refine ⟨fun hadmits => ?_, fun _ => ⟨front, spelling, rest, rfl, hbefore, hrepeats, rfl, rfl⟩⟩
    have hnone := firstDuplicate_eq_none_iff.mpr ⟨hadmits, fun _ _ => List.not_mem_nil⟩
    rw [hfirst] at hnone
    cases hnone

end Registry

end SpanTree

import SpanTree.File.Store

/-!
# A file that is written can be read

Writing changes what one place holds and is refused if that place is a directory. Every place
that a path passes through is one, so that no path is led elsewhere by it (`walk_put`). A path
that a file could be written to therefore still leads to this file, and may be written to
again (`WritesTo.write`).
-/

namespace SpanTree

namespace File

namespace Store

variable {s t : Store} {names target : List String} {path : String}

/-! ## Places -/

theorem lookup_put_self (h : target ≠ []) (entry : Entry) :
    (s.put target entry).lookup target = some entry := by
  have hfilter : (s.entries.filter (·.1 != target)).find? (·.1 == target) = none := by
    refine List.find?_eq_none.mpr fun e he heq => ?_
    obtain ⟨-, hne⟩ := List.mem_filter.mp he
    exact absurd (beq_iff_eq.mp heq) (bne_iff_ne.mp hne)
  rw [lookup, if_neg (by simpa using h), put, List.find?_append, hfilter]
  simp

theorem lookup_put_of_ne (h : names ≠ target) (entry : Entry) :
    (s.put target entry).lookup names = s.lookup names := by
  have hkept : (s.entries.filter (·.1 != target)).find? (·.1 == names) =
      s.entries.find? (·.1 == names) := by
    rw [List.find?_filter]
    congr 1
    funext e
    by_cases he : e.1 = names
    · simp [he, h]
    · simp [he]
  have hentry : [(target, entry)].find? (·.1 == names) = none := by
    simpa using Ne.symm h
  rw [lookup, lookup, put, List.find?_append, hkept, hentry, Option.or_none]

/-- A place that a path goes on from is a directory. -/
theorem lookup_of_step {name : String} {place : Place}
    (h : s.step name (.below names) = .ok place) : s.lookup names = some .directory := by
  rw [step] at h
  split at h
  · cases h
  · cases h
  · next hlookup => exact hlookup

/-- Writing where no directory is leads no path elsewhere. -/
theorem step_put (htarget : s.lookup target ≠ some .directory) (entry : Entry) {name : String}
    {place next : Place} (h : s.step name place = .ok next) :
    (s.put target entry).step name place = .ok next := by
  rcases place with names | _
  case below =>
    have hne : names ≠ target := by
      rintro rfl
      exact htarget (lookup_of_step h)
    rw [step, lookup_put_of_ne hne]
    rw [step] at h
    exact h
  case above => exact h

theorem walk_put (htarget : s.lookup target ≠ some .directory) (entry : Entry) {place : Place}
    (h : s.walk names = .ok place) : (s.put target entry).walk names = .ok place := by
  rw [walk] at h ⊢
  generalize Place.below [] = start at h ⊢
  induction names generalizing start with
  | nil => exact h
  | cons name names ih =>
    rw [List.foldlM_cons] at h ⊢
    rcases hstep : s.step name start with e | next
    · rw [hstep] at h
      cases h
    · rw [hstep] at h
      rw [step_put htarget entry hstep]
      exact ih next h

/-! ## Writing -/

/-- A path leads to a place where a file is or could be. -/
structure WritesTo (s : Store) (path : String) (target : List String) : Prop where
  located : s.locate path = .ok (.below target)
  no_slash : (namesOf path).getLast? ≠ some ""
  no_directory : s.lookup target ≠ some .directory

theorem trim_eq_self (h : names.getLast? ≠ some "") :
    (names.reverse.dropWhile (· == "")).reverse = names := by
  rw [List.getLast?_eq_head?_reverse] at h
  rcases hreverse : names.reverse with _ | ⟨last, before⟩
  · rw [← List.reverse_reverse names, hreverse]
    rfl
  · rw [hreverse] at h
    have hlast : last ≠ "" := fun heq => h (heq ▸ rfl)
    rw [List.dropWhile_cons_of_neg (by simpa using hlast), ← hreverse, List.reverse_reverse]

theorem walkable_eq {names : List String} (h : walkable path = .ok names) :
    names = namesOf path := by
  rw [walkable] at h
  split at h
  · cases h
  split at h
  · cases h
  split at h
  · cases h
  split at h
  · cases h
  · exact (Except.ok.inj h).symm

theorem WritesTo.write (h : s.WritesTo path target) (content : Bytes) :
    s.write path content = .ok (s.put target (.file content)) := by
  obtain ⟨hlocated, hslash, hdirectory⟩ := h
  rcases hwalkable : walkable path with e | names
  · rw [locate, hwalkable] at hlocated
    cases hlocated
  · rw [locate, hwalkable] at hlocated
    have hwalk : s.walk names = .ok (.below target) := hlocated
    rw [← walkable_eq hwalkable] at hslash
    simp only [Store.write, hwalkable, trim_eq_self hslash, hwalk, bind, Except.bind]
    exact if_neg (not_or.mpr ⟨hslash, hdirectory⟩)

theorem WritesTo.locate_put (h : s.WritesTo path target) (entry : Entry) :
    (s.put target entry).locate path = .ok (.below target) := by
  obtain ⟨hlocated, -, hdirectory⟩ := h
  rw [locate] at hlocated ⊢
  rcases hwalkable : walkable path with e | names
  · rw [hwalkable] at hlocated
    cases hlocated
  · rw [hwalkable] at hlocated
    exact walk_put hdirectory entry hlocated

theorem WritesTo.lookup_put (h : s.WritesTo path target) (entry : Entry) :
    (s.put target entry).lookup target = some entry := by
  refine lookup_put_self ?_ entry
  rintro rfl
  exact h.no_directory rfl

theorem WritesTo.put (h : s.WritesTo path target) (content : Bytes) :
    (s.put target (.file content)).WritesTo path target := by
  refine ⟨h.locate_put _, h.no_slash, ?_⟩
  rw [h.lookup_put]
  exact nofun

end Store

end File

end SpanTree

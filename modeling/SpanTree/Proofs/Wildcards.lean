import SpanTree.Proofs.Metavariables

/-!
# Where wildcards stand

The second pass looks at dots three at a time, from the left end of a run of dots on. So
which three of them it looks at depends on how many dots stand in front (`dotsBefore`): it is
a multiple of three (`mem_wildcardsFrom_iff`). Three dots with another dot behind them are
none of its wildcards, but in a run whose length is a multiple of three the last three dots
have none behind them, and the dots in front of them are no operand. Therefore exactly the
runs of three dots are wildcards, as they should be, and the ends of such longer runs
(`wildcard_mem_scan_iff`).
-/

namespace SpanTree

namespace Placeholder

variable {fragment : Bytes} {i start : Nat}

/-! ## Dots in front of an offset -/

/-- The number of dots directly in front of an offset. -/
def dotsBefore (fragment : Bytes) : Nat → Nat
  | 0 => 0
  | i + 1 => if fragment[i]? = some Byte.dot then dotsBefore fragment i + 1 else 0

theorem dotsBefore_le (fragment : Bytes) (i : Nat) : dotsBefore fragment i ≤ i := by
  induction i with
  | zero => exact Nat.le_refl 0
  | succ i ih =>
    rw [dotsBefore]
    split <;> omega

theorem dotsBefore_succ (h : fragment[i]? = some Byte.dot) :
    dotsBefore fragment (i + 1) = dotsBefore fragment i + 1 := by
  rw [dotsBefore, if_pos h]

/-- How many dots are in front of an offset is seen by where they start. -/
theorem dotsBefore_eq_iff (h : start ≤ i) : dotsBefore fragment i = i - start ↔
    (∀ j, start ≤ j → j < i → fragment[j]? = some Byte.dot) ∧
      fragment.before? start ≠ some Byte.dot := by
  induction h with
  | refl =>
    rw [Nat.sub_self, and_iff_right (fun j hj hj' => absurd hj' (Nat.not_lt.mpr hj))]
    cases start with
    | zero => simp [dotsBefore, Bytes.before?]
    | succ start => simp [dotsBefore, Bytes.before?]
  | @step i hle ih =>
    have hsub : i.succ - start = i - start + 1 := Nat.succ_sub hle
    by_cases hi : fragment[i]? = some Byte.dot
    · rw [dotsBefore_succ hi, hsub, Nat.add_right_cancel_iff, ih]
      refine and_congr_left fun _ => ⟨fun hall j hj hj' => ?_, fun hall j hj hj' => ?_⟩
      · rcases Nat.lt_succ_iff_lt_or_eq.mp hj' with hlt | rfl
        · exact hall j hj hlt
        · exact hi
      · exact hall j hj (Nat.lt_succ_of_lt hj')
    · rw [dotsBefore, if_neg hi, hsub]
      refine iff_of_false (Nat.succ_ne_zero _).symm fun hall => hi ?_
      exact hall.1 i hle (Nat.lt_succ_self i)

/-- Three dots at an offset. -/
theorem opensWithDots_iff_getElem? : opensWithDots (fragment.drop i) = true ↔
    fragment[i]? = some Byte.dot ∧ fragment[i + 1]? = some Byte.dot ∧
      fragment[i + 2]? = some Byte.dot := by
  rw [← Nat.add_zero i, ← List.getElem?_drop, Nat.add_zero, ← List.getElem?_drop,
    ← List.getElem?_drop]
  rcases fragment.drop i with _ | ⟨a, _ | ⟨b, _ | ⟨c, rest⟩⟩⟩ <;>
    simp [opensWithDots, and_assoc]

theorem dotsBefore_of_opensWithDots (h : opensWithDots (fragment.drop i) = true) :
    dotsBefore fragment (i + 1) = dotsBefore fragment i + 1 ∧
      dotsBefore fragment (i + 2) = dotsBefore fragment i + 2 ∧
      dotsBefore fragment (i + 3) = dotsBefore fragment i + 3 := by
  obtain ⟨hfirst, hsecond, hthird⟩ := opensWithDots_iff_getElem?.mp h
  have hone : dotsBefore fragment (i + 1) = dotsBefore fragment i + 1 := dotsBefore_succ hfirst
  have htwo : dotsBefore fragment (i + 2) = dotsBefore fragment (i + 1) + 1 :=
    dotsBefore_succ hsecond
  have hthree : dotsBefore fragment (i + 3) = dotsBefore fragment (i + 2) + 1 :=
    dotsBefore_succ hthird
  omega

/-! ## What the second pass finds -/

theorem IsWildcard.stop_eq {taken : List Site} {s : Site} (h : IsWildcard taken fragment s) :
    s.extent.stop = s.extent.start + 3 :=
  congrArg (·.extent.stop) h.eq

theorem IsWildcard.kind_eq {taken : List Site} {s : Site} (h : IsWildcard taken fragment s) :
    s.kind = .wildcard :=
  congrArg (·.kind) h.eq

/-- Three dots that the second pass takes for a wildcard. -/
structure StandsWildcard (taken : List Site) (fragment : Bytes) (s : Site) : Prop
    extends IsWildcard taken fragment s where
  /-- the pass comes to look at them -/
  aligned : 3 ∣ dotsBefore fragment s.extent.start
  before : (fragment.before? s.extent.start).any Byte.isOperandEnd = false
  behind : continuesDots fragment[s.extent.start + 3]? = false

/-- Three dots that the second pass looks at are a wildcard if none of its tests fails. -/
theorem standsWildcard_iff (taken : List Site)
    (hdots : opensWithDots (fragment.drop i) = true)
    (haligned : 3 ∣ dotsBefore fragment i) :
    StandsWildcard taken fragment ⟨⟨i, i + 3⟩, .wildcard⟩ ↔
      (taken.any fun t => t.extent.overlaps i (i + 3)) = false ∧
        continuesDots fragment[i + 3]? = false ∧
        (fragment.before? i).any Byte.isOperandEnd = false := by
  have happart : (taken.any fun t => t.extent.overlaps i (i + 3)) = false ↔
      ∀ t ∈ taken, t.extent.Apart ⟨i, i + 3⟩ := by
    simp only [List.any_eq_false, Extent.overlaps_iff, Extent.Apart]
    exact forall₂_congr fun t _ => by omega
  rw [happart]
  constructor
  · rintro ⟨⟨-, -, hfree⟩, -, hbefore, hbehind⟩
    exact ⟨hfree, hbehind, hbefore⟩
  · rintro ⟨hfree, hbehind, hbefore⟩
    exact ⟨⟨rfl, hdots, hfree⟩, haligned, hbefore, hbehind⟩

/-- Where no three dots stand, none that are looked at stand at the next offset. -/
theorem aligned_succ (h : opensWithDots (fragment.drop i) = false)
    (hsucc : opensWithDots (fragment.drop (i + 1)) = true) : 3 ∣ dotsBefore fragment (i + 1) := by
  have hdot : ¬fragment[i]? = some Byte.dot := by
    intro hdot
    obtain ⟨hfirst, hsecond, -⟩ := opensWithDots_iff_getElem?.mp hsucc
    rw [opensWithDots_iff_getElem?.mpr ⟨hdot, hfirst, hsecond⟩] at h
    cases h
  rw [dotsBefore, if_neg hdot]
  exact Nat.dvd_zero 3

/-- Where no three dots stand, a wildcard from there on stands later. -/
theorem standsWildcard_from_of_not_dots {taken : List Site} {s : Site}
    (hdots : opensWithDots (fragment.drop i) = false) :
    i ≤ s.extent.start ∧ StandsWildcard taken fragment s ↔
      i + 1 ≤ s.extent.start ∧ StandsWildcard taken fragment s := by
  refine and_congr_left fun hstands => ⟨fun hle => ?_, Nat.le_of_succ_le⟩
  refine Nat.lt_of_le_of_ne hle ?_
  rintro rfl
  rw [hstands.dots] at hdots
  cases hdots

/-- Of dots that are looked at, the ones from the second and the third on are not: a wildcard
from there on is these dots or stands behind them. -/
theorem standsWildcard_from_of_dots {taken : List Site} {s : Site}
    (hdots : opensWithDots (fragment.drop i) = true) (haligned : 3 ∣ dotsBefore fragment i) :
    i ≤ s.extent.start ∧ StandsWildcard taken fragment s ↔
      (s = ⟨⟨i, i + 3⟩, .wildcard⟩ ∧ StandsWildcard taken fragment ⟨⟨i, i + 3⟩, .wildcard⟩) ∨
        i + 3 ≤ s.extent.start ∧ StandsWildcard taken fragment s := by
  constructor
  · rintro ⟨hle, hstands⟩
    obtain ⟨hone, htwo, -⟩ := dotsBefore_of_opensWithDots hdots
    have hstart := hstands.aligned
    obtain hi | hi | hi | hge : s.extent.start = i ∨ s.extent.start = i + 1 ∨
        s.extent.start = i + 2 ∨ i + 3 ≤ s.extent.start := by
      omega
    · obtain rfl : s = ⟨⟨i, i + 3⟩, .wildcard⟩ := by rw [hstands.eq, hi]
      exact .inl ⟨rfl, hstands⟩
    · rw [hi] at hstart
      omega
    · rw [hi] at hstart
      omega
    · exact .inr ⟨hge, hstands⟩
  · rintro (⟨rfl, hstands⟩ | ⟨hge, hstands⟩)
    · exact ⟨Nat.le_refl _, hstands⟩
    · exact ⟨Nat.le_trans (Nat.le_add_right i 3) hge, hstands⟩

/-- The second pass takes the dots of a run three at a time: it comes to look at those with a
multiple of three dots in front, and takes them if no test fails. -/
theorem mem_wildcardsFrom_iff {taken : List Site} {buffer : Bytes} {offset skip : Nat}
    {previous : Option UInt8} (hbuffer : fragment.drop offset = buffer)
    (hprevious : fragment.before? offset = previous)
    (haligned : opensWithDots (fragment.drop (offset + skip)) = true →
      3 ∣ dotsBefore fragment (offset + skip)) {s : Site} :
    s ∈ wildcardsFrom taken offset skip previous buffer ↔
      offset + skip ≤ s.extent.start ∧ StandsWildcard taken fragment s := by
  induction buffer generalizing offset skip previous with
  | nil =>
    rw [wildcardsFrom]
    refine iff_of_false List.not_mem_nil ?_
    rintro ⟨hle, hstands⟩
    have hdots := hstands.dots
    rw [List.drop_eq_nil_of_le (Nat.le_trans (List.drop_eq_nil_iff.mp hbuffer) (by omega))] at hdots
    cases hdots
  | cons b rest ih =>
    obtain ⟨hb, hrest⟩ := Bytes.of_drop_eq_cons hbuffer
    rcases skip with _ | skip
    · rw [Nat.add_zero] at haligned ⊢
      rcases hdots : opensWithDots (b :: rest) with _ | _
      · rw [wildcardsFrom, hdots, if_neg Bool.false_ne_true]
        rw [← hbuffer] at hdots
        have hlater : s ∈ wildcardsFrom taken (offset + 1) 0 (some b) rest ↔
            offset + 1 ≤ s.extent.start ∧ StandsWildcard taken fragment s :=
          ih hrest hb (aligned_succ hdots)
        rw [hlater, standsWildcard_from_of_not_dots hdots]
      · rw [wildcardsFrom, hdots, if_pos rfl]
        rw [← hbuffer] at hdots
        have hlater : s ∈ wildcardsFrom taken (offset + 1) 2 (some b) rest ↔
            offset + 3 ≤ s.extent.start ∧ StandsWildcard taken fragment s := by
          refine ih hrest hb fun _ => ?_
          have hthree := (dotsBefore_of_opensWithDots hdots).2.2
          have hmultiple := haligned hdots
          show 3 ∣ dotsBefore fragment (offset + 3)
          omega
        have hnext : (rest.drop 2).head? = fragment[offset + 3]? := by
          rw [← hrest, List.drop_drop, List.head?_drop]
        have hhere := standsWildcard_iff taken hdots (haligned hdots)
        rw [hprevious] at hhere
        rw [hnext, standsWildcard_from_of_dots hdots (haligned hdots), ← hlater, hhere]
        -- any test that fails leaves what is found later
        dsimp only
        split
        · next htaken => simp [htaken]
        · next htaken =>
          split
          · next hbehind => simp [hbehind]
          · next hbehind =>
            split
            · next hbefore => simp [hbefore]
            · next hbefore => simp [htaken, hbehind, hbefore]
    · have hnext : offset + 1 + skip = offset + (skip + 1) := by omega
      rw [wildcardsFrom, ih hrest hb (by rwa [hnext]), hnext]

/-! ## The wildcards of a fragment -/

/-- The dots of a fragment from `first` to `stop`, with none in front of them and none behind. -/
structure DotRun (fragment : Bytes) (first stop : Nat) : Prop where
  lt : first < stop
  dots : ∀ i, first ≤ i → i < stop → fragment[i]? = some Byte.dot
  before : fragment.before? first ≠ some Byte.dot
  behind : fragment[stop]? ≠ some Byte.dot

/-- A wildcard stands from `start` to `stop`: dots, exactly three of them, that belong to no
metavariable, are part of no name and follow no operand. -/
structure WildcardAt (sigil : Sigil) (fragment : Bytes) (start stop : Nat) : Prop where
  run : DotRun fragment start stop
  three : stop = start + 3
  apart : ∀ m ∈ sites sigil fragment, m.kind ≠ .wildcard → m.extent.Apart ⟨start, stop⟩
  before : (fragment.before? start).any Byte.isOperandEnd = false
  behind : (fragment[stop]?).any Byte.isIdentifier = false

/-- The last three dots of a longer run, whose length is a multiple of three. -/
structure EndsLongRun (sigil : Sigil) (fragment : Bytes) (start stop : Nat) : Prop where
  run : ∃ first < start, DotRun fragment first stop ∧ 3 ∣ stop - first
  three : stop = start + 3
  apart : ∀ m ∈ sites sigil fragment, m.kind ≠ .wildcard → m.extent.Apart ⟨start, stop⟩
  behind : (fragment[stop]?).any Byte.isIdentifier = false

variable {sigil : Sigil}

theorem mem_wildcards_iff {s : Site} :
    s ∈ wildcards sigil fragment ↔ StandsWildcard (metavariables sigil fragment) fragment s := by
  have hstart : 3 ∣ dotsBefore fragment (0 + 0) := Nat.dvd_zero 3
  have hpass : s ∈ wildcardsFrom (metavariables sigil fragment) 0 0 none fragment ↔
      0 ≤ s.extent.start ∧ StandsWildcard (metavariables sigil fragment) fragment s :=
    mem_wildcardsFrom_iff rfl rfl fun _ => hstart
  exact hpass.trans (and_iff_right (Nat.zero_le _))

/-- The metavariables that the second pass keeps clear of are those among the sites. -/
theorem forall_metavariables_iff {P : Site → Prop} :
    (∀ m ∈ metavariables sigil fragment, P m) ↔
      ∀ m ∈ sites sigil fragment, m.kind ≠ .wildcard → P m := by
  constructor
  · exact fun h m hm hkind => h m (mem_metavariables_of_mem_sites hm hkind)
  · intro h m hm
    refine h m ((mem_sites sigil fragment).mpr (.inr hm)) ?_
    obtain ⟨length, -, heq⟩ := (inOrder_metavariables sigil fragment).forall_mem m hm
    rw [heq]
    nofun

/-- A site of a wildcard is one that the second pass found. -/
theorem mem_wildcards_of_mem_sites {s : Site} (hs : s ∈ sites sigil fragment)
    (hkind : s.kind = .wildcard) : s ∈ wildcards sigil fragment := by
  refine ((mem_sites sigil fragment).mp hs).resolve_right fun hs => ?_
  exact forall_metavariables_iff.mpr (fun _ _ hkind => hkind) s hs hkind

theorem continuesDots_eq_false_iff {b : Option UInt8} :
    continuesDots b = false ↔ b.any Byte.isIdentifier = false ∧ b ≠ some Byte.dot := by
  rcases b with _ | b
  · simp [continuesDots]
  · simp [continuesDots]

/-- The dots in front of an offset and the three at it are a run if no dot is behind. -/
theorem dotRun_iff {first : Nat} (h : first ≤ start) : DotRun fragment first (start + 3) ↔
    dotsBefore fragment start = start - first ∧ opensWithDots (fragment.drop start) = true ∧
      fragment[start + 3]? ≠ some Byte.dot := by
  rw [dotsBefore_eq_iff h, opensWithDots_iff_getElem?]
  constructor
  · rintro ⟨-, hdots, hbefore, hbehind⟩
    exact ⟨⟨fun j hj hj' => hdots j hj (by omega), hbefore⟩,
      ⟨hdots _ h (by omega), hdots _ (by omega) (by omega), hdots _ (by omega) (by omega)⟩, hbehind⟩
  · rintro ⟨⟨hdots, hbefore⟩, ⟨hfirst, hsecond, hthird⟩, hbehind⟩
    refine ⟨by omega, fun j hj hj' => ?_, hbefore, hbehind⟩
    obtain hj' | rfl | rfl | rfl : j < start ∨ j = start ∨ j = start + 1 ∨ j = start + 2 := by
      omega
    · exact hdots j hj hj'
    · exact hfirst
    · exact hsecond
    · exact hthird

/-- **Exactly the runs of three dots are wildcards, and the ends of longer runs** that can be
taken apart in threes. A run of three dots is none if it is part of a metavariable or a name,
or follows an operand; the end of a longer run follows a dot, and is none only if it is part
of a metavariable or a name. -/
theorem wildcard_mem_scan_iff (sigil : Sigil) (style : WildcardStyle) (fragment : Bytes)
    (start stop : Nat) :
    ⟨⟨start, stop⟩, .wildcard⟩ ∈ (Placeholders.scan sigil style fragment).sites ↔
      WildcardAt sigil fragment start stop ∨ EndsLongRun sigil fragment start stop := by
  have hmem : ⟨⟨start, stop⟩, .wildcard⟩ ∈ sites sigil fragment ↔
      StandsWildcard (metavariables sigil fragment) fragment ⟨⟨start, stop⟩, .wildcard⟩ := by
    rw [← mem_wildcards_iff]
    exact ⟨fun hs => mem_wildcards_of_mem_sites hs rfl,
      fun hs => (mem_sites sigil fragment).mpr (.inl hs)⟩
  rw [Placeholders.scan, hmem]
  constructor
  · rintro ⟨⟨heq, hdots, hapart⟩, haligned, hbefore, hbehind⟩
    obtain rfl : stop = start + 3 := congrArg (·.extent.stop) heq
    rw [forall_metavariables_iff] at hapart
    obtain ⟨hname, hdot⟩ := continuesDots_eq_false_iff.mp hbehind
    have hle := dotsBefore_le fragment start
    have hrun : DotRun fragment (start - dotsBefore fragment start) (start + 3) :=
      (dotRun_iff (Nat.sub_le _ _)).mpr ⟨(Nat.sub_sub_self hle).symm, hdots, hdot⟩
    rcases Nat.eq_zero_or_pos (dotsBefore fragment start) with hzero | hpos
    · rw [hzero] at hrun
      exact .inl ⟨hrun, rfl, hapart, hbefore, hname⟩
    · dsimp only at haligned
      exact .inr ⟨⟨_, by omega, hrun, by omega⟩, rfl, hapart, hname⟩
  · rintro (⟨hrun, rfl, hapart, hbefore, hname⟩ |
      ⟨⟨first, hlt, hrun, hmultiple⟩, rfl, hapart, hname⟩)
    · obtain ⟨hzero, hdots, hdot⟩ := (dotRun_iff (Nat.le_refl _)).mp hrun
      refine ⟨⟨rfl, hdots, forall_metavariables_iff.mpr hapart⟩, ?_, hbefore, ?_⟩
      · show 3 ∣ dotsBefore fragment start
        rw [hzero, Nat.sub_self]
        exact Nat.dvd_zero 3
      · exact continuesDots_eq_false_iff.mpr ⟨hname, hdot⟩
    · obtain ⟨hcount, hdots, hdot⟩ := (dotRun_iff (Nat.le_of_lt hlt)).mp hrun
      refine ⟨⟨rfl, hdots, forall_metavariables_iff.mpr hapart⟩, ?_, ?_, ?_⟩
      · show 3 ∣ dotsBefore fragment start
        omega
      · -- the byte in front is a dot of the run
        obtain ⟨k, rfl⟩ := Nat.exists_eq_add_of_lt hlt
        show (fragment[first + k]?).any Byte.isOperandEnd = false
        rw [hrun.dots _ (Nat.le_add_right _ _) (by omega)]
        rfl
      · exact continuesDots_eq_false_iff.mpr ⟨hname, hdot⟩

/-- The end of six dots is taken for a wildcard, although it is not three dots by themselves. -/
theorem wildcard_mem_scan_sixDots :
    ⟨⟨3, 6⟩, .wildcard⟩ ∈ (Placeholders.scan .dollar .identifier (Utf8.encode "......")).sites ∧
      ¬ WildcardAt .dollar (Utf8.encode "......") 3 6 :=
  ⟨by decide +kernel, fun h => h.run.before rfl⟩

end Placeholder

end SpanTree

import BuildScript.Proofs.VersionOrder
import BuildScript.Version.Resolver
import Mathlib.Data.Finset.Dedup
import Mathlib.Order.Bounds.Basic

/-!
# The best match

A request for a version is answered with the greatest listed version that its selector allows, from
the family if the family has one. So the order of the lists and repetitions in them do not matter.
-/

namespace BuildScript

namespace Version

instance : LE Version := ⟨fun v w => (cmp v w).isLE = true⟩

variable {best v w : Version} {versions : List Version}

theorem le_iff_key : v ≤ w ↔ v.key ≤ w.key := isLE_cmp_iff

theorem isGE_cmp_iff : (cmp v w).isGE = true ↔ w ≤ v := by
  rw [le_iff_key, ← (cmp_compares v w).ne_lt]
  cases cmp v w <;> simp

theorem le_trans_of_key {u : Version} (huv : u ≤ v) (hvw : v ≤ w) : u ≤ w :=
  le_iff_key.mpr ((le_iff_key.mp huv).trans (le_iff_key.mp hvw))

/-- Of two versions the later one is kept unless it is smaller. -/
theorem isGreatest_later (best w : Version) :
    IsGreatest {best, w} (if (cmp w best).isGE = true then w else best) := by
  have hself : ∀ u : Version, u ≤ u := fun u => le_iff_key.mpr le_rfl
  split_ifs with hge
  · refine ⟨Or.inr rfl, ?_⟩
    rintro u (rfl | rfl)
    · exact isGE_cmp_iff.mp hge
    · exact hself u
  · have hlt : w ≤ best := by
      rw [isGE_cmp_iff, le_iff_key, not_le] at hge
      exact le_iff_key.mpr hge.le
    refine ⟨Or.inl rfl, ?_⟩
    rintro u (rfl | rfl)
    · exact hself u
    · exact hlt

theorem isGreatest_foldl (best : Version) (rest : List Version) :
    IsGreatest {v | v ∈ best :: rest}
      (rest.foldl (fun best w => if (cmp w best).isGE = true then w else best) best) := by
  induction rest generalizing best with
  | nil =>
    refine ⟨List.mem_singleton_self best, fun v hv => ?_⟩
    rw [List.mem_singleton.mp hv]
    exact le_iff_key.mpr le_rfl
  | cons w rest ih =>
    obtain ⟨hkept, hupper⟩ := isGreatest_later best w
    rw [List.foldl_cons]
    obtain ⟨hmem, hrest⟩ := ih (if (cmp w best).isGE = true then w else best)
    refine ⟨?_, fun v hv => ?_⟩
    · rcases List.mem_cons.mp hmem with heq | hmem
      · rw [heq]
        rcases hkept with hkept | hkept
        · rw [hkept]
          exact List.mem_cons_self
        · rw [hkept]
          exact List.mem_cons_of_mem _ List.mem_cons_self
      · exact List.mem_cons_of_mem _ (List.mem_cons_of_mem _ hmem)
    · have hchosen := hrest List.mem_cons_self
      rcases List.mem_cons.mp hv with rfl | hv
      · exact le_trans_of_key (hupper (Or.inl rfl)) hchosen
      · rcases List.mem_cons.mp hv with rfl | hv
        · exact le_trans_of_key (hupper (Or.inr rfl)) hchosen
        · exact hrest (List.mem_cons_of_mem _ hv)

theorem isGreatest_of_greatest? (h : greatest? versions = some v) :
    IsGreatest {w | w ∈ versions} v := by
  cases versions with
  | nil => cases h
  | cons best rest =>
    rw [← Option.some.inj h]
    exact isGreatest_foldl best rest

theorem greatest?_eq_none : greatest? versions = none ↔ versions = [] := by
  cases versions <;> simp [greatest?]

/-- No two texts are the greatest of one set. -/
theorem eq_of_isGreatest_parse {versions : Set Version} {s t : String}
    (hs : IsGreatest versions (parse s)) (ht : IsGreatest versions (parse t)) : s = t :=
  eq_of_key_parse (le_antisymm (le_iff_key.mp (ht.2 hs.1)) (le_iff_key.mp (hs.2 ht.1)))

end Version

namespace VersionSelector

variable {s : VersionSelector} {versions : List Version} {v : Version}

theorem isGreatest_of_select? (h : s.select? versions = some v) :
    IsGreatest {w | w ∈ versions ∧ s.allows w = true} v := by
  have hgreatest := Version.isGreatest_of_greatest? h
  simp only [List.mem_filter] at hgreatest
  exact hgreatest

theorem select?_eq_none :
    s.select? versions = none ↔ {w | w ∈ versions ∧ s.allows w = true} = ∅ := by
  rw [select?, Version.greatest?_eq_none, List.filter_eq_nil_iff, Set.eq_empty_iff_forall_notMem]
  simp only [Set.mem_ofPred_eq, not_and]

end VersionSelector

namespace Metadata

def matching (m : Metadata) (q : VersionRequest) : Set Version :=
  {v | ∃ texts, m.versions? q.coordinate = some texts ∧ v ∈ texts.map Version.parse ∧
    q.selector.allows v = true}

def aligned (m : Metadata) (q : VersionRequest) : Set Version :=
  {v ∈ m.matching q | v.text ∈ q.family}

/-- The greatest match in the family or, if there is none, the greatest match. -/
def IsBest (m : Metadata) (q : VersionRequest) (v : Version) : Prop :=
  IsGreatest (m.aligned q) v ∨ m.aligned q = ∅ ∧ IsGreatest (m.matching q) v

variable {m m' : Metadata} {q : VersionRequest} {texts : List String} {text : String}

theorem IsBest.mem_matching {v : Version} (h : m.IsBest q v) : v ∈ m.matching q := by
  rcases h with h | ⟨-, h⟩
  · exact h.1.1
  · exact h.1

theorem IsBest.text_eq {other : String} (h : m.IsBest q (Version.parse text))
    (h' : m.IsBest q (Version.parse other)) : text = other := by
  rcases h with h | ⟨hempty, h⟩ <;> rcases h' with h' | ⟨hempty', h'⟩
  · exact Version.eq_of_isGreatest_parse h h'
  · exact absurd h.1 (hempty' ▸ Set.notMem_empty _)
  · exact absurd h'.1 (hempty ▸ Set.notMem_empty _)
  · exact Version.eq_of_isGreatest_parse h h'

theorem matching_of_listed (h : m.versions? q.coordinate = some texts) :
    m.matching q = {v | v ∈ texts.map Version.parse ∧ q.selector.allows v = true} := by
  ext v
  simp [matching, h]

theorem aligned_of_listed (h : m.versions? q.coordinate = some texts) :
    m.aligned q = {v | v ∈ (texts.map Version.parse).filter (fun v => q.family.contains v.text) ∧
      q.selector.allows v = true} := by
  ext v
  rw [aligned, matching_of_listed h]
  simp only [Set.mem_ofPred_eq, List.mem_filter, List.contains_iff_mem]
  tauto

theorem matching_of_unlisted (h : m.versions? q.coordinate = none) : m.matching q = ∅ := by
  simp [matching, h]

theorem resolve_of_unlisted (honly : q.selector.onlyVersion? = none)
    (h : m.versions? q.coordinate = none) :
    m.resolve q = .error (.metadataUnavailable q.coordinate.display) := by
  simp [resolve, honly, h]

/-- What becomes of a request for a listed module. -/
theorem resolve_of_listed (honly : q.selector.onlyVersion? = none)
    (h : m.versions? q.coordinate = some texts) :
    (∃ text, m.resolve q = .ok text ∧ m.IsBest q (Version.parse text)) ∨
      m.matching q = ∅ ∧
        m.resolve q = .error (.versionNotFound q.coordinate.display q.selector.text) := by
  have hparsed : ∀ v ∈ m.matching q, Version.parse v.text = v := by
    rw [matching_of_listed h]
    rintro v ⟨hv, -⟩
    obtain ⟨text, -, rfl⟩ := List.mem_map.mp hv
    rfl
  simp only [resolve, honly, h]
  cases haligned : q.selector.select?
    ((texts.map Version.parse).filter fun v => q.family.contains v.text) with
  | some v =>
    have hgreatest := VersionSelector.isGreatest_of_select? haligned
    rw [← aligned_of_listed h] at hgreatest
    refine Or.inl ⟨v.text, rfl, Or.inl ?_⟩
    rwa [hparsed v hgreatest.1.1]
  | none =>
    rw [VersionSelector.select?_eq_none, ← aligned_of_listed h] at haligned
    cases hmatching : q.selector.select? (texts.map Version.parse) with
    | some v =>
      have hgreatest := VersionSelector.isGreatest_of_select? hmatching
      rw [← matching_of_listed h] at hgreatest
      refine Or.inl ⟨v.text, rfl, Or.inr ⟨haligned, ?_⟩⟩
      rwa [hparsed v hgreatest.1]
    | none =>
      rw [VersionSelector.select?_eq_none, ← matching_of_listed h] at hmatching
      exact Or.inr ⟨hmatching, rfl⟩

theorem resolve_eq_ok (honly : q.selector.onlyVersion? = none) :
    m.resolve q = .ok text ↔ m.IsBest q (Version.parse text) := by
  have hnone : m.matching q = ∅ → ¬ m.IsBest q (Version.parse text) :=
    fun hempty hbest => absurd hbest.mem_matching (hempty ▸ Set.notMem_empty _)
  cases hlisted : m.versions? q.coordinate with
  | none =>
    rw [resolve_of_unlisted honly hlisted]
    exact iff_of_false (fun h => by cases h) (hnone (matching_of_unlisted hlisted))
  | some texts =>
    obtain ⟨found, hfound, hbest⟩ | ⟨hempty, herror⟩ := resolve_of_listed honly hlisted
    · rw [hfound, Except.ok.injEq]
      constructor
      · rintro rfl
        exact hbest
      · exact hbest.text_eq
    · rw [herror]
      exact iff_of_false (fun h => by cases h) (hnone hempty)

theorem exists_resolve_eq_ok (honly : q.selector.onlyVersion? = none) :
    (∃ text, m.resolve q = .ok text) ↔ (m.matching q).Nonempty := by
  constructor
  · rintro ⟨text, hok⟩
    exact ⟨_, ((resolve_eq_ok honly).mp hok).mem_matching⟩
  · intro hnonempty
    cases hlisted : m.versions? q.coordinate with
    | none => exact absurd (matching_of_unlisted hlisted) hnonempty.ne_empty
    | some texts =>
      obtain ⟨found, hfound, -⟩ | ⟨hempty, -⟩ := resolve_of_listed honly hlisted
      · exact ⟨found, hfound⟩
      · exact absurd hempty hnonempty.ne_empty

theorem resolve_eq_versionNotFound (honly : q.selector.onlyVersion? = none)
    {coordinate selector : String} :
    m.resolve q = .error (.versionNotFound coordinate selector) ↔
      (coordinate = q.coordinate.display ∧ selector = q.selector.text) ∧
        (m.versions? q.coordinate).isSome = true ∧ m.matching q = ∅ := by
  cases hlisted : m.versions? q.coordinate with
  | none =>
    rw [resolve_of_unlisted honly hlisted]
    simp
  | some texts =>
    obtain ⟨found, hfound, hbest⟩ | ⟨hempty, herror⟩ := resolve_of_listed honly hlisted
    · have hnonempty : m.matching q ≠ ∅ := Set.Nonempty.ne_empty ⟨_, hbest.mem_matching⟩
      rw [hfound]
      simp [hnonempty]
    · rw [herror]
      simp [hempty, eq_comm]

/-- Only the members of the lists count. -/
theorem resolve_congr {q' : VersionRequest} (honly : q.selector.onlyVersion? = none)
    (hcoordinate : q'.coordinate = q.coordinate) (hselector : q'.selector = q.selector)
    (hlist : (m'.versions? q.coordinate).map List.toFinset =
      (m.versions? q.coordinate).map List.toFinset)
    (hfamily : q'.family.toFinset = q.family.toFinset) : m'.resolve q' = m.resolve q := by
  have honly' : q'.selector.onlyVersion? = none := by rw [hselector, honly]
  have hfamily' : ∀ t, t ∈ q'.family ↔ t ∈ q.family := by
    intro t
    rw [← List.mem_toFinset, hfamily, List.mem_toFinset]
  cases hlisted : m.versions? q.coordinate with
  | none =>
    have hlisted' : m'.versions? q'.coordinate = none := by simpa [hcoordinate, hlisted] using hlist
    rw [resolve_of_unlisted honly hlisted, resolve_of_unlisted honly' hlisted', hcoordinate]
  | some texts =>
    obtain ⟨texts', hlisted', htexts⟩ : ∃ texts', m'.versions? q'.coordinate = some texts' ∧
        texts'.toFinset = texts.toFinset := by
      simpa [hcoordinate, hlisted] using hlist
    have hmembers : ∀ t, t ∈ texts' ↔ t ∈ texts := by
      intro t
      rw [← List.mem_toFinset, htexts, List.mem_toFinset]
    have hmatching : m'.matching q' = m.matching q := by
      ext v
      rw [matching_of_listed hlisted, matching_of_listed hlisted']
      simp [hmembers, hselector]
    have haligned : m'.aligned q' = m.aligned q := by
      ext v
      simp [aligned, hmatching, hfamily']
    obtain ⟨found, hfound, hbest⟩ | ⟨hempty, herror⟩ := resolve_of_listed honly hlisted
    · rw [hfound, resolve_eq_ok honly', IsBest, haligned, hmatching]
      exact hbest
    · rw [herror, resolve_eq_versionNotFound honly', hcoordinate, hselector]
      exact ⟨⟨rfl, rfl⟩, by simp [← hcoordinate, hlisted'], hmatching.trans hempty⟩

/-- A selector that does not name its version is answered with the best match, and there is an
answer if anything matches. A version of a listed module is not found only if nothing does. Order
and repetitions in the lists do not matter. -/
theorem resolve_picks_greatest (m : Metadata) (q : VersionRequest)
    (honly : q.selector.onlyVersion? = none) :
    (∀ text, m.resolve q = .ok text ↔ m.IsBest q (Version.parse text)) ∧
      ((∃ text, m.resolve q = .ok text) ↔ (m.matching q).Nonempty) ∧
      (∀ coordinate selector, m.resolve q = .error (.versionNotFound coordinate selector) ↔
        (coordinate = q.coordinate.display ∧ selector = q.selector.text) ∧
          (m.versions? q.coordinate).isSome = true ∧ m.matching q = ∅) ∧
      ∀ (m' : Metadata) (family : List String),
        (m'.versions? q.coordinate).map List.toFinset =
          (m.versions? q.coordinate).map List.toFinset →
          family.toFinset = q.family.toFinset →
            m'.resolve { q with family := family } = m.resolve q := by
  refine ⟨fun text => resolve_eq_ok honly, exists_resolve_eq_ok honly, ?_, ?_⟩
  · exact fun coordinate selector => resolve_eq_versionNotFound honly
  · intro m' family hlist hfamily
    exact resolve_congr honly rfl rfl hlist hfamily

theorem resolve_picks_greatest_release :
    let q : VersionRequest := ⟨⟨"g", "a"⟩, ⟨"latest.release", .latestRelease, none⟩, ["3.0"]⟩
    let m : Metadata := [("g:a", ["1.10", "2.0-rc1", "1.9"])]
    q.selector.onlyVersion? = none ∧ m.resolve q = .ok "1.10" ∧
      resolve [("g:a", ["1.9", "1.9", "2.0-rc1", "1.10"])] { q with family := ["3.0", "3.0"] } =
        .ok "1.10" := by
  intro q m
  have hmatching : m.matching q = {Version.parse "1.10", Version.parse "1.9"} := by
    have hallowed : (["1.10", "2.0-rc1", "1.9"].map Version.parse).filter q.selector.allows =
        [Version.parse "1.10", Version.parse "1.9"] := by decide +kernel
    ext v
    rw [matching_of_listed rfl, Set.mem_ofPred_eq, ← List.mem_filter, hallowed]
    simp
  have hless : Version.parse "1.9" ≤ Version.parse "1.10" := by
    have hlow : Version.parse "1.9" = ⟨"1.9", [1, 9], ""⟩ := by decide +kernel
    have hhigh : Version.parse "1.10" = ⟨"1.10", [1, 10], ""⟩ := by decide +kernel
    have hparts : Version.compareParts [1, 9] [1, 10] = .lt := by
      rw [(Version.compareParts_compares _ _).eq_lt, Version.padded_cons_lt, Version.padded_cons_lt]
      omega
    rw [hlow, hhigh, Version.le_iff_key, ← Version.isLE_cmp_iff, Version.cmp, hparts]
    rfl
  obtain ⟨hok, -, -, hcongr⟩ := resolve_picks_greatest m q rfl
  have hbest : m.resolve q = .ok "1.10" := by
    refine (hok "1.10").mpr (Or.inr ⟨?_, ?_⟩)
    · rw [aligned, hmatching, Set.eq_empty_iff_forall_notMem]
      rintro v ⟨rfl | rfl, hfamily⟩
      · exact absurd hfamily (by decide)
      · exact absurd hfamily (by decide)
    · rw [hmatching]
      refine ⟨Or.inl rfl, ?_⟩
      rintro v (rfl | rfl)
      · exact Version.le_iff_key.mpr le_rfl
      · exact hless
  exact ⟨rfl, hbest, (hcongr _ _ (by decide +kernel) (by decide +kernel)).trans hbest⟩

end Metadata

end BuildScript

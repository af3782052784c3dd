import BuildScript.Proofs.Readers
import BuildScript.Proofs.Subtrees
import BuildScript.Proofs.Tables
import BuildScript.SourceFile.Cursor

/-!
# Which suites a script registers

The suites of a script are found on the way through its tree, and nothing inside a suite is looked
at. Here they are told from the places of the tree one by one: by the call that is there, by the
calls around it, and by none of those being a suite itself. A suite has to be below `testing`; a
suite that has this name is taken to be below itself.
-/

namespace BuildScript

namespace Node

variable {n : Node} {above path outer : List Node}

theorem suffix_of_mem_paths (h : path ∈ n.paths above) : n :: above <:+ path := by
  induction n using induct_children generalizing above with
  | _ n ih =>
    rcases mem_paths.mp h with rfl | ⟨c, hc, hpath⟩
    · exact List.suffix_rfl
    · exact (List.suffix_cons c (n :: above)).trans (ih c hc hpath)

/-- The path to a node goes through all nodes around it. -/
theorem mem_paths_of_suffix (h : path ∈ n.paths above) (hsuffix : outer <:+ path)
    (hlength : above.length < outer.length) : outer ∈ n.paths above := by
  induction n using induct_children generalizing above with
  | _ n ih =>
    rw [mem_paths]
    rcases Nat.eq_or_lt_of_le hlength with heq | hlt
    · have hself :=
        List.suffix_of_suffix_length_le hsuffix (suffix_of_mem_paths h) (Nat.le_of_eq heq.symm)
      exact Or.inl (hself.eq_of_length heq.symm)
    · rcases mem_paths.mp h with rfl | ⟨c, hc, hpath⟩
      · have hle := hsuffix.length_le
        simp only [List.length_cons] at hle hlt
        omega
      · exact Or.inr ⟨c, hc, ih c hc hpath hlt⟩

end Node

namespace Cursor

variable {c : Cursor} {file : SourceFile} {above path : List Node} {n : Node}
    {ownName blocksOnly : Bool}
  {suite name : String} {d : Call Node}

def call? (c : Cursor) : Option (Call Node) := c.path.head?.bind Node.call?

def outerCall? (c : Cursor) : Option (Call Node) := c.parent?.bind enclosingCall?

def isInside (c : Cursor) (name : String) : Bool := c.parent?.any fun outer => outer.isWithin name

/-- There is a call that registers the suite: it is right below `suites` and below `testing`. With
`ownName` it is enough for the second that the call itself is named so. -/
structure Registers (ownName : Bool) (c : Cursor) (d : Call Node) (suite : String) : Prop where
  here : c.call? = some d
  suiteName : d.suiteName? = some suite
  suites : ∃ outer, c.outerCall? = some outer ∧ outer.simpleName = "suites"
  testing : c.isInside "testing" = true ∨ ownName = true ∧ d.simpleName = "testing"

/-- There is a call that registers the suite, inside no other call that registers one. With
`blocksOnly` it has a `dependencies` among its statements. -/
def ListsSuite (ownName blocksOnly : Bool) (c : Cursor) (suite : String) : Prop :=
  ∃ d, c.Registers ownName d suite ∧
    (∀ outer ∈ all c.file, outer.path <:+ c.path → outer.path ≠ c.path →
      ∀ e other, ¬ outer.Registers ownName e other) ∧
    (blocksOnly = true → ∃ s ∈ d.statements, ∃ e, s.call? = some e ∧ e.simpleName = "dependencies")

/-- A call `testing` that registers a suite right below `suites`, with no `testing` around it. -/
def isStray (c : Cursor) : Bool :=
  (c.call?.any fun d => d.simpleName = "testing" && d.suiteName?.isSome) &&
    (c.outerCall?.any fun outer => outer.simpleName = "suites") && !c.isInside "testing"

theorem isWithin_iff :
    c.isWithin name = true ↔ ∃ d ∈ c.path.filterMap Node.call?, d.simpleName = name := by
  rw [isWithin, List.any_eq_true]
  simp only [List.mem_filterMap]
  constructor
  · rintro ⟨m, hm, hname⟩
    split at hname
    · next d hd => exact ⟨d, ⟨m, hm, hd⟩, of_decide_eq_true hname⟩
    · cases hname
  · rintro ⟨d, ⟨m, hm, hd⟩, hname⟩
    exact ⟨m, hm, by rw [hd]; exact decide_eq_true hname⟩

/-- The traversal takes a call for a suite where it registers one, its own name counting. -/
theorem registers_iff :
    (⟨file, n :: above⟩ : Cursor).Registers true d suite ↔
      n.call? = some d ∧ d.placedSuite? (above.filterMap Node.call?) = some suite := by
  have houter : (⟨file, n :: above⟩ : Cursor).outerCall? = (above.filterMap Node.call?).head? :=
    List.head?_filterMap.symm
  have hinside : (⟨file, n :: above⟩ : Cursor).isInside "testing" = true ↔
      ∃ t ∈ above.filterMap Node.call?, t.simpleName = "testing" :=
        @isWithin_iff ⟨file, above⟩ "testing"
  have hplaced : d.placedSuite? (above.filterMap Node.call?) = some suite ↔
      Call.isSuitePlace (above.filterMap Node.call?) d = true ∧ d.suiteName? = some suite := by
    rw [Call.placedSuite?]
    split_ifs with hplace <;> simp [hplace]
  have hplace : Call.isSuitePlace (above.filterMap Node.call?) d = true ↔
      (∃ outer, (above.filterMap Node.call?).head? = some outer ∧ outer.simpleName = "suites") ∧
        (d.simpleName = "testing" ∨ ∃ t ∈ above.filterMap Node.call?,
          t.simpleName = "testing") := by
    simp only [Call.isSuitePlace, Bool.and_eq_true, List.any_cons, Bool.or_eq_true,
      List.any_eq_true, decide_eq_true_eq, Option.any_eq_true]
  rw [hplaced, hplace]
  constructor
  · rintro ⟨hhere, hname, hsuites, htesting⟩
    rw [houter] at hsuites
    rw [hinside] at htesting
    exact ⟨hhere, ⟨hsuites, htesting.symm.imp_left And.right⟩, hname⟩
  · rintro ⟨hhere, ⟨hsuites, htesting⟩, hname⟩
    refine ⟨hhere, hname, by rwa [houter], ?_⟩
    rw [hinside]
    exact htesting.symm.imp_right fun h => ⟨rfl, h⟩

theorem not_registers_nil : ¬ (⟨file, []⟩ : Cursor).Registers ownName d suite := by
  rintro ⟨hhere, -, -, -⟩
  cases hhere

def IsOutermost (file : SourceFile) (above path : List Node) : Prop :=
  ∀ outer, outer <:+ path → outer ≠ path → above.length < outer.length →
    ∀ e other, ¬ (⟨file, outer⟩ : Cursor).Registers true e other

theorem isOutermost_self : IsOutermost file above (n :: above) := by
  intro outer hsuffix hne hlength
  exact absurd (hsuffix.eq_of_length_le hlength) hne

/-- Below a node nothing is outermost but where the node registers no suite. -/
theorem isOutermost_below {m : Node} (hpath : path ∈ m.paths (n :: above)) :
    IsOutermost file above path ↔
      (∀ e other, ¬ (⟨file, n :: above⟩ : Cursor).Registers true e other) ∧
        IsOutermost file (n :: above) path := by
  have hsuffix := Node.suffix_of_mem_paths hpath
  have haround : n :: above <:+ path := (List.suffix_cons m (n :: above)).trans hsuffix
  constructor
  · intro h
    refine ⟨h _ haround ?_ (Nat.lt_succ_self _), fun outer houter hne hlength => ?_⟩
    · rintro rfl
      exact absurd hsuffix.length_le (Nat.not_succ_le_self _)
    · exact h outer houter hne (Nat.lt_of_succ_lt hlength)
  · rintro ⟨hself, h⟩ outer houter hne hlength
    rcases Nat.eq_or_lt_of_le hlength with heq | hlt
    · have hlist := List.suffix_of_suffix_length_le houter haround (Nat.le_of_eq heq.symm)
      rw [hlist.eq_of_length heq.symm]
      exact hself
    · exact h outer houter hne hlt

/-- The suites that the traversal finds at a node and below it. -/
theorem mem_suites_iff (file : SourceFile) (n : Node) (above : List Node) :
    suite ∈ n.suites blocksOnly (above.filterMap Node.call?) ↔
      ∃ path ∈ n.paths above, IsOutermost file above path ∧ ∃ d,
        (⟨file, path⟩ : Cursor).Registers true d suite ∧
        (blocksOnly = true → d.statements.any Node.callsDependencies = true) := by
  induction n using Node.induct_children generalizing above with
  | _ n ih =>
    rw [Node.suites_eq]
    cases hplaced : n.placedSuite? above with
    | some placed =>
      -- The traversal stops here, and whatever is below is not outermost.
      obtain ⟨d, hd, hname⟩ := Option.bind_eq_some_iff.mp hplaced
      have hregisters : (⟨file, n :: above⟩ : Cursor).Registers true d placed :=
        registers_iff.mpr ⟨hd, hname⟩
      have hblock : (!blocksOnly || n.call?.any fun c => c.statements.any Node.callsDependencies) =
          true ↔
          (blocksOnly = true → d.statements.any Node.callsDependencies = true) := by
        rw [hd]
        cases blocksOnly <;> simp
      simp only [hblock, List.mem_ite_nil_right, List.mem_singleton]
      constructor
      · rintro ⟨hdependencies, rfl⟩
        exact ⟨n :: above, Node.mem_paths.mpr (Or.inl rfl), isOutermost_self, d, hregisters,
          hdependencies⟩
      · rintro ⟨path, hpath, houtermost, e, he, hdependencies⟩
        rcases Node.mem_paths.mp hpath with rfl | ⟨c, -, hbelow⟩
        · obtain ⟨hcall, hname'⟩ := registers_iff.mp he
          obtain rfl := Option.some.inj (hd.symm.trans hcall)
          exact ⟨hdependencies, Option.some.inj (hname'.symm.trans hname)⟩
        · exact absurd hregisters (((isOutermost_below hbelow).mp houtermost).1 d placed)
    | none =>
      have hnot : ∀ e other, ¬ (⟨file, n :: above⟩ : Cursor).Registers true e other := by
        intro e other hregisters
        have hsome : n.placedSuite? above = some other :=
          Option.bind_eq_some_iff.mpr ⟨e, registers_iff.mp hregisters⟩
        rw [hplaced] at hsome
        cases hsome
      rw [List.mem_flatMap]
      constructor
      · rintro ⟨c, hc, hsuite⟩
        obtain ⟨path, hpath, houtermost, hfound⟩ := (ih c hc (n :: above)).mp hsuite
        refine ⟨path, Node.mem_paths.mpr (Or.inr ⟨c, hc, hpath⟩), ?_, hfound⟩
        exact (isOutermost_below hpath).mpr ⟨hnot, houtermost⟩
      · rintro ⟨path, hpath, houtermost, d, hd, hdependencies⟩
        rcases Node.mem_paths.mp hpath with rfl | ⟨c, hc, hbelow⟩
        · exact absurd hd (hnot d suite)
        · exact ⟨c, hc, (ih c hc (n :: above)).mpr
            ⟨path, hbelow, ((isOutermost_below hbelow).mp houtermost).2, d, hd, hdependencies⟩⟩

theorem mem_all :
    c ∈ all file ↔ c.file = file ∧ (c.path = [] ∨ ∃ s ∈ file.statements, c.path ∈ s.paths []) := by
  obtain ⟨own, path⟩ := c
  simp only [all_eq, List.mem_cons, List.mem_map, List.mem_flatMap, Cursor.mk.injEq]
  constructor
  · rintro (⟨rfl, rfl⟩ | ⟨_, hpath, rfl, rfl⟩)
    · exact ⟨rfl, Or.inl rfl⟩
    · exact ⟨rfl, Or.inr hpath⟩
  · rintro ⟨rfl, rfl | hpath⟩
    · exact Or.inl ⟨rfl, rfl⟩
    · exact Or.inr ⟨path, hpath, rfl, rfl⟩

/-- The places around a place of a file are places of the file, so none of them is left out. -/
theorem isOutermost_iff {s : Node} (hs : s ∈ file.statements) (hpath : path ∈ s.paths []) :
    IsOutermost file [] path ↔
      ∀ outer ∈ all file, outer.path <:+ path → outer.path ≠ path →
        ∀ e other, ¬ outer.Registers true e other := by
  constructor
  · rintro h ⟨own, outer⟩ houter hsuffix hne e other
    obtain ⟨rfl, -⟩ := mem_all.mp houter
    cases outer with
    | nil => exact not_registers_nil
    | cons m outer => exact h (m :: outer) hsuffix hne (Nat.succ_pos _) e other
  · intro h outer hsuffix hne hlength
    have hmem := Node.mem_paths_of_suffix hpath hsuffix hlength
    exact h ⟨file, outer⟩ (mem_all.mpr ⟨rfl, Or.inr ⟨s, hs, hmem⟩⟩) hsuffix hne

theorem any_callsDependencies_iff :
    d.statements.any Node.callsDependencies = true ↔
      ∃ s ∈ d.statements, ∃ e, s.call? = some e ∧ e.simpleName = "dependencies" := by
  simp only [List.any_eq_true, Node.callsDependencies, Option.any_eq_true, decide_eq_true_eq]

theorem mem_file_suites_iff :
    suite ∈ file.suites blocksOnly ↔ ∃ c ∈ all file, c.ListsSuite true blocksOnly suite := by
  rw [SourceFile.suites_eq, Names.mem_ofList, List.mem_flatMap]
  constructor
  · rintro ⟨s, hs, hsuite⟩
    obtain ⟨path, hpath, houtermost, d, hd, hblock⟩ := (mem_suites_iff file s []).mp hsuite
    refine ⟨⟨file, path⟩, mem_all.mpr ⟨rfl, Or.inr ⟨s, hs, hpath⟩⟩, d, hd,
      (isOutermost_iff hs hpath).mp houtermost, ?_⟩
    rwa [← any_callsDependencies_iff]
  · rintro ⟨⟨own, path⟩, hc, d, hd, houtermost, hblock⟩
    obtain ⟨rfl, rfl | ⟨s, hs, hpath⟩⟩ := mem_all.mp hc
    · exact absurd hd not_registers_nil
    · rw [← any_callsDependencies_iff] at hblock
      refine ⟨s, hs, (mem_suites_iff own s []).mpr ⟨path, hpath, ?_, d, hd, hblock⟩⟩
      exact (isOutermost_iff hs hpath).mpr houtermost

/-- The name of a call decides only about a stray `testing`. -/
theorem registers_congr (h : c.isStray = false) :
    c.Registers true d suite ↔ c.Registers false d suite := by
  constructor
  · rintro ⟨hhere, hname, ⟨outer, houter, hsuites⟩, htesting⟩
    refine ⟨hhere, hname, ⟨outer, houter, hsuites⟩, Or.inl (htesting.elim id ?_)⟩
    rintro ⟨-, hown⟩
    simpa [isStray, hhere, hname, hown, houter, hsuites] using h
  · rintro ⟨hhere, hname, hsuites, htesting⟩
    exact ⟨hhere, hname, hsuites, htesting.imp_right fun hown => ⟨rfl, hown.2⟩⟩

theorem listsSuite_congr (h : ∀ c ∈ all file, c.isStray = false) (hc : c ∈ all file) :
    c.ListsSuite true blocksOnly suite ↔ c.ListsSuite false blocksOnly suite := by
  have hfile : c.file = file := (mem_all.mp hc).1
  subst hfile
  refine exists_congr fun d => and_congr (registers_congr (h c hc)) (and_congr_left' ?_)
  refine forall₂_congr fun outer houter => ?_
  simp only [registers_congr (h outer houter)]

/-- The suites of a script are those that some call registers right below `suites`, inside no other
suite and inside `testing`. A call that is named `testing` itself counts as inside one, which
matters only where it is a stray one. -/
theorem suites_listed_by_place (file : SourceFile) (blocksOnly : Bool) :
    (∀ suite, suite ∈ file.suites blocksOnly ↔ ∃ c ∈ all file, c.ListsSuite true blocksOnly suite) ∧
      ((∀ c ∈ all file, c.isStray = false) →
        ∀ suite, suite ∈ file.suites blocksOnly ↔
          ∃ c ∈ all file, c.ListsSuite false blocksOnly suite) := by
  refine ⟨fun suite => mem_file_suites_iff, fun hstray suite => mem_file_suites_iff.trans ?_⟩
  exact exists_congr fun c => and_congr_right fun hc => listsSuite_congr hstray hc

def nestedSuites : SourceFile :=
  .parse "build.gradle" "testing { suites { it(JvmTestSuite) { suites { inner(JvmTestSuite) } } } }"

theorem suites_listed_by_place_nested :
    (∀ c ∈ all nestedSuites, c.isStray = false) ∧ nestedSuites.suites false = ["it"] ∧
      (∃ c ∈ all nestedSuites, c.ListsSuite false false "it") ∧
      ¬ ∃ c ∈ all nestedSuites, c.ListsSuite false false "inner" := by
  have hstray : ∀ c ∈ all nestedSuites, c.isStray = false := by
    have hall : (all nestedSuites).all (fun c => !c.isStray) = true := by decide +kernel
    simpa using hall
  have hsuites : nestedSuites.suites false = ["it"] := by decide +kernel
  refine ⟨hstray, hsuites, ?_, ?_⟩
  · rw [← (suites_listed_by_place nestedSuites false).2 hstray, hsuites]
    exact List.mem_singleton_self _
  · rw [← (suites_listed_by_place nestedSuites false).2 hstray, hsuites]
    decide

/-- A suite that is named `testing` is listed without being inside a call of that name. -/
theorem suites_list_stray_testing :
    "testing" ∈
        (SourceFile.parse "build.gradle" "suites { testing(JvmTestSuite) { } }").suites false ∧
      ¬ ∃ c ∈ all (.parse "build.gradle" "suites { testing(JvmTestSuite) { } }"),
        c.ListsSuite false false "testing" := by
  have hnone : (all (.parse "build.gradle" "suites { testing(JvmTestSuite) { } }")).all
      (fun c => c.call?.isNone || !c.isInside "testing") = true := by decide +kernel
  refine ⟨by decide +kernel, ?_⟩
  rintro ⟨c, hc, d, ⟨hhere, -, -, hinside⟩, -⟩
  have hc := List.all_eq_true.mp hnone c hc
  simp [hhere, hinside.resolve_right (by simp)] at hc

end Cursor

end BuildScript

import BuildScript.Proofs.Agreement
import BuildScript.Proofs.Formatting
import BuildScript.Proofs.Reparsing

/-!
# The frame of an edit

Declarations of a file are written one after the other, each with a search through the whole tree.
All that comes of it are new revisions of the statements in which a block has taken a declaration,
and a block behind the last statement if there was none at the top level, which later declarations
share.
-/

namespace BuildScript

namespace Scope

/-- An insertion below a node makes a new revision of it. -/
theorem Replaces.head_eq {scope : Scope} {h : Head} {block : Call Node} {new n m d : Node}
    {enclosing : Option (Call Node)} (hreplaces : scope.Replaces h block new enclosing n m)
    (hgrows : Grows d h block new) : m.head = n.head.revised := by
  cases hreplaces with
  | here is inside =>
    obtain ⟨grown, rfl, -, -⟩ := grows_alike hgrows
    rfl
  | _ => rfl

end Scope

namespace Grown

/-- Insertions do not make or hide a block at the top level. -/
theorem isSome_seekAll_topLevel {list list' : List Node} {k : Nat}
    (hnode : ∀ n ∈ list, ∀ m l, Grown (.node none n) (.node none m) l →
      (Scope.topLevel.seek none m).isSome = (Scope.topLevel.seek none n).isSome)
    (hgrown : Grown (.nodes list) (.nodes list') k) :
    (Scope.topLevel.seekAll none list').isSome = (Scope.topLevel.seekAll none list).isSome := by
  induction list generalizing list' k with
  | nil =>
    cases hgrown
    rfl
  | cons n list ih =>
    rw [List.forall_mem_cons] at hnode
    cases hgrown with
    | cons first rest =>
      rw [Scope.seekAll, Scope.seekAll, Option.isSome_or, Option.isSome_or, hnode.1 _ _ first,
        ih hnode.2 rest]

theorem isSome_seek_topLevel {n m : Node} {k : Nat}
    (hgrown : Grown (.node none n) (.node none m) k) :
    (Scope.topLevel.seek none m).isSome = (Scope.topLevel.seek none n).isSome := by
  induction n using Node.induct generalizing m k with
  | call h c _ _ =>
    rcases c with ⟨name, types, given, body, delegate⟩
    cases hgrown with
    | @call _ _ _ _ _ _ given' _ body' _ _ _ lead arguments inside =>
      have hblock : Call.isBlock ⟨name, types, given', body', delegate⟩ =
          Call.isBlock ⟨name, types, given, body, delegate⟩ := by
        cases inside <;> rfl
      rw [Scope.seek_topLevel_call, Scope.seek_topLevel_call, hblock]
      split <;> rfl
  | closure h statements tail ih =>
    cases hgrown with
    | closure lead inside ending =>
      cases ending with
      | same =>
        rw [List.append_nil]
        exact isSome_seekAll_topLevel (fun s hs m l hs' => ih s hs hs') inside
      | grown is => cases is
  | named h name colonLead value ih =>
    cases hgrown with
    | named lead value =>
      rw [Scope.seek, Scope.seek]
      exact ih value
  | assignment h target operatorLead value iht ihv =>
    cases hgrown with
    | assignment lead target value =>
      rw [Scope.seek, Scope.seek, Option.isSome_or, Option.isSome_or, iht target, ihv value]
  | literal h value source =>
    cases hgrown
    rfl
  | identifier h name =>
    cases hgrown
    rfl
  | raw h text =>
    cases hgrown
    rfl

end Grown

structure Node.Received (count : Nat) (n m : Node) : Prop where
  grown : Grown (.node none n) (.node none m) count
  head : m.head = { n.head with revision := n.head.revision + count }
  same : count = 0 → m = n

theorem Node.Received.refl (n : Node) : Node.Received 0 n n := ⟨.refl none n, rfl, fun _ => rfl⟩

theorem Node.Received.replaces {scope : Scope} {h : Head} {block : Call Node} {new n m m' d : Node}
    {count : Nat} (hreceived : Node.Received count n m)
    (hreplaces : scope.Replaces h block new none m m') (hgrows : Grows d h block new) :
    Node.Received (count + 1) n m' where
  grown := Grown.replaces hreplaces hgrows hreceived.grown
  head := by
    rw [hreplaces.head_eq hgrows, hreceived.head]
    rfl
  same hcount := absurd hcount (Nat.succ_ne_zero count)

namespace SourceFile

/-- What is added behind the statements of a file: a `dependencies` block, exactly if one is wanted
at the top level and there is none. -/
inductive Appended (f : SourceFile) (wanted : Bool) : List Node → Prop
  | nothing (has : wanted = true → (Scope.topLevel.seekAll none f.statements).isSome = true) :
      Appended f wanted []
  | block {s : Node} (is : s.isBlock = true) (wants : wanted = true)
      (missing : Scope.topLevel.seekAll none f.statements = none) : Appended f wanted [s]

/-- The file after its blocks have taken declarations: `received` lists the statements which these
blocks belong to. -/
structure Framed (received : List Nat) (wanted : Bool) (f f' : SourceFile) : Prop where
  identity : f'.head.id = f.head.id
  lead : f'.head.lead = f.head.lead
  path : f'.path = f.path
  markers : f'.markers = f.markers
  kept : ∀ k n, f.statements[k]? = some n →
    ∃ m, f'.statements[k]? = some m ∧ Node.Received (received.count k) n m
  added : Appended f wanted (f'.statements.drop f.statements.length)

variable {received : List Nat} {wanted : Bool} {f f' : SourceFile}

theorem framed_refl (f : SourceFile) : Framed [] false f f where
  identity := rfl
  lead := rfl
  path := rfl
  markers := rfl
  kept _ n hn := ⟨n, hn, .refl n⟩
  added := by
    rw [List.drop_length]
    exact .nothing (by simp)

/-- After any number of declarations there is a block at the top level if there was one or one was
added. -/
theorem Framed.isSome_topLevel (h : Framed received wanted f f') :
    (Scope.topLevel.seekAll none f'.statements).isSome =
      ((Scope.topLevel.seekAll none f.statements).isSome ||
        !(f'.statements.drop f.statements.length).isEmpty) := by
  have hkept : (f'.statements.take f.statements.length).map
      (fun n => (Scope.topLevel.seek none n).isSome) =
      f.statements.map fun n => (Scope.topLevel.seek none n).isSome := by
    apply List.ext_getElem?
    intro k
    rw [List.getElem?_map, List.getElem?_map]
    cases hn : f.statements[k]? with
    | none =>
      have hk : f.statements.length ≤ k := List.getElem?_eq_none_iff.mp hn
      rw [List.getElem?_take_eq_none hk]
    | some n =>
      obtain ⟨m, hm, hreceived⟩ := h.kept k n hn
      have hk : k < f.statements.length := (List.getElem?_eq_some_iff.mp hn).1
      rw [List.getElem?_take_of_lt hk, hm, Option.map_some, Option.map_some,
        hreceived.grown.isSome_seek_topLevel]
  have hany :
      ((f'.statements.take f.statements.length).any fun n => (Scope.topLevel.seek none n).isSome) =
      f.statements.any fun n => (Scope.topLevel.seek none n).isSome := by
    simpa only [List.any_map,
      Function.comp_def] using congrArg (fun found => found.any fun b => b) hkept
  have hadded :
      ((f'.statements.drop f.statements.length).any fun n => (Scope.topLevel.seek none n).isSome) =
      !(f'.statements.drop f.statements.length).isEmpty := by
    generalize hlist : f'.statements.drop f.statements.length = added
    have hadded := h.added
    rw [hlist] at hadded
    cases hadded with
    | nothing has => rfl
    | @block s is wants missing =>
      cases s with
      | call head c =>
        have hblock : c.isBlock = true := by simpa [Node.isBlock, Node.call?] using is
        simp [Scope.seek_topLevel_call, hblock]
      | _ => simp [Node.isBlock, Node.call?] at is
  calc
    (Scope.topLevel.seekAll none f'.statements).isSome
        = (f'.statements.take f.statements.length ++ f'.statements.drop f.statements.length).any
          fun n =>
            (Scope.topLevel.seek none n).isSome := by
              rw [Scope.isSome_seekAll, List.take_append_drop]
    _ = ((Scope.topLevel.seekAll none f.statements).isSome ||
        !(f'.statements.drop f.statements.length).isEmpty) := by
      rw [List.any_append, hany, hadded, Scope.isSome_seekAll]

theorem Framed.length_le (h : Framed received wanted f f') :
    f.statements.length ≤ f'.statements.length := by
  by_contra hlt
  rw [Nat.not_le] at hlt
  obtain ⟨m, hm, -⟩ := h.kept _ _ (List.getElem?_eq_getElem hlt)
  rw [List.getElem?_eq_none (Nat.le_refl _)] at hm
  cases hm

theorem Appended.set {list : List Node} {j : Nat} {a m : Node} (h : Appended f wanted list)
    (is : list[j]? = some a) (hblock : m.isBlock = a.isBlock) :
    Appended f wanted (list.set j m) := by
  cases h with
  | nothing has => cases is
  | block isBlock wants missing =>
    cases j with
    | zero =>
      cases is
      exact .block (hblock.trans isBlock) wants missing
    | succ j => cases is

/-- A block that is there when it is wanted is all that is wanted. -/
theorem Framed.appended_of_isSome {more : Bool} (h : Framed received wanted f f')
    (has : more = true → (Scope.topLevel.seekAll none f'.statements).isSome = true) :
    Appended f (wanted || more) (f'.statements.drop f.statements.length) := by
  have htop := h.isSome_topLevel
  have hadded := h.added
  generalize f'.statements.drop f.statements.length = added at *
  cases hadded with
  | nothing has' =>
    refine .nothing fun hwanted => ?_
    rw [Bool.or_eq_true] at hwanted
    obtain hwanted | hmore := hwanted
    · exact has' hwanted
    · rw [has hmore] at htop
      simpa using htop.symm
  | block is wants missing => exact .block is (by rw [wants, Bool.true_or]) missing

end SourceFile

def Insertion.receiver? (i : Insertion) (statements : List Node) : Option Nat :=
  match i.scope.seekAll none statements with
  | none => none
  | some (h, block) =>
    match i.intoBlock? h block with
    | some _ => statements.findIdx? fun s => (i.scope.seek none s).isSome
    | none => none

inductive DeclaredAt (text : String) (t : Target) (f : SourceFile) : Option Nat → SourceFile → Prop
  | kept
      (has : t.placement = .topLevel → (Scope.topLevel.seekAll none f.statements).isSome = true) :
      DeclaredAt text t f none f
  | appended (top : t.placement = .topLevel)
      (missing : Scope.topLevel.seekAll none f.statements = none) :
      DeclaredAt text t f none (f.appendBlock text)
  | grown {k : Nat} {scope : Scope} {h : Head} {block : Call Node} {new a m d : Node}
      (has : t.placement = .topLevel → (Scope.topLevel.seekAll none f.statements).isSome = true)
      (is : f.statements[k]? = some a) (inside : scope.Replaces h block new none a m)
      (grows : Grows d h block new) :
      DeclaredAt text t f (some k) (f.withStatements (f.statements.set k m))

namespace Recipe

variable {r : Recipe} {s : Scanned} {f f' f'' : SourceFile} {t : Target} {targets : List Target}
  {text written : String} {places : List Nat} {wanted : Bool} {place : Option Nat}

def insertionFor (r : Recipe) (text : String) (t : Target) : Insertion :=
  ⟨Target.scope t, r.coordinate, t.declared, text⟩

theorem declaredAt_declare (r : Recipe) (text : String) (f : SourceFile) (t : Target) :
    DeclaredAt text t f ((r.insertionFor text t).receiver? f.statements) (r.declare text f t) := by
  have houtcome := (r.insertionFor text t).outcome_intoFile f
  have htop : t.placement = .topLevel → (r.insertionFor text t).scope = .topLevel := by
    intro hplacement
    simp [insertionFor, Target.scope, hplacement]
  have hdeclare := declare_eq r text f t
  rw [← insertionFor] at hdeclare
  rw [hdeclare, Insertion.receiver?]
  generalize (r.insertionFor text t).intoFile f = outcome at *
  generalize hseek : (r.insertionFor text t).scope.seekAll none f.statements = found at *
  have hhas : found.isSome = true → t.placement = .topLevel →
      (Scope.topLevel.seekAll none f.statements).isSome = true := by
    intro hsome hplacement
    rw [← htop hplacement, hseek, hsome]
  cases houtcome with
  | missing =>
    simp only
    split_ifs with hplacement
    · rw [htop hplacement] at hseek
      exact .appended hplacement hseek
    · exact .kept fun hplacement' => absurd hplacement' hplacement
  | kept is =>
    simp only [is]
    exact .kept (hhas rfl)
  | changed is related =>
    obtain ⟨before, a, after, m, hstatements, hbefore, hreplaces, rfl⟩ := related
    obtain ⟨d, hgrows⟩ := exists_grows is
    have hindex :
        (f.statements.findIdx? fun s => ((r.insertionFor text t).scope.seek none s).isSome) =
        some before.length := by
      have hnone : (before.findIdx? fun s => ((r.insertionFor text t).scope.seek none s).isSome) =
          none := by
        have hany := Scope.isSome_seekAll (r.insertionFor text t).scope none before
        rw [hbefore, Option.isSome_none, eq_comm, List.any_eq_false] at hany
        rw [List.findIdx?_eq_none_iff]
        exact fun s hs => Bool.eq_false_iff.mpr (hany s hs)
      rw [hstatements, List.findIdx?_append, hnone, List.findIdx?_cons, hreplaces.seek_eq]
      simp
    have hset : before ++ m :: after = f.statements.set before.length m := by
      simp [hstatements]
    simp only [is, hindex]
    rw [hset]
    exact .grown (hhas rfl) (by simp [hstatements]) hreplaces hgrows

/-- One more declaration, for a target of which the frame is known. -/
theorem framed_declaredAt (h : f.Framed places wanted f')
    (hphrases : Phrases t.declared written text) (hstep : DeclaredAt text t f' place f'') :
    f.Framed (places ++ place.toList) (wanted || decide (t.placement = .topLevel)) f'' := by
  cases hstep with
  | kept has =>
    rw [Option.toList_none, List.append_nil]
    exact ⟨h.identity, h.lead, h.path, h.markers, h.kept,
      h.appended_of_isSome fun htop => has (of_decide_eq_true htop)⟩
  | appended top missing =>
    obtain ⟨head, ch, d, hstatements, -, -⟩ := appendBlock_calls hphrases f'
    have hblock : Node.isBlock
        (.call head (.plain "dependencies" none (some (.closure ch [d] "\n")))) = true := by
      have hname : simpleName "dependencies" = "dependencies" := by decide
      simp [Node.isBlock, Node.call?, Call.isBlock, Call.simpleName, Call.plain, hname]
    have hnone := h.isSome_topLevel
    rw [missing, Option.isSome_none, Bool.false_eq, Bool.or_eq_false_iff,
      Option.isSome_eq_false_iff,
      Option.isNone_iff_eq_none, Bool.not_eq_false', List.isEmpty_iff] at hnone
    rw [Option.toList_none, List.append_nil, decide_eq_true top, Bool.or_true]
    refine ⟨h.identity, h.lead, h.path, h.markers, ?_, ?_⟩
    · intro k n hn
      obtain ⟨m, hm, hreceived⟩ := h.kept k n hn
      have hk : k < f'.statements.length := (List.getElem?_eq_some_iff.mp hm).1
      rw [hstatements, List.getElem?_append_left hk]
      exact ⟨m, hm, hreceived⟩
    · rw [hstatements, List.drop_append_of_le_length h.length_le, hnone.2, List.nil_append]
      exact .block hblock rfl hnone.1
  | @grown k scope head block new a m d has is inside grows =>
    refine ⟨h.identity, h.lead, h.path, h.markers, ?_, ?_⟩
    · intro j n hn
      obtain ⟨b, hb, hreceived⟩ := h.kept j n hn
      rw [Option.toList_some, List.count_append]
      by_cases hj : k = j
      · subst hj
        obtain rfl : a = b := Option.some.inj (is.symm.trans hb)
        have hk : k < f'.statements.length := (List.getElem?_eq_some_iff.mp is).1
        rw [List.count_singleton_self]
        exact ⟨m, List.getElem?_set_self hk, hreceived.replaces inside grows⟩
      · rw [List.count_singleton, if_neg (by simpa using hj), Nat.add_zero]
        exact ⟨b, (List.getElem?_set_ne hj).trans hb, hreceived⟩
    · have hblock := (inside.unchanged grows).isBlock
      have hadded := h.appended_of_isSome fun htop => has (of_decide_eq_true htop)
      change SourceFile.Appended f _ ((f'.statements.set k m).drop f.statements.length)
      rw [List.drop_set]
      split_ifs with hk
      · exact hadded
      · refine hadded.set ?_ hblock
        rw [List.getElem?_drop, Nat.add_sub_cancel' (Nat.le_of_not_lt hk), is]

def receivers (r : Recipe) (text : Target → String) : List Target → SourceFile → List Nat
  | [], _ => []
  | t :: targets, f =>
    ((r.insertionFor (text t) t).receiver? f.statements).toList ++
      receivers r text targets (r.declare (text t) f t)

theorem framed_declareAll {text : Target → String} (h : f.Framed places wanted f')
    (hphrases : ∀ t ∈ targets, Phrases t.declared written (text t)) :
    f.Framed (places ++ r.receivers text targets f') (wanted || targets.any fun t =>
      t.placement = .topLevel)
      (r.declareAll text targets f') := by
  induction targets generalizing f' places wanted with
  | nil => simpa [receivers, declareAll] using h
  | cons t targets ih =>
    rw [List.forall_mem_cons] at hphrases
    have hstep := framed_declaredAt h hphrases.1 (declaredAt_declare r (text t) f' t)
    have hrest := ih hstep hphrases.2
    rw [receivers, List.any_cons, ← List.append_assoc, ← Bool.or_assoc]
    exact hrest

def received (r : Recipe) (s : Scanned) (f : SourceFile) : List Nat :=
  match r.version f.graph? with
  | .ok version => r.receivers (r.statementFor f version) (r.plan f s).targets f
  | .error _ => []

def wantsTopLevel (r : Recipe) (s : Scanned) (f : SourceFile) : Bool :=
  (r.version f.graph?).isOk && (r.plan f s).targets.any fun t => t.placement = .topLevel

theorem framed_edit (h : r.WritesPlainly s f) :
    f.Framed (r.received s f) (r.wantsTopLevel s f) (r.edit s f).1 := by
  rw [edit_eq, received, wantsTopLevel]
  cases hversion : r.version f.graph? with
  | error e => exact SourceFile.framed_refl f
  | ok version => exact framed_declareAll (SourceFile.framed_refl f) (h.phrases hversion)

/-- A run that is not cancelled gives back every file with its name, path, lead and markers. Each
statement is in its place, the very same unless a block at or below it took a declaration and
otherwise a revision for each of these. Behind them there is a new `dependencies` block exactly if a
declaration was wanted at the top level and no block was there. -/
theorem run_frames_each_file (r : Recipe) (files : List SourceFile) {ctx : Context}
    (hctx : ctx.cancelled = false) :
    ∃ result ctx', r.run files ctx = (.ok result, ctx') ∧
      result.results.map FileResult.before = files ∧
      ∀ entry ∈ result.results, r.WritesPlainly (r.scan files) entry.before →
        entry.before.Framed (r.received (r.scan files) entry.before)
          (r.wantsTopLevel (r.scan files) entry.before)
          entry.after := by
  refine ⟨_, _, run_eq hctx r files [] [], ?_, ?_⟩
  · rw [List.map_map]
    exact List.map_id files
  · intro entry hentry hplainly
    obtain ⟨f, -, rfl⟩ := List.mem_map.mp hentry
    simp only [visited_eq_edit]
    exact framed_edit hplainly

def plainBuildFile : SourceFile :=
  (SourceFile.parse "build.gradle" "id 'x'\n").withMarkers
    [.project "p", .buildFile .groovy, .graph (DependencyGraph.java ["it"])]

def twoSourceSets : List SourceFile :=
  [plainBuildFile,
    (SourceFile.verbatim "A.java" "class A").withMarkers [.project "p", .sourceSet "main"],
    (SourceFile.verbatim "B.java" "class B").withMarkers [.project "p", .sourceSet "it"]]

/-- The first of two declarations adds a block, and the second goes into it. -/
theorem run_frames_each_file_of_two_source_sets :
    (sample.plan plainBuildFile (sample.scan twoSourceSets)).targets =
        [⟨"implementation", .topLevel⟩, ⟨"itImplementation", .topLevel⟩] ∧
      ∃ result ctx', sample.run twoSourceSets {} = (.ok result, ctx') ∧
        ∃ entry ∈ result.results, entry.before = plainBuildFile ∧
          plainBuildFile.Framed [1] true entry.after := by
  have htargets : (sample.plan plainBuildFile (sample.scan twoSourceSets)).targets =
      [⟨"implementation", .topLevel⟩, ⟨"itImplementation", .topLevel⟩] := by
    decide +kernel
  have hplainly : sample.WritesPlainly (sample.scan twoSourceSets) plainBuildFile :=
    (isPlain_sample _).writesPlainly (htargets ▸ by decide)
  have hreceived : sample.received (sample.scan twoSourceSets) plainBuildFile = [1] := by
    decide +kernel
  have hwants : sample.wantsTopLevel (sample.scan twoSourceSets) plainBuildFile = true := by
    decide +kernel
  obtain ⟨result, ctx', hrun, hbefore, hframed⟩ := @run_frames_each_file sample twoSourceSets {} rfl
  obtain ⟨entry, rest, hresults, hentry, -⟩ := List.map_eq_cons_iff.mp hbefore
  have hmem : entry ∈ result.results := hresults ▸ List.mem_cons_self
  have hframe := hframed entry hmem
  rw [hentry, hreceived, hwants] at hframe
  exact ⟨htargets, result, ctx', hrun, entry, hmem, hentry, hframe hplainly⟩

end Recipe

end BuildScript

import BuildScript.Proofs.Cutting
import BuildScript.Workspace.Project

/-!
# The owner of a file

A file belongs to a project with a directory that contains it, and to none that lies less deep than
another such. Directories are compared name by name, and a `.` on the way does not count. But a
directory that is written with a `.` in front contains nothing in this comparison: its project owns
no file.
-/

namespace BuildScript

namespace Path

/-- The names between the slashes of a path, where nothing and `.` are no names. -/
def components (path : String) : List String :=
  ((Text.fields '/' path.toList).filter fun text => text ≠ [] ∧ text ≠ ['.']).map String.ofList

/-- A path that leads down: it does not start at the top, and `..` is none of its names. -/
structure IsInner (path : String) : Prop where
  relative : path.toList.head? ≠ some '/'
  down : ".." ∉ components path

def IsDotted (path : String) : Prop := path.toList = ['.'] ∨ ['.', '/'] <+: path.toList

variable {path : String} {text : List Char} {rest texts : List (List Char)}

theorem partOf?_of_name (hempty : text ≠ []) (hdot : text ≠ ['.']) (hup : text ≠ ['.', '.']) :
    partOf? text = some (.name (String.ofList text)) := by
  unfold partOf?
  split <;> simp_all

/-- Without `..` the parts are the names. -/
theorem filterMap_partOf? (hup : ['.', '.'] ∉ texts) :
    texts.filterMap partOf? =
      ((texts.filter fun text => text ≠ [] ∧ text ≠ ['.']).map String.ofList).map Part.name := by
  induction texts with
  | nil => rfl
  | cons text texts ih =>
    rw [List.mem_cons, not_or] at hup
    obtain ⟨hfirst, hrest⟩ := hup
    rw [List.filterMap_cons, ih hrest]
    by_cases hname : text ≠ [] ∧ text ≠ ['.']
    · rw [partOf?_of_name hname.1 hname.2 (Ne.symm hfirst),
        List.filter_cons_of_pos (by simpa using hname)]
      rfl
    · rw [List.filter_cons_of_neg (by simpa using hname)]
      have hnone : partOf? text = none := by
        obtain rfl | rfl : text = [] ∨ text = ['.'] := by tauto
        · rfl
        · rfl
      rw [hnone]

/-- Only in front of a slash is there nothing before the first slash. -/
theorem head?_eq_of_fields (h : Text.fields '/' text = [] :: rest) (hrest : rest ≠ []) :
    text.head? = some '/' := by
  cases text with
  | nil =>
    cases h
    exact absurd rfl hrest
  | cons c text =>
    by_cases hc : c = '/'
    · rw [hc, List.head?_cons]
    · rw [Text.fields, if_neg hc] at h
      split at h <;> cases h

theorem isDotted_iff : IsDotted path ↔ (Text.fields '/' path.toList).head? = some ['.'] := by
  rw [IsDotted]
  generalize path.toList = text
  constructor
  · rintro (rfl | ⟨rest, rfl⟩)
    · rfl
    · have hfields := @Text.fields_append '/' ['.'] (by decide) rest
      rw [List.singleton_append] at hfields
      rw [List.cons_append, List.singleton_append, hfields, List.head?_cons]
  · intro h
    by_cases hslash : '/' ∈ text
    · obtain ⟨front, rest, rfl, hfront⟩ := List.eq_append_cons_of_mem hslash
      rw [Text.fields_append hfront, List.head?_cons, Option.some_inj] at h
      subst h
      exact Or.inr ⟨rest, rfl⟩
    · rw [Text.fields_of_not_mem hslash, List.head?_cons, Option.some_inj] at h
      exact Or.inl h

theorem up_not_mem_fields (h : IsInner path) : ['.', '.'] ∉ Text.fields '/' path.toList := by
  intro hup
  apply h.down
  exact List.mem_map.mpr ⟨['.', '.'], List.mem_filter.mpr ⟨hup, by decide⟩, rfl⟩

/-- The parts of a path that leads down are its names, with the `.` in front if there is one. -/
theorem parts_of_isInner (h : IsInner path) :
    IsDotted path ∧ (∃ parts', parts path = .here :: parts') ∨
      ¬ IsDotted path ∧ parts path = (components path).map Part.name := by
  have hup := up_not_mem_fields h
  have hrelative := h.relative
  rw [isDotted_iff]
  unfold parts components
  cases hfields : Text.fields '/' path.toList with
  | nil => exact Or.inr ⟨by simp, rfl⟩
  | cons first rest =>
    rw [hfields] at hup
    rw [List.head?_cons, Option.some_inj]
    by_cases hdot : first = ['.']
    · refine Or.inl ⟨hdot, rest.filterMap partOf?, ?_⟩
      simp [hdot]
    · refine Or.inr ⟨hdot, ?_⟩
      rw [← filterMap_partOf? hup, List.filterMap_cons]
      by_cases hempty : first = []
      · have hrest : rest = [] := by
          by_contra hne
          exact hrelative (head?_eq_of_fields (hempty ▸ hfields) hne)
        simp [hempty, hrest, partOf?]
      · simp only [List.isEmpty_iff, hempty, if_false, hdot]
        rw [partOf?_of_name hempty hdot (fun hfirst => hup (by simp [hfirst]))]
        rfl

end Path

namespace Project

def Contains (p : Project) (file : List String) : Prop := Path.components p.directory <+: file

def level (p : Project) : Nat := (Path.components p.directory).length

variable {p : Project} {projects : List Project} {file names : List String}

theorem isSome_stripParts? :
    (stripParts? (names.map .name) file).isSome = true ↔ names <+: file := by
  induction names generalizing file with
  | nil => simp [stripParts?]
  | cons name names ih =>
    cases file with
    | nil => simp [stripParts?]
    | cons first file =>
      rw [List.map_cons, stripParts?, List.cons_prefix_cons]
      simp only [Path.Part.name.injEq]
      split_ifs with hname
      · simp [hname, ih]
      · simp [hname]

theorem inside?_iff (h : Path.IsInner p.directory) :
    (p.inside? file).isSome = true ↔ p.Contains file ∧ ¬ Path.IsDotted p.directory := by
  rw [inside?, Contains]
  obtain ⟨hdotted, rest, hparts⟩ | ⟨hplain, hparts⟩ := Path.parts_of_isInner h
  · rw [hparts]
    cases file <;> simp [stripParts?, hdotted]
  · rw [hparts, isSome_stripParts?]
    tauto

theorem depth_eq_level (h : Path.IsInner p.directory) (hplain : ¬ Path.IsDotted p.directory) :
    p.depth = p.level := by
  obtain ⟨hdotted, -⟩ | ⟨-, hparts⟩ := Path.parts_of_isInner h
  · exact absurd hdotted hplain
  · rw [depth, hparts, List.length_map, level]

/-- The owner among some projects: one that the file is inside of, with no deeper one among them. -/
def IsOwner (projects : List Project) (file : List String) : Option Project → Prop
  | none => ∀ q ∈ projects, (q.inside? file).isSome = false
  | some p => p ∈ projects ∧ (p.inside? file).isSome = true ∧
      ∀ q ∈ projects, (q.inside? file).isSome = true → q.depth ≤ p.depth

/-- One more project takes the file if the file is inside of it and it is no less deep than the
owner so far. -/
theorem owner?_concat (projects : List Project) (p : Project) (file : List String) :
    owner? (projects ++ [p]) file =
      if (p.inside? file).isSome = true ∧ ∀ b, owner? projects file = some b →
        b.depth ≤ p.depth then some p
      else owner? projects file := by
  rw [owner?, owner?, List.filter_append, List.foldl_append]
  generalize (projects.filter fun p => (p.inside? file).isSome).foldl _ none = owner
  by_cases hinside : (p.inside? file).isSome = true
  · cases owner with
    | none => simp [hinside]
    | some b =>
      by_cases hdepth : p.depth < b.depth
      · simp [hinside, hdepth, not_le.mpr hdepth]
      · simp [hinside, hdepth, not_lt.mp hdepth]
  · simp [hinside]

theorem isOwner_owner? (projects : List Project) (file : List String) :
    IsOwner projects file (owner? projects file) := by
  induction projects using List.reverseRecOn with
  | nil => exact fun q hq => absurd hq List.not_mem_nil
  | append_singleton projects p ih =>
    rw [owner?_concat]
    cases howner : owner? projects file with
    | none =>
      rw [howner] at ih
      by_cases hinside : (p.inside? file).isSome = true
      · rw [if_pos ⟨hinside, by simp⟩]
        refine ⟨List.mem_append_right _ List.mem_cons_self, hinside, ?_⟩
        rw [List.forall_mem_append, List.forall_mem_singleton]
        refine ⟨fun q hq hinside => ?_, fun _ => le_rfl⟩
        rw [ih q hq] at hinside
        cases hinside
      · rw [if_neg (fun htakes => hinside htakes.1), IsOwner, List.forall_mem_append,
          List.forall_mem_singleton]
        exact ⟨ih, by simpa using hinside⟩
    | some b =>
      rw [howner] at ih
      obtain ⟨hmem, howns, hdeepest⟩ := ih
      by_cases htakes : (p.inside? file).isSome = true ∧ b.depth ≤ p.depth
      · obtain ⟨hinside, hdepth⟩ := htakes
        rw [if_pos ⟨hinside, by simpa using hdepth⟩]
        refine ⟨List.mem_append_right _ List.mem_cons_self, hinside, ?_⟩
        rw [List.forall_mem_append, List.forall_mem_singleton]
        exact ⟨fun q hq hinside => (hdeepest q hq hinside).trans hdepth, fun _ => le_rfl⟩
      · rw [if_neg (fun h => htakes ⟨h.1, h.2 b rfl⟩)]
        refine ⟨List.mem_append_left _ hmem, howns, ?_⟩
        rw [List.forall_mem_append, List.forall_mem_singleton]
        refine ⟨hdeepest, fun hinside => ?_⟩
        exact (not_le.mp fun hdepth => htakes ⟨hinside, hdepth⟩).le

/-- The owner of a file contains it, and no project with a directory further down contains it, those
apart whose directory is written with a `.` in front. A file without an owner is contained only in
such, and they own nothing. -/
theorem owner_contains_and_is_deepest (h : ∀ p ∈ projects, Path.IsInner p.directory)
    (file : List String) :
    (∀ p, owner? projects file = some p →
      p ∈ projects ∧ p.Contains file ∧ ¬ Path.IsDotted p.directory ∧
      ∀ q ∈ projects, q.Contains file → ¬ Path.IsDotted q.directory → q.level ≤ p.level) ∧
    (owner? projects file = none ↔
      ∀ q ∈ projects, q.Contains file → Path.IsDotted q.directory) := by
  have howner := isOwner_owner? projects file
  constructor
  · intro p hp
    rw [hp] at howner
    obtain ⟨hmem, hinside, hdeepest⟩ := howner
    obtain ⟨hcontains, hplain⟩ := (inside?_iff (h p hmem)).mp hinside
    refine ⟨hmem, hcontains, hplain, fun q hq hcontains' hplain' => ?_⟩
    rw [← depth_eq_level (h p hmem) hplain, ← depth_eq_level (h q hq) hplain']
    exact hdeepest q hq ((inside?_iff (h q hq)).mpr ⟨hcontains', hplain'⟩)
  · constructor
    · intro hnone q hq hcontains
      rw [hnone] at howner
      by_contra hplain
      have hinside := (inside?_iff (h q hq)).mpr ⟨hcontains, hplain⟩
      rw [howner q hq] at hinside
      cases hinside
    · intro hdotted
      by_contra hsome
      obtain ⟨p, hp⟩ := Option.ne_none_iff_exists'.mp hsome
      rw [hp] at howner
      obtain ⟨hmem, hinside, -⟩ := howner
      obtain ⟨hcontains, hplain⟩ := (inside?_iff (h p hmem)).mp hinside
      exact hplain (hdotted p hmem hcontains)

def nested : List Project :=
  [⟨"core", "app/.//core/", none⟩, ⟨"root", "", none⟩, ⟨"app", "app", none⟩]

/-- Of nested directories the inner one owns a file, however its path is written. -/
theorem owner_contains_and_is_deepest_nested :
    (∀ p ∈ nested, Path.IsInner p.directory) ∧
      (owner? nested ["app", "core", "build.gradle"]).map name = some "core" ∧
      (owner? nested ["app", "core", "build.gradle"] = none ↔
        ∀ q ∈ nested, q.Contains ["app", "core", "build.gradle"] → Path.IsDotted q.directory) := by
  have hinner : ∀ p ∈ nested, Path.IsInner p.directory := by
    simp only [nested, List.forall_mem_cons]
    exact ⟨⟨by decide, by decide⟩, ⟨by decide, by decide⟩, ⟨by decide, by decide⟩, by simp⟩
  exact ⟨hinner, by decide, (owner_contains_and_is_deepest hinner _).2⟩

/-- The root as the only project, written as `.`, contains the build script and does not own it. -/
theorem owner_of_dotted_root : Path.IsInner "." ∧ Contains ⟨"root", ".", none⟩ ["build.gradle"] ∧
    owner? [⟨"root", ".", none⟩] ["build.gradle"] = none :=
  ⟨⟨by decide, by decide⟩, List.nil_prefix, rfl⟩

end Project

end BuildScript

import BuildScript.Proofs.Lists
import BuildScript.Text.Cut
import Mathlib.Data.List.DropRight

/-!
# Cuts and searches

What the operations on rows of characters give, each by what stands in the text: a cut by its first
or last separator, the fields by the separators between them, a search by the first occurrence,
trimming by the blanks around a text.
-/

namespace BuildScript.Text

variable {sep c : Char} {text part rest field : List Char} {more : List (List Char)}

attribute [local simp] cutFirst? cutLast? fields dropFront? before?

section Fronts

/-- What stands in front of the first `sep`, or the whole text. -/
def front (sep : Char) (text : List Char) : List Char :=
  match cutFirst? sep text with
  | some (before, _) => before
  | none => text

theorem front_cons_of_ne (h : c ≠ sep) (text : List Char) :
    front sep (c :: text) = c :: front sep text := by
  simp only [front, cutFirst?, h, if_false]
  cases cutFirst? sep text <;> rfl

theorem front_cons_self (sep : Char) (text : List Char) : front sep (sep :: text) = [] := by
  simp [front]

theorem front_append (h : sep ∉ text) (rest : List Char) :
    front sep (text ++ rest) = text ++ front sep rest := by
  induction text with
  | nil => rfl
  | cons c text ih =>
    simp only [List.mem_cons, not_or] at h
    rw [List.cons_append, front_cons_of_ne (Ne.symm h.1), ih h.2, List.cons_append]

theorem front_eq_takeWhile (sep : Char) (text : List Char) :
    front sep text = text.takeWhile (· ≠ sep) := by
  induction text with
  | nil => rfl
  | cons c text ih =>
    by_cases hc : c = sep
    · subst hc
      simp [front_cons_self]
    · simp [front_cons_of_ne hc, ih, hc]

end Fronts

variable {front : List Char}

section Cuts

theorem cutFirst?_append (h : sep ∉ text) (rest : List Char) :
    cutFirst? sep (text ++ sep :: rest) = some (text, rest) := by
  induction text with
  | nil => simp
  | cons c text ih =>
    rw [List.mem_cons, not_or] at h
    simp [Ne.symm h.1, ih h.2]

theorem cutFirst?_of_not_mem (h : sep ∉ text) : cutFirst? sep text = none := by
  induction text with
  | nil => rfl
  | cons c text ih =>
    rw [List.mem_cons, not_or] at h
    simp [Ne.symm h.1, ih h.2]

theorem cutFirst?_eq_some :
    cutFirst? sep text = some (front, rest) ↔ text = front ++ sep :: rest ∧ sep ∉ front := by
  constructor
  · intro h
    have hmem : sep ∈ text := by
      by_contra hmem
      rw [cutFirst?_of_not_mem hmem] at h
      cases h
    obtain ⟨front', rest', rfl, hfront⟩ := List.eq_append_cons_of_mem hmem
    rw [cutFirst?_append hfront] at h
    cases h
    exact ⟨rfl, hfront⟩
  · rintro ⟨rfl, hfront⟩
    exact cutFirst?_append hfront rest

theorem cutLast?_of_not_mem (h : sep ∉ text) : cutLast? sep text = none := by
  induction text with
  | nil => rfl
  | cons c text ih =>
    rw [List.mem_cons, not_or] at h
    rw [cutLast?, ih h.2]
    exact if_neg (Ne.symm h.1)

theorem cutLast?_append (h : sep ∉ rest) (front : List Char) :
    cutLast? sep (front ++ sep :: rest) = some (front, rest) := by
  induction front with
  | nil => simp [cutLast?_of_not_mem h]
  | cons c front ih => rw [List.cons_append, cutLast?, ih]

/-- A text with a separator has a last one. -/
theorem exists_last_of_mem (h : sep ∈ text) :
    ∃ front rest, text = front ++ sep :: rest ∧ sep ∉ rest := by
  obtain ⟨rest, front, hreverse, hrest⟩ := List.eq_append_cons_of_mem (List.mem_reverse.mpr h)
  refine ⟨front.reverse, rest.reverse, ?_, by simpa using hrest⟩
  rw [← List.reverse_reverse text, hreverse]
  simp

/-- There is only one last separator. -/
theorem eq_of_last {front' rest' : List Char} (h : front ++ sep :: rest = front' ++ sep :: rest')
    (hrest : sep ∉ rest) (hrest' : sep ∉ rest') :
    front = front' ∧ rest = rest' := by
  have hcut := congrArg (cutLast? sep) h
  rw [cutLast?_append hrest, cutLast?_append hrest'] at hcut
  cases hcut
  exact ⟨rfl, rfl⟩

theorem dropFront?_eq_some : dropFront? part text = some rest ↔ text = part ++ rest := by
  induction part generalizing text with
  | nil =>
    rw [dropFront?, Option.some.injEq]
    rfl
  | cons p part ih =>
    cases text with
    | nil => simp
    | cons c text =>
      rw [dropFront?, List.cons_append, List.cons.injEq]
      split_ifs with hp
      · rw [ih]
        exact (and_iff_right hp.symm).symm
      · exact ⟨fun h => (by cases h), fun h => absurd h.1.symm hp⟩

theorem dropBack?_eq_some : dropBack? part text = some rest ↔ text = rest ++ part := by
  simp only [dropBack?, Option.map_eq_some_iff, dropFront?_eq_some]
  constructor
  · rintro ⟨back, hback, rfl⟩
    rw [← List.reverse_reverse text, hback]
    simp
  · rintro rfl
    exact ⟨rest.reverse, by simp, by simp⟩

end Cuts

section Fields

theorem fields_eq_splitOn (sep : Char) (text : List Char) : fields sep text = text.splitOn sep := by
  rw [List.splitOn]
  induction text with
  | nil => rfl
  | cons c text ih =>
    rw [fields, ih, List.splitOnP_cons_eq_if_modifyHead]
    simp only [beq_iff_eq]
    split_ifs
    · rfl
    · cases hfields : List.splitOnP (· == sep) text with
      | nil => exact absurd hfields (List.splitOnP_ne_nil _ _)
      | cons field more => rfl

theorem fields_ne_nil (sep : Char) (text : List Char) : fields sep text ≠ [] := by
  fun_cases fields sep text <;> simp

theorem fields_of_not_mem (h : sep ∉ text) : fields sep text = [text] := by
  induction text with
  | nil => rfl
  | cons c text ih =>
    simp only [List.mem_cons, not_or] at h
    simp [Ne.symm h.1, ih h.2]

theorem fields_append (h : sep ∉ text) (rest : List Char) :
    fields sep (text ++ sep :: rest) = text :: fields sep rest := by
  induction text with
  | nil => simp
  | cons c text ih =>
    simp only [List.mem_cons, not_or] at h
    simp [Ne.symm h.1, ih h.2]

theorem fields_append_cons (sep : Char) (front rest : List Char) :
    fields sep (front ++ sep :: rest) = fields sep front ++ fields sep rest := by
  simp only [fields_eq_splitOn, List.splitOn_append_cons_self]

/-- The fields are made of what is between the separators. -/
theorem mem_of_mem_fields (hfield : field ∈ fields sep text) (hc : c ∈ field) :
    c ∈ text ∧ c ≠ sep := by
  induction text generalizing field with
  | nil =>
    rw [fields, List.mem_singleton] at hfield
    rw [hfield] at hc
    cases hc
  | cons d text ih =>
    rw [fields] at hfield
    split_ifs at hfield with hd
    · rcases List.mem_cons.mp hfield with rfl | hfield
      · cases hc
      · exact (ih hfield hc).imp_left (List.mem_cons_of_mem d)
    · split at hfield
      · next hfields =>
        rw [fields_eq_splitOn] at hfields
        exact absurd hfields (List.splitOn_ne_nil sep text)
      · next first more hfields =>
        rcases List.mem_cons.mp hfield with rfl | hfield
        · rcases List.mem_cons.mp hc with rfl | hc
          · exact ⟨List.mem_cons_self, hd⟩
          · exact (ih (hfields ▸ List.mem_cons_self) hc).imp_left (List.mem_cons_of_mem d)
        · exact (ih (hfields ▸ List.mem_cons_of_mem first hfield) hc).imp_left
            (List.mem_cons_of_mem d)

/-- The fields behind the first one, and the text behind it, which starts with their separator. -/
inductive Further (sep : Char) : List Char → List (List Char) → Prop
  | none : Further sep [] []
  | some (text : List Char) : Further sep (sep :: text) (fields sep text)

theorem Further.eq_nil (h : Further sep text []) : text = [] := by
  generalize hmore : ([] : List (List Char)) = more at h
  cases h with
  | none => rfl
  | some text => exact absurd hmore.symm (fields_ne_nil sep text)

theorem Further.eq_cons (h : Further sep text (field :: more)) :
    ∃ rest, text = sep :: rest ∧ fields sep rest = field :: more := by
  generalize hall : field :: more = all at h
  cases h with
  | none => cases hall
  | some rest => exact ⟨rest, rfl, rfl⟩

theorem fields_append_further (h : sep ∉ field) (hrest : Further sep rest more) :
    fields sep (field ++ rest) = field :: more := by
  cases hrest with
  | none => rw [List.append_nil, fields_of_not_mem h]
  | some text => exact fields_append h text

theorem fields_eq_cons (h : fields sep text = field :: more) :
    sep ∉ field ∧ ∃ rest, text = field ++ rest ∧ Further sep rest more := by
  by_cases hmem : sep ∈ text
  · obtain ⟨front, rest, rfl, hfront⟩ := List.eq_append_cons_of_mem hmem
    rw [fields_append hfront] at h
    cases h
    exact ⟨hfront, _, rfl, .some rest⟩
  · rw [fields_of_not_mem hmem] at h
    cases h
    exact ⟨hmem, [], (List.append_nil _).symm, .none⟩

/-- Fields that are closed by the separator stand in front of all others. -/
theorem fields_flatMap {front : List (List Char)} (h : ∀ field ∈ front, sep ∉ field)
    (text : List Char) :
    fields sep (front.flatMap (· ++ [sep]) ++ text) = front ++ fields sep text := by
  induction front with
  | nil => rfl
  | cons field front ih =>
    rw [List.forall_mem_cons] at h
    rw [List.flatMap_cons, List.append_assoc, List.append_assoc, List.singleton_append,
      fields_append h.1, ih h.2, List.cons_append]

theorem fields_eq_append {front : List (List Char)} (h : fields sep text = front ++ field :: more) :
    ∃ rest, text = front.flatMap (· ++ [sep]) ++ rest ∧ fields sep rest = field :: more := by
  induction front generalizing text with
  | nil => exact ⟨text, rfl, h⟩
  | cons first front ih =>
    obtain ⟨-, rest, rfl, hrest⟩ := fields_eq_cons (List.cons_append ▸ h)
    generalize hall : front ++ field :: more = all at hrest
    cases hrest with
    | none => simp at hall
    | some rest =>
      obtain ⟨last, rfl, hlast⟩ := ih hall.symm
      exact ⟨last, by simp, hlast⟩

theorem not_mem_joinWith {sep : String} {parts : List String} (hsep : c ∉ sep.toList)
    (h : ∀ part ∈ parts, c ∉ part.toList) : c ∉ (joinWith sep parts).toList := by
  fun_induction joinWith sep parts with
  | case1 => simp
  | case2 part => exact h part (List.mem_singleton_self part)
  | case3 part rest hrest ih =>
    rw [List.forall_mem_cons] at h
    simp only [String.toList_append, List.mem_append, not_or]
    exact ⟨⟨h.1, hsep⟩, ih h.2⟩

/-- Cutting at a separator gives back what was joined with it. -/
theorem fields_joinWith {part : String} {parts : List String}
    (h : ∀ p ∈ part :: parts, ':' ∉ p.toList) :
    fields ':' (joinWith ":" (part :: parts)).toList = (part :: parts).map String.toList := by
  induction parts generalizing part with
  | nil => exact fields_of_not_mem (h part (List.mem_singleton_self part))
  | cons next parts ih =>
    rw [List.forall_mem_cons] at h
    have htext : (joinWith ":" (part :: next :: parts)).toList =
        part.toList ++ ':' :: (joinWith ":" (next :: parts)).toList := by
      simp [joinWith, String.toList_append]
    rw [htext, fields_append h.1, ih h.2]
    rfl

end Fields

section Searches

structure FirstAt (front part text : List Char) : Prop where
  occurs : front ++ part <+: text
  least : ∀ other, other ++ part <+: text → front.length ≤ other.length

theorem FirstAt.unique {other : List Char} (h : FirstAt front part text)
    (h' : FirstAt other part text) :
    front = other := by
  have hfront : front <+: text := (List.prefix_append front part).trans h.occurs
  have hother : other <+: text := (List.prefix_append other part).trans h'.occurs
  have hlength := Nat.le_antisymm (h.least other h'.occurs) (h'.least front h.occurs)
  exact (List.prefix_of_prefix_length_le hfront hother hlength.le).eq_of_length hlength

theorem firstAt_of_before? (h : before? part text = some front) : FirstAt front part text := by
  induction text generalizing front with
  | nil =>
    rw [before?] at h
    split_ifs at h with hempty
    cases h
    rw [List.isEmpty_iff] at hempty
    subst hempty
    exact ⟨List.prefix_rfl, fun other _ => Nat.zero_le _⟩
  | cons c text ih =>
    rw [before?] at h
    split_ifs at h with hfirst
    · cases h
      exact ⟨List.isPrefixOf_iff_prefix.mp hfirst, fun other _ => Nat.zero_le _⟩
    · obtain ⟨front, hfront, rfl⟩ := Option.map_eq_some_iff.mp h
      have hrest := ih hfront
      refine ⟨List.cons_prefix_cons.mpr ⟨rfl, hrest.occurs⟩, fun other hother => ?_⟩
      cases other with
      | nil => exact absurd (List.isPrefixOf_iff_prefix.mpr hother) hfirst
      | cons d other =>
        have := hrest.least other (List.cons_prefix_cons.mp hother).2
        simpa using this

theorem exists_before? {other : List Char} (h : other ++ part <+: text) :
    ∃ front, before? part text = some front := by
  induction other generalizing text with
  | nil =>
    cases text with
    | nil =>
      obtain rfl := List.prefix_nil.mp h
      exact ⟨[], rfl⟩
    | cons c text => exact ⟨[], if_pos (List.isPrefixOf_iff_prefix.mpr h)⟩
  | cons d other ih =>
    cases text with
    | nil => cases List.prefix_nil.mp h
    | cons c text =>
      rw [before?]
      split_ifs
      · exact ⟨[], rfl⟩
      · obtain ⟨front, hfront⟩ := ih (List.cons_prefix_cons.mp h).2
        exact ⟨c :: front, by rw [hfront]; rfl⟩

/-- A search finds the first occurrence. -/
theorem before?_eq_some_iff : before? part text = some front ↔ FirstAt front part text := by
  refine ⟨firstAt_of_before?, fun h => ?_⟩
  obtain ⟨other, hother⟩ := exists_before? h.occurs
  rw [hother, h.unique (firstAt_of_before? hother)]

theorem occurs_iff : occurs part text = true ↔ part <:+: text := by
  rw [occurs, Option.isSome_iff_exists]
  constructor
  · rintro ⟨front, hfront⟩
    exact (List.suffix_append front part).isInfix.trans (firstAt_of_before? hfront).occurs.isInfix
  · rintro ⟨front, rest, hinside⟩
    exact exists_before? ⟨rest, hinside⟩

theorem slice_eq {text : String} {start : Nat} {part behind : List Char}
    (h : text.toList.drop start = part ++ behind) :
    slice text start (start + part.length) = String.ofList part := by
  rw [slice, h, Nat.add_sub_cancel_left, List.take_left]

theorem slice_length (text : String) (start : Nat) :
    slice text start text.length = String.ofList (text.toList.drop start) := by
  rw [slice, List.take_of_length_le]
  exact Nat.le_of_eq (by rw [List.length_drop, String.length_toList])

theorem slice_append (front part behind : String) :
    slice (front ++ (part ++ behind)) front.length (front.length + part.length) = part := by
  simp only [slice, Nat.add_sub_cancel_left, String.toList_append, ← String.length_toList,
    List.drop_left, List.take_left, String.ofList_toList]

end Searches

section Blanks

variable {before after : List Char}

theorem trimBack_eq (text : List Char) : trimBack text = text.rdropWhile isBlank := rfl

/-- Trimming a second time changes nothing. -/
theorem trimChars_trimChars (text : List Char) : trimChars (trimChars text) = trimChars text := by
  have hfront : trimFront (trimChars text) = trimChars text := by
    unfold trimChars
    rw [trimBack_eq]
    unfold trimFront
    rw [List.dropWhile_eq_self_iff]
    intro hlen
    have hpre : List.rdropWhile isBlank (text.dropWhile isBlank) <+: text.dropWhile isBlank :=
      List.rdropWhile_prefix _ _
    have hlen' : 0 < (text.dropWhile isBlank).length := Nat.lt_of_lt_of_le hlen hpre.length_le
    have hfirst := List.dropWhile_get_zero_not isBlank text hlen'
    rwa [hpre.getElem hlen]
  unfold trimChars at hfront ⊢
  rw [hfront, trimBack_eq, trimBack_eq, List.rdropWhile_idempotent]

structure IsTight (text : List Char) : Prop where
  head : ∃ c rest, text = c :: rest ∧ isBlank c = false
  last : ∃ front c, text = front ++ [c] ∧ isBlank c = false

/-- Trimming takes away exactly the blanks around a tight text. -/
theorem IsTight.trimChars_surrounded (h : IsTight text) (hbefore : ∀ c ∈ before, isBlank c = true)
    (hafter : ∀ c ∈ after, isBlank c = true) : trimChars (before ++ text ++ after) = text := by
  have hfront : trimFront (before ++ text ++ after) = text ++ after := by
    obtain ⟨c, rest, rfl, hc⟩ := h.head
    rw [trimFront, List.append_assoc, List.dropWhile_append_of_pos hbefore]
    exact List.dropWhile_cons_of_neg (by simp [hc])
  have hback : trimBack (text ++ after) = text := by
    obtain ⟨front, c, rfl, hc⟩ := h.last
    rw [trimBack, List.reverse_append, List.dropWhile_append_of_pos (by simpa using hafter),
      List.reverse_append,
      List.reverse_singleton, List.singleton_append, List.dropWhile_cons_of_neg (by simp [hc])]
    simp
  rw [trimChars, hfront, hback]

theorem IsTight.trimChars (h : IsTight text) : trimChars text = text := by
  simpa using h.trimChars_surrounded (List.forall_mem_nil _) (List.forall_mem_nil _)

theorem IsTight.not_blank (h : IsTight text) :
    ¬ ∀ c ∈ before ++ text ++ after, isBlank c = true := by
  obtain ⟨c, rest, rfl, hc⟩ := h.head
  intro hblank
  rw [hblank c (by simp)] at hc
  cases hc

theorem isTight_of_forall (hne : text ≠ []) (h : ∀ c ∈ text, isBlank c = false) : IsTight text := by
  obtain ⟨c, rest, hhead⟩ := List.exists_cons_of_ne_nil hne
  obtain ⟨front, d, hlast⟩ := (List.eq_nil_or_concat' text).resolve_left hne
  exact ⟨⟨c, rest, hhead, h c (by simp [hhead])⟩, front, d, hlast, h d (by simp [hlast])⟩

theorem IsTight.append (hfront : IsTight front) (hrest : IsTight rest) (between : List Char) :
    IsTight (front ++ between ++ rest) := by
  obtain ⟨c, more, rfl, hc⟩ := hfront.head
  obtain ⟨before, d, rfl, hd⟩ := hrest.last
  exact ⟨⟨c, more ++ between ++ (before ++ [d]), by simp, hc⟩, c :: more ++ between ++ before, d,
    by simp, hd⟩

/-- A text is blank, or tight between blanks. -/
theorem blank_or_tight (text : List Char) :
    (∀ c ∈ text, isBlank c = true) ∧ trimChars text = [] ∨
      IsTight (trimChars text) ∧ ∃ before after, text = before ++ trimChars text ++ after ∧
        (∀ c ∈ before, isBlank c = true) ∧ ∀ c ∈ after, isBlank c = true := by
  have hfront : text.takeWhile isBlank ++ trimFront text = text := List.takeWhile_append_dropWhile
  have hback : trimChars text ++ (trimFront text).rtakeWhile isBlank = trimFront text := by
    rw [trimChars, trimBack_eq]
    exact List.rdropWhile_append_rtakeWhile
  have hbefore : ∀ c ∈ text.takeWhile isBlank, isBlank c = true :=
    fun c hc => List.mem_takeWhile_imp hc
  have hafter : ∀ c ∈ (trimFront text).rtakeWhile isBlank, isBlank c = true :=
    fun c hc => List.mem_rtakeWhile_imp hc
  by_cases hempty : trimChars text = []
  · refine Or.inl ⟨?_, hempty⟩
    rw [← hfront, ← hback, hempty, List.nil_append, List.forall_mem_append]
    exact ⟨hbefore, hafter⟩
  · refine Or.inr ⟨⟨?_, ?_⟩, _, _, ?_, hbefore, hafter⟩
    · obtain ⟨c, rest, hcons⟩ := List.exists_cons_of_ne_nil hempty
      refine ⟨c, rest, hcons, ?_⟩
      have hstop := List.head?_dropWhile_not isBlank text
      rw [hcons, List.cons_append] at hback
      rwa [← trimFront, ← hback, List.head?_cons] at hstop
    · refine ⟨_, _, (List.dropLast_concat_getLast hempty).symm, ?_⟩
      exact eq_false_of_ne_true (List.rdropWhile_last_not isBlank (trimFront text) hempty)
    · rw [List.append_assoc, hback, hfront]

theorem trimChars_ne_nil_iff : trimChars text ≠ [] ↔ ∃ c ∈ text, isBlank c = false := by
  obtain ⟨hblank, hnil⟩ | ⟨htight, before, after, heq, -, -⟩ := blank_or_tight text
  · refine ⟨fun h => absurd hnil h, ?_⟩
    rintro ⟨c, hc, hnot⟩
    rw [hblank c hc] at hnot
    cases hnot
  · obtain ⟨c, rest, hcons, hc⟩ := htight.head
    refine ⟨fun _ => ⟨c, ?_, hc⟩, fun _ hnil => ?_⟩
    · rw [heq, hcons]
      simp
    · rw [hnil] at hcons
      cases hcons

theorem mem_of_mem_trimChars (hc : c ∈ trimChars text) : c ∈ text := by
  obtain ⟨-, hnil⟩ | ⟨-, before, after, heq, -, -⟩ := blank_or_tight text
  · rw [hnil] at hc
    cases hc
  · rw [heq]
    simp [hc]

/-- Trimming keeps what is not blank. -/
theorem mem_trimChars (hmem : c ∈ text) (hc : isBlank c = false) : c ∈ trimChars text := by
  rw [trimChars, trimBack, List.mem_reverse]
  exact mem_dropWhile (List.mem_reverse.mpr (mem_dropWhile hmem hc)) hc

theorem isBlank_of_all (h : (text.all fun c => !isBlank c) = true) :
    ∀ c ∈ text, isBlank c = false := by
  simpa using h

theorem isBlank_of_isDigit (h : c.isDigit = true) : isBlank c = false := by
  have hrange : 48 ≤ c.toNat ∧ c.toNat ≤ 57 := by
    simpa [Char.isDigit, UInt32.le_iff_toNat_le] using h
  simp only [isBlank, Bool.or_eq_false_iff, Bool.and_eq_false_iff, decide_eq_false_iff_not]
  omega

end Blanks

end BuildScript.Text

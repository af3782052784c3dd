import BuildScript.Proofs.Remembering
import Mathlib.Data.Finset.Card

/-!
# Transparent memories

A resolver that remembers its answers replies to every request as the one that it asks, whatever was
requested before. It keeps one entry for each key: the coordinate, the text of the selector without
the blanks around it, the pattern unless it is empty, and the versions of the family.
-/

namespace BuildScript

theorem VersionSelector.parse_congr {text text' : String} {pattern pattern' : Option String}
    (htext : Text.trim text = Text.trim text')
    (hpattern : (pattern.filter fun p => !p.isEmpty) = pattern'.filter fun p => !p.isEmpty) :
    parse text pattern = parse text' pattern' := by
  have hchars : Text.trimChars text.toList = Text.trimChars text'.toList := by
    have htrimmed := congrArg String.toList htext
    rwa [Text.trim, Text.trim, String.toList_ofList, String.toList_ofList] at htrimmed
  unfold parse
  rw [hchars, hpattern]

theorem VersionSelector.patternOf_source {source : String} {p : QualifierPattern}
    (h : patternOf source = .ok p) :
    p.source = source := by
  unfold patternOf at h
  split at h
  · cases h
    rfl
  · cases h

/-- A selector shows the two texts that it was read from. -/
theorem VersionSelector.parse_shows {text : String} {pattern : Option String} {s : VersionSelector}
    (h : parse text pattern = .ok s) :
    s.text = Text.trim text ∧ s.pattern.map QualifierPattern.source = pattern.filter fun p =>
      !p.isEmpty := by
  simp only [parse] at h
  cases hselection : Selection.parse (Text.trimChars text.toList) with
  | error fault => simp [hselection, bind, Except.bind] at h
  | ok selection =>
    cases hpattern : pattern.filter fun p => !p.isEmpty with
    | none =>
      simp only [hselection, hpattern, bind, Except.bind, Except.ok.injEq] at h
      subst h
      exact ⟨rfl, rfl⟩
    | some source =>
      cases hsource : patternOf source with
      | error e => simp [hselection, hpattern, hsource, bind, Except.bind, Except.map] at h
      | ok p =>
        simp only [hselection, hpattern, hsource, bind, Except.bind, Except.map,
          Except.ok.injEq] at h
        subst h
        exact ⟨rfl, congrArg some (patternOf_source hsource)⟩

/-- A request whose selector was read from a text and a pattern. -/
structure Inquiry extends VersionRequest where
  text : String
  pattern : Option String
  reads : VersionSelector.parse text pattern = .ok selector

namespace Inquiry

def request (q : Inquiry) : VersionRequest := q.toVersionRequest

def key (q : Inquiry) : ResolverKey :=
  ⟨q.coordinate, Text.trim q.text, q.pattern.filter fun p => !p.isEmpty, q.family⟩

theorem key_request (q : Inquiry) : q.request.key = q.key := by
  obtain ⟨htext, hpattern⟩ := VersionSelector.parse_shows q.reads
  unfold VersionRequest.key key request
  rw [htext, hpattern]

/-- Texts with one key are read as one selector. -/
theorem request_eq_of_key {q q' : Inquiry} (h : q.key = q'.key) : q.request = q'.request := by
  have hcoordinate : q.coordinate = q'.coordinate := congrArg ResolverKey.coordinate h
  have hfamily : q.family = q'.family := congrArg ResolverKey.family h
  have hselector : q.selector = q'.selector := by
    have hparse : VersionSelector.parse q.text q.pattern =
        VersionSelector.parse q'.text q'.pattern :=
      VersionSelector.parse_congr (congrArg ResolverKey.selector h) (congrArg ResolverKey.pattern h)
    rw [q.reads, q'.reads] at hparse
    exact Except.ok.inj hparse
  calc
    q.request = ⟨q.coordinate, q.selector, q.family⟩ := rfl
    _ = ⟨q'.coordinate, q'.selector, q'.family⟩ := by rw [hcoordinate, hselector, hfamily]
    _ = q'.request := rfl

theorem decisive_request (inner : VersionRequest → Except Error String) :
    ResolverCache.Decisive inner fun r => ∃ q : Inquiry, q.request = r := by
  rintro _ _ ⟨q, rfl⟩ ⟨q', rfl⟩ hkey
  rw [key_request, key_request] at hkey
  rw [request_eq_of_key hkey]

end Inquiry

namespace ResolverCache

variable {inner : VersionRequest → Except Error String} {asked : VersionRequest → Prop}
    {cache : ResolverCache}

def resolveAll (inner : VersionRequest → Except Error String) :
    ResolverCache → List VersionRequest → List (Except Error String) × ResolverCache
  | cache, [] => ([], cache)
  | cache, q :: rest =>
    let (reply, cache) := resolve inner cache q
    let (replies, cache) := resolveAll inner cache rest
    (reply :: replies, cache)

/-- Without memories a request gets the inner answer, with every failure told in the same way. -/
theorem resolve_nil (inner : VersionRequest → Except Error String) (q : VersionRequest) :
    (resolve inner [] q).1 =
      match inner q with
      | .ok version => .ok version
      | .error _ => .error (.versionNotFound q.coordinate.display q.selector.text) := by
  have hfresh : answer? [] q.key = none := rfl
  cases hinner : inner q with
  | ok version => simp [resolve, hfresh, hinner, Except.toOption]
  | error e => simp [resolve, hfresh, hinner, Except.toOption]

theorem replies_resolveAll (hkeys : Decisive inner asked) {requests : List VersionRequest}
    (hrequests : ∀ q ∈ requests, asked q) (h : Faithful inner asked cache) :
    (resolveAll inner cache requests).1 = requests.map fun q => (resolve inner [] q).1 := by
  induction requests generalizing cache with
  | nil => rfl
  | cons q requests ih =>
    rw [List.forall_mem_cons] at hrequests
    have hstep := h.resolve hkeys hrequests.1
    have hrest := ih hrequests.2 hstep.2
    simp only [resolveAll, List.map_cons]
    rw [hstep.1, hrest]

def keys (cache : ResolverCache) : List ResolverKey := cache.map Prod.fst

theorem answer?_eq_none {key : ResolverKey} : cache.answer? key = none ↔ key ∉ cache.keys := by
  unfold answer? keys
  rw [Option.map_eq_none_iff, List.find?_eq_none, List.mem_map]
  simp only [decide_eq_true_eq, not_exists, not_and]

theorem keys_resolve (inner : VersionRequest → Except Error String) (cache : ResolverCache)
    (q : VersionRequest) :
    (resolve inner cache q).2.keys = if q.key ∈ cache.keys then cache.keys
      else cache.keys ++ [q.key] := by
  cases hknown : cache.answer? q.key with
  | none =>
    rw [if_neg (answer?_eq_none.mp hknown)]
    simp [resolve, hknown, keys]
  | some answer =>
    have hkey : q.key ∈ cache.keys := by
      by_contra hkey
      rw [answer?_eq_none.mpr hkey] at hknown
      cases hknown
    rw [if_pos hkey]
    simp [resolve, hknown]

theorem mem_keys_resolve {q : VersionRequest} {key : ResolverKey} :
    key ∈ (resolve inner cache q).2.keys ↔ key ∈ cache.keys ∨ key = q.key := by
  rw [keys_resolve]
  split_ifs with hkey
  · constructor
    · exact Or.inl
    · rintro (hold | rfl)
      · exact hold
      · exact hkey
  · rw [List.mem_append, List.mem_singleton]

theorem nodup_keys_resolve (h : cache.keys.Nodup) (q : VersionRequest) :
    (resolve inner cache q).2.keys.Nodup := by
  rw [keys_resolve]
  split_ifs with hkey
  · exact h
  · rw [List.nodup_append]
    refine ⟨h, List.nodup_singleton _, ?_⟩
    intro old hold new hnew
    rw [List.mem_singleton.mp hnew]
    rintro rfl
    exact hkey hold

/-- Each key has one entry, and these are the keys that there were and those that were asked for. -/
theorem keys_resolveAll (inner : VersionRequest → Except Error String)
    (requests : List VersionRequest) (hcache : cache.keys.Nodup) :
    (resolveAll inner cache requests).2.keys.Nodup ∧
      ∀ key, key ∈ (resolveAll inner cache requests).2.keys ↔
        key ∈ cache.keys ∨ key ∈ requests.map VersionRequest.key := by
  induction requests generalizing cache with
  | nil => exact ⟨hcache, fun key => by simp [resolveAll]⟩
  | cons q requests ih =>
    obtain ⟨hnodup, hmem⟩ := ih (nodup_keys_resolve hcache q)
    refine ⟨hnodup, fun key => (hmem key).trans ?_⟩
    rw [mem_keys_resolve, List.map_cons, List.mem_cons, or_assoc]

/-- As many entries as there are different keys. -/
theorem length_resolveAll (inner : VersionRequest → Except Error String)
    (requests : List VersionRequest) :
    (resolveAll inner [] requests).2.length = (requests.map VersionRequest.key).toFinset.card := by
  obtain ⟨hnodup, hmem⟩ := @keys_resolveAll [] inner requests List.nodup_nil
  have hkeys : (resolveAll inner [] requests).2.keys.toFinset =
      (requests.map VersionRequest.key).toFinset := by
    ext key
    rw [List.mem_toFinset, List.mem_toFinset, hmem key]
    simp [keys]
  rw [← hkeys, List.toFinset_card_of_nodup hnodup, keys, List.length_map]

/-- Whatever is asked in whatever order, memories answer each request with the version that the
metadata give and otherwise with a failure that names the request. They hold one entry for each
different key. -/
theorem memories_are_transparent (m : Metadata) (asked : List Inquiry) :
    (resolveAll m.resolve [] (asked.map Inquiry.request)).1 =
        (asked.map fun q =>
          match m.resolve q.request with
          | .ok version => .ok version
          | .error _ => .error (.versionNotFound q.coordinate.display q.selector.text)) ∧
      (resolveAll m.resolve [] (asked.map Inquiry.request)).2.length =
        (asked.map Inquiry.key).toFinset.card := by
  constructor
  · have hasked : ∀ r ∈ asked.map Inquiry.request, ∃ q : Inquiry, q.request = r := by
      intro r hr
      obtain ⟨q, -, hq⟩ := List.mem_map.mp hr
      exact ⟨q, hq⟩
    rw [replies_resolveAll (Inquiry.decisive_request m.resolve) hasked faithful_nil, List.map_map]
    apply List.map_congr_left
    intro q _
    exact resolve_nil m.resolve q.request
  · have hkeys : (asked.map Inquiry.request).map VersionRequest.key = asked.map Inquiry.key := by
      rw [List.map_map]
      apply List.map_congr_left
      intro q _
      exact q.key_request
    rw [length_resolveAll, hkeys]

/-- Blanks around the text and an empty pattern do not count, so both requests share an entry. -/
theorem memories_are_transparent_of_one_key :
    let m : Metadata := [("g:a", ["1.1"])]
    let latest : VersionRequest := ⟨⟨"g", "a"⟩, ⟨"latest.release", .latestRelease, none⟩, []⟩
    let plain : Inquiry := ⟨latest, "latest.release", none, rfl⟩
    let blank : Inquiry := ⟨latest, " latest.release\n", some "", rfl⟩
    plain.key = blank.key ∧
      (resolveAll m.resolve [] [plain.request, blank.request]).1.map Except.toOption =
        [some "1.1", some "1.1"] ∧
      (resolveAll m.resolve [] [plain.request, blank.request]).2.length = 1 := by
  intro m latest plain blank
  have hkey : plain.key = blank.key := by decide +kernel
  have hresolve : (m.resolve latest).toOption = some "1.1" := by decide +kernel
  obtain ⟨hreplies, hlength⟩ := memories_are_transparent m [plain, blank]
  refine ⟨hkey, ?_, ?_⟩
  · have hversion : m.resolve latest = .ok "1.1" := by
      cases h : m.resolve latest with
      | ok version => simpa [h, Except.toOption] using hresolve
      | error e => simp [h, Except.toOption] at hresolve
    have hplain : m.resolve plain.request = .ok "1.1" := hversion
    have hblank : m.resolve blank.request = .ok "1.1" := hversion
    simp only [List.map_cons, List.map_nil, hplain, hblank] at hreplies
    rw [hreplies]
    rfl
  · simpa [hkey] using hlength

end ResolverCache

end BuildScript

import BuildScript.Version.Resolver
import Mathlib.Tactic.SplitIfs

/-!
# Remembered answers

A resolver that remembers its answers finds them by the key of a request. As long as requests with
one key have one answer, what was asked before does not show in an answer.
-/

namespace BuildScript.ResolverCache

variable {inner : VersionRequest → Except Error String} {asked : VersionRequest → Prop}
    {cache : ResolverCache}
  {q : VersionRequest}

/-- The key of a request says enough to answer it. -/
def Decisive (inner : VersionRequest → Except Error String) (asked : VersionRequest → Prop) :
    Prop :=
  ∀ q q', asked q → asked q' → q.key = q'.key → (inner q).toOption = (inner q').toOption

/-- Whatever is remembered for a request is the answer to it. -/
def Faithful (inner : VersionRequest → Except Error String) (asked : VersionRequest → Prop)
    (cache : ResolverCache) : Prop :=
  ∀ q answer, asked q → cache.answer? q.key = some answer → answer = (inner q).toOption

theorem faithful_nil : Faithful inner asked [] := by
  intro q answer _ hanswer
  cases hanswer

theorem answer?_append (cache : ResolverCache) (key other : ResolverKey) (answer : Option String) :
    answer? (cache ++ [(key, answer)]) other =
      (cache.answer? other).or (if key = other then some answer else none) := by
  unfold answer?
  rw [List.find?_append, Option.map_or]
  by_cases hkey : key = other <;> simp [hkey]

/-- With faithful memories a request gets the answer that it would get first of all, and the
memories stay faithful. -/
theorem Faithful.resolve (h : Faithful inner asked cache) (hkeys : Decisive inner asked)
    (hq : asked q) :
    (resolve inner cache q).1 = (resolve inner [] q).1 ∧
      Faithful inner asked (resolve inner cache q).2 := by
  cases hknown : cache.answer? q.key with
  | some answer =>
    have hanswer : answer = (inner q).toOption := h q answer hq hknown
    have hfresh : answer? [] q.key = none := rfl
    simp only [ResolverCache.resolve, hknown, hfresh, hanswer, true_and]
    exact h
  | none =>
    have hfresh : answer? [] q.key = none := rfl
    simp only [ResolverCache.resolve, hknown, hfresh, true_and]
    intro q' answer hq' hanswer
    rw [answer?_append, Option.or_eq_some_iff] at hanswer
    obtain hanswer | ⟨-, hanswer⟩ := hanswer
    · exact h q' answer hq' hanswer
    · split_ifs at hanswer with hkey
      rw [← Option.some.inj hanswer]
      exact hkeys q q' hq hq' hkey

def after (inner : VersionRequest → Except Error String) (requests : List VersionRequest) :
    ResolverCache :=
  requests.foldl (fun cache q => (resolve inner cache q).2) []

theorem faithful_after (hkeys : Decisive inner asked) {requests : List VersionRequest}
    (hrequests : ∀ q ∈ requests, asked q) : Faithful inner asked (after inner requests) := by
  suffices h : ∀ cache, Faithful inner asked cache →
      Faithful inner asked
        (requests.foldl (fun cache q => (ResolverCache.resolve inner cache q).2) cache) from
    h [] faithful_nil
  induction requests with
  | nil => exact fun cache hcache => hcache
  | cons q requests ih =>
    rw [List.forall_mem_cons] at hrequests
    exact fun cache hcache => ih hrequests.2 _ (hcache.resolve hkeys hrequests.1).2

/-- Earlier requests do not change an answer. -/
theorem resolve_after (hkeys : Decisive inner asked) {earlier : List VersionRequest}
    (hearlier : ∀ e ∈ earlier, asked e) (hq : asked q) :
    (resolve inner (after inner earlier) q).1 = (resolve inner [] q).1 :=
  ((faithful_after hkeys hearlier).resolve hkeys hq).1

end BuildScript.ResolverCache

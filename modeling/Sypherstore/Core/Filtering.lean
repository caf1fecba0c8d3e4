/-
# What the list shows

A host that no stored domain matches should hide nothing. The filter asks for the whole
score of an entry, however, into which a match of the application has gone as well, and
entries bound to the focused application then hide the others.
-/

import Sypherstore.Core.Search

namespace Sypherstore

open Logic

namespace Searcher

variable (S : Searcher)

/-- The query is blank, or it matches one of the secret's fields. -/
def queryMatches (query : String) (m : SecretMeta) : Bool :=
  (trim query).isEmpty || (haystacks m).any fun field => (S.score (trim query) field).isSome

/-- The domain of no listed secret matches the host. -/
def Unmatched (secrets : List SecretMeta) (ctx : SearchContext) : Prop :=
  ∀ host ∈ ctx.host, ∀ m ∈ secrets, matchDomain S.psl m.domain host = .none

/-- The secret belongs to the focused application. -/
def boundTo (ctx : SearchContext) (m : SecretMeta) : Bool :=
  match ctx.application with
  | some app => !m.application.isEmpty && eqIgnoreAsciiCase m.application.toList (trim app).toList
  | none => false

/-- There is no host, or the application does not tell the secrets that the query matches
apart. -/
def NotSplit (secrets : List SecretMeta) (query : String) (ctx : SearchContext) : Prop :=
  ctx.host = none ∨ (∀ m ∈ secrets, S.queryMatches query m → boundTo ctx m = false) ∨
    ∀ m ∈ secrets, S.queryMatches query m → boundTo ctx m

variable {S} {secrets : List SecretMeta} {query : String} {ctx : SearchContext}

/-! ## Entries -/

/-- The fold is a maximum. -/
theorem fuzzyScore_eq_max? (S : Searcher) (query : String) (m : SecretMeta) :
    S.fuzzyScore query m = ((haystacks m).filterMap (S.score query)).max? := by
  have hfold : ∀ (step : Option ℕ → String → Option ℕ),
      (∀ best field, step best field =
        (S.score query field).elim best fun s => some (best.elim s (max · s))) →
      ∀ (fields : List String) (start : Option ℕ),
        fields.foldl step start = (start.toList ++ fields.filterMap (S.score query)).max? := by
    intro step hstep fields
    induction fields with
    | nil => rintro (_ | best) <;> rfl
    | cons field fields ih =>
        intro start
        rw [List.foldl_cons, ih, hstep, List.filterMap_cons]
        cases S.score query field with
        | none => rfl
        | some score =>
            cases start with
            | none => rfl
            | some best => rfl
  refine hfold _ (fun best field => ?_) (haystacks m) none
  cases S.score query field <;> rfl

/-- There is a best score when some field has one. -/
theorem isSome_fuzzyScore (query : String) (m : SecretMeta) :
    (S.fuzzyScore query m).isSome =
      (haystacks m).any fun field => (S.score query field).isSome := by
  rw [fuzzyScore_eq_max?, Bool.eq_iff_iff, Option.isSome_iff_ne_none, Ne, List.max?_eq_none_iff,
    List.filterMap_eq_nil_iff, List.any_eq_true]
  simp only [not_forall, Option.isSome_iff_ne_none, exists_prop, ne_eq]

theorem isSome_rankOne (query : String) (ctx : SearchContext) (m : SecretMeta) :
    (S.rankOne (trim query) ctx m).isSome = S.queryMatches query m := by
  rw [rankOne, Option.isSome_map, queryMatches]
  split
  · rename_i hempty
    simp [hempty]
  · rename_i hempty
    simp [hempty, isSome_fuzzyScore]

theorem rankOne_eq_some {entry : Ranked} {m : SecretMeta}
    (h : S.rankOne query ctx m = some entry) :
    entry.secret = m ∧ entry.score.domain = S.domainScore m ctx := by
  obtain ⟨fuzzy, _, rfl⟩ := Option.map_eq_some_iff.mp h
  exact ⟨rfl, rfl⟩

/-- The entries before the filter. -/
def entries (S : Searcher) (secrets : List SecretMeta) (query : String) (ctx : SearchContext) :
    List Ranked :=
  secrets.filterMap (S.rankOne (trim query) ctx)

/-- The secrets of the entries are those that the query matches. -/
theorem secrets_entries :
    (S.entries secrets query ctx).map Ranked.secret = secrets.filter (S.queryMatches query) := by
  rw [entries, List.map_filterMap, ← List.filterMap_eq_filter]
  refine List.filterMap_congr fun m _ => ?_
  rw [Option.guard, ← isSome_rankOne query ctx m]
  cases hentry : S.rankOne (trim query) ctx m with
  | none => rfl
  | some entry => simp [(rankOne_eq_some hentry).1]

/-- Where no domain matches, only the application can. -/
theorem isMatch_domainScore (h : S.Unmatched secrets ctx) {m : SecretMeta} (hm : m ∈ secrets) :
    (S.domainScore m ctx).isMatch = boundTo ctx m := by
  have hhost : (ctx.host.map (matchDomain S.psl m.domain)).getD .none = .none := by
    cases hctx : ctx.host with
    | none => rfl
    | some host =>
        rw [Option.map_some, Option.getD_some]
        exact h host hctx m hm
  have hnone : DomainMatch.none.isMatch = false := rfl
  simp only [domainScore, hhost, hnone, Bool.false_eq_true, if_false, boundTo]
  cases ctx.application with
  | none => rfl
  | some app =>
      dsimp only
      split
      · rename_i hbound
        exact (Bool.and_eq_true_iff.mpr hbound).symm
      · rename_i hfree
        rw [← Bool.and_eq_true_iff, Bool.not_eq_true] at hfree
        exact hfree.symm

theorem isMatch_of_mem_entries (h : S.Unmatched secrets ctx) {entry : Ranked}
    (hentry : entry ∈ S.entries secrets query ctx) :
    entry.score.domain.isMatch = boundTo ctx entry.secret := by
  obtain ⟨m, hm, hrank⟩ := List.mem_filterMap.mp hentry
  obtain ⟨hsecret, hdomain⟩ := rankOne_eq_some hrank
  rw [hdomain, hsecret, isMatch_domainScore h hm]

/-- A secret that the query matches has an entry. -/
theorem exists_entry {m : SecretMeta} (hm : m ∈ secrets) (hquery : S.queryMatches query m) :
    ∃ entry ∈ S.entries secrets query ctx, entry.secret = m := by
  have hmem : m ∈ (S.entries secrets query ctx).map Ranked.secret := by
    rw [secrets_entries]
    exact List.mem_filter.mpr ⟨hm, hquery⟩
  exact List.mem_map.mp hmem

/-! ## The filter -/

/-- Sorting loses nothing. -/
theorem rank_perm (S : Searcher) (secrets : List SecretMeta) (query : String)
    (ctx : SearchContext) :
    (S.rank secrets query ctx).Perm (retained ctx (S.entries secrets query ctx)) :=
  List.mergeSort_perm _ _

/-- Secrets that the application does not tell apart pass the filter together. -/
theorem retained_of_notSplit (h : S.Unmatched secrets ctx) (hsplit : S.NotSplit secrets query ctx) :
    retained ctx (S.entries secrets query ctx) = S.entries secrets query ctx := by
  have hsecret : ∀ entry ∈ S.entries secrets query ctx,
      entry.secret ∈ secrets ∧ S.queryMatches query entry.secret := by
    intro entry hentry
    have hmem := List.mem_map_of_mem (f := Ranked.secret) hentry
    rw [secrets_entries] at hmem
    exact List.mem_filter.mp hmem
  rw [retained]
  split
  · rename_i hfilter
    obtain ⟨hhost, hany⟩ := hfilter
    obtain ⟨found, hfound, hmatch⟩ := List.any_eq_true.mp hany
    rw [isMatch_of_mem_entries h hfound] at hmatch
    rw [List.filter_eq_self]
    intro entry hentry
    rw [isMatch_of_mem_entries h hentry]
    rcases hsplit with hnone | hfree | hbound
    · simp [hnone] at hhost
    · obtain ⟨hm, hquery⟩ := hsecret found hfound
      simp [hfree _ hm hquery] at hmatch
    · obtain ⟨hm, hquery⟩ := hsecret entry hentry
      exact hbound _ hm hquery
  · rfl

/-- A secret bound to the application hides one that is not. -/
theorem not_mem_rank_of_bound (h : S.Unmatched secrets ctx) (hhost : ctx.host.isSome)
    {m m' : SecretMeta} (hm : m ∈ secrets) (hquery : S.queryMatches query m)
    (hbound : boundTo ctx m) (hfree : boundTo ctx m' = false) :
    m' ∉ (S.rank secrets query ctx).map Ranked.secret := by
  intro hmem
  obtain ⟨entry, hentry, rfl⟩ := List.mem_map.mp hmem
  have hretained := (S.rank_perm secrets query ctx).mem_iff.mp hentry
  obtain ⟨found, hfound, rfl⟩ : ∃ entry ∈ S.entries secrets query ctx, entry.secret = m :=
    exists_entry hm hquery
  have hany : (S.entries secrets query ctx).any fun entry => entry.score.domain.isMatch := by
    rw [List.any_eq_true]
    exact ⟨found, hfound, (isMatch_of_mem_entries h hfound).trans hbound⟩
  rw [retained, if_pos ⟨hhost, hany⟩, List.mem_filter] at hretained
  obtain ⟨hold, hmatch⟩ := hretained
  rw [isMatch_of_mem_entries h hold, hfree] at hmatch
  cases hmatch

/-- **A host that no domain matches hides nothing**, exactly when there is no host or the
application does not tell the secrets that the query matches apart. What is shown is then
each secret that the query matches, as often as it is listed. -/
theorem unmatched_host_hides_nothing_iff (S : Searcher) (secrets : List SecretMeta)
    (query : String) (ctx : SearchContext) (h : S.Unmatched secrets ctx) :
    ((∀ m ∈ secrets, S.queryMatches query m →
        m ∈ (S.rank secrets query ctx).map Ranked.secret) ↔ S.NotSplit secrets query ctx) ∧
      (S.NotSplit secrets query ctx →
        ((S.rank secrets query ctx).map Ranked.secret).Perm
          (secrets.filter (S.queryMatches query))) := by
  have hperm : S.NotSplit secrets query ctx →
      ((S.rank secrets query ctx).map Ranked.secret).Perm
        (secrets.filter (S.queryMatches query)) := by
    intro hsplit
    have hrank := (S.rank_perm secrets query ctx).map Ranked.secret
    rwa [retained_of_notSplit h hsplit, secrets_entries] at hrank
  refine ⟨⟨?_, ?_⟩, hperm⟩
  · intro hall
    by_contra hsplit
    simp only [NotSplit, not_or, not_forall] at hsplit
    obtain ⟨hhost, ⟨m, hm, hquery, hbound⟩, m', hm', hquery', hfree⟩ := hsplit
    have hhidden := not_mem_rank_of_bound h (Option.isSome_iff_ne_none.mpr hhost) hm hquery
      (by simpa using hbound) (by simpa using hfree : boundTo ctx m' = false)
    exact hhidden (hall m' hm' hquery')
  · intro hsplit m hm hquery
    exact (hperm hsplit).mem_iff.mpr (List.mem_filter.mpr ⟨hm, hquery⟩)

/-- Libraries that find nothing. -/
def sampleSearcher : Searcher := ⟨fun _ => none, fun _ _ => none, id⟩

/-- A secret of a browser, and one of a site. -/
def sampleSecrets : List SecretMeta :=
  [{ (default : SecretMeta) with name := "Sync", application := "firefox" },
    { (default : SecretMeta) with name := "GitHub", domain := "github.com" }]

/-- On a page that no domain matches, a browser that no secret belongs to shows them all. -/
theorem an_unmatched_page_shows_everything :
    ((sampleSearcher.rank sampleSecrets "" ⟨some "stackoverflow.com", some "chromium"⟩).map
      Ranked.secret).Perm sampleSecrets := by
  have hunmatched : sampleSearcher.Unmatched sampleSecrets
      ⟨some "stackoverflow.com", some "chromium"⟩ := by
    rintro host ⟨⟩ m hm
    revert m
    decide
  have hsplit : sampleSearcher.NotSplit sampleSecrets ""
      ⟨some "stackoverflow.com", some "chromium"⟩ := by
    refine .inr (.inl ?_)
    decide
  exact (unmatched_host_hides_nothing_iff _ sampleSecrets "" _ hunmatched).2 hsplit

/-- In the browser that the first secret belongs to, the other one is hidden. -/
theorem a_bound_secret_hides_the_others :
    sampleSearcher.Unmatched sampleSecrets
        ⟨some "stackoverflow.com", some "Firefox"⟩ ∧
      ∃ m ∈ sampleSecrets, sampleSearcher.queryMatches "" m ∧
        m ∉ (sampleSearcher.rank sampleSecrets ""
          ⟨some "stackoverflow.com", some "Firefox"⟩).map Ranked.secret := by
  have hunmatched : sampleSearcher.Unmatched sampleSecrets
      ⟨some "stackoverflow.com", some "Firefox"⟩ := by
    rintro host ⟨⟩ m hm
    revert m
    decide
  refine ⟨hunmatched, _, List.mem_cons_of_mem _ List.mem_cons_self, rfl, ?_⟩
  exact not_mem_rank_of_bound hunmatched rfl List.mem_cons_self rfl (by decide) (by decide)

end Searcher

end Sypherstore

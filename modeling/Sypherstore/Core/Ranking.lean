/-
# The list as a sorted selection

What `rank` shows, how often and in which order. Filtering looks at the whole list and sorting
at four keys, two of them descending and two of them not what the type of a score is ordered
by; together they neither lose a secret nor repeat one, and the order in which the secrets
come in decides nothing but ties.
-/

import Mathlib.Data.Prod.Lex
import Mathlib.Data.String.Basic
import Mathlib.Order.Bounds.Defs
import Sypherstore.Core.Filtering
import Sypherstore.Logic.Sorting

namespace Sypherstore

open Logic

namespace Searcher

variable {S : Searcher} {secrets : List SecretMeta} {query : String} {ctx : SearchContext}
  {m : SecretMeta}

/-! ## Fields and scores -/

/-- A searchable field: the name, a tag, and what else is not empty. -/
def IsField (m : SecretMeta) (field : String) : Prop :=
  field = m.name ∨ field ∈ m.tags ∨
    field ≠ "" ∧ (field = m.domain ∨ field = m.application ∨ field = m.username)

theorem mem_haystacks_iff {field : String} : field ∈ haystacks m ↔ IsField m field := by
  simp only [haystacks, IsField, List.cons_append, List.mem_cons, List.mem_append, List.mem_filter,
    List.not_mem_nil, or_false, Bool.not_eq_true', ← Bool.not_eq_true, String.isEmpty_iff]
  tauto

/-- The scores of the fields for a query. -/
def scores (S : Searcher) (query : String) (m : SecretMeta) : Set ℕ :=
  {score | ∃ field, IsField m field ∧ S.score query field = some score}

/-- **The best score** is the greatest one of a field. -/
theorem fuzzyScore_eq_some_iff {best : ℕ} :
    S.fuzzyScore query m = some best ↔ IsGreatest (S.scores query m) best := by
  have hmem : ∀ score, score ∈ (haystacks m).filterMap (S.score query) ↔
      score ∈ S.scores query m := by
    intro score
    simp only [List.mem_filterMap, mem_haystacks_iff]
    exact Iff.rfl
  rw [fuzzyScore_eq_max?, List.max?_eq_some_iff, hmem]
  simp only [hmem]
  exact Iff.rfl

/-! ## The order -/

/-- What the list is sorted by: the match of the domain and the best score from the greatest
down, the lower-case name upwards, the time of the last change from the latest down. -/
def sortKey (S : Searcher) (entry : Ranked) : ℕᵒᵈ ×ₗ ℕᵒᵈ ×ₗ String ×ₗ ℤᵒᵈ :=
  toLex (OrderDual.toDual entry.score.domain.rank, toLex (OrderDual.toDual entry.score.fuzzy,
    toLex (S.lowercase entry.secret.name, OrderDual.toDual entry.score.recency.toInt)))

theorem isLE_order_iff (a b : Ranked) : (S.order a b).isLE ↔ S.sortKey a ≤ S.sortKey b := by
  have hrecency : (compare b.score.recency a.score.recency).isLE ↔
      OrderDual.toDual a.score.recency.toInt ≤ OrderDual.toDual b.score.recency.toInt := by
    rw [OrderDual.toDual_le_toDual, Std.isLE_compare, Int64.le_iff_toInt_le]
  simp only [order, sortKey, Ordering.isLE_then_iff_or, compare_lt_iff_lt, compare_eq_iff_eq,
    hrecency, Prod.Lex.toLex_le_toLex, OrderDual.toDual_lt_toDual, OrderDual.toDual_inj]
  rw [eq_comm (a := b.score.domain.rank), eq_comm (a := b.score.fuzzy)]

/-- The comparison that the list is sorted with is a total preorder. -/
theorem pairwise_rank (S : Searcher) (secrets : List SecretMeta) (query : String)
    (ctx : SearchContext) :
    (S.rank secrets query ctx).Pairwise fun a b => S.sortKey a ≤ S.sortKey b := by
  have htrans : ∀ a b c, (S.order a b).isLE → (S.order b c).isLE → (S.order a c).isLE := by
    intro a b c hab hbc
    rw [isLE_order_iff] at hab hbc ⊢
    exact hab.trans hbc
  have htotal : ∀ a b, (S.order a b).isLE || (S.order b a).isLE := by
    intro a b
    rw [Bool.or_eq_true, isLE_order_iff, isLE_order_iff]
    exact le_total _ _
  have hsorted := List.pairwise_mergeSort htrans htotal (retained ctx (S.entries secrets query ctx))
  exact hsorted.imp fun h => (isLE_order_iff _ _).mp h

/-! ## The selection -/

/-- The query is blank, or some searchable field scores. -/
def Searched (S : Searcher) (query : String) (m : SecretMeta) : Prop :=
  trim query = "" ∨ ∃ field, IsField m field ∧ (S.score (trim query) field).isSome

theorem queryMatches_iff : S.queryMatches query m ↔ S.Searched query m := by
  simp only [queryMatches, Searched, Bool.or_eq_true, String.isEmpty_iff, List.any_eq_true,
    mem_haystacks_iff]

/-- The query finds the secret, and if there is a host and some secret that the query finds
matches the context, this one does. -/
def Selected (S : Searcher) (secrets : List SecretMeta) (query : String) (ctx : SearchContext)
    (m : SecretMeta) : Prop :=
  S.Searched query m ∧ (ctx.host.isSome →
    (∃ other ∈ secrets, S.Searched query other ∧ (S.domainScore other ctx).isMatch) →
      (S.domainScore m ctx).isMatch)

/-- `Selected`, to be evaluated. -/
def selects (S : Searcher) (secrets : List SecretMeta) (query : String) (ctx : SearchContext)
    (m : SecretMeta) : Bool :=
  S.queryMatches query m &&
    (!(ctx.host.isSome &&
        secrets.any fun other => S.queryMatches query other && (S.domainScore other ctx).isMatch) ||
      (S.domainScore m ctx).isMatch)

theorem selects_iff :
    S.selects secrets query ctx m ↔ S.Selected secrets query ctx m := by
  simp only [selects, Selected, Bool.and_eq_true, Bool.or_eq_true, Bool.not_eq_true',
    ← Bool.not_eq_true, queryMatches_iff, List.any_eq_true, ← and_imp, ← imp_iff_not_or]

instance : DecidablePred (S.Selected secrets query ctx) :=
  fun _ => decidable_of_iff _ selects_iff

theorem domain_of_mem_entries {entry : Ranked} (h : entry ∈ S.entries secrets query ctx) :
    entry.score.domain = S.domainScore entry.secret ctx := by
  obtain ⟨m, _, hentry⟩ := List.mem_filterMap.mp h
  obtain ⟨rfl, hdomain⟩ := rankOne_eq_some hentry
  exact hdomain

/-- The secrets that pass the filter are those selected. -/
theorem secrets_retained :
    (retained ctx (S.entries secrets query ctx)).map Ranked.secret =
      secrets.filter (S.selects secrets query ctx) := by
  have hsecrets : (S.entries secrets query ctx).map Ranked.secret =
      secrets.filter (S.queryMatches query) := secrets_entries
  have hany : ((S.entries secrets query ctx).any fun entry => entry.score.domain.isMatch) =
      secrets.any fun m => S.queryMatches query m && (S.domainScore m ctx).isMatch := by
    rw [← List.any_filter, ← hsecrets, List.any_map, Bool.eq_iff_iff,
      List.any_eq_true, List.any_eq_true]
    refine exists_congr fun entry => and_congr_right fun hentry => ?_
    rw [domain_of_mem_entries hentry]
    exact Iff.rfl
  have hfilter : ((S.entries secrets query ctx).filter fun entry =>
      entry.score.domain.isMatch).map Ranked.secret =
        secrets.filter fun m => (S.domainScore m ctx).isMatch && S.queryMatches query m := by
    rw [← List.filter_filter, ← hsecrets, List.filter_map]
    refine congrArg _ (List.filter_congr fun entry hentry => ?_)
    rw [domain_of_mem_entries hentry]
    rfl
  rw [retained, hany]
  split
  · rename_i hcontext
    rw [hfilter]
    refine List.filter_congr fun m _ => ?_
    rw [selects, hcontext.1, hcontext.2, Bool.and_comm]
    rfl
  · rename_i hfree
    rw [hsecrets]
    refine List.filter_congr fun m _ => ?_
    rw [← Bool.and_eq_true_iff, Bool.not_eq_true] at hfree
    rw [selects, hfree]
    simp

theorem mem_entries_of_mem_retained {entries : List Ranked} {entry : Ranked}
    (h : entry ∈ retained ctx entries) : entry ∈ entries := by
  rw [retained] at h
  split at h
  · exact List.mem_of_mem_filter h
  · exact h

/-! ## The list -/

/-- The score of an entry is that of its secret: a blank query scores nothing. -/
structure Scored (S : Searcher) (query : String) (ctx : SearchContext) (entry : Ranked) :
    Prop where
  domain : entry.score.domain = S.domainScore entry.secret ctx
  fuzzy : if trim query = "" then entry.score.fuzzy = 0
    else IsGreatest (S.scores (trim query) entry.secret) entry.score.fuzzy
  recency : entry.score.recency = entry.secret.updatedAt

theorem scored_of_rankOne {entry : Ranked} (h : S.rankOne (trim query) ctx m = some entry) :
    S.Scored query ctx entry := by
  obtain ⟨fuzzy, hfuzzy, rfl⟩ := Option.map_eq_some_iff.mp h
  refine ⟨rfl, ?_, rfl⟩
  simp only [String.isEmpty_iff] at hfuzzy
  split
  · rename_i hblank
    rw [if_pos hblank] at hfuzzy
    exact (Option.some.inj hfuzzy).symm
  · rename_i htyped
    rw [if_neg htyped] at hfuzzy
    exact fuzzyScore_eq_some_iff.mp hfuzzy

theorem scored_of_mem_rank {entry : Ranked} (h : entry ∈ S.rank secrets query ctx) :
    S.Scored query ctx entry := by
  have hretained := (S.rank_perm secrets query ctx).mem_iff.mp h
  obtain ⟨m, _, hentry⟩ := List.mem_filterMap.mp (mem_entries_of_mem_retained hretained)
  exact scored_of_rankOne hentry

/-- The order of the secrets decides nothing before the sort but the order. -/
theorem perm_retained {secrets' : List SecretMeta} (h : secrets'.Perm secrets) :
    (retained ctx (S.entries secrets' query ctx)).Perm
      (retained ctx (S.entries secrets query ctx)) := by
  have hentries : (S.entries secrets' query ctx).Perm (S.entries secrets query ctx) :=
    h.filterMap _
  rw [retained, retained, hentries.any_eq]
  split
  · exact hentries.filter _
  · exact hentries

/-- **The list is a sorted selection.** It holds every selected secret as often as the input
does and no other, each with its score, in the order of the four keys; and another order of
the input gives the same entries with the same keys at the same places. -/
theorem rank_is_a_sorted_selection (S : Searcher) (secrets : List SecretMeta) (query : String)
    (ctx : SearchContext) :
    ((S.rank secrets query ctx).map Ranked.secret).Perm
        (secrets.filter (S.Selected secrets query ctx ·)) ∧
      (∀ entry ∈ S.rank secrets query ctx, S.Scored query ctx entry) ∧
      ((S.rank secrets query ctx).Pairwise fun a b => S.sortKey a ≤ S.sortKey b) ∧
      ∀ secrets' : List SecretMeta, secrets'.Perm secrets →
        (S.rank secrets' query ctx).Perm (S.rank secrets query ctx) ∧
          (S.rank secrets' query ctx).map S.sortKey = (S.rank secrets query ctx).map S.sortKey := by
  refine ⟨?_, fun _ => scored_of_mem_rank, pairwise_rank S secrets query ctx, ?_⟩
  · have hsecrets := (S.rank_perm secrets query ctx).map Ranked.secret
    rw [secrets_retained] at hsecrets
    refine hsecrets.trans (List.Perm.of_eq (List.filter_congr fun m _ => ?_))
    rw [Bool.eq_iff_iff, selects_iff, decide_eq_true_iff]
  · intro secrets' hperm
    have hrank : (S.rank secrets' query ctx).Perm (S.rank secrets query ctx) :=
      ((S.rank_perm secrets' query ctx).trans (perm_retained hperm)).trans
        (S.rank_perm secrets query ctx).symm
    exact ⟨hrank, map_eq_of_perm_of_sorted hrank (pairwise_rank S secrets' query ctx)
      (pairwise_rank S secrets query ctx)⟩

end Searcher

end Sypherstore

/-
# Ranking secrets for the popup

`search/fuzzy.rs`. The order is decided by the page the user is on and then by what they
have typed: the match of the domain is compared first, and only ties fall through to the
quality of the fuzzy match. The fuzzy matcher, the Public Suffix List and the lower-case
mapping are libraries and stay parameters. Only metadata is searched.
-/

import Sypherstore.Core.Domain
import Sypherstore.Core.Model

namespace Sypherstore

open Logic

/-- The ranking of a secret for one query. -/
structure Score where
  domain : DomainMatch
  /-- The quality of the match against the query, zero without one. -/
  fuzzy : ℕ
  /-- When the secret was last updated. -/
  recency : Int64
  deriving DecidableEq

/-- A secret with its score. -/
structure Ranked where
  secret : SecretMeta
  score : Score
  deriving DecidableEq

/-- Where the popup was opened. -/
structure SearchContext where
  host : Option String
  application : Option String
  deriving DecidableEq, Inhabited

/-- What the search takes from libraries. -/
structure Searcher where
  /-- `psl::domain`. -/
  psl : Bytes → Option Bytes
  /-- `Pattern::score`, for the pattern of a query on a field. -/
  score : (query field : String) → Option ℕ
  /-- `str::to_lowercase`. -/
  lowercase : String → String

namespace Searcher

variable (S : Searcher)

/-- Scores a secret against the host and the application of the active window. -/
def domainScore (m : SecretMeta) (ctx : SearchContext) : DomainMatch :=
  let byHost := (ctx.host.map (matchDomain S.psl m.domain)).getD .none
  if byHost.isMatch then byHost
  else
    match ctx.application with
    | some app =>
        if !m.application.isEmpty ∧ eqIgnoreAsciiCase m.application.toList (trim app).toList then
          .registrableDomain
        else .none
    | none => .none

/-- The fields a query is matched against. -/
def haystacks (m : SecretMeta) : List String :=
  m.name :: [m.domain, m.application, m.username].filter (fun field => !field.isEmpty) ++ m.tags

/-- The best score among the fields, or nothing when no field matches. -/
def fuzzyScore (query : String) (m : SecretMeta) : Option ℕ :=
  (haystacks m).foldl
    (fun best field =>
      match S.score query field with
      | some s => some (best.elim s (max · s))
      | none => best)
    none

/-- The entry of a secret, unless the query drops it. -/
def rankOne (query : String) (ctx : SearchContext) (m : SecretMeta) : Option Ranked :=
  (if query.isEmpty then some 0 else S.fuzzyScore query m).map fun fuzzy =>
    { secret := m, score := { domain := S.domainScore m ctx, fuzzy, recency := m.updatedAt } }

/-- The order of the list: domain and fuzzy quality descending, then the name ascending,
then the newest first. -/
def order (a b : Ranked) : Ordering :=
  (compare b.score.domain.rank a.score.domain.rank).then <|
    (compare b.score.fuzzy a.score.fuzzy).then <|
      (compare (S.lowercase a.secret.name) (S.lowercase b.secret.name)).then <|
        compare b.score.recency a.score.recency

/-- A known host that some entry matches filters the others out. -/
def retained (ctx : SearchContext) (entries : List Ranked) : List Ranked :=
  if ctx.host.isSome ∧ entries.any fun entry => entry.score.domain.isMatch then
    entries.filter fun entry => entry.score.domain.isMatch
  else entries

/-- Ranks the secrets for a query in a context, best first. -/
def rank (secrets : List SecretMeta) (query : String) (ctx : SearchContext) : List Ranked :=
  (retained ctx (secrets.filterMap (S.rankOne (trim query) ctx))).mergeSort fun a b =>
    (S.order a b).isLE

@[simp] theorem rank_nil (query : String) (ctx : SearchContext) : S.rank [] query ctx = [] := by
  unfold rank retained
  split <;> simp

end Searcher

end Sypherstore

/-
# The page behind the popup

`browser/kwin.rs` with its script, and `detect_context` in `daemon.rs`. The compositor reports
every window that is activated, the last report stands when the hotkey is pressed, and for a
browser the page is looked up. A list is cut down only for a page that some document of that
browser named; and when the page is known, its secrets come first.
-/

import Sypherstore.App.Accessibility
import Sypherstore.Core.Config
import Sypherstore.Core.Ranking
import Sypherstore.Core.Urls

namespace Sypherstore

open Logic

/-- The window that had focus before the popup opened. -/
structure ActiveWindow where
  /-- `resourceClass`. -/
  windowClass : String
  caption : String
  deriving DecidableEq

namespace ActiveWindow

variable (window : ActiveWindow)

/-- What the class of a browser's window contains. -/
def browsers : List String :=
  ["firefox", "chrome", "chromium", "edge", "brave", "opera", "vivaldi", "librewolf"]

def isBrowser : Bool := browsers.any (containsText (toAsciiLowercase window.windowClass))

/-- The last part of the class, in lower case. -/
def appName : String :=
  let parts := window.windowClass.toList.splitOn '.'
  toAsciiLowercase (String.ofList (parts.getLast?.getD window.windowClass.toList))

end ActiveWindow

/-- A window as the script sees it. A property may be missing. -/
structure KwinWindow where
  resourceClass : Option String
  caption : Option String

/-- `report` in the script: the popup's own window is never reported. The lower-case mapping
is the one of JavaScript. -/
def report (toLowerCase : String → String) (window : Option KwinWindow) : Option ActiveWindow :=
  window.bind fun window =>
    let windowClass := window.resourceClass.getD ""
    if containsText (toLowerCase windowClass) "sypherstore" then none
    else some ⟨windowClass, window.caption.getD ""⟩

/-- The cache that the service writes. -/
structure WindowTracker where
  current : ActiveWindow

namespace WindowTracker

def new : WindowTracker := ⟨⟨"", ""⟩⟩

def set (_ : WindowTracker) (window : ActiveWindow) : WindowTracker := ⟨window⟩

/-- The cache after these windows have been activated. -/
def after (toLowerCase : String → String) (activated : List (Option KwinWindow)) :
    WindowTracker :=
  (activated.filterMap (report toLowerCase)).foldl set new

/-- The last window that was reported stands. -/
theorem current_after (toLowerCase : String → String) (activated : List (Option KwinWindow)) :
    (after toLowerCase activated).current =
      (activated.filterMap (report toLowerCase)).getLast?.getD ⟨"", ""⟩ := by
  rw [after]
  induction activated.filterMap (report toLowerCase) using List.reverseRecOn with
  | nil => rfl
  | append_singleton windows window _ =>
      rw [List.foldl_append, List.getLast?_append]
      rfl

end WindowTracker

/-- The host of the page and the application, with the URL that a lookup gave. A lookup is made
only if the last line is reached. -/
def detectContext (config : Config) (window : ActiveWindow) (url : Option String) :
    Option String × Option String :=
  if !config.browserDetection then (none, none)
  else if window.windowClass.isEmpty then (none, none)
  else if !window.isBrowser then (none, some window.appName)
  else (url.bind normalizeHost, some window.appName)

/-- A host is detected only in a browser. -/
theorem detectContext_eq_some {config : Config} {window : ActiveWindow} {url : Option String}
    {host : String} {application : Option String}
    (h : detectContext config window url = (some host, application)) :
    config.browserDetection ∧ window.windowClass ≠ "" ∧ window.isBrowser ∧
      application = some window.appName ∧ ∃ text, url = some text ∧
        normalizeHost text = some host := by
  unfold detectContext at h
  split at h
  · cases h
  split at h
  · cases h
  split at h
  · cases h
  rename_i hdetects hclass hbrowser
  obtain ⟨hhost, rfl⟩ := Prod.mk.inj h
  exact ⟨by simpa using hdetects, by simpa using hclass, by simpa using hbrowser, rfl,
    Option.bind_eq_some_iff.mp hhost⟩

/-! ## What is in the list -/

namespace Searcher

variable {S : Searcher} {secrets : List SecretMeta} {query : String} {ctx : SearchContext}
  {m : SecretMeta}

/-- The list holds the secrets that are selected. -/
theorem exists_mem_rank_iff :
    (∃ entry ∈ S.rank secrets query ctx, entry.secret = m) ↔
      m ∈ secrets ∧ S.Selected secrets query ctx m := by
  have hsecrets := ((S.rank_perm secrets query ctx).map Ranked.secret).mem_iff (a := m)
  rw [secrets_retained, List.mem_filter, selects_iff, List.mem_map] at hsecrets
  exact hsecrets

/-- An earlier entry does not match the context worse. -/
theorem rank_le_of_sortKey_le {a b : Ranked} (h : S.sortKey a ≤ S.sortKey b) :
    b.score.domain.rank ≤ a.score.domain.rank := by
  have hfirst := Prod.Lex.toLex_le_toLex.mp h
  rcases hfirst with hlt | ⟨heq, _⟩
  · exact Nat.le_of_lt (OrderDual.toDual_lt_toDual.mp hlt)
  · exact Nat.le_of_eq (OrderDual.toDual_inj.mp heq).symm

/-- Nothing is better than an exact match. -/
theorem eq_exact_of_rank_le {d : DomainMatch} (h : DomainMatch.exact.rank ≤ d.rank) :
    d = .exact := by
  cases d with
  | exact => rfl
  | none | registrableDomain | parentDomain => exact absurd h (by decide)

end Searcher

variable {S : Searcher} {secrets : List SecretMeta} {query : String} {m : SecretMeta}
  {config : Config} {window : ActiveWindow} {log : BusLog}
  {outcome : Option (Except BusError (Option String))} {host application : Option String}

/-- **Nothing is hidden without a page.** The hotkey was pressed after some windows had been
activated, and the bus said anything until the lookup was done or dropped. A secret that the
query finds is missing from the list only when detection is on, the last window reported is a
browser's, a document of an application of that name gave a URL with a host as the last
thing that was asked, some other secret that the query finds is for that host or for that
application, and this one is for neither. -/
theorem hidden_only_for_a_page {toLowerCase : String → String}
    {activated : List (Option KwinWindow)}
    (hwindow : (WindowTracker.after toLowerCase activated).current = window)
    (lookup : Asking.Trace (findUrl window.appName) log outcome)
    (hcontext : detectContext config window (focusedUrl outcome) = (host, application))
    (hm : m ∈ secrets) (hsearched : S.Searched query m)
    (hhidden : ∀ entry ∈ S.rank secrets query ⟨host, application⟩, entry.secret ≠ m) :
    config.browserDetection ∧ window.isBrowser ∧
      (∃ reported ∈ activated, report toLowerCase reported = some window) ∧
      ∃ url name, SaidBy log window.appName url ∧ normalizeHost url = some name ∧
        host = some name ∧
        (S.domainScore m ⟨some name, some window.appName⟩).isMatch = false ∧
        ∃ other ∈ secrets, S.Searched query other ∧
          (S.domainScore other ⟨some name, some window.appName⟩).isMatch := by
  have hunselected : ¬ S.Selected secrets query ⟨host, application⟩ m := by
    intro hselected
    obtain ⟨entry, hentry, hsame⟩ := Searcher.exists_mem_rank_iff.mpr ⟨hm, hselected⟩
    exact hhidden entry hentry hsame
  rw [Searcher.Selected, not_and, Classical.not_imp, Classical.not_imp, Bool.not_eq_true]
    at hunselected
  obtain ⟨hhost, hother, hunmatched⟩ := hunselected hsearched
  obtain ⟨name, rfl⟩ := Option.isSome_iff_exists.mp hhost
  obtain ⟨hdetects, hclass, hbrowser, rfl, url, hurl, hname⟩ := detectContext_eq_some hcontext
  refine ⟨hdetects, hbrowser, ?_, url, name, ?_, hname, rfl, hunmatched, hother⟩
  · rw [WindowTracker.current_after] at hwindow
    cases hlast : (activated.filterMap (report toLowerCase)).getLast? with
    | none =>
        rw [hlast] at hwindow
        subst hwindow
        exact absurd rfl hclass
    | some last =>
        rw [hlast] at hwindow
        subst hwindow
        exact List.mem_filterMap.mp (List.mem_of_getLast? hlast)
  · exact saidBy_of_focusedUrl lookup hurl

/-- A secret of another site, and one of the page. -/
def forum : SecretMeta := { (default : SecretMeta) with name := "Forum", domain := "forum.org" }

def bank : SecretMeta := { (default : SecretMeta) with name := "Bank", domain := "example.com" }

/-- The browser's window. -/
def sampleWindow : ActiveWindow := ⟨"Navigator.firefox", "Log in"⟩

theorem appName_sampleWindow : sampleWindow.appName = "firefox" := by decide

/-- On a page of the bank, the secret of the forum is hidden. The popup's own window came last,
but is not reported. -/
theorem another_login_is_hidden : ∃ log url,
    (WindowTracker.after toAsciiLowercase
      [some ⟨some "Navigator.firefox", some "Log in"⟩, none, some ⟨some "Sypherstore", none⟩]
      ).current = sampleWindow ∧
    SaidBy log sampleWindow.appName url ∧ normalizeHost url = some "example.com" ∧
      ∀ entry ∈ Searcher.sampleSearcher.rank [forum, bank] ""
        ⟨some "example.com", some sampleWindow.appName⟩, entry.secret ≠ forum := by
  obtain ⟨log, lookup, _⟩ := exists_lookup_sampleBus
  rw [← appName_sampleWindow] at lookup
  have hhidden : ∀ entry ∈ Searcher.sampleSearcher.rank [forum, bank] ""
      ⟨some "example.com", some sampleWindow.appName⟩, entry.secret ≠ forum := by
    intro entry hentry hsame
    have hselected := (Searcher.exists_mem_rank_iff.mp ⟨entry, hentry, hsame⟩).2
    exact absurd hselected (by decide)
  have hcontext : detectContext Config.default sampleWindow
      (focusedUrl (some (.ok (some "https://www.example.com/login")))) =
        (some "example.com", some sampleWindow.appName) := by decide
  have hwindow : (WindowTracker.after toAsciiLowercase
      [some ⟨some "Navigator.firefox", some "Log in"⟩, none, some ⟨some "Sypherstore", none⟩]
      ).current = sampleWindow := by decide
  obtain ⟨_, _, _, url, name, hsaid, hname, hhost, _⟩ := hidden_only_for_a_page hwindow lookup
    hcontext List.mem_cons_self (.inl rfl) hhidden
  obtain rfl := Option.some.inj hhost
  exact ⟨log, url, hwindow, hsaid, hname, hhidden⟩

/-- **The secrets of the page come first.** On a bus that does not change, with a lookup that
is not dropped, the first document with a URL decides: its host is detected, whatever else the
URL holds; every secret of that host is listed, with nothing before it that is not of that host
as well; and all that is listed is for that host or that application. -/
theorem page_secrets_come_first {answers : ∀ q, BusReply q} {apps : List Accessible}
    (hconnects : Connects answers apps) {result : Except BusError (Option String)}
    (lookup : Asking.Trace (findUrl window.appName) log (some result))
    (hlog : ∀ e ∈ log, e.answer = answers e.question) {u : Url} {name : String}
    (hfirst : (candidates answers window.appName apps).findSome? (urlAt answers) = some u.text)
    (hname : u.host.normalized = some name) (hdetects : config.browserDetection)
    (hbrowser : window.isBrowser) :
    detectContext config window (focusedUrl (some result)) = (some name, some window.appName) ∧
      ∀ page, normalizeHost name = some page → m ∈ secrets → S.Searched query m →
        normalizeHost m.domain = some page →
        ∃ front entry back,
          S.rank secrets query ⟨some name, some window.appName⟩ = front ++ entry :: back ∧
          entry.secret = m ∧ (∀ e ∈ front, e.score.domain = .exact) ∧
          ∀ e ∈ front ++ entry :: back, e.score.domain.isMatch := by
  obtain rfl : Except.ok (some u.text) = result := by
    rw [← hfirst, ← eval_findUrl hconnects]
    exact lookup.eval_eq hlog
  have hclass : window.windowClass ≠ "" := by
    intro hclass
    rw [ActiveWindow.isBrowser, hclass] at hbrowser
    exact absurd hbrowser (by decide)
  constructor
  · simp [detectContext, hdetects, hclass, hbrowser, focusedUrl, normalizeHost_url, hname]
  intro page hpage hm hsearched hdomain
  have hexact : S.domainScore m ⟨some name, some window.appName⟩ = .exact := by
    simp [Searcher.domainScore, matchDomain, hdomain, hpage, DomainMatch.isMatch]
  have hmatched : ∃ other ∈ secrets, S.Searched query other ∧
      (S.domainScore other ⟨some name, some window.appName⟩).isMatch :=
    ⟨m, hm, hsearched, by rw [hexact]; rfl⟩
  obtain ⟨entry, hentry, rfl⟩ := Searcher.exists_mem_rank_iff.mpr
    ⟨hm, hsearched, fun _ _ => by rw [hexact]; rfl⟩
  obtain ⟨front, back, hsplit⟩ := List.append_of_mem hentry
  refine ⟨front, entry, back, hsplit, rfl, ?_, ?_⟩
  · intro e he
    have hsorted := Searcher.pairwise_rank S secrets query ⟨some name, some window.appName⟩
    rw [hsplit, List.pairwise_append] at hsorted
    have hle := Searcher.rank_le_of_sortKey_le (hsorted.2.2 e he entry List.mem_cons_self)
    rw [(Searcher.scored_of_mem_rank hentry).domain, hexact] at hle
    exact Searcher.eq_exact_of_rank_le hle
  · intro e he
    rw [← hsplit] at he
    obtain ⟨_, hselected⟩ := (Searcher.exists_mem_rank_iff (m := e.secret)).mp ⟨e, he, rfl⟩
    rw [(Searcher.scored_of_mem_rank he).domain]
    exact hselected.2 rfl hmatched

/-- On a page of the bank, its secret is the first. -/
theorem the_login_of_the_page_is_first : ∃ front entry back,
    Searcher.sampleSearcher.rank [forum, bank] ""
      ⟨some "example.com", some sampleWindow.appName⟩ = front ++ entry :: back ∧
      entry.secret = bank ∧ ∀ e ∈ front, e.score.domain = .exact := by
  obtain ⟨log, lookup, hlog⟩ := exists_lookup_sampleBus
  rw [← appName_sampleWindow] at lookup
  let u : Url :=
    { scheme := "https".toList, userInfo := none,
      host := .name "www.example.com".toList ⟨by simp [isAsciiAlphanumeric], 'w', by decide,
        by decide⟩,
      port := none, tail := "/login".toList,
      isScheme := ⟨⟨'h', by decide, by decide⟩, by simp [isAsciiAlphanumeric], by decide⟩,
      isUserInfo := by simp, isPort := by simp, isTail := by simp [IsTail, startsTail] }
  have hfirst : (candidates sampleBus sampleWindow.appName [⟨":1.7", "/root"⟩]).findSome?
      (urlAt sampleBus) = some u.text := by
    rw [appName_sampleWindow, first_sampleBus]
    decide
  have hname : u.host.normalized = some "example.com" := by decide
  have hdetects : Config.default.browserDetection := rfl
  have hmem : bank ∈ [forum, bank] := by simp
  have hsearched : Searcher.sampleSearcher.Searched "" bank := .inl rfl
  obtain ⟨_, hlisted⟩ := page_secrets_come_first connects_sampleBus lookup hlog hfirst hname
    hdetects (by decide)
  obtain ⟨front, entry, back, hrank, hentry, hfront, _⟩ := hlisted "example.com" (by decide) hmem
    hsearched (by decide)
  exact ⟨front, entry, back, hrank, hentry, hfront⟩

end Sypherstore

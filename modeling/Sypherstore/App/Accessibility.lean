/-
# Reading the URL of a page

`browser/url.rs`. The walk down the accessibility tree asks a bus that other programs serve.
A node may name anything as its child, itself too, and answer differently when it is asked
again; the limits on depth and breadth are all that ends the walk, and a deadline drops it
wherever it waits. What it returns was said by a document, and on a bus that does not change
it is the first that there is.
-/

import Mathlib.Data.List.AList
import Mathlib.Data.List.Infix
import Sypherstore.Core.HostParts
import Sypherstore.Logic.Asking

namespace Sypherstore

open Logic

/-- `str::to_ascii_lowercase`. -/
def toAsciiLowercase (text : String) : String := String.ofList (lower text.toList)

/-- `str::contains`. -/
def containsText (text part : String) : Bool := decide (part.toList <:+: text.toList)

/-- One node in the accessibility tree: a bus name and an object path. -/
structure Accessible where
  bus : String
  path : String
  deriving DecidableEq

/-- A call that was refused, or a reply that could not be read. -/
structure BusError where
  detail : String

inductive BusCall where
  | connectSession
  | getAddress
  | connect (address : String)
  | getChildren (node : Accessible)
  | getName (node : Accessible)
  | getRoleName (node : Accessible)
  | getAttributes (node : Accessible)
  deriving DecidableEq

/-- What comes back of a call. The name is a variant, which need not hold a string. -/
abbrev BusReply : BusCall → Type
  | .connectSession | .connect _ => Except BusError Unit
  | .getAddress | .getRoleName _ => Except BusError String
  | .getChildren _ => Except BusError (List Accessible)
  | .getName _ => Except BusError (Option String)
  | .getAttributes _ => Except BusError (AList fun _ : String => String)

/-- A lookup on the bus. -/
abbrev Lookup (α : Type) : Type := Asking BusCall BusReply α

/-- Make one call. -/
def call (c : BusCall) : Lookup (BusReply c) := Asking.question c

/-- What was asked on the bus and answered. -/
abbrev BusLog : Type := List (Exchange BusCall BusReply)

/-- How deep to walk. -/
def maxDepth : ℕ := 6

/-- How many children to examine at each level. -/
def maxBreadth : ℕ := 24

/-- Roles that carry a document URL. -/
def documentRoles : List String := ["document web", "document frame", "document", "embedded"]

/-- The keys that browsers use. -/
def urlKeys : List String := ["DocURL", "URI", "URL", "docurl", "uri"]

/-- The first of the keys with a value that is not empty. -/
def urlOf (attributes : AList fun _ : String => String) : Option String :=
  urlKeys.findSome? fun key => (attributes.lookup key).filter fun value => !value.isEmpty

/-- A role, in lower case, contains one that carries a URL. -/
def isDocument (role : String) : Bool := documentRoles.any (containsText role)

namespace Accessible

/-- The list of applications. -/
def registry : Accessible := ⟨"org.a11y.atspi.Registry", "/org/a11y/atspi/accessible/root"⟩

variable (node : Accessible)

def children : Lookup (Except BusError (List Accessible)) := call (.getChildren node)

/-- The accessible name, empty if it is not a string. -/
def name : Lookup (Except BusError String) := do
  let reply : Except BusError (Option String) ← call (.getName node)
  return reply.map (·.getD "")

/-- The role in lower case. -/
def role : Lookup (Except BusError String) := do
  let reply : Except BusError String ← call (.getRoleName node)
  return reply.map toAsciiLowercase

def documentUrl : Lookup (Option String) := do
  let reply : Except BusError (AList fun _ : String => String) ← call (.getAttributes node)
  return reply.toOption.bind urlOf

/-- The URL of the node itself, which only a document is asked for. -/
def ownUrl : Lookup (Option String) := do
  let role ← node.role
  if role.toOption.any isDocument then node.documentUrl else return none

/-- Walks down looking for a document, with so many levels to go. -/
def findDocumentUrl : (levels : ℕ) → Accessible → Lookup (Option String)
  | 0, _ => return none
  | levels + 1, node => do
      match ← node.ownUrl with
      | some url => return some url
      | none =>
          match ← node.children with
          | .error _ => return none
          | .ok children => Asking.firstSome (findDocumentUrl levels) (children.take maxBreadth)

end Accessible

/-- The connection to the accessibility bus, whose address the session bus knows. -/
def a11yConnection : Lookup (Except BusError Unit) := do
  let session : Except BusError Unit ← call .connectSession
  match session with
  | .error e => return .error e
  | .ok _ =>
      let reply : Except BusError String ← call .getAddress
      match reply with
      | .error e => return .error e
      | .ok address => call (.connect address)

/-- A substring match either way round. -/
def namesMatch (name hint : String) : Bool :=
  !name.isEmpty && (containsText name hint || containsText hint name)

/-- The URL of an application, if it is the one meant. -/
def urlOfApplication (hint : String) (app : Accessible) : Lookup (Option String) := do
  let name := toAsciiLowercase ((← app.name).toOption.getD "")
  if namesMatch name hint then app.findDocumentUrl maxDepth else return none

/-- The lookup proper, without the deadline. -/
def findUrl (appHint : String) : Lookup (Except BusError (Option String)) := do
  match ← a11yConnection with
  | .error e => return .error e
  | .ok _ =>
      match ← Accessible.registry.children with
      | .error e => return .error e
      | .ok apps => do
          let url ← Asking.firstSome (urlOfApplication (toAsciiLowercase appHint))
            (apps.take maxBreadth)
          return .ok url

/-- What comes of a lookup that may have been dropped at the deadline. -/
def focusedUrl : Option (Except BusError (Option String)) → Option String
  | some (.ok url) => url
  | _ => none

/-! ## How long it takes -/

/-- The most calls that a walk of so many levels makes. -/
def walkCalls : ℕ → ℕ
  | 0 => 0
  | levels + 1 => 3 + maxBreadth * walkCalls levels

open Asking

theorem Accessible.asksAtMost_ownUrl (node : Accessible) : AsksAtMost (1 + 1) node.ownUrl := by
  have hrole : AsksAtMost 1 node.role :=
    (AsksAtMost.question (BusCall.getRoleName node)).bind fun _ => .pure 0 _
  have hurl : AsksAtMost 1 node.documentUrl :=
    (AsksAtMost.question (BusCall.getAttributes node)).bind fun _ => .pure 0 _
  refine hrole.bind fun role => ?_
  split
  · exact hurl
  · exact .pure 1 none

theorem Accessible.asksAtMost_findDocumentUrl (levels : ℕ) (node : Accessible) :
    AsksAtMost (walkCalls levels) (findDocumentUrl levels node) := by
  induction levels generalizing node with
  | zero => exact .pure 0 none
  | succ levels ih =>
      have hbelow : AsksAtMost (1 + maxBreadth * walkCalls levels) (node.children >>= fun reply =>
          match reply with
          | .error _ => pure none
          | .ok children => firstSome (findDocumentUrl levels) (children.take maxBreadth)) := by
        refine (AsksAtMost.question (BusCall.getChildren node)).bind fun reply => ?_
        cases reply with
        | error e => exact .pure _ none
        | ok children =>
            refine (AsksAtMost.firstSome fun child _ => ih child).mono ?_
            exact Nat.mul_le_mul_right _ (List.length_take_le _ _)
      have hboth : AsksAtMost (2 + (1 + maxBreadth * walkCalls levels))
          (findDocumentUrl (levels + 1) node) := by
        refine node.asksAtMost_ownUrl.bind fun url => ?_
        cases url with
        | some url => exact .pure _ (some url)
        | none => exact hbelow
      refine hboth.mono (Nat.le_of_eq ?_)
      rw [walkCalls]
      omega

/-- The most calls of a whole lookup. -/
def lookupCalls : ℕ := 4 + maxBreadth * (1 + walkCalls maxDepth)

theorem asksAtMost_a11yConnection : AsksAtMost 3 a11yConnection := by
  have hafter : ∀ session : Except BusError Unit, AsksAtMost (1 + 1) (match session with
      | .error e => pure (.error e)
      | .ok _ => call .getAddress >>= fun reply => match reply with
          | .error e => pure (.error e)
          | .ok address => call (.connect address)) := by
    intro session
    cases session with
    | error e => exact .pure _ _
    | ok _ =>
        refine (AsksAtMost.question BusCall.getAddress).bind fun reply => ?_
        cases reply with
        | error e => exact .pure _ _
        | ok address => exact .question (BusCall.connect address)
  have hall : AsksAtMost (1 + (1 + 1)) a11yConnection :=
    (AsksAtMost.question BusCall.connectSession).bind hafter
  exact hall

theorem asksAtMost_urlOfApplication (hint : String) (app : Accessible) :
    AsksAtMost (1 + walkCalls maxDepth) (urlOfApplication hint app) := by
  have hname : AsksAtMost 1 app.name :=
    (AsksAtMost.question (BusCall.getName app)).bind fun _ => .pure 0 _
  refine hname.bind fun name => ?_
  simp only
  split
  · exact app.asksAtMost_findDocumentUrl maxDepth
  · exact .pure _ none

/-- **The lookup ends**, whatever the bus says. -/
theorem asksAtMost_findUrl (appHint : String) : AsksAtMost lookupCalls (findUrl appHint) := by
  have hwalk : ∀ apps : List Accessible, AsksAtMost (maxBreadth * (1 + walkCalls maxDepth))
      (firstSome (urlOfApplication (toAsciiLowercase appHint)) (apps.take maxBreadth)) := by
    intro apps
    refine (AsksAtMost.firstSome fun app _ => asksAtMost_urlOfApplication _ app).mono ?_
    exact Nat.mul_le_mul_right _ (List.length_take_le _ _)
  have hall : AsksAtMost (3 + (1 + (maxBreadth * (1 + walkCalls maxDepth) + 0)))
      (findUrl appHint) := by
    refine asksAtMost_a11yConnection.bind fun connection => ?_
    cases connection with
    | error e => exact .pure _ _
    | ok _ =>
        refine (AsksAtMost.question (BusCall.getChildren .registry)).bind fun reply => ?_
        cases reply with
        | error e => exact .pure _ _
        | ok apps => exact (hwalk apps).bind fun url => .pure 0 _
  refine hall.mono (Nat.le_of_eq ?_)
  rw [lookupCalls]
  omega

/-! ## Where a URL comes from -/

/-- The node is so many steps below the top by what was answered, always among the first
children. -/
inductive Below (log : BusLog) (top : Accessible) : ℕ → Accessible → Prop
  | top : Below log top 0 top
  | child {n : ℕ} {parent node : Accessible} {children : List Accessible}
      (above : Below log top n parent) (listed : ⟨.getChildren parent, .ok children⟩ ∈ log)
      (near : node ∈ children.take maxBreadth) : Below log top (n + 1) node

theorem Below.mono {log log' : BusLog} {top node : Accessible} {n : ℕ}
    (h : Below log top n node) (hlog : log ⊆ log') : Below log' top n node := by
  induction h with
  | top => exact .top
  | child above listed near ih => exact ih.child (hlog listed) near

/-- The step to a child comes first. -/
theorem Below.cons {log : BusLog} {top mid node : Accessible} {n : ℕ}
    {children : List Accessible} (h : Below log mid n node)
    (listed : ⟨.getChildren top, .ok children⟩ ∈ log) (near : mid ∈ children.take maxBreadth) :
    Below log top (n + 1) node := by
  induction h with
  | top => exact Below.top.child listed near
  | child above listed' near' ih => exact ih.child listed' near'

/-- A document less than so many steps down gave the URL, as the last thing that was asked. -/
def SaidBelow (log : BusLog) (top : Accessible) (levels : ℕ) (url : String) : Prop :=
  ∃ node n role attributes, n < levels ∧ Below log top n node ∧
    ⟨.getRoleName node, .ok role⟩ ∈ log ∧ isDocument (toAsciiLowercase role) ∧
    log.getLast? = some ⟨.getAttributes node, .ok attributes⟩ ∧ urlOf attributes = some url

/-- What was said at the end of a log is said at the end of a longer one. -/
theorem SaidBelow.after {log : BusLog} {top : Accessible} {levels : ℕ} {url : String}
    (h : SaidBelow log top levels url) (before : BusLog) :
    SaidBelow (before ++ log) top levels url := by
  obtain ⟨node, n, role, attributes, hn, hbelow, hrole, hdocument, hlast, hurl⟩ := h
  have hsub : log ⊆ before ++ log := List.subset_append_right before log
  refine ⟨node, n, role, attributes, hn, hbelow.mono hsub, hsub hrole, hdocument, ?_, hurl⟩
  rw [List.getLast?_append, hlast, Option.some_or]

variable {log : BusLog} {url : String}

theorem Accessible.trace_ownUrl {node : Accessible}
    (h : Trace node.ownUrl log (some (some url))) :
    ∃ role attributes, isDocument (toAsciiLowercase role) ∧ urlOf attributes = some url ∧
      log = [⟨.getRoleName node, .ok role⟩, ⟨.getAttributes node, .ok attributes⟩] := by
  obtain ⟨hnone, _⟩ | ⟨role, before, after, rfl, hasked, hrest⟩ := trace_bind_iff.mp h
  · cases hnone
  obtain ⟨reply, rfl, rfl⟩ := trace_question_map_iff.mp hasked
  cases reply with
  | error e =>
      obtain ⟨_, hnone⟩ := trace_pure_iff.mp hrest
      cases hnone
  | ok role =>
      by_cases hdocument : isDocument (toAsciiLowercase role)
      · rw [if_pos (by exact hdocument)] at hrest
        obtain ⟨reply, rfl, hurl⟩ := trace_question_map_iff.mp hrest
        cases reply with
        | error e => cases hurl
        | ok attributes => exact ⟨role, attributes, hdocument, hurl, rfl⟩
      · rw [if_neg (by exact hdocument)] at hrest
        obtain ⟨_, hnone⟩ := trace_pure_iff.mp hrest
        cases hnone

/-- **A URL that a walk finds** was said by a document below where it began. -/
theorem Accessible.trace_findDocumentUrl {levels : ℕ} {node : Accessible}
    (h : Trace (findDocumentUrl levels node) log (some (some url))) :
    SaidBelow log node levels url := by
  induction levels generalizing node log with
  | zero => cases h
  | succ levels ih =>
      obtain ⟨hnone, _⟩ | ⟨own, before, after, rfl, hown, hrest⟩ := trace_bind_iff.mp h
      · cases hnone
      cases own with
      | some url' =>
          obtain ⟨rfl, hsame⟩ := trace_pure_iff.mp hrest
          cases hsame
          obtain ⟨role, attributes, hdocument, hurl, rfl⟩ := trace_ownUrl hown
          exact ⟨node, 0, role, attributes, Nat.succ_pos levels, .top, by simp, hdocument, rfl,
            hurl⟩
      | none =>
          obtain ⟨_, hnone⟩ | ⟨reply, rest, rfl, hwalk⟩ := trace_question_bind_iff.mp hrest
          · cases hnone
          cases reply with
          | error e =>
              obtain ⟨_, hnone⟩ := trace_pure_iff.mp hwalk
              cases hnone
          | ok children =>
              obtain ⟨front, child, back, asked, after, hsplit, rfl, _, hchild⟩ :=
                trace_firstSome hwalk
              have hnear : child ∈ children.take maxBreadth := by
                rw [hsplit]
                simp
              obtain ⟨found, n, role, attributes, hn, hbelow, hrole, hdocument, hlast, hurl⟩ :=
                (ih hchild).after (before ++ ⟨.getChildren node, .ok children⟩ :: asked)
              rw [List.append_assoc, List.cons_append] at hbelow hrole hlast
              exact ⟨found, n + 1, role, attributes, Nat.succ_lt_succ hn,
                hbelow.cons (by simp) hnear, hrole, hdocument, hlast, hurl⟩

/-- An application of the registry whose name goes with the hint has a document that gave the
URL. -/
def SaidBy (log : BusLog) (appHint url : String) : Prop :=
  ∃ apps app name, ⟨.getChildren .registry, .ok apps⟩ ∈ log ∧ app ∈ apps.take maxBreadth ∧
    ⟨.getName app, .ok name⟩ ∈ log ∧
    namesMatch (toAsciiLowercase (name.getD "")) (toAsciiLowercase appHint) ∧
    SaidBelow log app maxDepth url

theorem trace_urlOfApplication {hint : String} {app : Accessible}
    (h : Trace (urlOfApplication hint app) log (some (some url))) :
    ∃ name, ⟨.getName app, .ok name⟩ ∈ log ∧
      namesMatch (toAsciiLowercase (name.getD "")) hint ∧ SaidBelow log app maxDepth url := by
  obtain ⟨hnone, _⟩ | ⟨name, before, after, rfl, hasked, hrest⟩ := trace_bind_iff.mp h
  · cases hnone
  obtain ⟨reply, rfl, rfl⟩ := trace_question_map_iff.mp hasked
  simp only at hrest
  split at hrest
  swap
  · obtain ⟨_, hnone⟩ := trace_pure_iff.mp hrest
    cases hnone
  rename_i hmatch
  cases reply with
  | error e =>
      -- An application that does not answer has no name, and that goes with nothing.
      have hnothing : namesMatch (toAsciiLowercase "") hint = false := rfl
      exact absurd (hmatch.symm.trans hnothing) (by decide)
  | ok name =>
      exact ⟨name, by simp, hmatch, (Accessible.trace_findDocumentUrl hrest).after _⟩

/-- **A URL that a lookup finds** was said by a document of an application of that name, and
nothing was asked after that. -/
theorem trace_findUrl {appHint : String}
    (h : Trace (findUrl appHint) log (some (.ok (some url)))) : SaidBy log appHint url := by
  obtain ⟨hnone, _⟩ | ⟨connection, before, after, rfl, _, hrest⟩ := trace_bind_iff.mp h
  · cases hnone
  cases connection with
  | error e =>
      obtain ⟨_, hnone⟩ := trace_pure_iff.mp hrest
      cases hnone
  | ok _ =>
      obtain ⟨_, hnone⟩ | ⟨reply, rest, rfl, hwalk⟩ := trace_question_bind_iff.mp hrest
      · cases hnone
      cases reply with
      | error e =>
          obtain ⟨_, hnone⟩ := trace_pure_iff.mp hwalk
          cases hnone
      | ok apps =>
          obtain ⟨hnone, _⟩ | ⟨found, walked, last, rfl, hfound, hlast⟩ := trace_bind_iff.mp hwalk
          · cases hnone
          obtain ⟨rfl, hsame⟩ := trace_pure_iff.mp hlast
          obtain rfl := Except.ok.inj (Option.some.inj hsame)
          obtain ⟨front, app, back, asked, after, hsplit, rfl, _, happ⟩ := trace_firstSome hfound
          obtain ⟨name, hname, hmatch, hsaid⟩ := trace_urlOfApplication happ
          refine ⟨apps, app, name, by simp, by simp [hsplit], by simp [hname], hmatch, ?_⟩
          have hsaid' := hsaid.after (before ++ ⟨.getChildren .registry, .ok apps⟩ :: asked)
          simpa using hsaid'

theorem saidBy_of_focusedUrl {appHint : String} {outcome : Option (Except BusError (Option String))}
    (h : Trace (findUrl appHint) log outcome) (hurl : focusedUrl outcome = some url) :
    SaidBy log appHint url := by
  cases outcome with
  | none => cases hurl
  | some result =>
      cases result with
      | error e => cases hurl
      | ok found =>
          obtain rfl : found = some url := hurl
          exact trace_findUrl h

/-! ## A bus that does not change -/

section Unchanging

variable (answers : ∀ q, BusReply q)

/-- The nodes of a tree of so many levels, parents first. -/
def preorder : (levels : ℕ) → Accessible → List Accessible
  | 0, _ => []
  | levels + 1, node =>
      let children : Except BusError (List Accessible) := answers (.getChildren node)
      node :: ((children.toOption.getD []).take maxBreadth).flatMap (preorder levels)

/-- The URL of a document. -/
def urlAt (node : Accessible) : Option String :=
  let role : Except BusError String := answers (.getRoleName node)
  let attributes : Except BusError (AList fun _ : String => String) :=
    answers (.getAttributes node)
  if role.toOption.any fun role => isDocument (toAsciiLowercase role) then
    attributes.toOption.bind urlOf
  else none

/-- The application's name goes with the hint. -/
def goesWith (appHint : String) (app : Accessible) : Bool :=
  let name : Except BusError (Option String) := answers (.getName app)
  namesMatch (toAsciiLowercase (name.toOption.join.getD "")) (toAsciiLowercase appHint)

/-- The nodes that can give the URL, the first ones first. -/
def candidates (appHint : String) (apps : List Accessible) : List Accessible :=
  (apps.take maxBreadth).flatMap fun app =>
    if goesWith answers appHint app then preorder answers maxDepth app else []

theorem eval_ownUrl (node : Accessible) : eval answers node.ownUrl = urlAt answers node := by
  have hrole : eval answers node.role =
      (answers (.getRoleName node) : Except BusError String).map toAsciiLowercase := rfl
  have hurl : eval answers node.documentUrl =
      ((answers (.getAttributes node) :
        Except BusError (AList fun _ : String => String))).toOption.bind urlOf := rfl
  rw [Accessible.ownUrl, eval_bind, hrole, urlAt]
  cases (answers (.getRoleName node) : Except BusError String) with
  | error e => rfl
  | ok role =>
      change eval answers (if isDocument (toAsciiLowercase role) then _ else _) =
        if isDocument (toAsciiLowercase role) then _ else _
      split
      · exact hurl
      · rfl

/-- **The walk is a search in preorder.** -/
theorem eval_findDocumentUrl (levels : ℕ) (node : Accessible) :
    eval answers (Accessible.findDocumentUrl levels node) =
      (preorder answers levels node).findSome? (urlAt answers) := by
  induction levels generalizing node with
  | zero => rfl
  | succ levels ih =>
      rw [Accessible.findDocumentUrl, eval_bind, eval_ownUrl, preorder, List.findSome?_cons]
      cases urlAt answers node with
      | some url => rfl
      | none =>
          have hchildren : eval answers node.children =
              (answers (.getChildren node) : Except BusError (List Accessible)) := rfl
          simp only [eval_bind, hchildren]
          cases (answers (.getChildren node) : Except BusError (List Accessible)) with
          | error e => rfl
          | ok children =>
              simp only [eval_firstSome, ih, Except.toOption, Option.getD_some,
                findSome?_flatMap]

theorem eval_urlOfApplication (appHint : String) (app : Accessible) :
    eval answers (urlOfApplication (toAsciiLowercase appHint) app) =
      (if goesWith answers appHint app then preorder answers maxDepth app else []).findSome?
        (urlAt answers) := by
  have hname : toAsciiLowercase ((eval answers app.name).toOption.getD "") =
      toAsciiLowercase ((answers (.getName app) :
        Except BusError (Option String)).toOption.join.getD "") := by
    rw [show eval answers app.name =
      (answers (.getName app) : Except BusError (Option String)).map (·.getD "") from rfl]
    cases (answers (.getName app) : Except BusError (Option String)) with
    | error e => rfl
    | ok name => rfl
  rw [urlOfApplication, eval_bind, hname]
  change eval answers (if goesWith answers appHint app then _ else _) = _
  by_cases hgoes : goesWith answers appHint app
  · rw [if_pos hgoes, if_pos hgoes]
    exact eval_findDocumentUrl answers maxDepth app
  · rw [if_neg hgoes, if_neg hgoes]
    rfl

/-- The connection is made and the registry tells its applications. -/
def Connects (apps : List Accessible) : Prop :=
  ∃ address, answers .connectSession = .ok () ∧ answers .getAddress = .ok address ∧
    answers (.connect address) = .ok () ∧ answers (.getChildren .registry) = .ok apps

variable {answers}

/-- **On a bus that does not change** a lookup that is not dropped finds the first URL there
is. -/
theorem eval_findUrl {apps : List Accessible} (hconnects : Connects answers apps)
    (appHint : String) :
    eval answers (findUrl appHint) =
      .ok ((candidates answers appHint apps).findSome? (urlAt answers)) := by
  obtain ⟨address, hsession, haddress, hconnect, happs⟩ := hconnects
  have hconnection : eval answers a11yConnection = .ok () := by
    rw [a11yConnection, eval_bind, show eval answers (call .connectSession) = .ok () from hsession]
    simp only [eval_bind]
    rw [show eval answers (call .getAddress) = .ok address from haddress]
    exact hconnect
  rw [findUrl, eval_bind, hconnection]
  simp only [eval_bind]
  rw [show eval answers Accessible.registry.children = .ok apps from happs]
  simp only [eval_bind, eval_firstSome, eval_urlOfApplication, candidates, findSome?_flatMap,
    eval_pure]

end Unchanging

/-- **What a lookup gives.** On any bus it makes so many calls at most, dropped or not, and a URL
that it gives was said by a document near the top of an application of that name, in answer
to the last call. If the bus did not change and the lookup was not dropped, it is the first URL
in preorder. -/
theorem lookup_gives_the_first_url {appHint : String}
    {outcome : Option (Except BusError (Option String))}
    (h : Trace (findUrl appHint) log outcome) :
    log.length ≤ lookupCalls ∧
      (∀ url, focusedUrl outcome = some url → SaidBy log appHint url) ∧
      ∀ (answers : ∀ q, BusReply q) (apps : List Accessible), Connects answers apps →
        (∀ e ∈ log, e.answer = answers e.question) → outcome ≠ none →
        focusedUrl outcome = (candidates answers appHint apps).findSome? (urlAt answers) := by
  refine ⟨asksAtMost_findUrl appHint log outcome h, fun _ => saidBy_of_focusedUrl h, ?_⟩
  intro answers apps hconnects hlog hkept
  obtain ⟨result, rfl⟩ := Option.ne_none_iff_exists'.mp hkept
  have hresult := h.eval_eq hlog
  rw [eval_findUrl hconnects] at hresult
  rw [← hresult, focusedUrl]

/-- A browser with one frame, which also names itself as its child, and one page. -/
def sampleBus : ∀ q, BusReply q
  | .connectSession | .connect _ => .ok ()
  | .getAddress => .ok "unix:path=/run/user/1000/at-spi/bus"
  | .getChildren node =>
      if node = .registry then .ok [⟨":1.7", "/root"⟩]
      else if node = ⟨":1.7", "/root"⟩ then .ok [⟨":1.7", "/frame"⟩]
      else if node = ⟨":1.7", "/frame"⟩ then .ok [⟨":1.7", "/frame"⟩, ⟨":1.7", "/page"⟩]
      else .ok []
  | .getName _ => .ok (some "Firefox")
  | .getRoleName node => .ok (if node = ⟨":1.7", "/page"⟩ then "Document Web" else "frame")
  | .getAttributes _ => .ok (AList.insert "DocURL" "https://www.example.com/login" ∅)

theorem connects_sampleBus : Connects sampleBus [⟨":1.7", "/root"⟩] :=
  ⟨_, rfl, rfl, rfl, rfl⟩

theorem first_sampleBus :
    (candidates sampleBus "firefox" [⟨":1.7", "/root"⟩]).findSome? (urlAt sampleBus) =
      some "https://www.example.com/login" := by
  decide +kernel

theorem exists_lookup_sampleBus : ∃ log, Trace (findUrl "firefox") log
      (some (.ok (some "https://www.example.com/login"))) ∧
    ∀ e ∈ log, e.answer = sampleBus e.question := by
  obtain ⟨log, lookup, hlog⟩ := exists_trace_eval sampleBus (findUrl "firefox")
  rw [eval_findUrl connects_sampleBus, first_sampleBus] at lookup
  exact ⟨log, lookup, hlog⟩

/-- The page is found, though the frame is its own child, and it is the first on the bus. -/
theorem a_page_is_found : ∃ log, log.length ≤ lookupCalls ∧
    SaidBy log "firefox" "https://www.example.com/login" ∧
    some "https://www.example.com/login" =
      (candidates sampleBus "firefox" [⟨":1.7", "/root"⟩]).findSome? (urlAt sampleBus) := by
  obtain ⟨log, lookup, hlog⟩ := exists_lookup_sampleBus
  obtain ⟨hlength, hsaid, hfirst⟩ := lookup_gives_the_first_url lookup
  exact ⟨log, hlength, hsaid _ rfl, hfirst sampleBus _ connects_sampleBus hlog nofun⟩

end Sypherstore

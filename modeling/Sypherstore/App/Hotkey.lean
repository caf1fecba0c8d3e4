/-
# Registering the global shortcut

`hotkey::register` talks to the GlobalShortcuts portal: it asks for a session, waits
for the reply, asks for the shortcut to be bound and waits again, until the user has
answered the permission dialog. Every exchange can fail, and either reply can be a
refusal.
-/

import Sypherstore.Logic.Text

namespace Sypherstore

open Logic

/-! ## The trigger -/

/-- The modifiers the XDG specification defines. Any other name is passed through. -/
def portalModifier (name : String) : String :=
  let lower := String.ofList (name.toList.map Char.toLower)
  if lower ∈ ["meta", "super", "logo", "win"] then "LOGO"
  else if lower ∈ ["ctrl", "control"] then "CTRL"
  else if lower = "alt" then "ALT"
  else if lower = "shift" then "SHIFT"
  else name

/-- Names of one character become lower-case keysym names. -/
def portalKey (name : String) : String :=
  match name.toList with
  | [c] => String.singleton c.toLower
  | _ => name

/-- Translates a Plasma-style accelerator into XDG shortcut syntax. -/
def toPortalTrigger (accelerator : String) : String :=
  let segments := ((accelerator.toList.splitOn '+').map fun segment =>
    trim (String.ofList segment)).filter fun segment => !segment.isEmpty
  match segments.getLast? with
  | none => ""
  | some key => String.intercalate "+" (segments.dropLast.map portalModifier ++ [portalKey key])

/-! ## The exchange with the portal -/

/-- A value in the results of a reply. -/
inductive Variant where
  | objectPath (path : String)
  | text (s : String)
  /-- Neither, with the error of reading it as a text. -/
  | other (e : String)

/-- The `Response` signal of a Request object. -/
structure PortalReply where
  response : ℕ
  results : List (String × Variant)

/-- The two calls that are answered on a Request object. -/
inductive PortalCall where
  | createSession
  | bindShortcuts
  deriving DecidableEq, Repr

/-- `handle_token` of the call. -/
def PortalCall.token : PortalCall → String
  | .createSession => "sypherstore_create"
  | .bindShortcuts => "sypherstore_bind"

/-- What the session bus and the portal answer, exchange by exchange. An error is the
text of the D-Bus library. -/
structure Portal where
  /-- `Connection::session`, and the unique name it was given. -/
  connect : Except String (Option String)
  /-- `GlobalShortcutsProxy::new` -/
  shortcuts : Except String Unit
  /-- `ObjectPath::try_from` -/
  objectPath : String → Except String Unit
  /-- Building the proxy of a Request object. -/
  request : String → Except String Unit
  receiveResponse : String → Except String Unit
  receiveActivated : Except String Unit
  /-- `CreateSession`, with the session token. -/
  createSession : String → Except String Unit
  /-- `BindShortcuts`, with the session and the trigger. -/
  bindShortcuts : String → String → Except String Unit
  /-- The first reply on a Request object, unless its stream ends before. -/
  reply : String → Option (Except String PortalReply)

inductive HotkeyError where
  /-- "connecting to the session bus" -/
  | connecting (e : String)
  /-- "connecting to the GlobalShortcuts portal (is xdg-desktop-portal-kde running?)" -/
  | noPortal (e : String)
  /-- "the D-Bus connection has no unique name" -/
  | noUniqueName
  /-- "invalid request path {0}: {1}" -/
  | badRequestPath (path e : String)
  /-- "subscribing to the {0} reply" -/
  | subscribing (call : PortalCall) (e : String)
  /-- An error of the D-Bus library, passed on as it is. -/
  | zbus (e : String)
  /-- "calling {0}" -/
  | calling (call : PortalCall) (e : String)
  /-- "the portal closed before answering {0}" -/
  | portalClosed (call : PortalCall)
  /-- "decoding the {0} reply" -/
  | decoding (call : PortalCall) (e : String)
  /-- "the portal refused to create a shortcuts session (response {0})" -/
  | sessionRefused (response : ℕ)
  /-- "the portal returned no session_handle" -/
  | noSessionHandle
  /-- "session_handle was neither a path nor a string: {0}" -/
  | handleNotText (e : String)
  /-- "session_handle {0:?} is not a valid object path: {1}" -/
  | badSessionHandle (text e : String)
  /-- "subscribing to shortcut activations" -/
  | noActivations (e : String)
  /-- "the shortcut request was refused (response {0}). Check System Settings >
  Shortcuts." 1 means the user cancelled; 2 means it ended some other way. -/
  | shortcutRefused (response : ℕ)
  deriving DecidableEq

/-- A bound global shortcut, alive for as long as this value is held. -/
structure HotkeySession where
  session : String
  deriving DecidableEq

/-- The unique name of the connection, as it stands in the paths of Request objects. -/
def requestSender (name : String) : String :=
  String.ofList ((name.toList.dropWhile (· = ':')).map fun c => if c = '.' then '_' else c)

namespace Portal

variable (portal : Portal)

/-- The path the portal will use for the reply to a call. -/
def requestPath (sender : String) (call : PortalCall) : Except HotkeyError String :=
  let path := "/org/freedesktop/portal/desktop/request/" ++ sender ++ "/" ++ call.token
  ((portal.objectPath path).mapError (.badRequestPath path)).map fun _ => path

/-- Subscribe to the reply to a call, before making it. -/
def subscribe (sender : String) (call : PortalCall) : Except HotkeyError String := do
  let path ← portal.requestPath sender call
  (portal.request path).mapError (.subscribing call)
  (portal.receiveResponse path).mapError .zbus
  return path

/-- Wait for the reply to a call. -/
def awaitReply (call : PortalCall) (path : String) : Except HotkeyError PortalReply :=
  match portal.reply path with
  | none => .error (.portalClosed call)
  | some reply => reply.mapError (.decoding call)

/-- Pulls the session handle out of a `CreateSession` reply. -/
def extractSessionHandle (results : List (String × Variant)) : Except HotkeyError String :=
  match results.lookup "session_handle" with
  | none => .error .noSessionHandle
  | some (.objectPath path) => .ok path
  | some (.text text) =>
      ((portal.objectPath text).mapError (.badSessionHandle text)).map fun _ => text
  | some (.other e) => .error (.handleNotText e)

end Portal

/-- Registers the global shortcut. `hotkey::register`, as far as its result goes: the
activations it forwards are events of the loop that receives them. -/
def register (portal : Portal) (trigger : String) : Except HotkeyError HotkeySession := do
  let name ← portal.connect.mapError .connecting
  portal.shortcuts.mapError .noPortal
  match name with
  | none => throw .noUniqueName
  | some name =>
      let created ← portal.subscribe (requestSender name) .createSession
      (portal.createSession "sypherstore").mapError (.calling .createSession)
      let reply ← portal.awaitReply .createSession created
      if reply.response ≠ 0 then throw (.sessionRefused reply.response)
      else
        let session ← portal.extractSessionHandle reply.results
        let bound ← portal.subscribe (requestSender name) .bindShortcuts
        portal.receiveActivated.mapError .noActivations
        (portal.bindShortcuts session (toPortalTrigger trigger)).mapError
          (.calling .bindShortcuts)
        let reply ← portal.awaitReply .bindShortcuts bound
        if reply.response ≠ 0 then throw (.shortcutRefused reply.response)
        else return { session }

/-! ## What a bound shortcut says about the portal -/

private theorem mapError_eq_ok_iff {ε ε' α : Type} (f : ε → ε') (x : Except ε α) (a : α) :
    x.mapError f = .ok a ↔ x = .ok a := by
  cases x <;> simp [Except.mapError]

theorem Portal.awaitReply_eq_ok_iff (portal : Portal) (call : PortalCall) (path : String)
    (reply : PortalReply) :
    portal.awaitReply call path = .ok reply ↔ portal.reply path = some (.ok reply) := by
  unfold awaitReply
  cases portal.reply path with
  | none => simp
  | some answer => simp [mapError_eq_ok_iff]

theorem Portal.subscribe_requestPath {portal : Portal} {sender path : String}
    {call : PortalCall} (h : portal.subscribe sender call = .ok path) :
    portal.requestPath sender call = .ok path := by
  simp only [subscribe, Fallible.bind_eq_ok_iff] at h
  obtain ⟨path', hpath, _, _, _, _, hreturn⟩ := h
  rw [hpath]
  exact hreturn

/-- The shortcut is bound only if the portal accepted both calls. -/
theorem register_accepted {portal : Portal} {trigger : String} {session : HotkeySession}
    (h : register portal trigger = .ok session) :
    ∃ sender, ∀ call, ∃ path reply, portal.requestPath sender call = .ok path ∧
      portal.reply path = some (.ok reply) ∧ reply.response = 0 := by
  simp only [register, Fallible.bind_eq_ok_iff] at h
  obtain ⟨name, -, -, -, h⟩ := h
  cases name with
  | none => cases h
  | some name =>
      simp only [Fallible.bind_eq_ok_iff, Portal.awaitReply_eq_ok_iff] at h
      obtain ⟨created, hcreated, _, _, createdReply, hreply, h⟩ := h
      split at h
      · cases h
      · rename_i hcreate
        simp only [Fallible.bind_eq_ok_iff, Portal.awaitReply_eq_ok_iff] at h
        obtain ⟨_, _, bound, hbound, _, _, _, _, boundReply, hreply', h⟩ := h
        split at h
        · cases h
        · rename_i hbind
          refine ⟨requestSender name, fun call => ?_⟩
          cases call with
          | createSession =>
              exact ⟨created, createdReply, Portal.subscribe_requestPath hcreated, hreply,
                not_not.mp hcreate⟩
          | bindShortcuts =>
              exact ⟨bound, boundReply, Portal.subscribe_requestPath hbound, hreply',
                not_not.mp hbind⟩

end Sypherstore

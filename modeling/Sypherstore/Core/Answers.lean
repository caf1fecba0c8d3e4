/-
# The answers of a session, and the unlock behind them

A run of a session leaves a log of calls, each with what it returned. Every answer in it
is the one that the map gives at that moment. And a session that is unlocked has an
unlock in its log that no lock has followed, and a call since then that has set the
deadline it now keeps.
-/

import Sypherstore.Core.UnlockSoundness

namespace Sypherstore

open Logic

variable {P : Primitives}

/-! ## Calls one after the other -/

namespace Session

section

variable (P)

/-- The log of calls made one after the other, up to the first that fails. -/
def performed : List (Call × Op) → Session → List Event
  | [], _ => []
  | (call, op) :: rest, s =>
      ⟨call, op, (perform P call op s).1⟩ ::
        if (perform P call op s).1.isOk then performed rest (perform P call op s).2 else []

end

theorem performed_single (call : Call) (op : Op) (s : Session) :
    performed P [(call, op)] s = [⟨call, op, (perform P call op s).1⟩] := by
  simp [performed]

theorem mem_performed {calls : List (Call × Op)} {s : Session} {e : Event}
    (h : e ∈ performed P calls s) : (e.call, e.op) ∈ calls := by
  induction calls generalizing s with
  | nil => cases h
  | cons first rest ih =>
      rw [performed] at h
      rcases List.mem_cons.mp h with rfl | h
      · exact List.mem_cons_self
      · split at h
        · exact List.mem_cons_of_mem _ (ih h)
        · cases h

theorem run_performed_single {call : Call} {op : Op} {s s' : Session}
    (h : (perform P call op s).2 = s') :
    Run (Step P) s (performed P [(call, op)] s) s' := by
  rw [performed_single]
  exact .single (Prod.ext rfl h)

theorem run_performed_cons {call : Call} {op : Op} {rest : List (Call × Op)} {s s' : Session}
    {reply : Reply} (hfirst : (perform P call op s).1 = .ok reply)
    (hrest : Run (Step P) (perform P call op s).2 (performed P rest (perform P call op s).2) s') :
    Run (Step P) s (performed P ((call, op) :: rest) s) s' := by
  rw [performed, if_pos (by rw [hfirst]; rfl)]
  exact .cons rfl hrest

theorem run_performed_failed {call : Call} {op : Op} {rest : List (Call × Op)} {s s' : Session}
    {fault : Fault SessionError} (hfirst : (perform P call op s).1 = .error fault)
    (h : (perform P call op s).2 = s') :
    Run (Step P) s (performed P ((call, op) :: rest) s) s' := by
  rw [performed, if_neg (by rw [hfirst]; simp [Except.isOk, Except.toBool])]
  exact .single (Prod.ext rfl h)

/-- Two calls in one critical section: the second is made if the first succeeds. -/
theorem run_performed_pair {α β : Type} {x : Stateful Session SessionError α}
    {y : Stateful Session SessionError β} {call call' : Call} (op op' : Op) {f : α → Reply}
    {g : β → Reply} (hop : perform P call op = (x >>= fun a => pure (f a)))
    (hop' : perform P call' op' = (y >>= fun b => pure (g b))) (s : Session) :
    Run (Step P) s (performed P [(call, op), (call', op')] s)
      ((do let a ← x; let b ← y; return (a, b) : Stateful Session SessionError (α × β)) s).2 := by
  have hsecond : (perform P call op s).2 = (x s).2 := by rw [hop, Stateful.snd_bind_pure]
  have hfirst : (perform P call op s).1 = (x s).1.map f := by rw [hop, Stateful.fst_bind_pure]
  rw [Stateful.bind_apply]
  rcases hx : x s with ⟨e | a, mid⟩
  · rw [hx] at hfirst hsecond
    exact run_performed_failed hfirst hsecond
  · rw [hx] at hfirst hsecond
    refine run_performed_cons hfirst ?_
    rw [hsecond]
    refine run_performed_single ?_
    rw [hop', Stateful.snd_bind_pure]
    exact (Stateful.snd_bind_pure y (fun b => (a, b)) mid).symm

end Session

/-! ## What is not found

Only the statement that looks for a row says that there is none. -/

namespace Vault

variable {sql : Sql} {id id' metaId : Uuid} {metaBlob payloadBlob : Bytes} {v : Vault}

theorem attempt_ne_notFound {α : Type} {statement : Statement} {result : α}
    (h : sql.attempt statement result = .error (.error (.notFound id))) : False := by
  rcases attempt_cases sql statement result with ⟨e, _, herror⟩ | ⟨_, hok⟩
  · rw [herror] at h
    cases h
  · rw [hok] at h
    cases h

theorem not_mem_of_getBlob (h : v.getBlob P sql id = .error (.error (.notFound id'))) :
    P.uuidText id ∉ v.secrets := by
  rcases (Fallible.bind_eq_error_iff ..).mp h with h | ⟨row, hrow, h⟩
  · exact (attempt_ne_notFound h).elim
  · obtain ⟨_, rfl⟩ := (Sql.attempt_eq_ok_iff ..).mp hrow
    cases hlookup : v.secrets[P.uuidText id]? with
    | none => exact (getElem?_eq_none_iff _ _).mp hlookup
    | some row => simp [hlookup] at h

theorem not_mem_of_getMetaRow (h : v.getMetaRow P sql id = .error (.error (.notFound id'))) :
    P.uuidText id ∉ v.secrets := by
  rcases (Fallible.bind_eq_error_iff ..).mp h with h | ⟨row, hrow, h⟩
  · exact (attempt_ne_notFound h).elim
  · obtain ⟨_, rfl⟩ := (Sql.attempt_eq_ok_iff ..).mp hrow
    cases hlookup : v.secrets[P.uuidText id]? with
    | none => exact (getElem?_eq_none_iff _ _).mp hlookup
    | some row => simp [hlookup] at h

theorem not_mem_of_updateRow
    (h : (updateRow P sql id metaId metaBlob payloadBlob v).1 =
      .error (.error (.notFound id'))) : P.uuidText id ∉ v.secrets := by
  intro hmem
  rcases attempt_cases sql .updateRow () with ⟨e, _, hattempt⟩ | ⟨_, hattempt⟩ <;>
    simp [updateRow, Stateful.bind_apply, hattempt, hmem] at h

theorem not_mem_of_delete (h : (delete P sql id v).1 = .error (.error (.notFound id'))) :
    P.uuidText id ∉ v.secrets := by
  intro hmem
  rcases attempt_cases sql .deleteRow () with ⟨e, _, hattempt⟩ | ⟨_, hattempt⟩ <;>
    simp [delete, Stateful.bind_apply, hattempt, hmem] at h

end Vault

namespace Session

variable {call : Call} {s : Session} {id id' : Uuid} {m : SecretMeta} {p : SecretPayload}

theorem sealSecret_ne_vault {inner outer : Key} {e : VaultError}
    (h : sealSecret P call inner outer m p = .error (.error (.vault e))) : False := by
  unfold sealSecret Call.newUuid at h
  split at h
  · simp [Fallible.bind_eq_error_iff, Fallible.mapError_eq_error_iff, pure, Except.pure] at h
  · cases h

theorem not_mem_of_openSecret
    (h : (openSecret P call id s).1 = .error (.error (.vault (.notFound id')))) :
    P.uuidText id ∉ s.vault.secrets := by
  simp only [openSecret, Stateful.bind_apply, Stateful.read_apply, Stateful.lift_apply] at h
  rcases hblob : s.vault.getBlob P call.sql id with (e | _) | blob
  · simp only [hblob, Fallible.mapError_error] at h
    cases h
    exact Vault.not_mem_of_getBlob hblob
  · rw [hblob] at h
    cases h
  · by_cases hlive : s.Live call.started
    · have hunlocked := ensureUnlocked_of_live hlive
      obtain ⟨inner, _, hinner, _, _⟩ := hlive
      simp only [hblob, Fallible.mapError_ok, hunlocked, keys_of_inner hinner] at h
      rcases hopen : openPayload P id inner s.outerKek blob with (e | _) | payload <;>
        simp [hopen, Fallible.mapError] at h
    · simp [hblob, ensureUnlocked_of_not_live hlive] at h

theorem not_mem_of_metaFor
    (h : (metaFor P call id s).1 = .error (.error (.vault (.notFound id')))) :
    P.uuidText id ∉ s.vault.secrets := by
  simp only [metaFor, Stateful.bind_apply, Stateful.read_apply, Stateful.lift_apply] at h
  rcases hrow : s.vault.getMetaRow P call.sql id with (e | _) | row
  · simp only [hrow, Fallible.mapError_error] at h
    cases h
    exact Vault.not_mem_of_getMetaRow hrow
  · rw [hrow] at h
    cases h
  · by_cases hlive : s.Live call.started
    · have hunlocked := ensureUnlocked_of_live hlive
      obtain ⟨inner, _, hinner, _, _⟩ := hlive
      simp only [hrow, Fallible.mapError_ok, hunlocked, keys_of_inner hinner] at h
      rcases hopen : openMeta P row.metaId row.id inner s.outerKek row.metaBlob with
        (e | _) | m <;> simp [hopen, Fallible.mapError] at h
    · simp [hrow, ensureUnlocked_of_not_live hlive] at h

theorem not_mem_of_update
    (h : (update P call m p s).1 = .error (.error (.vault (.notFound id')))) :
    P.uuidText m.id ∉ s.vault.secrets := by
  by_cases hlive : s.Live call.started
  · have hunlocked := ensureUnlocked_of_live hlive
    obtain ⟨inner, _, hinner, _, _⟩ := hlive
    simp only [update, Stateful.bind_apply, hunlocked, Stateful.read_apply,
      Stateful.lift_apply, keys_of_inner hinner] at h
    rcases hseal : sealSecret P call inner s.outerKek m p with e | ⟨metaId, metaBlob, payloadBlob⟩
    · rw [hseal] at h
      obtain rfl : e = .error (.vault (.notFound id')) := Except.error.inj h
      exact (sealSecret_ne_vault hseal).elim
    · simp only [hseal, onVault_apply] at h
      rcases hrow : (Vault.updateRow P call.sql m.id metaId metaBlob payloadBlob s.vault).1 with
        (e | _) | _
      · simp only [hrow, Fallible.mapError_error] at h
        cases h
        exact Vault.not_mem_of_updateRow hrow
      · simp [hrow, Fallible.mapError] at h
      · simp [hrow] at h
  · simp [update, Stateful.bind_apply, ensureUnlocked_of_not_live hlive] at h

theorem not_mem_of_delete
    (h : (delete P call id s).1 = .error (.error (.vault (.notFound id')))) :
    P.uuidText id ∉ s.vault.secrets := by
  obtain ⟨e, hrow, hvault⟩ := (Fallible.mapError_eq_error_iff ..).mp h
  cases hvault
  exact Vault.not_mem_of_delete hrow

end Session

/-! ## The answers of the map -/

/-- The map after these calls. -/
def Contents.afterCalls (c : Contents) (log : List Event) : Contents :=
  log.foldl (fun c e => c.perform e.op e.succeeded) c

theorem Contents.foldl_next_map_call (c : Contents) (log : List Event) :
    (log.map Action.call).foldl Contents.next c = c.afterCalls log := by
  rw [List.foldl_map, Contents.afterCalls]
  rfl

/-- The reply is right for a map with these contents: what was read is stored there, what
was added was not there, and what was changed or deleted was. -/
def Op.FitsReply (P : Primitives) (c : Contents) : Op → Reply → Prop
  | .list, .metas metas => Lists P c metas
  | .metaFor id, .secretMeta m => ∃ p, c.secret id = some (m, p)
  | .openSecret id, .payload p => ∃ m, c.secret id = some (m, p)
  | .add m _, _ => c.secret m.id = none
  | .update m _, _ => c.secret m.id ≠ none
  | .delete id, _ => c.secret id ≠ none
  | _, _ => True

/-- The secret whose row must be there. -/
def Op.looksFor : Op → Option Uuid
  | .metaFor id => some id
  | .openSecret id => some id
  | .update m _ => some m.id
  | .delete id => some id
  | _ => none

/-- The answer is right for a map with these contents: the reply is, and what was not found
is not there. -/
def Event.Fits (P : Primitives) (c : Contents) (e : Event) : Prop :=
  match e.result with
  | .ok reply => e.op.FitsReply P c reply
  | .error (.error (.vault (.notFound _))) => ∀ id, e.op.looksFor = some id → c.secret id = none
  | .error _ => True

/-- A run of one session is a run of a process. -/
theorem Session.run_process {s s' : Session} {log : List Event}
    (h : Run (Session.Step P) s log s') :
    Run (Process.Step P) (.running s) (log.map Action.call) (.running s') :=
  h.map Process.running Action.call fun _ _ _ hstep => .call hstep

section Refinement

variable {R : KeyRing → Prop} {permitted : InnerKeyProvider → Prop} {innerKek outerKek : Key}
  {call : Call} {s s' : Session} {c : Contents}

theorem Session.live_of_ok (op : Op) (hkey : op.needsKey) {reply : Reply}
    (h : (Session.perform P call op s).1 = .ok reply) : s.Live call.started := by
  have heffect := Session.perform_effect P call op s
  rw [h] at heffect
  exact heffect.live hkey

theorem Session.live_of_list {metas : List SecretMeta}
    (h : (Session.list P call s).1 = .ok metas) : s.Live call.started := by
  have hreply : (Session.perform P call .list s).1 = .ok (.metas metas) := by
    rw [Session.perform, Stateful.fst_bind_pure, h]
    rfl
  exact Session.live_of_ok .list rfl hreply

theorem Session.live_of_metaFor {id : Uuid} {m : SecretMeta}
    (h : (Session.metaFor P call id s).1 = .ok m) : s.Live call.started := by
  have hreply : (Session.perform P call (.metaFor id) s).1 = .ok (.secretMeta m) := by
    rw [Session.perform, Stateful.fst_bind_pure, h]
    rfl
  exact Session.live_of_ok (.metaFor id) rfl hreply

theorem Session.live_of_openSecret {id : Uuid} {p : SecretPayload}
    (h : (Session.openSecret P call id s).1 = .ok p) : s.Live call.started := by
  have hreply : (Session.perform P call (.openSecret id) s).1 = .ok (.payload p) := by
    rw [Session.perform, Stateful.fst_bind_pure, h]
    rfl
  exact Session.live_of_ok (.openSecret id) rfl hreply

/-- What `list` returns is the list of what is stored. -/
theorem Refines.lists (hP : P.Lawful) (h : Refines P R innerKek outerKek (.running s) c)
    {metas : List SecretMeta} (hlist : (Session.list P call s).1 = .ok metas) :
    Lists P c metas := by
  have hlive := Session.live_of_list hlist
  have ⟨inner, _, hinner, _, _⟩ := hlive
  have hfault : call.sql.fault .listRows = none := by
    rw [Session.list_of_live hlive hinner] at hlist
    obtain ⟨rows, hrows, _⟩ := (Fallible.bind_eq_ok_iff ..).mp hlist
    rw [Fallible.mapError_eq_ok_iff] at hrows
    exact ((Sql.attempt_eq_ok_iff ..).mp hrows).1
  obtain ⟨found, hfound, hlists⟩ := h.list hP hlive hfault
  rw [hlist] at hfound
  cases hfound
  exact hlists

/-- What `meta_for` returns is stored. -/
theorem Refines.describes (hP : P.Lawful) (h : Refines P R innerKek outerKek (.running s) c)
    {id : Uuid} {m : SecretMeta} (hmeta : (Session.metaFor P call id s).1 = .ok m) :
    ∃ p, c.secret id = some (m, p) := by
  have hlive := Session.live_of_metaFor hmeta
  have ⟨inner, _, hinner, _, _⟩ := hlive
  have hfault : call.sql.fault .getMetaRow = none := by
    rw [Session.metaFor_of_live hlive hinner] at hmeta
    obtain ⟨row, hrow, _⟩ := (Fallible.bind_eq_ok_iff ..).mp hmeta
    rw [Fallible.mapError_eq_ok_iff, Vault.getMetaRow, Fallible.bind_eq_ok_iff] at hrow
    obtain ⟨_, hattempt, _⟩ := hrow
    exact ((Sql.attempt_eq_ok_iff ..).mp hattempt).1
  rw [h.metaFor hP hlive hfault] at hmeta
  split at hmeta
  · rename_i m' p hsecret
    cases hmeta
    exact ⟨p, hsecret⟩
  · cases hmeta

/-- What `open` returns is stored. -/
theorem Refines.opens (hP : P.Lawful) (h : Refines P R innerKek outerKek (.running s) c)
    {id : Uuid} {p : SecretPayload} (hopen : (Session.openSecret P call id s).1 = .ok p) :
    ∃ m, c.secret id = some (m, p) := by
  have hlive := Session.live_of_openSecret hopen
  have ⟨inner, _, hinner, _, _⟩ := hlive
  have hfault : call.sql.fault .getBlob = none := by
    rw [Session.openSecret_of_live hlive hinner] at hopen
    split at hopen
    · rename_i p' hblob
      obtain ⟨blob, hblob, _⟩ := (Fallible.bind_eq_ok_iff ..).mp hblob
      rw [Fallible.mapError_eq_ok_iff, Vault.getBlob, Fallible.bind_eq_ok_iff] at hblob
      obtain ⟨_, hattempt, _⟩ := hblob
      exact ((Sql.attempt_eq_ok_iff ..).mp hattempt).1
    · cases hopen
  rw [h.openSecret hP hlive hfault] at hopen
  split at hopen
  · rename_i m p' hsecret
    cases hopen
    exact ⟨m, hsecret⟩
  · cases hopen

/-- What a call reads, changes or refuses to add is there or not, as the map has it. -/
theorem Refines.fitsReply (hP : P.Lawful) (h : Refines P R innerKek outerKek (.running s) c)
    {op : Op} {reply : Reply} (hreply : (Session.perform P call op s).1 = .ok reply) :
    op.FitsReply P c reply := by
  have heffect := Session.perform_effect P call op s
  rw [hreply] at heffect
  generalize (Session.perform P call op s).2 = s' at heffect
  cases op with
  | list =>
      rw [Session.perform, Stateful.fst_bind_pure] at hreply
      rcases hlist : (Session.list P call s).1 with e | metas
      · rw [hlist] at hreply
        cases hreply
      · rw [hlist] at hreply
        cases hreply
        exact h.lists hP hlist
  | metaFor id =>
      rw [Session.perform, Stateful.fst_bind_pure] at hreply
      rcases hmeta : (Session.metaFor P call id s).1 with e | m
      · rw [hmeta] at hreply
        cases hreply
      · rw [hmeta] at hreply
        cases hreply
        exact h.describes hP hmeta
  | openSecret id =>
      rw [Session.perform, Stateful.fst_bind_pure] at hreply
      rcases hopen : (Session.openSecret P call id s).1 with e | p
      · rw [hopen] at hreply
        cases hreply
      · rw [hopen] at hreply
        cases hreply
        exact h.opens hP hopen
  | add m p =>
      cases heffect with
      | added m p inner row hlive hinner hfresh hrow =>
          by_contra hstored
          exact hfresh ((h.rows.mem_iff hP m.id).mpr hstored)
  | update m p =>
      cases heffect with
      | updated m p inner row hlive hinner hmem hrow => exact (h.rows.mem_iff hP m.id).mp hmem
  | delete id =>
      cases heffect with
      | deleted id hmem => exact (h.rows.mem_iff hP id).mp hmem
  | _ => trivial

/-- What is not found is not stored. -/
theorem Refines.not_stored (hP : P.Lawful) (h : Refines P R innerKek outerKek (.running s) c)
    {op : Op} {id id' : Uuid} (hid : op.looksFor = some id)
    (hresult : (Session.perform P call op s).1 = .error (.error (.vault (.notFound id')))) :
    c.secret id = none := by
  by_contra hstored
  have hmem := (h.rows.mem_iff hP id).mpr hstored
  cases op with
  | metaFor id =>
      cases hid
      exact Session.not_mem_of_metaFor (Stateful.fst_of_bind_pure_error hresult) hmem
  | openSecret id =>
      cases hid
      exact Session.not_mem_of_openSecret (Stateful.fst_of_bind_pure_error hresult) hmem
  | update m p =>
      cases hid
      exact Session.not_mem_of_update (Stateful.fst_of_bind_pure_error hresult) hmem
  | delete id =>
      cases hid
      exact Session.not_mem_of_delete (Stateful.fst_of_bind_pure_error hresult) hmem
  | _ => cases hid

theorem Refines.fits (hP : P.Lawful) (h : Refines P R innerKek outerKek (.running s) c)
    {e : Event} (hstep : Session.Step P s e s') : e.Fits P c := by
  have hresult : (Session.perform P e.call e.op s).1 = e.result := congrArg Prod.fst hstep
  unfold Event.Fits
  split
  · rename_i reply hreply
    exact h.fitsReply hP (hresult.trans hreply)
  · rename_i id hnotFound
    exact fun id hid => h.not_stored hP hid (hresult.trans hnotFound)
  · trivial

/-- **Every answer fits.** In a run of a session that starts out as a map, each call is
answered as the map that the calls before it add up to. -/
theorem Refines.answers_fit (hP : P.Lawful) (hprotects : KeyRing.Protects P innerKek permitted R)
    (h : Refines P R innerKek outerKek (.running s) c) {before after : List Event} {e : Event}
    (huses : ∀ e ∈ before, e.op.UsesOnly permitted)
    (hrun : Run (Session.Step P) s (before ++ e :: after) s') :
    e.Fits P (c.afterCalls before) := by
  obtain ⟨mid, hbefore, hrest⟩ := Run.append_iff.mp hrun
  have hprocess := Session.run_process hbefore
  have hmid := h.run hP hprotects (by simp [Action.UnsealsOnly])
    (by simpa [Action.UsesOnly] using huses) hprocess
  rw [Contents.foldl_next_map_call] at hmid
  cases hrest with
  | cons hstep _ => exact hmid.fits hP hstep

end Refinement

/-! ## The unlock behind an answer -/

/-- The call locked the session. -/
def Event.locks (e : Event) : Prop := e.op = .lock ∧ e.succeeded

/-- This unlock, after these calls: no lock has followed it, and a call since then, which may
be the unlock, has set this deadline. -/
inductive UnlockWindow (timeout : ℕ) (before : List Event) (unlock : Event) :
    List Event → Instant → Prop
  | intro {after : List Event} {last : Event} (hunlock : unlock.unlocks)
      (hlast : last ∈ unlock :: after) (hsets : last.setsDeadline)
      (hlocks : ∀ e ∈ after, ¬ e.locks) :
      UnlockWindow timeout before unlock (before ++ unlock :: after) (last.call.ended + timeout)

namespace UnlockWindow

variable {timeout : ℕ} {before log : List Event} {unlock e : Event} {deadline : Instant}

theorem append (h : UnlockWindow timeout before unlock log deadline) (he : ¬ e.locks) :
    UnlockWindow timeout before unlock (log ++ [e]) deadline := by
  obtain ⟨hunlock, hlast, hsets, hlocks⟩ := h
  rw [List.append_assoc, List.cons_append]
  refine .intro hunlock ?_ hsets ?_
  · rw [← List.cons_append]
    exact List.mem_append_left _ hlast
  · intro e' he'
    rcases List.mem_append.mp he' with hold | hnew
    · exact hlocks e' hold
    · rwa [List.mem_singleton.mp hnew]

/-- A call that moves the deadline does not lock. -/
theorem move (h : UnlockWindow timeout before unlock log deadline) (he : ¬ e.locks)
    (hsets : e.setsDeadline) :
    UnlockWindow timeout before unlock (log ++ [e]) (e.call.ended + timeout) := by
  obtain ⟨hunlock, _, _, hlocks⟩ := h
  rw [List.append_assoc, List.cons_append]
  refine .intro hunlock (by simp) hsets ?_
  intro e' he'
  rcases List.mem_append.mp he' with hold | hnew
  · exact hlocks e' hold
  · rwa [List.mem_singleton.mp hnew]

theorem unlocked (he : e.unlocks) :
    UnlockWindow timeout log e (log ++ [e]) (e.call.ended + timeout) :=
  .intro he List.mem_cons_self (by rw [Event.setsDeadline, he, Bool.or_true]) (by simp)

/-- The unlock is in the log, where the window says. -/
theorem log_eq (h : UnlockWindow timeout before unlock log deadline) :
    ∃ after, log = before ++ unlock :: after ∧ unlock.unlocks := by
  obtain ⟨hunlock, _, _, _⟩ := h
  exact ⟨_, rfl, hunlock⟩

end UnlockWindow

namespace Session

variable {call : Call} {s s' : Session}

theorem timeout_touch (now : Instant) (s : Session) : (s.touch now).timeout = s.timeout := by
  unfold touch
  split <;> rfl

theorem timeout_tick (now : Instant) (s : Session) : (s.tick now).2.timeout = s.timeout := by
  by_cases hlive : s.Live now
  · rw [(tick_of_live hlive).2]
  · exact (tick_of_not_live hlive).2.2.2.2

/-- No call changes the timeout. -/
theorem Effect.timeout_eq {op : Op} {ok : Bool} (h : Effect P call s op ok s') :
    s'.timeout = s.timeout := by
  cases h <;> simp [timeout_touch, timeout_tick, lock, written, Session.enrolled]

theorem Effect.deadline_of_isUnlock {op : Op} (h : Effect P call s op true s')
    (hop : op.isUnlock) : s'.deadline = some (call.ended + s.timeout) := by
  cases h with
  | unlocked inner innerKek hassert => rfl
  | _ => cases hop

/-- An unlocked session keeps a deadline that was set in the window of its log. -/
structure HasWindow (timeout : ℕ) (log : List Event) (s : Session) : Prop where
  timeout_eq : s.timeout = timeout
  window : s.innerKek.isSome →
    ∃ before unlock deadline, s.deadline = some deadline ∧
      UnlockWindow timeout before unlock log deadline

theorem Step.hasWindow {timeout : ℕ} {log : List Event} {e : Event} (h : Step P s e s')
    (hs : s.HasWindow timeout log) : s'.HasWindow timeout (log ++ [e]) where
  timeout_eq := h.effect.timeout_eq.trans hs.timeout_eq
  window := by
    intro hsome
    have heffect := h.effect
    have hlocks : ¬ e.locks := by
      rintro ⟨hop, hok⟩
      rw [hop, hok] at heffect
      cases heffect
      cases hsome
    by_cases hunlocks : e.unlocks
    · obtain ⟨hop, hok⟩ := Bool.and_eq_true_iff.mp hunlocks
      rw [hok] at heffect
      exact ⟨log, e, _, heffect.deadline_of_isUnlock hop, hs.timeout_eq ▸ .unlocked hunlocks⟩
    · by_cases hmoves : e.movesDeadline
      · obtain ⟨htouches, hok⟩ := Bool.and_eq_true_iff.mp hmoves
        rw [hok] at heffect
        obtain ⟨hinner, hdeadline⟩ := heffect.of_touches htouches
        rw [hinner] at hsome
        obtain ⟨before, unlock, deadline, _, hwindow⟩ := hs.window hsome
        refine ⟨before, unlock, _, hdeadline hsome, hs.timeout_eq ▸ hwindow.move hlocks ?_⟩
        rw [Event.setsDeadline, hmoves, Bool.true_or]
      · rcases heffect.of_not_touches (Bool.eq_false_iff.mpr hmoves)
          (Bool.eq_false_iff.mpr hunlocks) with ⟨hinner, hdeadline⟩ | hnone
        · rw [hinner] at hsome
          obtain ⟨before, unlock, deadline, hold, hwindow⟩ := hs.window hsome
          exact ⟨before, unlock, deadline, hdeadline.trans hold, hwindow.append hlocks⟩
        · rw [hnone] at hsome
          cases hsome

/-- **A live session has its window.** -/
theorem live_in_window {log : List Event} {now : Instant} (h : Run (Step P) s log s')
    (hlocked : s.innerKek = none) (hlive : s'.Live now) :
    ∃ before unlock deadline, UnlockWindow s.timeout before unlock log deadline ∧
      now < deadline := by
  have hwindow : s'.HasWindow s.timeout log :=
    h.history (R := fun log s' => s'.HasWindow s.timeout log)
      (fun _ _ _ _ hs hstep => hstep.hasWindow hs) ⟨rfl, by simp [hlocked]⟩
  obtain ⟨inner, deadline, hinner, hdeadline, hnow⟩ := hlive
  obtain ⟨before, unlock, found, hfound, hset⟩ := hwindow.window (by simp [hinner])
  rw [hdeadline] at hfound
  cases hfound
  exact ⟨before, unlock, deadline, hset, hnow⟩

end Session

end Sypherstore

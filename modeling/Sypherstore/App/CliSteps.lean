/-
# What a command does

Each command, in the session it has unlocked, reads a map from ids to secrets and changes it in
the way it says, whatever is refused to it on the way.
-/

import Sypherstore.App.Cli
import Sypherstore.Core.Answers
import Sypherstore.Logic.Tracking

namespace Sypherstore

open Logic

variable {P : Primitives} {R : KeyRing → Prop} {permitted : InnerKeyProvider → Prop}
  {innerKek outerKek : Key} {c : Contents} {call : Call} {α : Type}

/-! ## The calls of a session -/

namespace Session

/-- A call of a session that refines a map, by what it does to the map. -/
abbrev Tracks {ε : Type} (P : Primitives) (R : KeyRing → Prop) (innerKek outerKek : Key)
    (c : Contents) (x : Stateful Session ε α) (post : Fallible ε α → Contents → Prop) : Prop :=
  Stateful.Tracks (fun s c => Refines P R innerKek outerKek (.running s) c) c x post

theorem tracks_perform (hP : P.Lawful) (hprotects : KeyRing.Protects P innerKek permitted R)
    {op : Op} (huses : op.UsesOnly permitted) :
    Tracks P R innerKek outerKek c (perform P call op)
      fun r c' => c' = c.perform op r.isOk ∧ Event.Fits P c ⟨call, op, r⟩ := by
  intro s hs
  have hstep : Step P s ⟨call, op, (perform P call op s).1⟩ (perform P call op s).2 := rfl
  exact ⟨_, hs.effect hP hprotects huses (perform_effect P call op s), rfl, hs.fits hP hstep⟩

/-- The same for a call that `perform` wraps up. -/
theorem tracks_of_perform (hP : P.Lawful) (hprotects : KeyRing.Protects P innerKek permitted R)
    {op : Op} {x : Stateful Session SessionError α} {reply : α → Reply}
    (hop : perform P call op = (x >>= fun a => pure (reply a))) (huses : op.UsesOnly permitted) :
    Tracks P R innerKek outerKek c x
      fun r c' => c' = c.perform op r.isOk ∧ Event.Fits P c ⟨call, op, r.map reply⟩ := by
  intro s hs
  obtain ⟨c', hend, hchange, hfits⟩ := tracks_perform (c := c) hP hprotects huses s hs
  rw [hop, Stateful.snd_bind_pure] at hend
  rw [hop, Stateful.fst_bind_pure] at hchange hfits
  refine ⟨c', hend, ?_, hfits⟩
  rw [hchange]
  cases (x s).1 <;> rfl

variable (call) in
theorem tracks_list (hP : P.Lawful) (hprotects : KeyRing.Protects P innerKek permitted R) :
    Tracks P R innerKek outerKek c (list P call) fun r c' =>
      (∀ e, r = .error e → c' = c) ∧ ∀ metas, r = .ok metas → c' = c ∧ Lists P c metas := by
  have hop : perform P call .list = (list P call >>= fun metas => pure (.metas metas)) := rfl
  refine (tracks_of_perform hP hprotects hop trivial).mono ?_
  rintro r c' ⟨rfl, hfits⟩
  refine ⟨?_, ?_⟩
  · rintro e rfl
    rfl
  · rintro metas rfl
    exact ⟨rfl, hfits⟩

variable (call) in
theorem tracks_openSecret (hP : P.Lawful) (hprotects : KeyRing.Protects P innerKek permitted R)
    (id : Uuid) : Tracks P R innerKek outerKek c (openSecret P call id) fun r c' =>
      (∀ e, r = .error e → c' = c) ∧
        ∀ p, r = .ok p → c' = c ∧ ∃ m, c.secret id = some (m, p) := by
  have hop : perform P call (.openSecret id) =
      (openSecret P call id >>= fun p => pure (.payload p)) := rfl
  refine (tracks_of_perform hP hprotects hop trivial).mono ?_
  rintro r c' ⟨rfl, hfits⟩
  refine ⟨?_, ?_⟩
  · rintro e rfl
    rfl
  · rintro p rfl
    exact ⟨rfl, hfits⟩

variable (call) in
theorem tracks_add (hP : P.Lawful) (hprotects : KeyRing.Protects P innerKek permitted R)
    (m : SecretMeta) (p : SecretPayload) : Tracks P R innerKek outerKek c (add P call m p)
      fun r c' => (∀ e, r = .error e → c' = c) ∧
        ∀ u, r = .ok u → c.secret m.id = none ∧ c' = c.put m p := by
  have hop : perform P call (.add m p) = (add P call m p >>= fun _ => pure .done) := rfl
  refine (tracks_of_perform hP hprotects hop trivial).mono ?_
  rintro r c' ⟨rfl, hfits⟩
  refine ⟨?_, ?_⟩
  · rintro e rfl
    rfl
  · rintro u rfl
    exact ⟨hfits, rfl⟩

variable (call) in
theorem tracks_delete (hP : P.Lawful) (hprotects : KeyRing.Protects P innerKek permitted R)
    (id : Uuid) : Tracks P R innerKek outerKek c (delete P call id)
      fun r c' => (∀ e, r = .error e → c' = c) ∧ ∀ u, r = .ok u → c' = c.remove id := by
  have hop : perform P call (.delete id) = (delete P call id >>= fun _ => pure .done) := rfl
  refine (tracks_of_perform hP hprotects hop trivial).mono ?_
  rintro r c' ⟨rfl, _⟩
  refine ⟨?_, ?_⟩
  · rintro e rfl
    rfl
  · rintro u rfl
    rfl

variable (call) in
theorem tracks_enrollKey (hP : P.Lawful) (hprotects : KeyRing.Protects P innerKek permitted R)
    {inner : InnerKeyProvider} (hpermitted : permitted inner) (label : String) :
    Tracks P R innerKek outerKek c (enrollKey P call inner label) fun r c' =>
      (∀ e, r = .error e → c' = c) ∧ ∀ u, r = .ok u → c' = c := by
  have hop : perform P call (.enrollKey inner label) =
      (enrollKey P call inner label >>= fun _ => pure .done) := rfl
  refine (tracks_of_perform hP hprotects hop hpermitted).mono ?_
  rintro r c' ⟨rfl, _⟩
  refine ⟨?_, ?_⟩
  · rintro e rfl
    rfl
  · rintro u rfl
    rfl

variable (call) in
theorem tracks_unlock (hP : P.Lawful) (hprotects : KeyRing.Protects P innerKek permitted R)
    {inner : InnerKeyProvider} (hpermitted : permitted inner) :
    Tracks P R innerKek outerKek c (unlock P call inner) fun r c' =>
      (∀ e, r = .error e → c' = c) ∧ ∀ u, r = .ok u → c' = c := by
  have hop : perform P call (.unlock inner) = (unlock P call inner >>= fun _ => pure .done) := rfl
  refine (tracks_of_perform hP hprotects hop hpermitted).mono ?_
  rintro r c' ⟨rfl, _⟩
  refine ⟨?_, ?_⟩
  · rintro e rfl
    rfl
  · rintro u rfl
    rfl

end Session

/-! ## What a command does to the map -/

def CliCommand.isDelete : CliCommand → Bool
  | .delete _ _ _ _ => true
  | _ => false

/-- A command on the map, with what it answers. A failed command changes nothing, but for a
deletion that fails only when the database is compacted. -/
inductive Does (P : Primitives) (S : Searcher) (c : Contents) :
    CliCommand → Fallible CliError CliReport → Contents → Prop
  | failed {command : CliCommand} {e : Fault CliError}
      (h : command.isDelete → ∀ d, e ≠ .error (.deletion (.compacting d))) :
      Does P S c command (.error e) c
  | added {args : AddArgs} {input : SecretInput} {id : Uuid} {now : Int64} {call : Call}
      {value : Bytes} (hvalue : input.value = .ok value) (hne : value ≠ [])
      (hfresh : c.secret id = none) :
      Does P S c (.add args input (some id) now call) (.ok (.added (args.secretMeta id now)))
        (c.put (args.secretMeta id now) { value, notes := none, extra := [] })
  | listed {query host : Option String} {call : Call} {metas : List SecretMeta}
      (hmetas : Lists P c metas) :
      Does P S c (.list query host call) (.ok (listReport S query host metas)) c
  | cancelled {run : DeleteRun} {target : String} {listing deleting : Call}
      (hanswer : run.confirmed = .ok false) :
      Does P S c (.delete run target listing deleting) (.ok (.deletion .cancelled)) c
  | deleted {run : DeleteRun} {target : String} {listing deleting : Call}
      {metas : List SecretMeta} {m : SecretMeta} (hmetas : Lists P c metas)
      (htarget : resolveTarget P metas target = .ok m) (hanswer : run.confirmed = .ok true)
      (hvacuum : run.vacuum = .ok ()) :
      Does P S c (.delete run target listing deleting) (.ok (.deletion (.deleted m.name)))
        (c.remove m.id)
  | deletedOnly {run : DeleteRun} {target : String} {listing deleting : Call}
      {metas : List SecretMeta} {m : SecretMeta} {e : VaultError} (hmetas : Lists P c metas)
      (htarget : resolveTarget P metas target = .ok m) (hanswer : run.confirmed = .ok true)
      (hvacuum : run.vacuum = .error e) :
      Does P S c (.delete run target listing deleting)
        (.error (.error (.deletion (.compacting e)))) (c.remove m.id)
  | enrolled {label : Option String} {labels call : Call} {inner : InnerKeyProvider}
      {existing : List String} :
      Does P S c (.enrollKey label labels inner call)
        (.ok (.enrolled existing (label.getD "backup"))) c
  | tested {call : Call} {metas : List SecretMeta} (hmetas : Lists P c metas) :
      Does P S c (.unlockTest call) (.ok (.unlocked metas.length)) c
  | decrypted {target : String} {listing opening : Call} {output : Except IoError Unit}
      {metas : List SecretMeta} {m : SecretMeta} {p : SecretPayload} (hmetas : Lists P c metas)
      (htarget : resolveTarget P metas target = .ok m) (hsecret : c.secret m.id = some (m, p)) :
      Does P S c (.decrypt target listing opening output) (.ok (.printed (p.value ++ [0x0a]))) c

/-- A command other than `delete` that fails changes nothing. -/
theorem Does.of_error {S : Searcher} {command : CliCommand} {e : Fault CliError}
    (h : command.isDelete = false) : Does P S c command (.error e) c :=
  .failed fun hdelete => absurd (h.symm.trans hdelete) Bool.false_ne_true

namespace CliCommand

variable {S : Searcher}

/-- Only permitted providers are enrolled. -/
def UsesOnly (permitted : InnerKeyProvider → Prop) : CliCommand → Prop
  | .enrollKey _ _ inner _ => permitted inner
  | _ => True

theorem tracks_cmdAdd (hP : P.Lawful) (hprotects : KeyRing.Protects P innerKek permitted R)
    (args : AddArgs) (input : SecretInput) (id : Option Uuid) (now : Int64) (call : Call) :
    Session.Tracks P R innerKek outerKek c (cmdAdd P args input id now call)
      (Does P S c (.add args input id now call)) := by
  refine Stateful.Tracks.lift_bind (fun e _ => .of_error rfl) fun id' hid => ?_
  obtain rfl : id = some id' := by
    cases id with
    | none => cases hid
    | some id => exact congrArg some (Except.ok.inj hid)
  refine Stateful.Tracks.lift_bind (fun e _ => .of_error rfl) fun value hvalue => ?_
  split
  · exact fun s hs => ⟨c, hs, .of_error rfl⟩
  · rename_i hne
    refine Stateful.Tracks.mapError_bind (Session.tracks_add call hP hprotects _ _) ?_ ?_
    · exact fun _ _ _ => .of_error rfl
    · rintro u c' ⟨hfresh, rfl⟩
      exact .pure (.added hvalue (by simpa using hne) hfresh)

theorem tracks_cmdList (hP : P.Lawful) (hprotects : KeyRing.Protects P innerKek permitted R)
    (query host : Option String) (call : Call) :
    Session.Tracks P R innerKek outerKek c (cmdList P S query host call)
      (Does P S c (.list query host call)) := by
  refine Stateful.Tracks.mapError_bind (Session.tracks_list call hP hprotects)
    (fun _ _ _ => .of_error rfl) ?_
  rintro metas c' ⟨rfl, hmetas⟩
  exact .pure (.listed hmetas)

theorem tracks_cmdUnlockTest (hP : P.Lawful)
    (hprotects : KeyRing.Protects P innerKek permitted R) (call : Call) :
    Session.Tracks P R innerKek outerKek c (cmdUnlockTest P call)
      (Does P S c (.unlockTest call)) := by
  refine Stateful.Tracks.mapError_bind (Session.tracks_list call hP hprotects)
    (fun _ _ _ => .of_error rfl) ?_
  rintro metas c' ⟨rfl, hmetas⟩
  exact .pure (.tested hmetas)

theorem ofExcept_mapError_eq_ok {ε ε' : Type} {convert : ε → ε'} {x : Except ε α} {a : α}
    (h : (Fallible.ofExcept x).mapError convert = .ok a) : x = .ok a :=
  (Fallible.ofExcept_eq_ok_iff x a).mp ((Fallible.mapError_eq_ok_iff convert _ a).mp h)

theorem tracks_cmdDecrypt (hP : P.Lawful) (hprotects : KeyRing.Protects P innerKek permitted R)
    (target : String) (listing opening : Call) (output : Except IoError Unit) :
    Session.Tracks P R innerKek outerKek c (cmdDecrypt P target listing opening output)
      (Does P S c (.decrypt target listing opening output)) := by
  refine Stateful.Tracks.mapError_bind (Session.tracks_list listing hP hprotects)
    (fun _ _ _ => .of_error rfl) ?_
  rintro metas c' ⟨rfl, hmetas⟩
  refine Stateful.Tracks.lift_bind (fun _ _ => .of_error rfl) fun m hm => ?_
  have htarget := ofExcept_mapError_eq_ok hm
  refine Stateful.Tracks.mapError_bind (Session.tracks_openSecret opening hP hprotects m.id)
    (fun _ _ _ => .of_error rfl) ?_
  rintro p c' ⟨rfl, m', hsecret⟩
  refine Stateful.Tracks.lift_bind (fun _ _ => .of_error rfl) fun _ _ => ?_
  -- The list and the opened secret agree on what is stored under the id.
  obtain ⟨p', hlisted⟩ := (hmetas.2.1 m).mp (designates_of_resolve hmetas.1 htarget).1
  obtain ⟨rfl, _⟩ := Prod.mk.inj (Option.some.inj (hsecret.symm.trans hlisted))
  exact .pure (.decrypted hmetas htarget hsecret)

theorem tracks_cmdEnrollKey (hP : P.Lawful) (hprotects : KeyRing.Protects P innerKek permitted R)
    (label : Option String) (labels : Call) {inner : InnerKeyProvider}
    (hpermitted : permitted inner) (call : Call) :
    Session.Tracks P R innerKek outerKek c (cmdEnrollKey P label labels inner call)
      (Does P S c (.enrollKey label labels inner call)) := by
  have hread : Session.Tracks P R innerKek outerKek c
      (Stateful.read : Stateful Session CliError Session) fun r c' =>
        (∃ s, r = .ok s) ∧ c' = c := .read fun s _ => ⟨⟨s, rfl⟩, rfl⟩
  refine hread.bind ?_ ?_
  · rintro e c' ⟨⟨_, he⟩, _⟩
    cases he
  rintro s c' ⟨_, rfl⟩
  refine Stateful.Tracks.lift_bind (fun _ _ => .of_error rfl) fun existing _ => ?_
  refine Stateful.Tracks.mapError_bind
    (Session.tracks_enrollKey call hP hprotects hpermitted (label.getD "backup"))
    (fun _ _ _ => .of_error rfl) ?_
  rintro _ c' rfl
  exact .pure .enrolled

/-- A deletion that fails before anything is compacted. -/
theorem does_of_failed_delete {run : DeleteRun} {target : String} {listing deleting : Call}
    {e : Fault DeleteError} (h : ∀ d, e ≠ .error (.compacting d)) :
    Does P S c (.delete run target listing deleting)
      ((Fallible.mapError CliError.deletion (.error e : Fallible DeleteError DeleteReport)).map
        CliReport.deletion) c := by
  cases e with
  | error fault =>
      refine .failed fun _ d heq => h d ?_
      cases heq
      rfl
  | panic =>
      refine .failed fun _ d heq => ?_
      cases heq

/-- An error that was given another name has that name. -/
theorem ne_of_mapError_eq {ε ε' : Type} {convert : ε → ε'} {e : Fault ε} {e' : Fault ε'} {bad : ε'}
    (h : Fallible.mapError convert (.error e : Fallible ε α) = .error e')
    (hne : ∀ x, convert x ≠ bad) : e' ≠ .error bad := by
  rintro rfl
  cases e with
  | error x => exact hne x (Fault.error.inj (Except.error.inj h))
  | panic => cases h

theorem confirmed_ne_compacting {run : DeleteRun} {e : Fault DeleteError}
    (h : run.confirmed = .error e) (d : VaultError) : e ≠ .error (.compacting d) := by
  cases hforce : run.force with
  | true =>
      rw [DeleteRun.confirmed, if_pos hforce] at h
      cases h
  | false =>
      rw [DeleteRun.confirmed, if_neg (by simp [hforce])] at h
      cases hanswer : run.answer with
      | ok text =>
          rw [hanswer] at h
          cases h
      | error fault =>
          rw [hanswer] at h
          cases h
          nofun

theorem tracks_cmdDelete (hP : P.Lawful) (hprotects : KeyRing.Protects P innerKek permitted R)
    (run : DeleteRun) (target : String) (listing deleting : Call) :
    Session.Tracks P R innerKek outerKek c (cmdDelete P run target listing deleting)
      fun r c' => Does P S c (.delete run target listing deleting)
        ((Fallible.mapError CliError.deletion r).map CliReport.deletion) c' := by
  refine Stateful.Tracks.mapError_bind (Session.tracks_list listing hP hprotects) ?_ ?_
  · intro e e' he
    exact does_of_failed_delete fun d => ne_of_mapError_eq he fun _ => nofun
  rintro metas c' ⟨rfl, hmetas⟩
  refine Stateful.Tracks.lift_bind ?_ fun m hm => ?_
  · intro e he
    cases hresolve : resolveTarget P metas target with
    | error fault =>
        rw [hresolve] at he
        exact does_of_failed_delete fun d => ne_of_mapError_eq he fun _ => nofun
    | ok m =>
        rw [hresolve] at he
        cases he
  have htarget := ofExcept_mapError_eq_ok hm
  refine Stateful.Tracks.lift_bind ?_ fun goOn hanswer => ?_
  · intro e he
    exact does_of_failed_delete (confirmed_ne_compacting he)
  cases goOn with
  | false => exact .pure (.cancelled hanswer)
  | true =>
      refine Stateful.Tracks.mapError_bind (Session.tracks_delete deleting hP hprotects m.id) ?_ ?_
      · intro e e' he
        exact does_of_failed_delete fun d => ne_of_mapError_eq he fun _ => nofun
      rintro u c' rfl
      refine Stateful.Tracks.lift_bind ?_ fun v hvacuum => ?_
      · intro e he
        cases hrun : run.vacuum with
        | error fault =>
            rw [hrun] at he
            obtain rfl := Except.error.inj he
            exact .deletedOnly hmetas htarget hanswer hrun
        | ok u =>
            rw [hrun] at he
            cases he
      · exact .pure (.deleted hmetas htarget hanswer (ofExcept_mapError_eq_ok hvacuum))

/-- **What a command does to the map**, whatever it ends with. -/
theorem tracks_body (hP : P.Lawful) (hprotects : KeyRing.Protects P innerKek permitted R)
    {command : CliCommand} (huses : command.UsesOnly permitted) :
    Session.Tracks P R innerKek outerKek c (command.body P S) (Does P S c command) := by
  cases command with
  | add args input id now call => exact tracks_cmdAdd hP hprotects args input id now call
  | list query host call => exact tracks_cmdList hP hprotects query host call
  | delete run target listing deleting =>
      have hdelete : Session.Tracks P R innerKek outerKek c
          ((cmdDelete P run target listing deleting).mapError .deletion) fun r c' =>
            Does P S c (.delete run target listing deleting) (r.map .deletion) c' :=
        .mapError (tracks_cmdDelete hP hprotects run target listing deleting)
      exact hdelete.bind (fun e c' h => h) fun report c' h => .pure h
  | enrollKey label labels inner call =>
      exact tracks_cmdEnrollKey hP hprotects label labels huses call
  | unlockTest call => exact tracks_cmdUnlockTest hP hprotects call
  | decrypt target listing opening output =>
      exact tracks_cmdDecrypt hP hprotects target listing opening output

end CliCommand

end Sypherstore

/-
# The command line as a map

Every command opens the files anew, so what one of them has stored another one finds only if it
is on the disk. From `init` on the files stand for a map from ids to secrets, and every sequence
of commands is one on that map, whatever is refused on the way.
-/

import Sypherstore.App.CliSteps
import Sypherstore.App.Init
import Sypherstore.Core.Filtering
import Sypherstore.Core.UnlockSoundness

namespace Sypherstore

open Logic

variable {env : Platform} {paths : VaultPaths} {run : Invocation} {S : Searcher}
  {R : KeyRing → Prop} {permitted : InnerKeyProvider → Prop} {innerKek outerKek : Key}
  {c : Contents} {v : Vault} {fs fs' : FileSystem}

/-! ## Opening the files -/

/-- Restricting the mode of the database leaves the vault there. -/
theorem HoldsVault.setOwnerOnly_keeps (disk : Disk) :
    Stateful.Keeps (fun fs => HoldsVault env paths fs v outerKek) (setOwnerOnly disk paths.db) := by
  intro fs ⟨⟨d, hread, hstores⟩, hsealed⟩
  have hbeside : ∀ {q : Path}, q ≠ paths.db → ((setOwnerOnly disk paths.db fs).2).file q =
      fs.file q := fun hq => Sypherstore.setOwnerOnly_keeps disk hq fs rfl
  refine ⟨⟨d, ?_, hstores⟩, hsealed.congr (hbeside (beside_tpmSealedPub paths).db)
    (hbeside (beside_tpmSealedPriv paths).db)⟩
  rw [← hread, readDatabase_congr (contents_setOwnerOnly disk paths.db fs)
    (congrArg _ (hbeside (db_paths_ne paths).1.symm))]

/-- What a connection leaves is the vault it was given. -/
theorem HoldsVault.written (hsqlite : env.sqlite.Lawful) {d : Database} {v' : Vault}
    (h : HoldsVault env paths fs v outerKek) (hstores : d.Stores v') :
    HoldsVault env paths (writeDatabase env.sqlite paths d fs) v' outerKek :=
  ⟨⟨d, readDatabase_writeDatabase hsqlite d fs, hstores⟩,
    h.sealed.congr (file_writeDatabase_of_beside (beside_tpmSealedPub paths) d fs)
      (file_writeDatabase_of_beside (beside_tpmSealedPriv paths) d fs)⟩

/-- Opening the database leaves the vault there, also when it fails. -/
theorem HoldsVault.openVault_keeps (hsqlite : env.sqlite.Lawful) (disk : Disk) (sql : Sql) :
    Stateful.Keeps (fun fs => HoldsVault env paths fs v outerKek)
      (openVault env.sqlite paths disk sql) := by
  have htracks : Stateful.Tracks (fun fs v => HoldsVault env paths fs v outerKek) v
      (openVault env.sqlite paths disk sql) fun _ v' => v' = v := by
    refine .keeps_bind (.mapError (paths.ensureDirs_keeps disk _) _) (fun _ => rfl) fun _ => ?_
    refine .lift_bind (fun _ _ => rfl) fun _ _ => ?_
    refine .keeps_bind (.modify fun fs hfs => ?_) (fun _ => rfl) fun _ => ?_
    · obtain ⟨d, hread, _⟩ := hfs.database
      rw [createDb_of_holds (holds_db_of_readDatabase hread)]
      exact hfs
    have hread : Stateful.Tracks (fun fs v => HoldsVault env paths fs v outerKek) v
        (Stateful.read : Stateful FileSystem VaultError FileSystem) fun r v' =>
          v' = v ∧ ∀ fs, r = .ok fs → HoldsVault env paths fs v outerKek := by
      refine .read fun fs hfs => ⟨rfl, ?_⟩
      rintro _ ⟨⟩
      exact hfs
    refine hread.bind (fun _ _ h => h.1) ?_
    rintro fs v' ⟨rfl, hfs⟩
    obtain ⟨⟨d, hread, hstores⟩, _⟩ := hfs fs rfl
    refine .lift_bind (fun _ _ => rfl) fun d' hd' => ?_
    obtain rfl := Except.ok.inj (hread.symm.trans hd')
    refine .lift_bind (fun _ _ => rfl) fun _ _ => ?_
    refine .keeps_bind (fun fs hfs => hfs.written hsqlite ?_) (fun _ => rfl) fun _ => ?_
    · have hmigrate : Stateful.Keeps (fun d => d.Stores v') (migrate sql) :=
        fun d hd => migrate_stores rfl hd
      exact hmigrate.bind (fun _ => .read) d hstores
    · exact .keeps_bind (.mapError (HoldsVault.setOwnerOnly_keeps disk) _) (fun _ => rfl)
        fun _ => .pure rfl
  intro fs hfs
  obtain ⟨_, hend, rfl⟩ := htracks fs hfs
  exact hend

/-- Opening without a touch leaves the vault there, also when it fails. -/
theorem HoldsVault.openLockedOnly_keeps (hsqlite : env.sqlite.Lawful) :
    Stateful.Keeps (fun fs => HoldsVault env paths fs v outerKek)
      (openLockedOnly env paths run) := by
  refine Stateful.Keeps.bind .read fun fs => ?_
  split
  · exact .raise _
  refine Stateful.Keeps.bind (.lift _) fun _ => ?_
  refine Stateful.Keeps.bind (.mapError (HoldsVault.openVault_keeps hsqlite _ _) _) fun _ => ?_
  refine Stateful.Keeps.bind .read fun _ => ?_
  refine Stateful.Keeps.bind (.lift _) fun _ => ?_
  refine Stateful.Keeps.bind (.lift _) fun _ => ?_
  exact .pure _

/-! ## The files hold a map -/

/-- The files hold a vault whose rows are this map. -/
def HoldsMap (env : Platform) (paths : VaultPaths) (R : KeyRing → Prop) (innerKek outerKek : Key)
    (fs : FileSystem) (c : Contents) : Prop :=
  ∃ v, HoldsVault env paths fs v outerKek ∧
    Refines env.primitives R innerKek outerKek (.closed v) c

theorem Database.Stores.withVault {d : Database} (h : d.Stores v) (v' : Vault) :
    (d.withVault v').Stores v' := ⟨rfl, by simp [Database.withVault, h.secrets]⟩

/-- A session that has just been opened stands for what the files stand for. -/
theorem Refines.ofClosed {P : Primitives} (h : Refines P R innerKek outerKek (.closed v) c)
    (timeout : ℕ) :
    Refines P R innerKek outerKek (.running ⟨v, outerKek, none, none, timeout⟩) c where
  holds := h.holds
  ring := h.ring
  outer := by
    rintro s ⟨⟩
    rfl
  inner := by
    rintro s ⟨⟩
    exact .inl rfl

theorem Refines.toClosed {P : Primitives} {s : Session}
    (h : Refines P R innerKek outerKek (.running s) c) :
    Refines P R innerKek outerKek (.closed s.vault) c where
  holds := h.holds
  ring := h.ring
  outer := nofun
  inner := nofun

theorem tracks_openLockedOnly (hsqlite : env.sqlite.Lawful) (run : Invocation) :
    Stateful.Tracks (HoldsMap env paths R innerKek outerKek) c (openLockedOnly env paths run)
      fun r c' => (∀ e, r = .error e → c' = c) ∧ ∀ opened, r = .ok opened →
        c' = c ∧ opened.2.Stores opened.1.vault ∧
          Refines env.primitives R innerKek outerKek (.running opened.1) c := by
  intro fs ⟨v, hholds, hrefines⟩
  refine ⟨c, ⟨v, HoldsVault.openLockedOnly_keeps hsqlite fs hholds, hrefines⟩, fun _ _ => rfl, ?_⟩
  rintro ⟨s, d⟩ hok
  obtain ⟨_, hstores, timeout, rfl⟩ := hholds.opened hsqlite (Prod.ext hok rfl)
  exact ⟨rfl, hstores, hrefines.ofClosed timeout⟩

/-- What the calls of a session do to the map is in the files when it is over. -/
theorem tracks_onSession (hsqlite : env.sqlite.Lawful) {s : Session} {d : Database}
    (hstores : d.Stores s.vault)
    (hrefines : Refines env.primitives R innerKek outerKek (.running s) c) {α : Type}
    {x : Stateful Session CliError α} {post : Fallible CliError α → Contents → Prop}
    (hx : Session.Tracks env.primitives R innerKek outerKek c x post) :
    Stateful.Tracks (HoldsMap env paths R innerKek outerKek) c (onSession env paths s d x)
      post := by
  intro fs ⟨v, hholds, _⟩
  obtain ⟨c', hend, hpost⟩ := hx s hrefines
  exact ⟨c', ⟨_, hholds.written hsqlite (hstores.withVault _), hend.toClosed⟩, hpost⟩

/-- **Step lemma.** A command on the files does to the map what it says. -/
theorem tracks_execute (hP : env.primitives.Lawful) (hsqlite : env.sqlite.Lawful)
    (hprotects : KeyRing.Protects env.primitives innerKek permitted R)
    (hinner : permitted run.inner) (touch : Call) {command : CliCommand}
    (huses : command.UsesOnly permitted) :
    Stateful.Tracks (HoldsMap env paths R innerKek outerKek) c
      (command.execute env paths S run touch) (Does env.primitives S c command) := by
  refine Stateful.Tracks.mapError_bind (tracks_openLockedOnly hsqlite run) ?_ ?_
  · intro e e' he
    exact .failed fun _ d => CliCommand.ne_of_mapError_eq he fun _ => nofun
  rintro ⟨s, d⟩ c' ⟨rfl, hstores, hrefines⟩
  refine tracks_onSession hsqlite hstores hrefines ?_
  refine Stateful.Tracks.mapError_bind (Session.tracks_unlock touch hP hprotects hinner) ?_ ?_
  · intro e e' he
    exact .failed fun _ d => CliCommand.ne_of_mapError_eq he fun _ => nofun
  rintro _ _ rfl
  exact CliCommand.tracks_body hP hprotects huses

/-! ## Runs -/

/-- One use of the program: what is asked of it, and how the machine behaves meanwhile. -/
structure CliUse where
  invocation : Invocation
  touch : Call
  command : CliCommand

/-- A use of the program with what it ends with. -/
abbrev CliEvent := CliUse × Fallible CliError CliReport

/-- The program on the files. -/
def CliStep (env : Platform) (paths : VaultPaths) (S : Searcher) (fs : FileSystem) (e : CliEvent)
    (fs' : FileSystem) : Prop :=
  e.1.command.execute env paths S e.1.invocation e.1.touch fs = (e.2, fs')

/-- The program on a map. -/
def MapStep (P : Primitives) (S : Searcher) (c : Contents) (e : CliEvent) (c' : Contents) : Prop :=
  Does P S c e.1.command e.2 c'

theorem CliCommand.usesOnly_true (command : CliCommand) : command.UsesOnly fun _ => True := by
  cases command <;> trivial

theorem HoldsMap.of_step (hP : env.primitives.Lawful) (hsqlite : env.sqlite.Lawful)
    (hprotects : KeyRing.Protects env.primitives innerKek (fun _ => True) R) {e : CliEvent}
    (h : HoldsMap env paths R innerKek outerKek fs c) (hstep : CliStep env paths S fs e fs') :
    ∃ c', MapStep env.primitives S c e c' ∧ HoldsMap env paths R innerKek outerKek fs' c' := by
  have htracks : Stateful.Tracks (HoldsMap env paths R innerKek outerKek) c
      (e.1.command.execute env paths S e.1.invocation e.1.touch)
      (Does env.primitives S c e.1.command) :=
    tracks_execute hP hsqlite hprotects trivial e.1.touch e.1.command.usesOnly_true
  have hrun : e.1.command.execute env paths S e.1.invocation e.1.touch fs = (e.2, fs') := hstep
  obtain ⟨c', hend, hdoes⟩ := htracks fs h
  rw [hrun] at hend hdoes
  exact ⟨c', hdoes, hend⟩

/-- A run on the files is a run on the map they hold. -/
theorem HoldsMap.of_run (hP : env.primitives.Lawful) (hsqlite : env.sqlite.Lawful)
    (hprotects : KeyRing.Protects env.primitives innerKek (fun _ => True) R)
    {events : List CliEvent} (hrun : Run (CliStep env paths S) fs events fs')
    (h : HoldsMap env paths R innerKek outerKek fs c) :
    ∃ c', Run (MapStep env.primitives S) c events c' ∧
      HoldsMap env paths R innerKek outerKek fs' c' :=
  hrun.refines (fun _ _ _ _ hfs hstep => hfs.of_step hP hsqlite hprotects hstep) h

/-- What `init` leaves holds the empty map. -/
theorem holdsMap_of_cmdInit (hsqlite : env.sqlite.Lawful) (hchip : env.chip.Lawful) {u : Unit}
    (hno : NoVault paths fs) (hinit : cmdInit env paths run fs = (.ok u, fs')) :
    ∃ innerKek outerKek, HoldsMap env paths (KeyRing.Wraps env.primitives innerKek) innerKek
      outerKek fs' .empty := by
  obtain ⟨outerKek, keys, _, hprepare, hholds⟩ := holdsVault_of_cmdInit hsqlite hchip hno hinit
  have hstart : Refines env.primitives (KeyRing.Wraps env.primitives keys.innerKek) keys.innerKek
      outerKek (.running (keys.session env.primitives run.call outerKek .empty 0)) .empty :=
    .of_newKeys keys 0 (.of_prepareKeys hprepare)
  exact ⟨keys.innerKek, outerKek, _, hholds, hstart.toClosed⟩

/-! ## What is stored can be read -/

/-- The vault opens and the touch is accepted, and what `decrypt` asks of the session is not
refused and comes in time. -/
structure CanRead (env : Platform) (paths : VaultPaths) (run : Invocation)
    (touch listing opening : Call) (fs : FileSystem) : Prop where
  opens : ∃ s d fs' s', openLockedOnly env paths run fs = (.ok (s, d), fs') ∧
    Session.unlock env.primitives touch run.inner s = (.ok (), s') ∧ s'.Live listing.started ∧
    s'.Live opening.started
  listing : listing.sql.fault .listRows = none
  opening : opening.sql.fault .getBlob = none

/-- Whoever can read the vault gets the value of every secret of the map by its id. -/
def Prints (env : Platform) (paths : VaultPaths) (S : Searcher) (fs : FileSystem) (c : Contents) :
    Prop :=
  ∀ {run : Invocation} {touch listing opening : Call} {id : Uuid} {target : String}
    {m : SecretMeta} {p : SecretPayload}, CanRead env paths run touch listing opening fs →
    IsFullId env.primitives id target → c.secret id = some (m, p) → ∃ fs',
      (CliCommand.decrypt target listing opening (.ok ())).execute env paths S run touch fs =
        (.ok (.printed (p.value ++ [0x0a])), fs')

/-- Once the vault is open and the touch is accepted, the calls of the command are made. -/
theorem openUnlocked_of_unlocked {s s' s'' : Session} {d : Database} {touch : Call}
    (hopen : openLockedOnly env paths run fs = (.ok (s, d), fs'))
    (hunlock : Session.unlock env.primitives touch run.inner s = (.ok (), s')) {α : Type}
    {x : Stateful Session CliError α} {r : Fallible CliError α} (hx : x s' = (r, s'')) :
    openUnlocked env paths run touch x fs =
      (r, writeDatabase env.sqlite paths (d.withVault s''.vault) fs') := by
  have hcalls : ((Session.unlock env.primitives touch run.inner).mapError CliError.unlocking >>=
      fun _ => x) s = (r, s'') :=
    (Stateful.bind_of_ok ((Stateful.mapError_eq_ok_iff ..).mpr hunlock)).trans hx
  rw [openUnlocked, Stateful.bind_of_ok ((Stateful.mapError_eq_ok_iff ..).mpr hopen)]
  exact congrArg (fun r : Fallible CliError α × Session =>
    (r.1, writeDatabase env.sqlite paths (d.withVault r.2.vault) fs')) hcalls

/-- A session that stands for the map prints what it holds under an id. -/
theorem CliCommand.cmdDecrypt_of_secret {P : Primitives} (hP : P.Lawful) {s : Session}
    (hrefines : Refines P R innerKek outerKek (.running s) c) {listing opening : Call}
    (hlive : s.Live listing.started) (hlive' : s.Live opening.started)
    (hlisting : listing.sql.fault .listRows = none) (hopening : opening.sql.fault .getBlob = none)
    {id : Uuid} {target : String} {m : SecretMeta} {p : SecretPayload}
    (htarget : IsFullId P id target) (hsecret : c.secret id = some (m, p)) :
    ∃ s', cmdDecrypt P target listing opening (.ok ()) s =
      (.ok (.printed (p.value ++ [0x0a])), s') := by
  obtain ⟨metas, hlist, hlists⟩ := hrefines.list hP hlive hlisting
  have hsame : (Session.list P listing s).2 = s := by
    rw [Session.list_of_live hlive (hrefines.inner_of_live hlive)]
  have hlisted : Session.list P listing s = (.ok metas, s) := Prod.ext hlist hsame
  obtain rfl : m.id = id := (c.id_eq hsecret)
  obtain ⟨found, hresolve, hfound⟩ := resolveTarget_of_isFullId htarget
    ((hlists.2.1 m).mpr ⟨p, hsecret⟩) rfl
  have hanswer : (Session.openSecret P opening found.id s).1 = .ok p := by
    rw [hrefines.openSecret hP hlive' hopening, hfound, hsecret]
  have hopened : Session.openSecret P opening found.id s =
      (.ok p, (Session.openSecret P opening found.id s).2) := Prod.ext hanswer rfl
  refine ⟨(Session.openSecret P opening found.id s).2, ?_⟩
  rw [cmdDecrypt, Stateful.bind_of_ok ((Stateful.mapError_eq_ok_iff ..).mpr hlisted), hresolve]
  exact Stateful.bind_of_ok ((Stateful.mapError_eq_ok_iff ..).mpr hopened)

/-- What the files hold is printed. -/
theorem HoldsMap.prints (hP : env.primitives.Lawful) (hsqlite : env.sqlite.Lawful)
    (hprotects : KeyRing.Protects env.primitives innerKek (fun _ => True) R)
    (h : HoldsMap env paths R innerKek outerKek fs c) : Prints env paths S fs c := by
  intro run touch listing opening id target m p hcan htarget hsecret
  obtain ⟨⟨s, d, fs₁, s', hopen, hunlock, hlive, hlive'⟩, hlisting, hopening⟩ := hcan
  obtain ⟨v, hholds, hrefines⟩ := h
  obtain ⟨_, _, timeout, rfl⟩ := hholds.opened hsqlite hopen
  have htrue : (fun _ : InnerKeyProvider => True) run.inner := trivial
  obtain ⟨_, hunlocked, _, hsame⟩ :=
    Session.tracks_unlock touch hP hprotects htrue _ (hrefines.ofClosed timeout)
  rw [hunlock] at hunlocked hsame
  obtain rfl := hsame () rfl
  obtain ⟨s'', hprinted⟩ := CliCommand.cmdDecrypt_of_secret hP hunlocked hlive hlive' hlisting
    hopening htarget hsecret
  exact ⟨_, openUnlocked_of_unlocked hopen hunlock hprinted⟩

/-- **The command line implements a map.** Whatever is asked of the program after `init`, and
whatever is refused to it on the way, every command does to one map what it says, with what the
commands before it have left in the files; and whoever can read the vault at the end gets the
value of every secret of the map. -/
theorem commands_are_a_map (hP : env.primitives.Lawful) (hbinds : env.primitives.aead.BindsKey)
    (hsqlite : env.sqlite.Lawful) (hchip : env.chip.Lawful) {created : FileSystem} {u : Unit}
    {events : List CliEvent} (hno : NoVault paths fs)
    (hinit : cmdInit env paths run fs = (.ok u, created))
    (hrun : Run (CliStep env paths S) created events fs') :
    ∃ c, Run (MapStep env.primitives S) .empty events c ∧ Prints env paths S fs' c := by
  obtain ⟨innerKek, outerKek, hstart⟩ := holdsMap_of_cmdInit hsqlite hchip hno hinit
  have hprotects := KeyRing.Wraps.protects hP hbinds innerKek
  obtain ⟨c, hmap, hend⟩ := hstart.of_run hP hsqlite hprotects hrun
  exact ⟨c, hmap, hend.prints hP hsqlite hprotects⟩

/-- An invocation of the reference machine, with the one token. -/
def Invocation.withToken : Invocation := .working (.token [1] [1]) ""

private def early : Call := .atOnce 0

private def late : Call := .atOnce 1

private def github : AddArgs := ⟨"GitHub", none, none, some "octocat", .password, []⟩

/-- `sypherstore add --stdin`, with a line break at the end of what is piped in. -/
def CliUse.addGithub : CliUse where
  invocation := .withToken
  touch := early
  command := .add github (.piped (.ok (ascii "correct-horse\n"))) (some (Block.replicate 16 1)) 1
    late

/-- What it adds. -/
def SecretMeta.ofGithub : SecretMeta := github.secretMeta (Block.replicate 16 1) 1

/-- On the reference machine the token that the vault was created with unlocks it. -/
private theorem exists_unlocked {fs : FileSystem} {v : Vault} {outerKek : Key} {keys : NewKeys}
    (hprepare : Session.prepareKeys .reference early (.token [1] [1]) outerKek = .ok keys)
    (hholds : HoldsVault .reference .reference fs v outerKek)
    (hstored : (KeyRing.ofNewKeys keys).StoredIn .reference v) :
    ∃ d fs', openLockedOnly .reference .reference .withToken fs =
        (.ok (⟨v, outerKek, none, none, Config.default.unlockTimeout⟩, d), fs') ∧
      Session.unlock .reference early (.token [1] [1])
          ⟨v, outerKek, none, none, Config.default.unlockTimeout⟩ =
        (.ok (), ⟨v, outerKek, some keys.innerKek, some (0 + Config.default.unlockTimeout),
          Config.default.unlockTimeout⟩) := by
  obtain ⟨keys', hid, hprepare', _⟩ := Session.exists_initializeVault_working 0 0 (Nat.le_refl 0)
    (Block.replicate 16 0) outerKek [1] [1] 10
  obtain rfl := Except.ok.inj (hprepare'.symm.trans hprepare)
  obtain ⟨d, fs', hopen⟩ := hholds.exists_opened_working hstored.mem_kdfSalt (.token [1] [1]) ""
  exact ⟨d, fs', hopen, KeyRing.unlock_of_admits early Primitives.reference_lawful _ hstored
    (fun _ _ => rfl) (admits_of_token hprepare hid)⟩

/-- There the secret is added to a vault that has just been created. -/
theorem exists_added_working : ∃ created fs v outerKek keys,
    cmdInit .reference .reference .withToken .empty = (.ok (), created) ∧
    CliStep .reference .reference Searcher.sampleSearcher created
      (.addGithub, .ok (.added .ofGithub)) fs ∧
    Session.prepareKeys .reference early (.token [1] [1]) outerKek = .ok keys ∧
    HoldsVault .reference .reference fs v outerKek ∧
    (KeyRing.ofNewKeys keys).StoredIn .reference v := by
  obtain ⟨created, hinit⟩ := exists_cmdInit_working .reference [1] [1] ""
  obtain ⟨outerKek, keys, _, hprepare, hholds⟩ := holdsVault_of_cmdInit
    SqliteFormat.reference_lawful Chip.reference_lawful (noVault_empty _) hinit
  obtain ⟨d, opened, hopen, hunlock⟩ := exists_unlocked hprepare hholds (.of_newKeys keys .empty)
  obtain ⟨s, hadd, hmeta⟩ : ∃ s, CliUse.addGithub.command.body .reference Searcher.sampleSearcher
      ⟨keys.vault .reference .empty, outerKek, some keys.innerKek,
        some (0 + Config.default.unlockTimeout), Config.default.unlockTimeout⟩ =
        (.ok (.added .ofGithub), s) ∧
      s.vault.metaTable = (keys.vault .reference .empty).metaTable := ⟨_, rfl, rfl⟩
  obtain ⟨hopened, hstores, _⟩ := hholds.opened SqliteFormat.reference_lawful hopen
  exact ⟨created, _, _, outerKek, keys, hinit, openUnlocked_of_unlocked hopen hunlock hadd,
    hprepare, hopened.written SqliteFormat.reference_lawful (hstores.withVault s.vault),
    (KeyRing.StoredIn.of_newKeys keys .empty).congr hmeta⟩

/-- Once it is added the map has it. -/
theorem MapStep.secret_of_addGithub {c c' : Contents} {m : SecretMeta}
    (h : MapStep .reference S c (.addGithub, .ok (.added m)) c') :
    c'.secret (Block.replicate 16 1) =
      some (.ofGithub, ⟨ascii "correct-horse", none, []⟩) := by
  cases h with
  | added hvalue =>
      obtain rfl := Except.ok.inj hvalue
      exact Contents.secret_put_self ..

/-- What one process has piped in another one prints. -/
theorem an_added_secret_is_printed : ∃ created fs' fs'',
    cmdInit .reference .reference .withToken .empty = (.ok (), created) ∧
    CliStep .reference .reference Searcher.sampleSearcher created
      (.addGithub, .ok (.added .ofGithub)) fs' ∧
    (CliCommand.decrypt (Primitives.reference.uuidText SecretMeta.ofGithub.id) late late
        (.ok ())).execute .reference .reference Searcher.sampleSearcher .withToken early fs' =
      (.ok (.printed (ascii "correct-horse\n")), fs'') := by
  obtain ⟨created, fs', _, _, _, hinit, hstep, hprepare, hholds, hstored⟩ := exists_added_working
  obtain ⟨_, _, hopen, hunlock⟩ := exists_unlocked hprepare hholds hstored
  have hcan : CanRead .reference .reference .withToken early late late fs' := by
    have hlive : (1 : ℕ) < 0 + Config.default.unlockTimeout := by decide
    exact ⟨⟨_, _, _, _, hopen, hunlock, ⟨_, _, rfl, rfl, hlive⟩, ⟨_, _, rfl, rfl, hlive⟩⟩, rfl, rfl⟩
  obtain ⟨c, hmap, hprints⟩ := commands_are_a_map Primitives.reference_lawful
    Primitives.reference_bindsKey SqliteFormat.reference_lawful Chip.reference_lawful
    (noVault_empty _) hinit (.single hstep)
  have hsecret : c.secret (Block.replicate 16 1) =
      some (.ofGithub, ⟨ascii "correct-horse", none, []⟩) := by
    cases hmap with
    | cons hfirst hrest =>
        cases hrest
        exact hfirst.secret_of_addGithub
  have htrim : trim (Primitives.reference.uuidText (Block.replicate 16 1)) =
      Primitives.reference.uuidText (Block.replicate 16 1) := by decide +kernel
  have htarget : IsFullId .reference (Block.replicate 16 1)
      (Primitives.reference.uuidText (Block.replicate 16 1)) :=
    ⟨by decide, by rw [htrim]; exact Primitives.reference_lawful.uuid _⟩
  obtain ⟨fs'', hprinted⟩ := hprints hcan htarget hsecret
  exact ⟨created, fs', fs'', hinit, hstep, hprinted⟩

end Sypherstore

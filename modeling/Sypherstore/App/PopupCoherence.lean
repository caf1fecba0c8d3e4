/-
# The list of the popup

The list that is shown is derived from the secrets, the query and the context, and one of its
rows is highlighted. In every state that the popup comes to, the list is the ranking of what
it is derived from and the highlighted row is in it. So what is asked of the worker is about
the row that the user sees highlighted, or the one that was clicked.
-/

import Sypherstore.App.PopupRuns

namespace Sypherstore

open Logic

/-- The request is made at a row: about its secret, or to unlock the vault. -/
def UiRequest.isAimed : UiRequest → Bool
  | .use _ | .beginEdit _ | .unlock => true
  | _ => false

namespace Popup

variable {S : Searcher} {p p' p'' : Popup} {input : Input} {inputs : List Input}

/-- The list is up to date, and the highlighted row is in it. -/
structure Coherent (S : Searcher) (p : Popup) : Prop where
  ranked : p.ranked = S.rank p.secrets p.query p.context
  selected : p.ranked ≠ [] → p.selected < p.ranked.length

/-! ## Requests about a row -/

/-- The user activates the row in this frame: with Enter the highlighted one, or with a
click. -/
def Input.activates : Input → ℕ → Bool
  | .tick _ keys, _ => keys.enter
  | .draw _ gestures, i => (gestures.row i).activated
  | _, _ => false

/-- The user asks to edit the row in this frame. -/
def Input.edits : Input → ℕ → Bool
  | .tick _ keys, _ => keys.ctrl && keys.e
  | .draw _ gestures, i => (gestures.row i).edited
  | _, _ => false

/-- A request about a row names the secret of the row that is highlighted after the step, the
user asked for it there, and the vault is unlocked if the secret is to be used. The vault is
unlocked for a row that the user wants to use while it is locked. -/
def OnTarget (p : Popup) (input : Input) (p' : Popup) : UiRequest → Prop
  | .use id => p'.target.map SecretMeta.id = some id ∧ input.activates p'.selected ∧
      p.lockState.isUnlocked
  | .beginEdit id => p'.target.map SecretMeta.id = some id ∧ input.edits p'.selected
  | .unlock => p'.target.isSome ∧ input.activates p'.selected ∧ p.lockState = .locked
  | _ => True

theorem onTarget_of_not_aimed {r : UiRequest} (h : r.isAimed = false) :
    OnTarget p input p' r := by
  cases r <;> first | exact trivial | cases h

/-- What a handler does: the list stays coherent, and the requests that it sends are on
target. -/
structure Faithful (S : Searcher) (input : Input) (p p' : Popup) : Prop where
  coherent : p.Coherent S → p'.Coherent S
  sent : ∃ sent, p'.requests = p.requests ++ sent ∧ ∀ r ∈ sent, OnTarget p input p' r

/-- A handler that sends no request about a row, and leaves the lock state alone. -/
structure Silent (S : Searcher) (p p' : Popup) : Prop where
  coherent : p.Coherent S → p'.Coherent S
  lockState : p'.lockState = p.lockState
  sent : ∃ sent, p'.requests = p.requests ++ sent ∧ ∀ r ∈ sent, r.isAimed = false

theorem Silent.refl (S : Searcher) (p : Popup) : Silent S p p where
  coherent h := h
  lockState := rfl
  sent := ⟨[], by simp⟩

theorem Silent.trans (h : Silent S p p') (h' : Silent S p' p'') : Silent S p p'' where
  coherent hp := h'.coherent (h.coherent hp)
  lockState := h'.lockState.trans h.lockState
  sent := by
    obtain ⟨sent, hsent, haimed⟩ := h.sent
    obtain ⟨more, hmore, haimed'⟩ := h'.sent
    refine ⟨sent ++ more, by rw [hmore, hsent, List.append_assoc], ?_⟩
    exact List.forall_mem_append.mpr ⟨haimed, haimed'⟩

theorem Silent.ite (condition : Bool) (h : Silent S p p') :
    Silent S p (if condition then p' else p) := by
  split
  · exact h
  · exact .refl S p

theorem Silent.faithful (h : Silent S p p') (input : Input) : Faithful S input p p' where
  coherent := h.coherent
  sent := by
    obtain ⟨sent, hsent, haimed⟩ := h.sent
    exact ⟨sent, hsent, fun r hr => onTarget_of_not_aimed (haimed r hr)⟩

theorem Faithful.refl (S : Searcher) (input : Input) (p : Popup) : Faithful S input p p :=
  (Silent.refl S p).faithful input

theorem Silent.trans_faithful (h : Silent S p p') (h' : Faithful S input p' p'') :
    Faithful S input p p'' where
  coherent hp := h'.coherent (h.coherent hp)
  sent := by
    obtain ⟨sent, hsent, haimed⟩ := h.sent
    obtain ⟨more, hmore, hon⟩ := h'.sent
    refine ⟨sent ++ more, by rw [hmore, hsent, List.append_assoc], ?_⟩
    refine List.forall_mem_append.mpr ⟨fun r hr => onTarget_of_not_aimed (haimed r hr), ?_⟩
    intro r hr
    have htarget := hon r hr
    cases r with
    | use id => exact ⟨htarget.1, htarget.2.1, h.lockState ▸ htarget.2.2⟩
    | unlock => exact ⟨htarget.1, htarget.2.1, h.lockState ▸ htarget.2.2⟩
    | _ => exact htarget

/-! ## The list -/

/-- What the list is made of stays, and the highlighted row stays in it. -/
theorem Coherent.congr (h : p.Coherent S) (hsecrets : p'.secrets = p.secrets)
    (hquery : p'.query = p.query) (hcontext : p'.context = p.context)
    (hranked : p'.ranked = p.ranked)
    (hselected : p.selected < p.ranked.length → p'.selected < p.ranked.length) :
    p'.Coherent S where
  ranked := by rw [hranked, hsecrets, hquery, hcontext, h.ranked]
  selected hne := by
    rw [hranked] at hne ⊢
    exact hselected (h.selected hne)

/-- Ranking again repairs everything. -/
theorem coherent_rerank (S : Searcher) (p : Popup) : (p.rerank S).Coherent S where
  ranked := rfl
  selected hne := by
    have hpos := List.length_pos_iff.mpr hne
    simp only [rerank] at hpos ⊢
    split <;> omega

theorem coherent_new (S : Searcher) : new.Coherent S where
  ranked := (S.rank_nil _ _).symm
  selected h := absurd rfl h

/-- The fields that the list and the requests depend on. -/
def listPart (p : Popup) : Popup :=
  { new with
    secrets := p.secrets
    query := p.query
    context := p.context
    ranked := p.ranked
    selected := p.selected
    lockState := p.lockState
    requests := p.requests }

/-- A handler that has nothing to do with the list, and sends nothing. -/
theorem silent_of_same (h : p'.listPart = p.listPart) : Silent S p p' := by
  simp only [listPart, mk.injEq, true_and, and_true] at h
  obtain ⟨hrequests, hsecrets, hranked, hcontext, hquery, hselected, hlock⟩ := h
  exact ⟨fun hp => hp.congr hsecrets hquery hcontext hranked fun hlt => hselected ▸ hlt, hlock,
    [], by simp [hrequests]⟩

theorem faithful_of_same (h : p'.listPart = p.listPart) : Faithful S input p p' :=
  (silent_of_same h).faithful input

theorem silent_send {r : UiRequest} (hr : r.isAimed = false) : Silent S p (p.send r) where
  coherent hp := hp.congr rfl rfl rfl rfl id
  lockState := rfl
  sent := ⟨[r], rfl, List.forall_mem_singleton.mpr hr⟩

/-- A handler that has nothing to do with the list, and sends one request about no row. -/
theorem silent_of_send {r : UiRequest} (h : p'.listPart = (p.send r).listPart)
    (hr : r.isAimed = false) : Silent S p p' :=
  (silent_send hr).trans (silent_of_same h)

theorem silent_moveUp (p : Popup) : Silent S p p.moveUp := by
  unfold moveUp
  split
  · refine ⟨fun h => h.congr rfl rfl rfl rfl ?_, rfl, [], by simp⟩
    intro hlt
    exact Nat.lt_of_le_of_lt (Nat.sub_le _ _) hlt
  · exact .refl S p

theorem silent_moveDown (p : Popup) : Silent S p p.moveDown := by
  unfold moveDown
  split
  · rename_i hlt
    exact ⟨fun h => h.congr rfl rfl rfl rfl fun _ => hlt, rfl, [], by simp⟩
  · exact .refl S p

theorem silent_hide (p : Popup) : Silent S p p.hide := by
  unfold hide
  split
  · refine ⟨fun _ => ⟨(S.rank_nil _ _).symm, fun h => absurd rfl h⟩, rfl, [.dismissed], rfl, ?_⟩
    simp [UiRequest.isAimed]
  · exact .refl S p

/-! ## The handlers -/

/-- Enter uses the secret of the highlighted row, or unlocks. -/
theorem faithful_activateSelected (p : Popup) (h : input.activates p.selected) :
    Faithful S input p p.activateSelected := by
  unfold activateSelected
  split
  · exact .refl S _ p
  · rename_i m htarget
    split
    · rename_i remaining hlock
      refine ⟨fun hp => hp.congr rfl rfl rfl rfl id, [.use m.id], rfl, ?_⟩
      have htarget' : (p.send (.use m.id)).target = some m := htarget
      exact List.forall_mem_singleton.mpr
        ⟨congrArg (Option.map SecretMeta.id) htarget', h, by rw [hlock]; rfl⟩
    · rename_i hlock
      refine ⟨fun hp => hp.congr rfl rfl rfl rfl id, [.unlock], rfl, ?_⟩
      have htarget' : (p.send .unlock).target = some m := htarget
      exact List.forall_mem_singleton.mpr ⟨by rw [htarget']; rfl, h, hlock⟩
    · exact .refl S _ p

theorem faithful_beginEdit {m : SecretMeta} (htarget : p.target = some m)
    (h : input.edits p.selected) : Faithful S input p (p.send (.beginEdit m.id)) := by
  refine ⟨fun hp => hp.congr rfl rfl rfl rfl id, [.beginEdit m.id], rfl, ?_⟩
  have htarget' : (p.send (.beginEdit m.id)).target = some m := htarget
  exact List.forall_mem_singleton.mpr ⟨congrArg (Option.map SecretMeta.id) htarget', h⟩

theorem faithful_handleListKeys (moment : Moment) (keys : Keys) (p : Popup) :
    Faithful S (.tick moment keys) p (p.handleListKeys moment keys).2 := by
  unfold handleListKeys
  split
  · exact .refl S _ p
  · split
    · exact faithful_of_same rfl
    · split
      · rename_i hedit
        split
        · exact faithful_beginEdit (by assumption) hedit
        · exact .refl S _ p
      · split
        · split
          · exact faithful_of_same rfl
          · exact .refl S _ p
        · have htouched : Silent S p (if keys.up || keys.down then p.send .touch else p) :=
            .ite _ (silent_send rfl)
          have hmoved := (htouched.trans (.ite keys.up (silent_moveUp _))).trans
            (.ite keys.down (silent_moveDown _))
          refine hmoved.trans_faithful ?_
          dsimp only
          by_cases henter : keys.enter = true
          · rw [if_pos henter]
            exact faithful_activateSelected _ henter
          · rw [if_neg henter]
            exact .refl S _ _

theorem silent_saveEditor (moment : Moment) (p : Popup) : Silent S p (p.saveEditor moment) := by
  unfold saveEditor
  split
  · split
    · exact silent_of_send rfl rfl
    · exact silent_of_same rfl
  · exact .refl S p

theorem silent_handleEditKeys (moment : Moment) (keys : Keys) (p : Popup) :
    Silent S p (p.handleEditKeys moment keys) := by
  unfold handleEditKeys
  split
  · exact silent_of_same rfl
  · split
    · rename_i editor _
      have hfocus : Silent S p
          (if keys.tab then { p with mode := .edit (editor.cycleFocus keys.shift) } else p) :=
        .ite _ (silent_of_same rfl)
      exact hfocus.trans (.ite _ (silent_saveEditor moment _))
    · exact .refl S p

theorem silent_handleConfirmKeys (keys : Keys) (p : Popup) :
    Silent S p (p.handleConfirmKeys keys) := by
  unfold handleConfirmKeys
  split
  · exact silent_of_same rfl
  · split
    · split
      · exact silent_of_send rfl rfl
      · exact silent_of_same rfl
    · exact .refl S p

theorem silent_handlePinKeys (keys : Keys) (p : Popup) : Silent S p (p.handlePinKeys keys) := by
  unfold handlePinKeys
  split
  · exact silent_of_send rfl rfl
  · split
    · split
      · split
        · exact .refl S p
        · exact silent_of_send rfl rfl
      · exact .refl S p
    · exact .refl S p

theorem faithful_handleKeys (moment : Moment) (keys : Keys) (p : Popup) :
    Faithful S (.tick moment keys) p (p.handleKeys moment keys).2 := by
  unfold handleKeys
  split
  · exact faithful_handleListKeys moment keys p
  · exact (silent_handleEditKeys moment keys p).faithful _
  · exact (silent_handleConfirmKeys keys p).faithful _
  · exact (silent_handlePinKeys keys p).faithful _

/-- Only Escape closes the list. -/
theorem escape_of_close {moment : Moment} {keys : Keys}
    (h : (p.handleListKeys moment keys).1 = true) : keys.escape := by
  cases hescape : keys.escape with
  | true => rfl
  | false =>
      simp only [handleListKeys, hescape, Bool.false_eq_true, if_false] at h
      split at h
      · cases h
      · split at h
        · split at h <;> cases h
        · split at h
          · split at h <;> cases h
          · cases h

/-- And then nothing else happens. -/
theorem handleListKeys_of_close {moment : Moment} {keys : Keys}
    (h : (p.handleListKeys moment keys).1 = true) : (p.handleListKeys moment keys).2 = p := by
  simp [handleListKeys, escape_of_close h]

theorem handleKeys_of_close {moment : Moment} {keys : Keys}
    (h : (p.handleKeys moment keys).1 = true) : (p.handleKeys moment keys).2 = p := by
  cases hmode : p.mode with
  | list =>
      simp only [handleKeys, hmode] at h ⊢
      exact handleListKeys_of_close h
  | _ => simp [handleKeys, hmode] at h

theorem faithful_tick (moment : Moment) (keys : Keys) (p : Popup) :
    Faithful S (.tick moment keys) p (p.tick moment keys) := by
  obtain ⟨message, hexpired⟩ := exists_expireMessage moment.now p
  have hmessage : Silent S p { p with message } := silent_of_same rfl
  cases hvisible : p.visible with
  | false =>
      rw [tick_of_hidden moment keys hvisible, hexpired]
      exact hmessage.faithful _
  | true =>
      rw [tick_of_visible moment keys hvisible, hexpired, afterKeys]
      refine hmessage.trans_faithful ?_
      split
      · rename_i hclose
        rw [handleKeys_of_close hclose]
        exact (silent_hide _).faithful _
      · exact faithful_handleKeys moment keys _

/-! ## Drawing -/

theorem flag_of_lastRow {flag : ℕ → Bool} {i : ℕ} (h : p.lastRow flag = some i) :
    i < p.ranked.length ∧ flag i := by
  have hmem := List.mem_of_getLast? h
  simpa using hmem

theorem target_of_getElem {i : ℕ} {entry : Ranked} (h : p.ranked[i]? = some entry) :
    { p with selected := i }.target = some entry.secret :=
  congrArg (Option.map Ranked.secret) h

theorem silent_select {i : ℕ} (h : i < p.ranked.length) (mode : Mode) :
    Silent S p { p with selected := i, mode } where
  coherent hp := hp.congr rfl rfl rfl rfl fun _ => h
  lockState := rfl
  sent := ⟨[], by simp⟩

/-- What is asked for is the last row for which something was reported. -/
theorem faithful_drawList (moment : Moment) (gestures : Gestures) (p : Popup) :
    Faithful S (.draw moment gestures) p (p.drawList gestures) := by
  unfold drawList
  split
  · exact .refl S _ p
  · have hscrolled : Silent S p { p with scrollToSelection := false } :=
      silent_of_same rfl
    refine hscrolled.trans_faithful ?_
    dsimp only
    split
    · rename_i i hdeleted
      split
      · exact (silent_select (flag_of_lastRow hdeleted).1 _).faithful _
      · exact .refl S _ _
    · split
      · rename_i i hedited
        obtain ⟨hlt, hflag⟩ := flag_of_lastRow hedited
        split
        · rename_i entry hentry
          refine (silent_select hlt p.mode).trans_faithful ?_
          exact faithful_beginEdit (target_of_getElem hentry) hflag
        · exact .refl S _ _
      · split
        · rename_i i hclicked
          obtain ⟨hlt, hflag⟩ := flag_of_lastRow hclicked
          refine (silent_select hlt p.mode).trans_faithful ?_
          exact faithful_activateSelected _ hflag
        · exact .refl S _ _

theorem silent_query (query : String) (p : Popup) :
    Silent S p ((({ p with query, selected := 0 } : Popup).rerank S).send .touch) where
  coherent _ :=
    have hreranked := coherent_rerank S { p with query, selected := 0 }
    ⟨hreranked.ranked, hreranked.selected⟩
  lockState := rfl
  sent := ⟨[.touch], rfl, by simp [UiRequest.isAimed]⟩

theorem faithful_drawListMode (moment : Moment) (gestures : Gestures) (p : Popup) :
    Faithful S (.draw moment gestures) p (p.drawListMode S moment gestures) := by
  unfold drawListMode
  split
  · exact faithful_of_same rfl
  · have hfocused : Silent S p { p with needsFocus := false } :=
      silent_of_same rfl
    refine hfocused.trans_faithful ?_
    dsimp only
    split
    · exact (silent_query _ _).trans_faithful (faithful_drawList moment gestures _)
    · exact faithful_drawList moment gestures _

theorem silent_drawEditMode (moment : Moment) (gestures : Gestures) (p : Popup) :
    Silent S p (p.drawEditMode moment gestures) := by
  unfold drawEditMode
  split
  · split
    · exact silent_of_same rfl
    · split
      · refine Silent.trans ?_ (silent_saveEditor moment _)
        exact silent_of_same rfl
      · exact silent_of_same rfl
  · exact .refl S p

theorem faithful_draw (moment : Moment) (gestures : Gestures) (p : Popup) :
    Faithful S (.draw moment gestures) p (p.draw S moment gestures) := by
  unfold draw
  split
  · exact faithful_drawListMode moment gestures p
  · exact (silent_drawEditMode moment gestures p).faithful _
  · exact .refl S _ p
  · unfold drawPinMode
    split
    · exact faithful_of_same rfl
    · exact .refl S _ p

/-! ## Events and runs -/

theorem faithful_handleEvent (now : Instant) (event : DaemonEvent) (p : Popup) :
    Faithful S (.event now event) p (p.handleEvent S now event) := by
  cases event with
  | showPopup secrets host application =>
      have hreranked := coherent_rerank S { p with
        secrets, context := { host, application }, query := "", selected := 0, message := none }
      exact ⟨fun _ => ⟨hreranked.ranked, hreranked.selected⟩, [], by simp [handleEvent, rerank]⟩
  | hide => exact (silent_hide p).faithful _
  | lockChanged state => exact ⟨fun h => h.congr rfl rfl rfl rfl id, [], by simp [handleEvent]⟩
  | refresh secrets => exact ⟨fun _ => coherent_rerank S _, [], by simp [handleEvent, rerank]⟩
  | _ =>
      exact faithful_of_same rfl

theorem step_faithful (h : Step S p input p') : Faithful S input p p' := by
  cases input with
  | event now event =>
      cases h
      exact faithful_handleEvent now event p
  | tick moment keys =>
      cases h
      exact faithful_tick moment keys p
  | draw moment gestures =>
      dsimp only [Step, next] at h
      split at h
      · cases h
        exact faithful_draw moment gestures p
      · cases h
  | closed =>
      cases h
      exact (silent_hide p).faithful _
  | focusLost =>
      cases h
      unfold loseFocus
      split
      · exact .refl S _ p
      · exact (silent_hide p).faithful _

/-- **The list of the popup is coherent** in every state that it comes to, and what a step from
there asks about a row is asked of the highlighted one, where the user wants it. -/
theorem popup_list_is_coherent (S : Searcher) :
    ∀ inputs p, Run (Step S) new inputs p → p.Coherent S ∧
      ∀ input p', Step S p input p' →
        ∃ sent, p'.requests = p.requests ++ sent ∧ ∀ r ∈ sent, OnTarget p input p' r := by
  intro inputs p hrun
  have hcoherent : p.Coherent S :=
    hrun.invariant (fun _ _ _ _ hq hstep => (step_faithful hstep).coherent hq) (coherent_new S)
  exact ⟨hcoherent, fun input p' hstep => (step_faithful hstep).sent⟩

/-- A second secret, behind the one without a name. -/
private def bank : SecretMeta :=
  { (default : SecretMeta) with id := Block.replicate 16 1, name := "Bank" }

private theorem rank_bank : Searcher.plain.rank [default, bank] "" ⟨none, none⟩ =
    [⟨default, ⟨.none, 0, 0⟩⟩, ⟨bank, ⟨.none, 0, 0⟩⟩] := by
  have hentries : [default, bank].filterMap (Searcher.plain.rankOne (trim "") ⟨none, none⟩) =
      [⟨default, ⟨.none, 0, 0⟩⟩, ⟨bank, ⟨.none, 0, 0⟩⟩] := by decide
  have hretained : ∀ entries, Searcher.retained ⟨none, none⟩ entries = entries := fun _ => rfl
  rw [Searcher.rank, hentries, hretained]
  exact List.mergeSort_of_pairwise (by decide)

/-- The two secrets, with the first one highlighted. -/
private def shown : Popup :=
  { new with
    secrets := [default, bank]
    ranked := [⟨default, ⟨.none, 0, 0⟩⟩, ⟨bank, ⟨.none, 0, 0⟩⟩]
    lockState := .unlocked 60
    visible := true
    needsFocus := true }

/-- The user goes down one row, and Enter uses the second secret. -/
theorem the_highlighted_secret_is_used :
    ∃ p p', Run (Step .plain) new
        [.event 0 (.lockChanged (.unlocked 60)), .event 0 (.showPopup [default, bank] none none),
          .tick .zero { Keys.none with down := true }] p ∧
      Step .plain p (.tick .zero { Keys.none with enter := true }) p' ∧
      p'.requests = p.requests ++ [.use bank.id] ∧
      OnTarget p (.tick .zero { Keys.none with enter := true }) p' (.use bank.id) := by
  have hshow : Step .plain { new with lockState := .unlocked 60 }
      (.event 0 (.showPopup [default, bank] none none)) shown := by
    simp [Step, next, handleEvent, rerank, new, rank_bank, shown]
  have hrun : ∃ p, Run (Step .plain) new
      [.event 0 (.lockChanged (.unlocked 60)), .event 0 (.showPopup [default, bank] none none),
        .tick .zero { Keys.none with down := true }] p ∧
      ∃ p', Step .plain p (.tick .zero { Keys.none with enter := true }) p' ∧
        p'.requests = p.requests ++ [.use bank.id] :=
    ⟨_, .cons rfl (.cons hshow (.cons rfl (.nil _))), _, rfl, rfl⟩
  obtain ⟨p, hrun, p', hstep, hrequests⟩ := hrun
  obtain ⟨sent, hsent, htarget⟩ := (popup_list_is_coherent .plain _ _ hrun).2 _ _ hstep
  obtain rfl : [.use bank.id] = sent := List.append_cancel_left (hrequests.symm.trans hsent)
  exact ⟨p, p', hrun, hstep, hrequests, htarget _ (List.mem_singleton_self _)⟩

end Popup

end Sypherstore

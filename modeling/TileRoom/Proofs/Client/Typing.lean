import Mathlib.Data.List.Chain
import TileRoom.Proofs.Client.Manners
import TileRoom.Proofs.Client.Talking

/-!
# What the server knows of the typing

A server learns whether the user is typing from the messages about it, and on a new connection it
takes nobody to be typing. `Run.serverView` is what it makes of all that has gone out to it. The
client notes what it has told before that has gone out. The note is right all the same, since a
message that fails costs the connection and the note with it (`Run.InTune`). So every message about
typing is news to the server (`Effect.Suits`), and on each connection they take turns.
-/

namespace TileRoom

/-- What a message tells about typing. -/
def ClientMessage.typing? : ClientMessage → Option Bool
  | .startTyping => some true
  | .stopTyping => some false
  | _ => none

namespace Effect

/-- What the server is told about typing by what goes out. -/
def typing? (e : Effect) : Option Bool :=
  e.sent?.bind ClientMessage.typing?

/-- The connection that was opened last, and whether the server takes the user to be typing on it,
if it was `view` before an effect. -/
def view (view : Option (ConnectionId × Bool)) : Effect → Option (ConnectionId × Bool)
  | .opened id => some (id, false)
  | .sent id m _ =>
    match m.typing? with
    | some typing => some (id, typing)
    | none => view
  | _ => view

/-- What is sent goes out on the connection that was opened last, and what it tells about typing is
news to the server. -/
def Suits (view : Option (ConnectionId × Bool)) : Effect → Prop
  | .sent id m _ => ∃ shown, view = some (id, shown) ∧ ∀ typing, m.typing? = some typing →
      shown ≠ typing
  | _ => True

end Effect

def viewOver (view : Option (ConnectionId × Bool)) (es : List Effect) :
    Option (ConnectionId × Bool) :=
  es.foldl Effect.view view

/-- All that goes out suits what the server takes to be the case by then. -/
def Attuned (view : Option (ConnectionId × Bool)) : List Effect → Prop
  | [] => True
  | e :: es => e.Suits view ∧ Attuned (e.view view) es

/-- What goes out goes out on `id`, and each message about typing tells the opposite of the one
before it, the first the opposite of `shown`. -/
structure TakesTurns (id : ConnectionId) (shown : Bool) (es : List Effect) : Prop where
  line : ∀ id' m frame, .sent id' m frame ∈ es → id' = id
  turns : (shown :: es.filterMap Effect.typing?).IsChain (· ≠ ·)

section Views

variable {view : Option (ConnectionId × Bool)} {e : Effect} {es fs : List Effect}
  {id : ConnectionId} {shown : Bool}

theorem viewOver_append (view : Option (ConnectionId × Bool)) (es fs : List Effect) :
    viewOver view (es ++ fs) = viewOver (viewOver view es) fs :=
  List.foldl_append

theorem attuned_append :
    Attuned view (es ++ fs) ↔ Attuned view es ∧ Attuned (viewOver view es) fs := by
  induction es generalizing view with
  | nil => exact ⟨fun h => ⟨trivial, h⟩, fun h => h.2⟩
  | cons e es ih =>
      show e.Suits view ∧ Attuned (e.view view) (es ++ fs) ↔ _
      rw [ih, ← and_assoc]
      rfl

/-- Of an idle effect the server sees nothing. -/
theorem Effect.view_of_isIdle (h : e.isIdle = true) (view : Option (ConnectionId × Bool)) :
    e.view view = view ∧ e.Suits view := by
  cases e <;> first | exact ⟨rfl, trivial⟩ | cases h

/-- Effects of which each suits the view and leaves it as it is. -/
theorem attuned_of_same (h : ∀ e ∈ es, e.view view = view ∧ e.Suits view) :
    viewOver view es = view ∧ Attuned view es := by
  induction es with
  | nil => exact ⟨rfl, trivial⟩
  | cons e es ih =>
      obtain ⟨hview, hsuits⟩ := h e List.mem_cons_self
      obtain ⟨hrest, hattuned⟩ := ih fun e' he' => h e' (List.mem_cons_of_mem _ he')
      refine ⟨?_, hsuits, ?_⟩
      · rw [viewOver, List.foldl_cons, hview]
        exact hrest
      · rw [hview]
        exact hattuned

theorem attuned_of_isIdle (h : ∀ e ∈ es, e.isIdle = true) (view : Option (ConnectionId × Bool)) :
    viewOver view es = view ∧ Attuned view es :=
  attuned_of_same fun e he => Effect.view_of_isIdle (h e he) view

/-- What the server sees are dealings. -/
theorem attuned_filter (view : Option (ConnectionId × Bool)) (es : List Effect) :
    viewOver view (es.filter Effect.isDealing) = viewOver view es ∧
      (Attuned view (es.filter Effect.isDealing) ↔ Attuned view es) := by
  induction es generalizing view with
  | nil => exact ⟨rfl, .rfl⟩
  | cons e es ih =>
      cases hdealing : e.isDealing with
      | true =>
          rw [List.filter_cons_of_pos hdealing]
          exact ⟨(ih _).1, and_congr_right fun _ => (ih _).2⟩
      | false =>
          have hidle : e.isIdle = true := by cases e <;> first | rfl | cases hdealing
          obtain ⟨hview, hsuits⟩ := Effect.view_of_isIdle hidle view
          rw [List.filter_cons_of_neg (by simp [hdealing])]
          refine ⟨?_, ?_⟩
          · rw [(ih view).1, viewOver, viewOver, List.foldl_cons, hview]
          · rw [(ih view).2, Attuned, hview]
            exact (and_iff_right hsuits).symm

theorem TakesTurns.nil (id : ConnectionId) (shown : Bool) : TakesTurns id shown [] :=
  ⟨fun _ _ _ hmem => absurd hmem List.not_mem_nil, List.isChain_singleton shown⟩

theorem TakesTurns.sent {m : ClientMessage} {frame : List UInt8} {later : Bool}
    (h : TakesTurns id later es) (hlater : later = m.typing?.getD shown)
    (hnews : ∀ typing, m.typing? = some typing → shown ≠ typing) :
    TakesTurns id shown (.sent id m frame :: es) := by
  refine ⟨?_, ?_⟩
  · intro id' m' frame' hmem
    rcases List.mem_cons.mp hmem with heq | hmem
    · exact (Effect.sent.inj heq).1
    · exact h.line id' m' frame' hmem
  · subst hlater
    have hturns := h.turns
    cases htyping : m.typing? with
    | none =>
        rw [htyping] at hturns
        have hsilent : (Effect.sent id m frame).typing? = none := htyping
        rw [List.filterMap_cons_none hsilent]
        exact hturns
    | some typing =>
        rw [htyping] at hturns
        have htells : (Effect.sent id m frame).typing? = some typing := htyping
        rw [List.filterMap_cons_some htells]
        exact List.isChain_cons_cons.mpr ⟨hnews typing htyping, hturns⟩

theorem TakesTurns.idle (h : TakesTurns id shown es) (he : e.isIdle = true) :
    TakesTurns id shown (e :: es) := by
  have hsilent : e.typing? = none := by cases e <;> first | rfl | cases he
  refine ⟨?_, ?_⟩
  · intro id' m frame hmem
    rcases List.mem_cons.mp hmem with rfl | hmem
    · cases he
    · exact h.line id' m frame hmem
  · rw [List.filterMap_cons_none hsilent]
    exact h.turns

/-- Until the next connection is opened all goes out on the last one. -/
theorem Attuned.takesTurns (h : Attuned (some (id, shown)) es) :
    TakesTurns id shown (untilOpened es) := by
  induction es generalizing shown with
  | nil => exact .nil id shown
  | cons e es ih =>
      obtain ⟨hsuits, hrest⟩ := h
      cases e with
      | opened id' => exact .nil id shown
      | sent id' m frame =>
          obtain ⟨shown', heq, hnews⟩ := hsuits
          obtain ⟨rfl, rfl⟩ := Prod.mk.inj (Option.some.inj heq)
          refine TakesTurns.sent (ih ?_) rfl hnews
          cases htyping : m.typing? <;> simpa [Effect.view, htyping] using hrest
      | _ => exact (ih hrest).idle rfl

end Views

/-- The message that lets the server know. -/
theorem Typing.sync_cases (t : Typing) :
    (t.told = t.desired ∧ t.sync = (none, t)) ∨
      (t.told ≠ t.desired ∧ ∃ m : ClientMessage, m.typing? = some t.desired ∧
        t.sync = (some m, { t with told := t.desired })) := by
  unfold sync
  by_cases hsame : t.desired = t.told
  · rw [if_pos hsame]
    exact .inl ⟨hsame.symm, rfl⟩
  · rw [if_neg hsame]
    refine .inr ⟨Ne.symm hsame, _, ?_, rfl⟩
    cases t.desired <;> rfl

theorem Stimulus.eq_of_typing? {s : Stimulus} {value : Bool} (h : s.typing? = some value) :
    s = .requested (.setTyping value) := by
  unfold typing? at h
  split at h
  · rw [Option.some.inj h]
  · cases h

theorem Machine.hello_typing? (m : Machine) : m.hello.typing? = none := by
  unfold hello
  split <;> rfl

namespace Run

def effects (r : Run) : List Effect :=
  r.trace.map Prod.snd

/-- The connection that was opened last, and whether the server takes the user to be typing on
it. -/
def serverView (r : Run) : Option (ConnectionId × Bool) :=
  viewOver none r.effects

/-- What goes out between `r` and `r'` suits what the server takes to be the case. -/
def Attunes (r r' : Run) : Prop :=
  ∃ es, Deals r r' es ∧ Attuned r.serverView es

/-- On a connection the server knows what it is said to have been told, and that is what the user
wants. -/
def InTune (r : Run) : Prop :=
  ∀ id, r.keeper.connection = some id →
    r.serverView = some (id, r.typing.told) ∧ r.typing.told = r.typing.desired

/-- Nothing was said about typing between `r` and `r'`. -/
structure Mute (r r' : Run) : Prop where
  attunes : Attunes r r'
  view : r'.serverView = r.serverView
  rest : r'.keeper.connection = none ∨
    r'.keeper.connection = r.keeper.connection ∧ r'.typing = r.typing

section Stretches

variable {r r' r₁ r₂ r₃ : Run} {s : Stimulus} {es : List Effect} {id : ConnectionId}
  {P : ClientMessage → Prop}

theorem Deals.serverView_eq (h : Deals r r' es) : r'.serverView = viewOver r.serverView es := by
  obtain ⟨added, htrace, rfl⟩ := h
  rw [(attuned_filter _ _).1]
  unfold serverView effects
  rw [htrace, List.map_append, viewOver_append]

theorem Attunes.attuned (h : Attunes r r') (hr : Attuned none r.effects) :
    Attuned none r'.effects := by
  obtain ⟨es, ⟨added, htrace, rfl⟩, hes⟩ := h
  unfold effects
  rw [htrace, List.map_append]
  exact attuned_append.mpr ⟨hr, (attuned_filter _ _).2.mp hes⟩

theorem Attunes.trans (h : Attunes r₁ r₂) (h' : Attunes r₂ r₃) : Attunes r₁ r₃ := by
  obtain ⟨es, hdeals, hes⟩ := h
  obtain ⟨fs, hdeals', hfs⟩ := h'
  rw [hdeals.serverView_eq] at hfs
  exact ⟨_, hdeals.trans hdeals', attuned_append.mpr ⟨hes, hfs⟩⟩

theorem Deals.attunes (h : Deals r r' es) (hes : ∀ e ∈ es, e.isIdle = true) :
    Attunes r r' ∧ r'.serverView = r.serverView := by
  obtain ⟨hview, hattuned⟩ := attuned_of_isIdle hes r.serverView
  exact ⟨⟨es, h, hattuned⟩, h.serverView_eq.trans hview⟩

theorem InTune.of_gone (h : r.keeper.connection = none) : r.InTune :=
  fun id hid => by cases h.symm.trans hid

theorem Mute.refl (r : Run) : Mute r r :=
  ⟨⟨[], .refl r, trivial⟩, rfl, .inr ⟨rfl, rfl⟩⟩

theorem Mute.trans (h : Mute r₁ r₂) (h' : Mute r₂ r₃) : Mute r₁ r₃ := by
  refine ⟨h.attunes.trans h'.attunes, h'.view.trans h.view, ?_⟩
  rcases h'.rest with hnone | ⟨hline, htyping⟩
  · exact .inl hnone
  · rw [hline, htyping]
    exact h.rest

theorem Deals.mute (h : Deals r r' es) (hes : ∀ e ∈ es, e.isIdle = true)
    (rest : r'.keeper.connection = none ∨
      r'.keeper.connection = r.keeper.connection ∧ r'.typing = r.typing) : Mute r r' :=
  ⟨(h.attunes hes).1, (h.attunes hes).2, rest⟩

theorem Mute.inTune (h : Mute r r') (hr : r.InTune) : r'.InTune := by
  rcases h.rest with hnone | ⟨hline, htyping⟩
  · exact .of_gone hnone
  · intro id hid
    rw [h.view, htyping]
    exact hr id (hline.symm.trans hid)

theorem dropping_isIdle (r : Run) : ∀ e ∈ r.dropping, e.isIdle = true := by
  intro e he
  obtain ⟨id, _, rfl⟩ := List.mem_map.mp he
  rfl

/-- What goes out on the connection that was opened last and is not about typing. -/
theorem sent_mute {m : ClientMessage} {shown : Bool} (hview : r.serverView = some (id, shown))
    (hm : m.typing? = none) : Mute r (r.sent id m) := by
  have hdeals := r.sent_deals id m
  have hattuned : Attuned r.serverView [.sentOn id m] := by
    refine ⟨⟨shown, hview, ?_⟩, trivial⟩
    intro typing htyping
    cases hm.symm.trans htyping
  refine ⟨⟨_, hdeals, hattuned⟩, ?_, .inr ⟨rfl, rfl⟩⟩
  rw [hdeals.serverView_eq]
  simp [viewOver, Effect.view, Effect.sentOn, hm]

theorem connectionLost_mute (r : Run) (before : SessionState) :
    Mute r (r.connectionLost before) :=
  (r.connectionLost_deals before).mute r.dropping_isIdle (.inl (r.connectionLost_gone before))

theorem Talks.mute (h : Talks P r r') (hP : ∀ m, P m → m.typing? = none)
    (hview : ∀ id, r.keeper.connection = some id → ∃ shown, r.serverView = some (id, shown)) :
    Mute r r' := by
  induction h with
  | silent => exact .refl r
  | said _ hid hm ih =>
      rcases ih.rest with hnone | ⟨hline, _⟩
      · cases hnone.symm.trans hid
      · obtain ⟨shown, hshown⟩ := hview _ (hline.symm.trans hid)
        exact ih.trans (sent_mute (ih.view.trans hshown) (hP _ hm))
  | noted _ he ih =>
      exact ih.trans ((log_deals _ _).mute (Effect.isIdle_of_isNote he) (.inr ⟨rfl, rfl⟩))
  | lost _ before ih => exact ih.trans (connectionLost_mute _ before)
  | putOff _ ih =>
      refine ih.trans ((armFlushRetry_deals _).mute (by simp) (.inr ⟨?_, ?_⟩))
      · rw [armFlushRetry_toClient]
      · rw [armFlushRetry_toClient]
  | @packed r₁ _ outbox ih =>
      have hpacked : Deals r₁ { r₁ with outbox } [] := .of_trace_eq rfl
      exact ih.trans (hpacked.mute (by simp) (.inr ⟨rfl, rfl⟩))

theorem InTune.line (h : r.InTune) :
    ∀ id, r.keeper.connection = some id → ∃ shown, r.serverView = some (id, shown) :=
  fun id hid => ⟨_, (h id hid).1⟩

/-- Once the server has been told, it knows what the user wants it to. -/
theorem told_inTune (hid : r.keeper.connection = some id)
    (hview : r.serverView = some (id, r.typing.told)) :
    Attunes r (r.told id) ∧ (r.told id).InTune := by
  rcases r.typing.sync_cases with ⟨hsame, hsync⟩ | ⟨hnews, m, hm, hsync⟩
  · have htold : r.told id = r := by
      unfold told
      rw [hsync]
      rfl
    rw [htold]
    refine ⟨⟨[], .refl r, trivial⟩, fun id' hid' => ⟨?_, hsame⟩⟩
    obtain rfl := Option.some.inj (hid.symm.trans hid')
    exact hview
  · let synced : Run := { r with typing := { r.typing with told := r.typing.desired } }
    have htold : r.told id = synced.sent id m := by
      unfold told
      rw [hsync]
      rfl
    have hsynced : Deals r synced [] := .of_trace_eq rfl
    have hdeals : Deals r (r.told id) [.sentOn id m] :=
      htold ▸ hsynced.after (synced.sent_deals id m)
    have hknown : (r.told id).serverView = some (id, r.typing.desired) := by
      rw [hdeals.serverView_eq]
      simp [viewOver, Effect.view, Effect.sentOn, hm]
    refine ⟨⟨_, hdeals, ⟨r.typing.told, hview, ?_⟩, trivial⟩, ?_⟩
    · intro typing htyping
      obtain rfl := Option.some.inj (hm.symm.trans htyping)
      exact hnews
    · intro id' hid'
      rw [htold] at hknown hid' ⊢
      obtain rfl := Option.some.inj (hid.symm.trans hid')
      exact ⟨hknown, rfl⟩

theorem attached_attunes (r : Run) :
    Attunes r r.attached ∧ r.attached.serverView = some (r.nextId, false) := by
  obtain ⟨hview, hattuned⟩ := attuned_of_isIdle r.dropping_isIdle r.serverView
  have hdeals := r.attached_deals
  refine ⟨⟨_, hdeals, attuned_append.mpr ⟨hattuned, trivial, trivial⟩⟩, ?_⟩
  rw [hdeals.serverView_eq, viewOver_append]
  rfl

/-- On a new connection the server is told once the hello is out, and then talk of other things
follows. -/
theorem Resuming.attunes (h : Resuming r id r') (hid : r.keeper.connection = some id)
    (hview : r.serverView = some (id, r.typing.told))
    (hheld : ∀ m ∈ r.outbox.held, m.typing? = none) : Attunes r r' ∧ r'.InTune := by
  have hmoves : ∀ m ∈ r.outbox.moves, m.typing? = none := by
    intro m hm
    obtain ⟨tile, x, y, rfl, _⟩ := Outbox.mem_moves hm
    rfl
  rcases h.talks hid hheld hmoves with ⟨hnone, htalks⟩ | htalks
  · have hsynced : Deals r { r with typing := r.typing.sync.2 } [] := .of_trace_eq rfl
    obtain ⟨hattunes, hsame⟩ := hsynced.attunes (by simp)
    have hmute := htalks.mute (fun _ hm => hm.elim) fun id' hid' => by
      obtain rfl := Option.some.inj (hid.symm.trans hid')
      exact ⟨_, hsame.trans hview⟩
    exact ⟨hattunes.trans hmute.attunes, .of_gone hnone⟩
  · obtain ⟨hattunes, htold⟩ := told_inTune hid hview
    have htaken : Deals (r.told id) (r.told id).takeHeld [] := .of_trace_eq rfl
    have hmute := htaken.mute (by simp) (.inr ⟨rfl, rfl⟩)
    have htaken := hmute.inTune htold
    have hrest := htalks.mute (fun _ hm => hm) htaken.line
    exact ⟨(hattunes.trans hmute.attunes).trans hrest.attunes, hrest.inTune htaken⟩

theorem Opening.attunes (h : Opening r r') (huntold : r.typing.told = false)
    (hheld : ∀ m ∈ r.outbox.held, m.typing? = none) :
    Attunes r r' ∧ (r'.isFinished = true ∨ r'.InTune) := by
  obtain ⟨hattached, hview⟩ := r.attached_attunes
  cases h with
  | rejected e _ =>
      have hmachine : r.attached.machine = r.machine.connected := by rw [attached_toClient]
      have hdeals := log_deals_of_isDealing r.attached (e := .unsent r.machine.hello (.wire e)) rfl
      have hfailed : Deals r.attached
          { r.attached.log (.unsent r.machine.hello (.wire e)) with
            machine := (r.machine.connected.helloRejected e).2 } _ :=
        hdeals.before (.of_trace_eq rfl)
      have hreported := hfailed.before (reportState_deals _ r.machine.state)
      have hrejected := hreported.attunes (by simp [Effect.isIdle])
      refine ⟨hattached.trans hrejected.1, .inl ?_⟩
      rw [← hmachine]
      exact rejected_isFinished (r.attached.log _) e _
  | lost e =>
      have hdeals := log_deals_of_isDealing r.attached (e := .unsent r.machine.hello (.link e)) rfl
      have hlogged := hdeals.mute (by simp [Effect.isIdle]) (.inr ⟨rfl, rfl⟩)
      have hlost := hlogged.trans (connectionLost_mute _ r.machine.state)
      exact ⟨hattached.trans hlost.attunes, .inr (.of_gone (connectionLost_gone _ _))⟩
  | resumed hresume =>
      have hgreeted := sent_mute hview r.machine.hello_typing?
      have hresumed := hresume.attunes (by simp [Keeper.attach]) ?_ ?_
      · exact ⟨(hattached.trans hgreeted.attunes).trans hresumed.1, .inr hresumed.2⟩
      · rw [hgreeted.view, hview, sent_toClient, attached_toClient]
        simp [huntold]
      · rw [sent_toClient, attached_toClient]
        exact hheld

end Stretches

/-! ## Stimuli -/

section Stimuli

variable {r r' : Run} {s : Stimulus} {m : Moment} {c : Option ConnectionId}
  {P : ClientMessage → Prop}

/-- Talk of other things on the connection at hand. -/
theorem Utters.attunes (h : Utters c P r r') (hP : ∀ m, P m → m.typing? = none)
    (hview : ∀ id, c = some id → ∃ shown, r.serverView = some (id, shown)) : Attunes r r' := by
  obtain ⟨es, hdeals, hes⟩ := h
  refine ⟨es, hdeals, (attuned_of_same fun e he => ?_).2⟩
  have hwithin := hes e he
  cases e with
  | opened id => cases hwithin.quiet
  | sent id m frame =>
      obtain ⟨shown, hshown⟩ := hview id hwithin.fits.1
      have hm := hP m (hwithin.utters m rfl)
      refine ⟨by simp [Effect.view, hm], shown, hshown, ?_⟩
      intro typing htyping
      cases hm.symm.trans htyping
  | _ => exact ⟨rfl, trivial⟩

theorem Closing.attunes (h : Closing r r') : Attunes r r' :=
  Utters.attunes (c := none) (P := fun _ => False) h.utters (fun _ hm => hm.elim)
    fun _ hid => by cases hid

theorem typing?_of_permits {m : ClientMessage} (hs : s.typing? = none) (h : s.Permits m) :
    m.typing? = none := by
  have hother : ¬ m.IsTyping := by
    intro htyping
    have hsome := h htyping
    rw [hs] at hsome
    cases hsome
  cases m with
  | startTyping => exact absurd (.inl rfl) hother
  | stopTyping => exact absurd (.inr rfl) hother
  | _ => rfl

/-- What the user says about typing is passed on where there is a connection. -/
theorem Handling.attunes_typing {value : Bool} (h : Handling r (.requested (.setTyping value)) r')
    (hr : r.InTune) : Attunes r r' ∧ r'.InTune := by
  cases h with
  | cutOff _ hinbound _ => cases hinbound
  | @typing _ id ok _ hid hburst =>
      let asked : Run := { r.answer .done with typing := { r.typing with desired := value } }
      have hasked : Deals r asked [] := (r.answer_deals .done).before (.of_trace_eq rfl)
      obtain ⟨hattunes, hsame⟩ := hasked.attunes (by simp)
      have hview : asked.serverView = some (id, asked.typing.told) := hsame.trans (hr id hid).1
      cases ok with
      | true =>
          obtain ⟨htold, htune⟩ := told_inTune (r := asked) hid hview
          cases hburst
          exact ⟨hattunes.trans htold, htune⟩
      | false =>
          have hgone := hburst.gone fun m hm => (Typing.set_isTyping m hm).encodes
          have hsynced : Deals asked
              { r.answer .done with typing := (r.typing.set value true).2 } [] := .of_trace_eq rfl
          obtain ⟨hattunes', hsame'⟩ := hsynced.attunes (by simp)
          have hsilent := hburst.silent asked.typing.length_sync_le
          have hmute := hsilent.mute (fun _ hm => hm.elim) fun id' hid' => by
            obtain rfl := Option.some.inj (hid.symm.trans hid')
            exact ⟨_, hsame'.trans hview⟩
          exact ⟨(hattunes.trans hattunes').trans hmute.attunes, .of_gone hgone⟩
  | untold hnone =>
      have hnoted : Deals r { r.answer .done with typing := (r.typing.set value false).2 } [] :=
        (r.answer_deals .done).before (.of_trace_eq rfl)
      exact ⟨(hnoted.attunes (by simp)).1, .of_gone hnone⟩

theorem noting_mute (r : Run) (hs : s.typing? = none) : Mute r (r.noting s) := by
  refine Deals.mute (.of_trace_eq (r.noting_trace s)) (by simp) (.inr ?_)
  unfold noting
  split <;> first | exact ⟨rfl, rfl⟩ | cases hs

theorem Reacting.attunes (h : Reacting r s r') (hs : s.typing? = none)
    (enabled : r.isEnabled s = true) (htidy : r.Tidy) (hr : r.InTune) :
    Attunes r r' ∧ (r'.isFinished = true ∨ r'.InTune) := by
  have hnoted := r.noting_mute hs
  have htune := hnoted.inTune hr
  cases h with
  | talked _ htalks =>
      have hmute := htalks.mute (fun _ => typing?_of_permits hs) htune.line
      exact ⟨hnoted.attunes.trans hmute.attunes, .inr (hmute.inTune htune)⟩
  | opened heq ho =>
      subst heq
      obtain ⟨p, hp⟩ := htidy.sound
      have huntold : (r.noting .connected).typing.told = false := by
        refine Bool.eq_false_iff.mpr fun htold => ?_
        cases (hp.told htold).symm.trans (hp.attempting.mp enabled)
      have hheld : ∀ m ∈ (r.noting .connected).outbox.held, m.typing? = none := by
        intro m hm
        have hchat := htidy.chats m hm
        cases m <;> first | rfl | cases hchat
      obtain ⟨hattunes, hafter⟩ := ho.attunes huntold hheld
      exact ⟨hnoted.attunes.trans hattunes, hafter⟩
  | @forwarded _ m machine _ _ _ heq =>
      have hheard : Deals r { r with machine } [] := .of_trace_eq rfl
      have happlied := hheard.after (applyMessage_deals _ m)
      have hmute := (happlied.before (reportState_deals _ r.machine.state)).mute (by simp) (.inr ?_)
      · rw [heq]
        exact ⟨hmute.attunes, .inr (hmute.inTune hr)⟩
      · rw [reportState_toClient, applyMessage_toClient]
        exact ⟨rfl, rfl⟩
  | reconnecting _ heq =>
      have hcancelled : Deals r { r with reconnect := r.reconnect.cancel } [] := .of_trace_eq rfl
      have hconnect := hcancelled.after (connect_deals _)
      rw [heq]
      refine ⟨(hconnect.attunes fun e he => ?_).1, .inr (.of_gone ?_)⟩
      · rcases List.mem_append.mp he with he | he
        · exact dropping_isIdle _ e he
        · rw [List.mem_singleton.mp he]
          rfl
      · rw [connect_toClient]
        rfl
  | quietened _ heq =>
      have hcleared : Deals r
          { r with shoutClear := r.shoutClear.cancel, board := r.board.clearShout.1 } [] :=
        .of_trace_eq rfl
      have hmute := (hcleared.after (reportBoard_deals _ r.board.clearShout.2)).mute (by simp)
        (.inr ?_)
      · rw [heq]
        exact ⟨hmute.attunes, .inr (hmute.inTune hr)⟩
      · rw [reportBoard_toClient]
        exact ⟨rfl, rfl⟩
  | ended _ hdone hspoken _ =>
      refine ⟨hspoken.attunes ?_ hr.line, .inl hdone⟩
      rintro _ rfl
      rfl

theorem meet_attunes (htidy : r.Tidy) (hr : r.InTune) (m : Moment) :
    Attunes r (r.meet m) ∧ ((r.meet m).isFinished = false → (r.meet m).InTune) := by
  rcases r.meet_reached m with ⟨_, hsame, hdeals⟩ | ⟨s, r₁, hs, hhandle, hclosing⟩
  · have hmute := hdeals.mute (by simp) (.inr ⟨by rw [hsame], by rw [hsame]⟩)
    exact ⟨hmute.attunes, fun _ => hmute.inTune hr⟩
  · have harrived : Attunes r (r.arrive m) := ((r.arrive_deals m).attunes (by simp)).1
    have htidy' : (r.arrive m).Tidy := ⟨htidy.sound, htidy.chats, htidy.prompt⟩
    have hr' : (r.arrive m).InTune := hr
    have hhandled : Attunes (r.arrive m) r₁ ∧ (r₁.isFinished = true ∨ r₁.InTune) := by
      cases htyping : s.typing? with
      | none => exact hhandle.reacting.attunes htyping (isEnabled_of_reached? hs).2 htidy' hr'
      | some value =>
          obtain rfl := Stimulus.eq_of_typing? htyping
          obtain ⟨hattunes, htune⟩ := hhandle.attunes_typing hr'
          exact ⟨hattunes, .inr htune⟩
    refine ⟨(harrived.trans hhandled.1).trans hclosing.attunes, fun hgoing => ?_⟩
    have hsame := hclosing.eq_of_going hgoing
    rw [hsame] at hgoing ⊢
    exact hhandled.2.resolve_left fun hdone => by cases hdone.symm.trans hgoing

theorem follow_attunes (h : r.isFinished = false → r.Tidy ∧ r.InTune) (ms : List Moment) :
    Attunes r (r.follow ms) ∧ ((r.follow ms).isFinished = false → (r.follow ms).InTune) := by
  induction ms generalizing r with
  | nil => exact ⟨⟨[], .refl r, trivial⟩, fun hgoing => (h hgoing).2⟩
  | cons m ms ih =>
      have hmeet : Attunes r (r.meet m) ∧
          ((r.meet m).isFinished = false → (r.meet m).InTune) := by
        cases hdone : r.isFinished with
        | false => exact meet_attunes (h hdone).1 (h hdone).2 m
        | true =>
            obtain ⟨hsame, hdeals⟩ := meet_of_isFinished hdone m
            refine ⟨(hdeals.attunes (by simp)).1, fun hgoing => ?_⟩
            cases hdone.symm.trans (isFinished_of_meet hgoing)
      have hrest := ih fun hgoing =>
        ⟨meet_tidy (fun hgoing => (h hgoing).1) m hgoing, hmeet.2 hgoing⟩
      exact ⟨hmeet.1.trans hrest.1, hrest.2⟩

theorem typing?_of_heard? (h : m.heard? = some s) : s.typing? = m.stimulus.typing? := by
  rcases Moment.heard?_cases h with ⟨_, hm⟩ | ⟨q, q', hm, hadmitted, rfl⟩
  · rw [hm]
  · -- a request is never let in as one about typing unless it was one
    rw [hm]
    unfold Request.admit at hadmitted
    split at hadmitted
    · split at hadmitted <;> cases hadmitted
      rfl
    · split at hadmitted <;> cases hadmitted
      rfl
    · cases hadmitted
      rfl

/-- As long as a client is under way, it hears all that the user says about typing. -/
theorem reachedOver_typing {ms : List Moment} (hgoing : (r.follow ms).isFinished = false) :
    (r.reachedOver ms).filterMap Stimulus.typing? = ms.filterMap fun m => m.stimulus.typing? := by
  induction ms generalizing r with
  | nil => rfl
  | cons m ms ih =>
      have hstill := isFinished_of_meet (isFinished_of_follow hgoing)
      have hfirst : (r.reached? m).toList.filterMap Stimulus.typing? =
          m.stimulus.typing?.toList := by
        cases htyping : m.stimulus.typing? with
        | some value =>
            have hstimulus := Stimulus.eq_of_typing? htyping
            have hheard : m.heard? = some (.requested (.setTyping value)) := by
              simp [Moment.heard?, hstimulus, Request.admit]
            rw [reached?_eq hstill hheard rfl]
            rfl
        | none =>
            refine List.filterMap_eq_nil_iff.mpr fun s hs => ?_
            have hheard := heard?_of_reached? (Option.mem_toList.mp hs)
            exact (typing?_of_heard? hheard).trans htyping
      rw [reachedOver, List.filterMap_append, ih hgoing, hfirst]
      cases htyping : m.stimulus.typing? <;> simp [htyping]

end Stimuli

/-- In every life, between any two moments, the server of a connected client takes the user to be
typing on that very connection just as they have said last, and not to be typing if they have said
nothing of it. And whenever a connection is taken into use, all that goes out until the next one is
goes out on it, and the messages about typing start and stop in turns, starting first. -/
theorem typing_shown (config : ClientConfig) (ms : List Moment) :
    ((play config ms).isFinished = false →
      ∀ id, (play config ms).keeper.connection = some id →
        (play config ms).serverView =
          some (id, (ms.filterMap fun m => m.stimulus.typing?).getLastD false)) ∧
    (∀ before id after, (play config ms).effects = before ++ .opened id :: after →
      TakesTurns id false (untilOpened after)) := by
  have hstart : (start config).InTune := by
    refine .of_gone ?_
    rw [start, connect_toClient]
    rfl
  obtain ⟨hattunes, htune⟩ := follow_attunes (fun _ => ⟨start_tidy config, hstart⟩) ms
  refine ⟨fun hgoing id hid => ?_, fun before id after hsplit => ?_⟩
  · obtain ⟨hview, hdesired⟩ := htune hgoing id hid
    rw [play_eq, hview, hdesired, follow_desired, reachedOver_typing hgoing]
    rfl
  · have hfirst : Attuned none (start config).effects := by
      refine Attunes.attuned (r := { toClient := .new config }) ?_ trivial
      exact ((start_deals config).attunes (by simp [Effect.isIdle])).1
    have hall : Attuned none (play config ms).effects := hattunes.attuned hfirst
    rw [hsplit] at hall
    exact (attuned_append.mp hall).2.2.takesTurns

/-- A user who is typing while the connection is lost and another one is opened. -/
theorem typing_shown_again :
    let life : List Moment := [{ stimulus := .connected },
      { stimulus := .requested (.setTyping true) }, { stimulus := .streamEnded },
      { wait := 60_000_000_000, stimulus := .due .reconnect }, { stimulus := .connected }]
    (play {} life).isFinished = false ∧ (play {} life).keeper.connection = some ⟨2⟩ ∧
      (play {} life).serverView = some (⟨2⟩, true) ∧
      ∃ before after, (play {} life).effects = before ++ .opened ⟨1⟩ :: after ∧
        TakesTurns ⟨1⟩ false (untilOpened after) ∧
        (untilOpened after).filterMap Effect.typing? = [true] := by
  intro life
  obtain ⟨hshown, hturns⟩ := typing_shown {} life
  have hgoing : (play {} life).isFinished = false := by decide +kernel
  have hid : (play {} life).keeper.connection = some ⟨2⟩ := by decide +kernel
  have hsplit : (play {} life).effects =
      (play {} life).effects.take 2 ++ .opened ⟨1⟩ :: (play {} life).effects.drop 3 := by
    decide +kernel
  exact ⟨hgoing, hid, hshown hgoing _ hid, _, _, hsplit, hturns _ _ _ hsplit, by decide +kernel⟩

end Run

end TileRoom

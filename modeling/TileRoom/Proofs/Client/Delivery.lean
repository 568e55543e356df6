import TileRoom.Proofs.Client.Saying

/-!
# What becomes of what waits to be sent

A client empties its queue of chats, or its list of dragged tiles, before it sends the first
message of it. `Burst p ms es` says how that can end: of the messages of kind `p`, the dealings
`es` delivered all of `ms`, or those before one that was not delivered, and nothing was tried
after it. `meet_held` and `meet_dirty` say what a moment does to the queue and to the dragged
tiles: apart from what is added, they are left alone, or emptied by a burst.
-/

namespace TileRoom

/-- The message that an effect sends. -/
def Effect.sent? : Effect → Option ClientMessage
  | .sent _ m _ => some m
  | _ => none

/-- The message that an effect fails to send. -/
def Effect.unsent? : Effect → Option ClientMessage
  | .unsent m _ => some m
  | _ => none

def delivered (es : List Effect) : List ClientMessage :=
  es.filterMap Effect.sent?

def undelivered (es : List Effect) : List ClientMessage :=
  es.filterMap Effect.unsent?

theorem Effect.message?_of_sent? {e : Effect} {m : ClientMessage} (h : e.sent? = some m) :
    e.message? = some m := by
  cases e <;> first | exact h | cases h

theorem Effect.message?_of_unsent? {e : Effect} {m : ClientMessage} (h : e.unsent? = some m) :
    e.message? = some m := by
  cases e <;> first | exact h | cases h

theorem Effect.sent?_or_unsent?_of_message? {e : Effect} {m : ClientMessage}
    (h : e.message? = some m) :
    e.sent? = some m ∨ e.unsent? = some m := by
  cases e with
  | sent id m' frame => exact .inl h
  | unsent m' reason => exact .inr h
  | _ => cases h

@[simp] theorem delivered_append (es fs : List Effect) :
    delivered (es ++ fs) = delivered es ++ delivered fs :=
  List.filterMap_append

@[simp] theorem undelivered_append (es fs : List Effect) :
    undelivered (es ++ fs) = undelivered es ++ undelivered fs :=
  List.filterMap_append

@[simp] theorem delivered_map_sentOn (id : ConnectionId) (ms : List ClientMessage) :
    delivered (ms.map (.sentOn id)) = ms := by
  simp [delivered, List.filterMap_map, Function.comp_def, Effect.sentOn, Effect.sent?]

@[simp] theorem undelivered_map_sentOn (id : ConnectionId) (ms : List ClientMessage) :
    undelivered (ms.map (.sentOn id)) = [] := by
  simp [undelivered, List.filterMap_map, Function.comp_def, Effect.sentOn, Effect.unsent?]

section Kinds

variable {p : ClientMessage → Bool} {ms : List ClientMessage} {es fs : List Effect}

/-- No message of a kind is sent or should have been. -/
def Silent (p : ClientMessage → Bool) (es : List Effect) : Prop :=
  ∀ e ∈ es, ∀ m, e.message? = some m → p m = false

theorem Silent.delivered (h : Silent p es) : (delivered es).filter p = [] := by
  refine List.filter_eq_nil_iff.mpr ?_
  intro m hm
  obtain ⟨e, he, hsent⟩ := List.mem_filterMap.mp hm
  rw [h e he m (Effect.message?_of_sent? hsent)]
  decide

theorem Silent.undelivered (h : Silent p es) : (undelivered es).filter p = [] := by
  refine List.filter_eq_nil_iff.mpr ?_
  intro m hm
  obtain ⟨e, he, hunsent⟩ := List.mem_filterMap.mp hm
  rw [h e he m (Effect.message?_of_unsent? hunsent)]
  decide

theorem Silent.append (h : Silent p es) (h' : Silent p fs) : Silent p (es ++ fs) := by
  intro e he
  rcases List.mem_append.mp he with he | he
  · exact h e he
  · exact h' e he

/-- What was delivered of `ms`, a list of messages of kind `p` that were to be sent. -/
inductive Burst (p : ClientMessage → Bool) (ms : List ClientMessage) (es : List Effect) : Prop
  | whole (sent : (delivered es).filter p = ms) (unsent : (undelivered es).filter p = [])
  | broken (before m rest) (heq : ms = before ++ m :: rest)
      (sent : (delivered es).filter p = before) (unsent : (undelivered es).filter p = [m])

/-- A burst is told by what was delivered of a kind, and what was not. -/
theorem Burst.of_eq (h : Burst p ms es)
    (hsent : (delivered fs).filter p = (delivered es).filter p)
    (hunsent : (undelivered fs).filter p = (undelivered es).filter p) : Burst p ms fs := by
  cases h with
  | whole sent unsent => exact .whole (hsent.trans sent) (hunsent.trans unsent)
  | broken before m rest heq sent unsent =>
      exact .broken before m rest heq (hsent.trans sent) (hunsent.trans unsent)

theorem Burst.after (h : Silent p es) (h' : Burst p ms fs) : Burst p ms (es ++ fs) := by
  refine h'.of_eq ?_ ?_
  · rw [delivered_append, List.filter_append, h.delivered, List.nil_append]
  · rw [undelivered_append, List.filter_append, h.undelivered, List.nil_append]

theorem Burst.before (h : Burst p ms es) (h' : Silent p fs) : Burst p ms (es ++ fs) := by
  refine h.of_eq ?_ ?_
  · rw [delivered_append, List.filter_append, h'.delivered, List.append_nil]
  · rw [undelivered_append, List.filter_append, h'.undelivered, List.append_nil]

end Kinds

def ClientMessage.isChat : ClientMessage → Bool
  | sendMessage _ => true
  | _ => false

def ClientMessage.isMove : ClientMessage → Bool
  | moveTile .. => true
  | _ => false

theorem ClientMessage.isMove_of_isChat {m : ClientMessage} (h : m.isChat = true) :
    m.isMove = false := by
  cases m <;> first | rfl | cases h

theorem Outbox.moves_isMove {o : Outbox} : ∀ m ∈ o.moves, m.isMove = true := by
  intro m hm
  obtain ⟨tile, x, y, rfl, _⟩ := mem_moves hm
  rfl

namespace Run

/-- The queue holds nothing but chats. -/
def HoldsChats (r : Run) : Prop :=
  ∀ m ∈ r.outbox.held, m.isChat = true

section Bursts

variable {p : ClientMessage → Bool} {ms : List ClientMessage} {r r' r₁ r₂ r₃ : Run}

/-- `r'` came from `r` without a message of a kind. -/
def Hushes (p : ClientMessage → Bool) (r r' : Run) : Prop :=
  ∃ es, Deals r r' es ∧ Silent p es

/-- `r'` came from `r` over a burst of `ms`. -/
def Bursts (p : ClientMessage → Bool) (ms : List ClientMessage) (r r' : Run) : Prop :=
  ∃ es, Deals r r' es ∧ Burst p ms es

theorem Deals.hushes (h : Deals r r' []) : Hushes p r r' :=
  ⟨[], h, by simp [Silent]⟩

theorem Utters.hushes {c : Option ConnectionId} (h : Utters c (fun m => p m = false) r r') :
    Hushes p r r' := by
  obtain ⟨es, hdeals, hes⟩ := h
  exact ⟨es, hdeals, fun e he => (hes e he).utters⟩

theorem Hushes.trans (h : Hushes p r₁ r₂) (h' : Hushes p r₂ r₃) : Hushes p r₁ r₃ := by
  obtain ⟨es, hdeals, hes⟩ := h
  obtain ⟨fs, hdeals', hfs⟩ := h'
  exact ⟨_, hdeals.trans hdeals', hes.append hfs⟩

theorem Bursts.after (h : Hushes p r₁ r₂) (h' : Bursts p ms r₂ r₃) : Bursts p ms r₁ r₃ := by
  obtain ⟨es, hdeals, hes⟩ := h
  obtain ⟨fs, hdeals', hfs⟩ := h'
  exact ⟨_, hdeals.trans hdeals', hfs.after hes⟩

theorem Bursts.before (h : Bursts p ms r₁ r₂) (h' : Hushes p r₂ r₃) : Bursts p ms r₁ r₃ := by
  obtain ⟨es, hdeals, hes⟩ := h
  obtain ⟨fs, hdeals', hfs⟩ := h'
  exact ⟨_, hdeals.trans hdeals', hes.before hfs⟩

theorem sentAll_bursts (r : Run) (id : ConnectionId) (hms : ∀ m ∈ ms, p m = true) :
    Bursts p ms r (r.sentAll id ms) := by
  refine ⟨_, r.sentAll_deals id ms, .whole ?_ ?_⟩
  · rw [delivered_map_sentOn]
    exact List.filter_eq_self.mpr hms
  · rw [undelivered_map_sentOn]
    rfl

theorem Bursting.bursts {id : ConnectionId} {ok : Bool} (h : Bursting r id ms (ok, r'))
    (hms : ∀ m ∈ ms, p m = true) : Bursts p ms r r' := by
  have hbroken (before : List ClientMessage) (m : ClientMessage) (rest : List ClientMessage)
      (e : ClientError) (heq : ms = before ++ m :: rest) :
      Bursts p ms r ((r.sentAll id before).log (.unsent m e)) := by
    rw [heq] at hms
    refine ⟨_, (r.sentAll_deals id before).trans (log_deals_of_isDealing _ rfl),
      .broken before m rest heq ?_ ?_⟩
    · have hbefore : before.filter p = before :=
        List.filter_eq_self.mpr fun m' hm' => hms m' (List.mem_append_left _ hm')
      rw [delivered_append, delivered_map_sentOn, List.filter_append, hbefore]
      exact List.append_nil before
    · rw [undelivered_append, undelivered_map_sentOn]
      exact List.filter_eq_self.mpr fun m' hm' => List.mem_singleton.mp hm' ▸ hms m (by simp)
  cases h with
  | out => exact r.sentAll_bursts id hms
  | kept before m rest e heq _ => exact hbroken before m rest _ heq
  | lost before m rest e heq =>
      have hlost := connectionLost_utters (c := some id) (P := fun m => p m = false)
        ((r.sentAll id before).log (.unsent m (.link e))) r.machine.state
      exact (hbroken before m rest _ heq).before hlost.hushes

end Bursts

/-! ## A new connection -/

section Opening

variable {p : ClientMessage → Bool} {r r' : Run}

theorem attached_hushes (r : Run) : Hushes p r r.attached := by
  refine ⟨_, r.attached_deals, ?_⟩
  intro e he m hm
  rcases List.mem_append.mp he with he | he
  · exact (dropping_within (c := none) (P := fun m => p m = false) he).utters m hm
  · rw [List.mem_singleton.mp he] at hm
    cases hm

/-- A kind of messages that are neither a hello nor about typing. -/
structure Waits (p : ClientMessage → Bool) : Prop where
  hello : ∀ m : Machine, p m.hello = false
  typing : ∀ m : ClientMessage, m.IsTyping → p m = false

theorem waits_isChat : Waits ClientMessage.isChat where
  hello m := by
    unfold Machine.hello
    split <;> rfl
  typing m hm := by rcases hm with rfl | rfl <;> rfl

theorem waits_isMove : Waits ClientMessage.isMove where
  hello m := by
    unfold Machine.hello
    split <;> rfl
  typing m hm := by rcases hm with rfl | rfl <;> rfl

/-- The run when the held chats have been taken out for a new connection. -/
def resumed (r : Run) : Run :=
  ((r.attached.sent r.nextId r.machine.hello).told r.nextId).takeHeld

theorem resumed_outbox (r : Run) : r.resumed.outbox = { r.outbox with held := [] } := by
  rw [resumed, takeHeld, told_outbox, sent_toClient, attached_toClient]

theorem resumed_hushes (hp : Waits p) (r : Run) : Hushes p r r.resumed := by
  have hhello := sent_utters (P := fun m => p m = false) r.attached r.nextId (hp.hello r.machine)
  have htold := told_utters (P := fun m => p m = false)
    (r.attached.sent r.nextId r.machine.hello) r.nextId
    fun m hm => hp.typing m (Typing.sync_isTyping m hm)
  exact (attached_hushes r).trans (hhello.hushes.trans htold.hushes)

/-- A start that came to nothing: what waits was not looked at, and there is no session or no
connection left to send it on. -/
structure Stillborn (r r' : Run) : Prop where
  outbox : r'.outbox = r.outbox
  hushes : ∀ p, Waits p → Hushes p r r'
  gone : r'.isFinished = true ∨ r'.keeper.connection = none

/-- A session whose hello is rejected is over, if it was not before. -/
theorem rejected_isFinished (r : Run) (e : WireError) (before : SessionState) :
    (Run.reportState { r with machine := (r.machine.helloRejected e).2 } before).isFinished =
      true := by
  rw [Client.isFinished, reportState_toClient]
  show (r.machine.helloRejected e).2.isFinished = true
  unfold Machine.helloRejected
  split
  · assumption
  · rfl

theorem connectionLost_gone (r : Run) (before : SessionState) :
    (r.connectionLost before).keeper.connection = none := by
  rw [connectionLost_toClient]
  rfl

/-- What says nothing but the hello and what there is to say about typing. -/
theorem Utters.hushes_of_waits {c : Option ConnectionId}
    (h : Utters c (fun m => m = r.machine.hello ∨ m.IsTyping) r.attached r') (hp : Waits p) :
    Hushes p r r' := by
  obtain ⟨es, hdeals, hes⟩ := h
  refine (attached_hushes r).trans ⟨es, hdeals, ?_⟩
  intro e he m hm
  rcases (hes e he).utters m hm with rfl | htyping
  · exact hp.hello _
  · exact hp.typing m htyping

/-- A new connection comes to nothing, or the chats are taken out, and then the moves. -/
theorem Opening.outbox_cases (h : Opening r r') :
    Stillborn r r' ∨ Bursting r.resumed r.nextId r.outbox.held (false, r') ∨
      Flushing (r.resumed.sentAll r.nextId r.outbox.held) r' := by
  have hhushes {c : Option ConnectionId}
      (hutters : Utters c (fun m => m = r.machine.hello ∨ m.IsTyping) r.attached r') :
      ∀ p, Waits p → Hushes p r r' := fun _ hp => hutters.hushes_of_waits hp
  cases h with
  | rejected e he =>
      have hmachine : r.attached.machine = r.machine.connected := by rw [attached_toClient]
      refine .inl ⟨?_, hhushes (c := none) ?_, .inl ?_⟩
      · rw [reportState_toClient]
        show r.attached.outbox = r.outbox
        rw [attached_toClient]
      · refine .trans (.trans (unsent_utters _ (.wire e) he (.inl rfl)) ?_)
          (reportState_deals _ _).utters
        exact (Deals.of_trace_eq rfl).utters
      · rw [← hmachine]
        exact rejected_isFinished (r.attached.log _) e _
  | lost e =>
      refine .inl ⟨?_, hhushes (c := none) ?_, .inr (connectionLost_gone _ _)⟩
      · rw [connectionLost_toClient, log_toClient, attached_toClient]
      · exact (unsent_utters _ (.link e) trivial (.inl rfl)).trans (connectionLost_utters _ _)
  | resumed hresume =>
      have hgreeted : (r.attached.sent r.nextId r.machine.hello).outbox = r.outbox := by
        rw [sent_toClient, attached_toClient]
      cases hresume with
      | untold hburst =>
          refine .inl ⟨?_, hhushes (c := some r.nextId) ?_, .inr ?_⟩
          · rw [hburst.outbox_eq, hgreeted]
          · refine .trans (sent_utters _ _ (.inl rfl)) (.trans (Deals.of_trace_eq rfl).utters ?_)
            exact hburst.utters fun m hm => .inr (Typing.sync_isTyping m hm)
          · cases hburst with
            | lost _ _ _ _ _ => exact connectionLost_gone _ _
            | kept _ m _ e heq he =>
                -- what there is to say about typing can always be written
                have htyping := Typing.sync_isTyping m (by rw [heq]; simp)
                rcases htyping with rfl | rfl <;> cases he
      | unreplayed hburst =>
          rw [hgreeted] at hburst
          exact .inr (.inl hburst)
      | flushed hflush =>
          rw [hgreeted] at hflush
          exact .inr (.inr hflush)

/-- A new connection comes to nothing or empties the queue of chats in a burst. -/
theorem Opening.held_cases (h : Opening r r') (hchats : r.HoldsChats) :
    Stillborn r r' ∨ r'.outbox.held = [] ∧ Bursts ClientMessage.isChat r.outbox.held r r' := by
  have hresumed := resumed_hushes waits_isChat r
  rcases h.outbox_cases with hstill | hburst | hflush
  · exact .inl hstill
  · refine .inr ⟨?_, .after hresumed (hburst.bursts hchats)⟩
    rw [hburst.outbox_eq, resumed_outbox]
  · -- the whole queue went out, and what the flush adds to it are moves
    refine .inr ⟨?_, .after hresumed (.before (sentAll_bursts _ r.nextId hchats) ?_)⟩
    · rw [hflush.held_eq, sentAll_toClient, resumed_outbox]
    · refine (hflush.utters ?_).hushes
      intro _ m hm
      obtain ⟨tile, x, y, rfl, _⟩ := Outbox.mem_moves hm
      rfl

/-- A flush leaves the dragged tiles alone or empties them in a burst. -/
theorem Flushing.dirty_cases (h : Flushing r r') :
    r'.outbox.dirty = r.outbox.dirty ∨
      r'.outbox.dirty = ∅ ∧ Bursts ClientMessage.isMove r.outbox.moves r r' := by
  cases h with
  | unconnected _ => exact .inl rfl
  | idle _ => exact .inl rfl
  | deferred _ _ _ =>
      refine .inl ?_
      rw [armFlushRetry_toClient]
  | burst _ _ _ hburst =>
      have htake : Deals r r.takeDirty [] := .of_trace_eq rfl
      refine .inr ⟨?_, .after htake.hushes (hburst.bursts Outbox.moves_isMove)⟩
      rw [hburst.outbox_eq, takeDirty]

/-- A new connection leaves the dragged tiles alone or empties them in a burst. -/
theorem Opening.dirty_cases (h : Opening r r') (hchats : r.HoldsChats) :
    r'.outbox.dirty = r.outbox.dirty ∨
      r'.outbox.dirty = ∅ ∧ Bursts ClientMessage.isMove r.outbox.moves r r' := by
  rcases h.outbox_cases with hstill | hburst | hflush
  · exact .inl (by rw [hstill.outbox])
  · -- the replay broke off, and the moves were not looked at
    refine .inl ?_
    rw [hburst.outbox_eq, resumed_outbox]
  · have hreplayed : (r.resumed.sentAll r.nextId r.outbox.held).outbox =
        { r.outbox with held := [] } := by
      rw [sentAll_toClient, resumed_outbox]
    have hreplay := sentAll_utters (P := fun m => m.isMove = false) r.resumed r.nextId
      fun m hm => ClientMessage.isMove_of_isChat (hchats m hm)
    have hquiet := (resumed_hushes waits_isMove r).trans hreplay.hushes
    have hdirty := hflush.dirty_cases
    rw [hreplayed] at hdirty
    refine hdirty.imp id ?_
    rintro ⟨hempty, hbursts⟩
    exact ⟨hempty, .after hquiet hbursts⟩

end Opening

/-! ## A stimulus -/

section Stimuli

variable {r r' : Run} {s : Stimulus}

/-- What a stimulus does to what waits to be sent. -/
inductive Carrying (r : Run) (s : Stimulus) (r' : Run) : Prop
  | kept (h : r'.outbox = r.outbox) (hs : r.outbox.marked s = r.outbox)
  | held {text} (hs : s = .requested (.sendMessage text)) (hid : r.keeper.connection = none)
      (h : r'.outbox = r.outbox.hold (.sendMessage text))
  | flushed {r₀} (h₀ : r₀.outbox = r.outbox.marked s) (hdeals : Deals r r₀ [])
      (h : Flushing r₀ r')
  | opened (hs : s = .connected) (h : Opening { r with attempting := false } r')

theorem Sending.outbox_eq {m : ClientMessage} {ok : Bool} (h : Sending r m (ok, r')) :
    r'.outbox = r.outbox := by
  cases h with
  | out _ => rfl
  | unconnected _ => rfl
  | unwritable _ => rfl
  | lost _ => rw [connectionLost_toClient, log_toClient]

theorem Asking.outbox_eq {m : ClientMessage} {check : Except BoardError Unit}
    (h : Asking r m check r') : r'.outbox = r.outbox := by
  cases h with
  | denied e => rfl
  | unconnected _ => rfl
  | unwritable e _ => rfl
  | lost e _ => rw [answer_toClient, connectionLost_toClient, log_toClient]
  | out _ => rfl

theorem Leaving.outbox_eq (h : Leaving r r') : r'.outbox = r.outbox := by
  cases h with
  | silent _ => rw [reportState_toClient, left]
  | unsaid _ _ _ => rw [reportState_toClient, log_toClient, left]
  | said _ _ => rw [reportState_toClient, sent_toClient, left]

theorem Handling.carrying (h : Handling r s r') : Carrying r s r' := by
  cases h with
  | opened _ ho => exact .opened rfl ho
  | unopened _ => exact .kept (by rw [connectionLost_toClient]) rfl
  | forwarded _ _ => exact .kept (by rw [reportState_toClient, applyMessage_toClient]) rfl
  | ignored => exact .kept rfl rfl
  | stopped _ => exact .kept (by rw [reportState_toClient]) rfl
  | cutOff _ hinbound =>
      refine .kept (by rw [connectionLost_toClient]) ?_
      cases s <;> first | rfl | cases hinbound
  | chat _ hsend => exact .kept hsend.outbox_eq rfl
  | held hid => exact .held rfl hid rfl
  | typing _ hburst => exact .kept hburst.outbox_eq rfl
  | untold _ => exact .kept rfl rfl
  | @moved tile x y _ hflush =>
      have hmarked : Deals r { r.answer .done with outbox := r.outbox.markDirty tile x y } [] :=
        .before (r.answer_deals .done) (.of_trace_eq rfl)
      exact .flushed rfl hmarked hflush
  | turn hask => exact .kept hask.outbox_eq rfl
  | shout hask => exact .kept hask.outbox_eq rfl
  | capacity hask => exact .kept hask.outbox_eq rfl
  | snapshot => exact .kept rfl rfl
  | left hleave => exact .kept (by rw [answer_toClient, hleave.outbox_eq]) rfl
  | abandoned hleave => exact .kept hleave.outbox_eq rfl
  | keptAlive hsend => exact .kept hsend.outbox_eq rfl
  | reconnecting _ => exact .kept (by rw [connect_toClient]) rfl
  | flushed hflush =>
      have hheard : Deals r { r with flushRetry := r.flushRetry.cancel } [] := .of_trace_eq rfl
      refine .flushed ?_ hheard hflush
      rfl
  | quietened => exact .kept (by rw [reportBoard_toClient]) rfl

end Stimuli

/-! ## A moment -/

section Moments

variable {r : Run} {m : Moment}

/-- What a moment that does not end the client does to what waits to be sent. -/
theorem meet_carrying (hend : (r.meet m).isFinished = false) :
    (m.heard? = none ∧ (r.meet m).outbox = r.outbox) ∨
      ∃ s, m.heard? = some s ∧ Carrying (r.arrive m) s (r.meet m) := by
  have hcases := going_cases hend
  generalize r.meet m = r' at hcases ⊢
  cases hcases with
  | refused _ h => exact .inl ⟨h, rfl⟩
  | @unheard s h hs =>
      refine .inr ⟨s, h, .kept rfl ?_⟩
      -- a drag is always heard
      cases s with
      | requested q => cases hs
      | _ => rfl
  | @handled s _ h _ hhandle => exact .inr ⟨s, h, hhandle.carrying⟩

theorem Bursts.dealings {p : ClientMessage → Bool} {ms : List ClientMessage}
    (h : Bursts p ms (r.arrive m) (r.meet m)) : Burst p ms (r.dealings m) := by
  obtain ⟨es, hdeals, hes⟩ := h
  rw [((r.arrive_deals m).after hdeals).dealings_eq]
  exact hes

/-- A moment leaves the queue of chats alone, adds to it, or empties it in a burst. -/
theorem meet_held (hend : (r.meet m).isFinished = false) (hchats : r.HoldsChats) :
    (r.meet m).outbox.held = r.outbox.held ∨
      (∃ text, (r.meet m).outbox.held = r.outbox.held ++ [.sendMessage text]) ∨
      (r.meet m).outbox.held = [] ∧
        Burst ClientMessage.isChat r.outbox.held (r.dealings m) := by
  rcases meet_carrying hend with ⟨_, hsame⟩ | ⟨s, _, hcarrying⟩
  · exact .inl (by rw [hsame])
  · cases hcarrying with
    | kept h _ => exact .inl (by rw [h]; rfl)
    | @held text _ _ h => exact .inr (.inl ⟨text, by rw [h]; rfl⟩)
    | flushed h₀ _ hflush =>
        -- neither a drag nor a flush touches the queue
        refine .inl ?_
        rw [hflush.held_eq, h₀]
        cases s with
        | requested q => cases q <;> rfl
        | _ => rfl
    | opened _ ho =>
        rcases ho.held_cases hchats with hstill | ⟨hempty, hbursts⟩
        · exact .inl (by rw [hstill.outbox]; rfl)
        · have hset : Deals (r.arrive m) { r.arrive m with attempting := false } [] :=
            .of_trace_eq rfl
          exact .inr (.inr ⟨hempty, (Bursts.after hset.hushes hbursts).dealings⟩)

theorem meet_holdsChats (hend : (r.meet m).isFinished = false) (h : r.HoldsChats) :
    (r.meet m).HoldsChats := by
  intro msg hmsg
  rcases meet_held hend h with hsame | ⟨text, hadded⟩ | ⟨hempty, _⟩
  · rw [hsame] at hmsg
    exact h msg hmsg
  · rw [hadded] at hmsg
    rcases List.mem_append.mp hmsg with hmsg | hmsg
    · exact h msg hmsg
    · rw [List.mem_singleton.mp hmsg]
      rfl
  · rw [hempty] at hmsg
    cases hmsg

theorem play_holdsChats (config : ClientConfig) {ms : List Moment}
    (hgoing : (play config ms).isFinished = false) : (play config ms).HoldsChats := by
  refine follow_induction ?_ hgoing ?_
  · intro r m hend h
    exact meet_holdsChats hend h
  · intro msg hmsg
    rw [start, connect_toClient] at hmsg
    cases hmsg

/-- What waits once a moment has been heard of. -/
def heardOutbox (r : Run) (m : Moment) : Outbox :=
  match m.heard? with
  | some s => r.outbox.marked s
  | none => r.outbox

/-- A moment leaves the dragged tiles alone, but for a drag that it brings, or empties them in a
burst. -/
theorem meet_dirty (hend : (r.meet m).isFinished = false) (hchats : r.HoldsChats) :
    (r.meet m).outbox.dirty = (r.heardOutbox m).dirty ∨
      (r.meet m).outbox.dirty = ∅ ∧
        Burst ClientMessage.isMove (r.heardOutbox m).moves (r.dealings m) := by
  rcases meet_carrying hend with ⟨hnone, hsame⟩ | ⟨s, hs, hcarrying⟩
  · refine .inl ?_
    rw [heardOutbox, hnone, hsame]
  · rw [heardOutbox, hs]
    cases hcarrying with
    | kept h hmarked =>
        refine .inl ?_
        rw [h, ← hmarked]
        rfl
    | held heq _ h =>
        refine .inl ?_
        rw [h, heq]
        rfl
    | flushed h₀ hdeals hflush =>
        rcases hflush.dirty_cases with hsame | ⟨hempty, hbursts⟩
        · refine .inl ?_
          rw [hsame, h₀]
          rfl
        · rw [h₀] at hbursts
          exact .inr ⟨hempty, (Bursts.after hdeals.hushes hbursts).dealings⟩
    | opened heq ho =>
        have hset : Deals (r.arrive m) { r.arrive m with attempting := false } [] :=
          .of_trace_eq rfl
        rw [heq]
        rcases ho.dirty_cases hchats with hsame | ⟨hempty, hbursts⟩
        · exact .inl hsame
        · exact .inr ⟨hempty, (Bursts.after hset.hushes hbursts).dealings⟩

end Moments

end Run

end TileRoom

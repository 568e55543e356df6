import TileRoom.Proofs.Client.History
import TileRoom.Proofs.Client.Phase

/-!
# Chats in order

A chat goes out at once if there is a connection, and through the queue if there is none. The two
ways never meet: while there is a connection the queue is empty (`Tidy`), so what a stimulus lets go
out, followed by what still waits, is in the order in which it was given (`Conveys`).
`chats_in_order` joins the moments of a life.
-/

namespace TileRoom

/-- The text of a chat. -/
def ClientMessage.chat? : ClientMessage → Option String
  | .sendMessage text => some text
  | _ => none

/-- The chat that a client is given with a stimulus. -/
def Stimulus.chat? : Stimulus → Option String
  | .requested (.sendMessage text) => some text
  | _ => none

theorem Outbox.marked_held (o : Outbox) (s : Stimulus) : (o.marked s).held = o.held := by
  cases s with
  | requested q => cases q <;> rfl
  | _ => rfl

theorem ClientMessage.IsTyping.isChat {m : ClientMessage} (h : m.IsTyping) : m.isChat = false :=
  Run.waits_isChat.typing m h

/-- Of all reasons to send something only two give a chat. -/
theorem Client.Saying.isChat {c : Client} {s : Stimulus} {o : Outbox} {m : ClientMessage}
    (h : c.Saying s o m) (hs : s ≠ .connected) (hchat : s.chat? = none) : m.isChat = false := by
  cases h with
  | hello heq => exact absurd heq hs
  | held heq _ _ => exact absurd heq hs
  | typing htyping => exact htyping.isChat
  | chat heq =>
      rw [heq] at hchat
      cases hchat
  | _ => rfl

namespace Run

section Stimuli

variable {r r' : Run} {s : Stimulus} {given : List ClientMessage}

/-- The chats that went out between `r` and `r'`, followed by those that wait after it, are among
those that waited before it and those that were given, in this order. -/
def Conveys (given : List ClientMessage) (r r' : Run) : Prop :=
  ∃ es, Deals r r' es ∧
    ((delivered es).filter ClientMessage.isChat ++ r'.outbox.held).Sublist (r.outbox.held ++ given)

theorem Hushes.conveys (h : Hushes ClientMessage.isChat r r')
    (hheld : r'.outbox.held.Sublist (r.outbox.held ++ given)) : Conveys given r r' := by
  obtain ⟨es, hdeals, hes⟩ := h
  refine ⟨es, hdeals, ?_⟩
  rw [hes.delivered]
  exact hheld

/-- A burst delivers a beginning of the queue. -/
theorem Bursts.conveys (h : Bursts ClientMessage.isChat r.outbox.held r r')
    (hheld : r'.outbox.held = []) : Conveys given r r' := by
  obtain ⟨es, hdeals, hes⟩ := h
  refine ⟨es, hdeals, ?_⟩
  rw [hheld, List.append_nil]
  cases hes with
  | whole sent _ =>
      rw [sent]
      exact List.sublist_append_left _ _
  | broken before m rest heq sent _ =>
      rw [sent, heq, List.append_assoc]
      exact List.sublist_append_left _ _

theorem Handling.hushes (h : Handling r s r') (hs : s ≠ .connected) (hchat : s.chat? = none) :
    Hushes ClientMessage.isChat r r' := by
  obtain ⟨es, hdeals, hes⟩ := h.doing
  exact ⟨es, hdeals, fun e he m hm => (hes.utters e he m hm).isChat hs hchat⟩

theorem Handling.held_eq (h : Handling r s r') (hs : s ≠ .connected) (hchat : s.chat? = none) :
    r'.outbox.held = r.outbox.held := by
  cases h.carrying with
  | kept hsame _ => rw [hsame]
  | held heq _ _ =>
      rw [heq] at hchat
      cases hchat
  | flushed hmarked _ hflush => rw [hflush.held_eq, hmarked, Outbox.marked_held]
  | opened heq _ => exact absurd heq hs

/-- A chat that is sent at once is sent, or it is lost with the connection. -/
theorem Sending.conveys {text : String} {ok : Bool} (h : Sending r (.sendMessage text) (ok, r'))
    (hheld : r.outbox.held = []) : Conveys [.sendMessage text] r r' := by
  have hempty : r'.outbox.held = [] := by rw [h.outbox_eq, hheld]
  have hunsent (e : ClientError) :
      Conveys [.sendMessage text] r (r.log (.unsent (.sendMessage text) e)) := by
    refine ⟨_, r.log_deals_of_isDealing rfl, ?_⟩
    rw [log_toClient, hheld]
    exact List.nil_sublist _
  cases h with
  | out _ =>
      refine ⟨_, r.sent_deals _ _, ?_⟩
      rw [hempty, hheld]
      exact List.Sublist.refl _
  | unconnected _ => exact hunsent _
  | unwritable _ => exact hunsent _
  | @lost _ e _ =>
      refine ⟨_, (r.log_deals_of_isDealing rfl).trans (connectionLost_deals _ _), ?_⟩
      rw [hempty, delivered_append, dropping]
      simp [delivered, Effect.sent?, List.filterMap_map, Function.comp_def]

/-- What a stimulus lets go out is in order, if nothing waits while there is a connection. -/
theorem Handling.conveys (h : Handling r s r') (hchats : r.HoldsChats)
    (hprompt : r.keeper.isConnected = true → r.outbox.held = []) :
    Conveys (s.chat?.toList.map .sendMessage) r r' := by
  have hcarried := Handling.held_eq h
  have hhushes := Handling.hushes h
  have hother (hs : s ≠ .connected) (hchat : s.chat? = none) :
      Conveys (s.chat?.toList.map .sendMessage) r r' := by
    refine (hhushes hs hchat).conveys ?_
    rw [hcarried hs hchat]
    exact List.sublist_append_left _ _
  cases h with
  | opened _ ho =>
      have hset : Deals r { r with attempting := false } [] := .of_trace_eq rfl
      rcases ho.held_cases hchats with hstill | ⟨hempty, hbursts⟩
      · refine (hset.hushes.trans (hstill.hushes _ waits_isChat)).conveys ?_
        rw [hstill.outbox]
        exact List.sublist_append_left _ _
      · exact Bursts.conveys (.after hset.hushes hbursts) hempty
  | chat hid hsend =>
      have hconnected : r.keeper.isConnected = true := by
        rw [Keeper.isConnected, hid]
        rfl
      obtain ⟨es, hdeals, hes⟩ := hsend.conveys (hprompt hconnected)
      exact ⟨es, (r.answer_deals _).after hdeals, hes⟩
  | held _ =>
      refine Hushes.conveys (Deals.hushes (.before (r.answer_deals .done) (.of_trace_eq rfl))) ?_
      exact List.Sublist.refl _
  | cutOff _ hinbound _ =>
      refine hother ?_ ?_
      · rintro rfl
        cases hinbound
      · cases s <;> first | rfl | cases hinbound
  | _ => exact hother (by simp) rfl

/-- A stimulus that leaves a client with a connection leaves it with nothing in the queue. -/
theorem Handling.prompt {p : Phase} (h : Handling r s r') (hr : r.Sound p)
    (hgoing : r.isFinished = false) (enabled : r.isEnabled s = true)
    (hprompt : r.keeper.isConnected = true → r.outbox.held = []) (hend : r'.isFinished = false)
    (hconnected : r'.keeper.isConnected = true) : r'.outbox.held = [] := by
  by_cases hs : s = .connected
  · subst hs
    cases h with
    | opened _ ho =>
        rcases ho.outbox_cases with hstill | hburst | hflush
        · -- nothing came of it, so there is no connection
          rcases hstill.gone with hdone | hnone
          · exact absurd (hdone.symm.trans hend) (by decide)
          · rw [Keeper.isConnected, hnone] at hconnected
            cases hconnected
        · rw [hburst.outbox_eq, resumed_outbox]
        · rw [hflush.held_eq, sentAll_toClient, resumed_outbox]
    | cutOff _ hinbound => cases hinbound
  · -- no other stimulus brings a connection, so there was one before
    have hp : p = .connected := by
      rcases h.heads hr hgoing enabled hend with hsound | hsound
      · exact Phase.eq_connected_of_after (hsound.installed.mp hconnected) hs
      · cases hsound.installed.mp hconnected
    have hbefore := hr.installed.mpr hp
    have hempty := hprompt hbefore
    cases h.carrying with
    | kept hsame _ => rw [hsame, hempty]
    | held _ hid _ =>
        rw [Keeper.isConnected, hid] at hbefore
        cases hbefore
    | flushed hmarked _ hflush => rw [hflush.held_eq, hmarked, Outbox.marked_held, hempty]
    | opened heq _ => exact absurd heq hs

end Stimuli

/-! ## Moments -/

/-- What an unfinished client keeps to. -/
structure Tidy (r : Run) : Prop where
  sound : ∃ p, r.Sound p
  chats : r.HoldsChats
  prompt : r.keeper.isConnected = true → r.outbox.held = []

/-- The chats that a client is given at some moments. A finished client is given none. -/
def chatsGiven (r : Run) (ms : List Moment) : List String :=
  (r.reachedOver ms).filterMap Stimulus.chat?

section Moments

variable {r : Run} {m : Moment} {ms : List Moment}

theorem Tidy.meet (h : r.Tidy) (hend : (r.meet m).isFinished = false) : (r.meet m).Tidy := by
  obtain ⟨p, hp⟩ := h.sound
  refine ⟨meet_sound hp hend, meet_holdsChats hend h.chats, ?_⟩
  have hbefore := isFinished_of_meet hend
  have hgoing : (r.arrive m).isFinished = false := hbefore
  have hcases := going_cases hend
  generalize r.meet m = r' at hend hcases ⊢
  cases hcases with
  | refused _ _ => exact h.prompt
  | unheard _ _ => exact h.prompt
  | handled _ hs hhandle => exact hhandle.prompt hp hgoing hs h.prompt hend

/-- A client that keeps to it unless it is finished still does so after a moment. -/
theorem meet_tidy (h : r.isFinished = false → r.Tidy) (m : Moment)
    (hend : (r.meet m).isFinished = false) : (r.meet m).Tidy :=
  (h (isFinished_of_meet hend)).meet hend

theorem start_tidy (config : ClientConfig) : (start config).Tidy where
  sound := ⟨_, start_sound config⟩
  chats := @play_holdsChats config [] rfl
  prompt _ := by rw [start, connect_toClient]; rfl

theorem play_tidy {config : ClientConfig} (hgoing : (play config ms).isFinished = false) :
    (play config ms).Tidy :=
  follow_induction (fun _ _ hend h => h.meet hend) hgoing (start_tidy config)

/-- Letting go of everything lets nothing more go out. -/
theorem Conveys.closing {given : List ClientMessage} {r r' r'' : Run} (h : Conveys given r r')
    (h' : Closing r' r'') : Conveys given r r'' := by
  obtain ⟨es, hdeals, hes⟩ := h
  obtain ⟨fs, hclose, hfs⟩ := (h'.utters (c := none)).hushes (p := ClientMessage.isChat)
  refine ⟨_, hdeals.trans hclose, ?_⟩
  rw [delivered_append, List.filter_append, hfs.delivered, List.append_nil]
  cases h' with
  | going _ => exact hes
  | torn _ =>
      rw [tearDown_toClient]
      exact ((List.nil_sublist _).append_left _).trans hes

/-- What a moment lets go out is in order. -/
theorem meet_conveys (h : r.isFinished = false → r.Tidy) (m : Moment) :
    Conveys (((r.reached? m).toList.filterMap Stimulus.chat?).map .sendMessage) r (r.meet m) := by
  rcases r.meet_reached m with ⟨_, hsame, hdeals⟩ | ⟨s, r₁, hs, hhandle, hclosing⟩
  · refine Hushes.conveys hdeals.hushes ?_
    rw [hsame]
    exact List.sublist_append_left _ _
  · have htidy := h (isEnabled_of_reached? hs).1
    obtain ⟨es, hdeals, hes⟩ := hhandle.conveys htidy.chats htidy.prompt
    have hgiven : [s].filterMap Stimulus.chat? = s.chat?.toList := by
      cases hchat : s.chat? <;> simp [hchat]
    rw [hs, Option.toList_some, hgiven]
    exact Conveys.closing ⟨es, (r.arrive_deals m).after hdeals, hes⟩ hclosing

/-- What a life lets go out is in order. -/
theorem follow_conveys (h : r.isFinished = false → r.Tidy) (ms : List Moment) :
    Conveys ((r.chatsGiven ms).map .sendMessage) r (r.follow ms) := by
  induction ms generalizing r with
  | nil => exact Hushes.conveys (Deals.refl r).hushes (List.sublist_append_left _ _)
  | cons m ms ih =>
      obtain ⟨es, hdeals, hes⟩ := meet_conveys h m
      obtain ⟨fs, hdeals', hfs⟩ := ih (meet_tidy h m)
      refine ⟨es ++ fs, hdeals.trans hdeals', ?_⟩
      rw [delivered_append, List.filter_append, List.append_assoc, follow_cons, chatsGiven,
        reachedOver, List.filterMap_append, List.map_append, ← List.append_assoc r.outbox.held]
      -- what waits between the two stretches comes after the first and before the second
      refine (hfs.append_left _).trans ?_
      rw [← List.append_assoc]
      exact hes.append_right _

end Moments

theorem filterMap_chat? (ms : List ClientMessage) :
    (ms.filter ClientMessage.isChat).filterMap ClientMessage.chat? =
      ms.filterMap ClientMessage.chat? := by
  rw [List.filterMap_filter]
  congr 1
  funext m
  cases m <;> rfl

theorem filterMap_chat?_sendMessage (texts : List String) :
    (texts.map .sendMessage).filterMap ClientMessage.chat? = texts := by
  rw [List.filterMap_map]
  exact List.filterMap_some

/-- The chats that have gone out in a life and those that still wait, as messages. -/
theorem play_conveys (config : ClientConfig) (ms : List Moment) :
    ((play config ms).said.filter ClientMessage.isChat ++ (play config ms).outbox.held).Sublist
      (((start config).chatsGiven ms).map .sendMessage) := by
  obtain ⟨es, hdeals, hes⟩ := follow_conveys (fun _ => start_tidy config) ms
  have hstart : (start config).outbox.held = [] := by
    rw [start, connect_toClient]
    rfl
  have hsaid : (play config ms).said = delivered es := by
    rw [play_eq, ((start_deals config).trans hdeals).said_eq]
    rfl
  rw [hstart, List.nil_append] at hes
  rw [hsaid]
  exact hes

/-- Over a whole life, whatever connections are lost and opened in it, the chats that have gone out,
followed by those that still wait, are some of those that were given, in the order in which they
were given and none of them twice. And at any time at which there is a connection nothing waits, so
that a chat that is given then does not overtake another. -/
theorem chats_in_order (config : ClientConfig) (ms : List Moment) :
    ((play config ms).said.filterMap ClientMessage.chat? ++
        (play config ms).outbox.held.filterMap ClientMessage.chat?).Sublist
      ((start config).chatsGiven ms) ∧
    ((play config ms).isFinished = false → (play config ms).keeper.isConnected = true →
      (play config ms).outbox.held = []) := by
  constructor
  · have htexts := (play_conveys config ms).filterMap ClientMessage.chat?
    rw [List.filterMap_append, filterMap_chat?, filterMap_chat?_sendMessage] at htexts
    exact htexts
  · intro hgoing
    exact (play_tidy hgoing).prompt

/-- A chat that waits for the first connection and one that finds it open. -/
example :
    (play {} [{ stimulus := .requested (.sendMessage "a") }, { stimulus := .connected },
      { stimulus := .requested (.sendMessage "b") }]).said.filterMap ClientMessage.chat? =
      ["a", "b"] := by
  decide +kernel

end Run

end TileRoom

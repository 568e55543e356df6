import TileRoom.Proofs.Client.History
import TileRoom.Proofs.Client.Phase

/-!
# What is said on a new connection

A new connection is opened with the hello, and after it comes what the server has to be told
(`Run.catchUp`): whether the user is typing, the held chats, and the dragged tiles. All of it is one
burst (`Opening.bursts`): it breaks off at the first message that does not go out, and if that is
the hello nothing can follow (`Opening.greeting`).

`Abides` is what all other ways to react have in common with it: no other connection is taken into
use.
-/

namespace TileRoom

theorem Typing.sync_desired (t : Typing) : t.sync.2.desired = t.desired := by
  unfold sync
  split <;> rfl

theorem Typing.set_desired (t : Typing) (value connected : Bool) :
    (t.set value connected).2.desired = value := by
  cases connected with
  | false => rfl
  | true => exact sync_desired _

/-- A server that has been told nothing is told only that the user is typing. -/
theorem Typing.sync_of_untold {t : Typing} (h : t.told = false) :
    t.sync.1.toList = if t.desired then [.startTyping] else [] := by
  unfold sync
  rw [h]
  cases t.desired <;> rfl

/-! ## A burst of everything -/

section Bursts

variable {p : ClientMessage → Bool} {ms ns : List ClientMessage} {es : List Effect} {e : Effect}
  {m : ClientMessage}

/-- How a burst of messages of any kind ends. -/
theorem Burst.split (h : Burst (fun _ => true) ms es) :
    delivered es = ms ∧ undelivered es = [] ∨
      ∃ before lost rest, ms = before ++ lost :: rest ∧ delivered es = before ∧
        undelivered es = [lost] := by
  have hall (ms : List ClientMessage) : ms.filter (fun _ => true) = ms :=
    List.filter_eq_self.mpr fun _ _ => rfl
  cases h with
  | whole sent unsent =>
      rw [hall] at sent unsent
      exact .inl ⟨sent, unsent⟩
  | broken before lost rest heq sent unsent =>
      rw [hall] at sent unsent
      exact .inr ⟨before, lost, rest, heq, sent, unsent⟩

theorem Burst.subset (h : Burst (fun _ => true) ms es) (he : e ∈ es) (hm : e.message? = some m) :
    m ∈ ms := by
  have hmem : m ∈ delivered es ∨ m ∈ undelivered es :=
    (Effect.sent?_or_unsent?_of_message? hm).imp (fun h => List.mem_filterMap.mpr ⟨e, he, h⟩)
      fun h => List.mem_filterMap.mpr ⟨e, he, h⟩
  rcases h.split with ⟨sent, unsent⟩ | ⟨before, lost, rest, heq, sent, unsent⟩
  · rw [sent, unsent] at hmem
    exact hmem.resolve_right List.not_mem_nil
  · rw [sent, unsent] at hmem
    rw [heq]
    rcases hmem with hmem | hmem
    · exact List.mem_append_left _ hmem
    · rw [List.mem_singleton.mp hmem]
      simp

/-- What is of a kind in a burst that breaks off, if at all, at a message of that kind. -/
theorem Burst.ofKind (h : Burst (fun _ => true) ms es) (hkind : ∀ m ∈ undelivered es, p m = true) :
    Burst p (ms.filter p) es := by
  rcases h.split with ⟨sent, unsent⟩ | ⟨before, lost, rest, heq, sent, unsent⟩
  · exact .whole (by rw [sent]) (by rw [unsent]; rfl)
  · have hlost : p lost = true := hkind lost (by rw [unsent]; simp)
    refine .broken (before.filter p) lost (rest.filter p) ?_ (by rw [sent]) ?_
    · rw [heq, List.filter_append, List.filter_cons_of_pos hlost]
    · rw [unsent, List.filter_cons_of_pos hlost]
      rfl

/-- A burst that gets as far as the messages of a kind that come last breaks off among them. -/
theorem Burst.brokenAmong (h : Burst (fun _ => true) (ms ++ ns) es)
    (hms : ∀ m ∈ ms, p m = false) (hns : ∀ m ∈ ns, p m = true) (he : e ∈ es)
    (hm : e.message? = some m) (hkind : p m = true) : ∀ m ∈ undelivered es, p m = true := by
  rcases h.split with ⟨_, unsent⟩ | ⟨before, lost, rest, heq, sent, unsent⟩
  · rw [unsent]
    simp
  · rw [unsent]
    intro m' hm'
    rw [List.mem_singleton.mp hm']
    rcases List.append_eq_append_iff.mp heq with ⟨more, rfl, hrest⟩ | ⟨more, hmore, _⟩
    · exact hns lost (by rw [hrest]; simp)
    · -- it broke off before them, so what is of the kind is what was lost
      rcases Effect.sent?_or_unsent?_of_message? hm with hsent | hunsent
      · have hbefore : m ∈ before := sent ▸ List.mem_filterMap.mpr ⟨e, he, hsent⟩
        have hfalse := hms m (by rw [hmore]; exact List.mem_append_left _ hbefore)
        exact absurd (hkind.symm.trans hfalse) (by decide)
      · have hlost : m ∈ [lost] := unsent ▸ List.mem_filterMap.mpr ⟨e, he, hunsent⟩
        rw [← List.mem_singleton.mp hlost]
        exact hkind

end Bursts

namespace Run


section Bursts

variable {r r' r₁ r₂ r₃ : Run} {id : ConnectionId} {ms ns : List ClientMessage}
  {es fs : List Effect}

/-- `r'` came from `r` over a burst of messages of any kind. -/
def Recites (ms : List ClientMessage) (r r' : Run) : Prop :=
  Bursts (fun _ => true) ms r r'

theorem Deals.recites (h : Deals r r' []) : Recites [] r r' :=
  ⟨[], h, .whole rfl rfl⟩

theorem Recites.after (h : Deals r₁ r₂ []) (h' : Recites ms r₂ r₃) : Recites ms r₁ r₃ :=
  Bursts.after h.hushes h'

/-- What comes after messages that went out. -/
theorem Recites.sentAll (h : Recites ns (r.sentAll id ms) r') : Recites (ms ++ ns) r r' := by
  obtain ⟨es, hdeals, hes⟩ := h
  refine ⟨_, (r.sentAll_deals id ms).trans hdeals, ?_⟩
  have hsent : (delivered (ms.map (.sentOn id) ++ es)).filter (fun _ => true) =
      ms ++ (delivered es).filter fun _ => true := by
    simp
  have hunsent : (undelivered (ms.map (.sentOn id) ++ es)).filter (fun _ => true) =
      (undelivered es).filter fun _ => true := by
    simp
  cases hes with
  | whole sent unsent => exact .whole (by rw [hsent, sent]) (by rw [hunsent, unsent])
  | broken before m rest heq sent unsent =>
      refine .broken (ms ++ before) m rest ?_ (by rw [hsent, sent]) (by rw [hunsent, unsent])
      rw [heq, List.append_assoc]

/-- Of a longer list no more goes out than where a burst broke off. -/
theorem Bursting.append (h : Bursting r id ms (false, r')) (ns : List ClientMessage) :
    Bursting r id (ms ++ ns) (false, r') := by
  cases h with
  | kept before m rest e heq he =>
      exact .kept before m (rest ++ ns) e (by rw [heq, List.append_assoc]; rfl) he
  | lost before m rest e heq =>
      exact .lost before m (rest ++ ns) e (by rw [heq, List.append_assoc]; rfl)

theorem Bursting.recites {ok : Bool} (h : Bursting r id ms (ok, r')) : Recites ms r r' :=
  h.bursts fun _ _ => rfl

end Bursts

/-! ## The new connection -/

section Opening

variable {r r' : Run} {id : ConnectionId}

/-- What the server is told directly after the hello, if so much waits to be written. -/
def catchUp (r : Run) (buffered : Nat) : List ClientMessage :=
  (if r.typing.desired then [.startTyping] else []) ++ r.outbox.held ++
    if buffered = 0 then r.outbox.moves else []

theorem sentAll_buffered (r : Run) (id : ConnectionId) (ms : List ClientMessage) :
    (r.sentAll id ms).uplink.buffered = r.uplink.buffered := by
  induction ms generalizing r with
  | nil => rfl
  | cons m ms ih => exact ih (r.sent id m)

theorem attached_buffered (r : Run) : r.attached.uplink.buffered = r.uplink.buffered := by
  show r.release.uplink.buffered = r.uplink.buffered
  unfold release
  cases r.keeper.connection <;> rfl

/-- A flush sends the dragged tiles if nothing waits to be written. -/
theorem Flushing.recites (h : Flushing r r') (hid : r.keeper.connection = some id) :
    Recites (if r.uplink.buffered = 0 then r.outbox.moves else []) r r' := by
  cases h with
  | unconnected hnone =>
      rw [hid] at hnone
      cases hnone
  | idle hempty =>
      have hnone : r.outbox.moves = [] := by
        rw [Outbox.moves, hempty]
        rfl
      rw [hnone, ite_self]
      exact (Deals.refl r).recites
  | deferred _ _ hbuffered =>
      rw [if_neg (by omega)]
      exact (armFlushRetry_deals r).recites
  | burst _ _ hbuffered hburst =>
      rw [if_pos hbuffered]
      exact .after (.of_trace_eq rfl) hburst.recites

theorem Resuming.recites (h : Resuming r id r') (hid : r.keeper.connection = some id)
    (huntold : r.typing.told = false) : Recites (r.catchUp r.uplink.buffered) r r' := by
  have hset : Deals r { r with typing := r.typing.sync.2 } [] := .of_trace_eq rfl
  have htake : Deals (r.told id) (r.told id).takeHeld [] := .of_trace_eq rfl
  unfold catchUp
  rw [← Typing.sync_of_untold huntold, List.append_assoc]
  cases h with
  | untold hburst => exact .after hset (hburst.append _).recites
  | unreplayed hburst =>
      exact .after hset (Recites.sentAll (.after htake (hburst.append _).recites))
  | flushed hflush =>
      have hline : ((r.told id).takeHeld.sentAll id r.outbox.held).keeper.connection = some id := by
        rw [sentAll_toClient]
        exact (told_connection r id).trans hid
      have hmoves := hflush.recites hline
      have hbuffered : ((r.told id).takeHeld.sentAll id r.outbox.held).uplink.buffered =
          r.uplink.buffered := by
        rw [sentAll_buffered]
        exact sentAll_buffered _ _ _
      have hdirty : ((r.told id).takeHeld.sentAll id r.outbox.held).outbox.moves =
          r.outbox.moves := by
        rw [sentAll_toClient]
        show (r.told id).outbox.moves = r.outbox.moves
        rw [told_outbox]
      rw [hbuffered, hdirty] at hmoves
      exact .after hset (Recites.sentAll (.after htake (Recites.sentAll hmoves)))

/-- On a new connection the hello comes first, and all that the server has to be told follows. -/
theorem Opening.recites (h : Opening r r') (huntold : r.typing.told = false) :
    Recites (r.machine.hello :: r.catchUp r.uplink.buffered) r.attached r' := by
  have hunsent (e : ClientError) : Recites (r.machine.hello :: r.catchUp r.uplink.buffered)
      r.attached (r.attached.log (.unsent r.machine.hello e)) :=
    ⟨_, log_deals_of_isDealing _ rfl, .broken [] _ _ rfl rfl rfl⟩
  cases h with
  | rejected e _ =>
      refine Bursts.before (hunsent (.wire e)) (Deals.hushes (.before ?_ (reportState_deals _ _)))
      exact .of_trace_eq rfl
  | lost e => exact Bursts.before (hunsent (.link e)) (connectionLost_utters (c := none) _ _).hushes
  | resumed hresume =>
      have hcatchUp := hresume.recites (by simp [Keeper.attach]) (by simpa using huntold)
      have hbuffered : (r.attached.sent r.nextId r.machine.hello).uplink.buffered =
          r.uplink.buffered := attached_buffered r
      have hsame (n : Nat) :
          (r.attached.sent r.nextId r.machine.hello).catchUp n = r.catchUp n := by
        unfold catchUp
        rw [sent_toClient, attached_toClient]
      rw [hbuffered, hsame] at hcatchUp
      have hgreeted : Recites (r.catchUp r.uplink.buffered)
          (r.attached.sentAll r.nextId [r.machine.hello]) r' := hcatchUp
      exact hgreeted.sentAll

/-- The hello goes out, or there is no session or no connection left. -/
theorem Opening.greeting (h : Opening r r') :
    (r'.isFinished = true ∨ r'.keeper.connection = none) ∨
      ∃ es, Deals r.attached r' (.sentOn r.nextId r.machine.hello :: es) := by
  cases h with
  | rejected e _ =>
      have hmachine : r.attached.machine = r.machine.connected := by rw [attached_toClient]
      rw [← hmachine]
      exact .inl (.inl (rejected_isFinished (r.attached.log _) e _))
  | lost e => exact .inl (.inr (connectionLost_gone _ _))
  | resumed hresume =>
      obtain ⟨es, hdeals, _⟩ := hresume.utters (P := fun _ => True) (by simp [Keeper.attach])
        (by simp) (by simp) (by simp)
      exact .inr ⟨es, (sent_deals _ _ _).trans hdeals⟩

end Opening

/-! ## What stays as it is -/

/-- Between `r` and `r'` no connection was taken into use, and the user has not said anything else
about typing. The settings never change. -/
structure Abides (r r' : Run) : Prop where
  connection : r'.keeper.connection = r.keeper.connection ∨ r'.keeper.connection = none
  desired : r'.typing.desired = r.typing.desired
  config : r'.config = r.config

section Abides

variable {r r' r₁ r₂ r₃ : Run} {id : ConnectionId} {ok : Bool}

theorem Abides.of_eq (connection : r'.keeper.connection = r.keeper.connection)
    (desired : r'.typing.desired = r.typing.desired) (config : r'.config = r.config) :
    Abides r r' :=
  ⟨.inl connection, desired, config⟩

theorem Abides.refl (r : Run) : Abides r r :=
  .of_eq rfl rfl rfl

theorem Abides.trans (h : Abides r₁ r₂) (h' : Abides r₂ r₃) : Abides r₁ r₃ where
  connection := by
    rcases h'.connection with hsame | hnone
    · rw [hsame]
      exact h.connection
    · exact .inr hnone
  desired := h'.desired.trans h.desired
  config := h'.config.trans h.config

theorem connectionLost_abides (r : Run) (before : SessionState) :
    Abides r (r.connectionLost before) := by
  refine ⟨.inr (connectionLost_gone r before), ?_, ?_⟩
  · rw [connectionLost_toClient]
    rfl
  · rw [connectionLost_toClient]

theorem unsent_abides (r : Run) (m : ClientMessage) (e : ClientError) :
    Abides r (r.log (.unsent m e)) :=
  .of_eq rfl rfl rfl

theorem sentAll_abides (r : Run) (id : ConnectionId) (ms : List ClientMessage) :
    Abides r (r.sentAll id ms) := by
  refine .of_eq ?_ ?_ ?_
  · rw [sentAll_toClient]
  · rw [sentAll_toClient]
  · rw [sentAll_toClient]

theorem reportState_abides (r : Run) (before : SessionState) :
    Abides r (r.reportState before) := by
  refine .of_eq ?_ ?_ ?_
  · rw [reportState_toClient]
  · rw [reportState_toClient]
  · rw [reportState_toClient]

theorem Sending.abides {m : ClientMessage} (h : Sending r m (ok, r')) : Abides r r' := by
  cases h with
  | out _ => exact r.sentAll_abides _ [m]
  | unconnected _ => exact r.unsent_abides m _
  | unwritable _ => exact r.unsent_abides m _
  | lost _ => exact (r.unsent_abides m _).trans (connectionLost_abides _ _)

theorem Bursting.abides {ms : List ClientMessage} (h : Bursting r id ms (ok, r')) :
    Abides r r' := by
  cases h with
  | out => exact r.sentAll_abides id ms
  | kept before m rest e _ _ => exact (r.sentAll_abides id before).trans (unsent_abides _ m _)
  | lost before m rest e _ =>
      have hunsent := (r.sentAll_abides id before).trans (unsent_abides _ m (.link e))
      exact hunsent.trans (connectionLost_abides _ _)

theorem Flushing.abides (h : Flushing r r') : Abides r r' := by
  cases h with
  | unconnected _ => exact .refl r
  | idle _ => exact .refl r
  | deferred _ _ _ =>
      refine .of_eq ?_ ?_ ?_
      · rw [armFlushRetry_toClient]
      · rw [armFlushRetry_toClient]
      · rw [armFlushRetry_toClient]
  | burst _ _ _ hburst =>
      have htake : Abides r r.takeDirty := .of_eq rfl rfl rfl
      exact htake.trans hburst.abides

theorem Resuming.abides (h : Resuming r id r') : Abides r r' := by
  have hset : Abides r { r with typing := r.typing.sync.2 } := .of_eq rfl r.typing.sync_desired rfl
  have htold : Abides r (r.told id).takeHeld :=
    (hset.trans (sentAll_abides _ id _)).trans (.of_eq rfl rfl rfl)
  cases h with
  | untold hburst => exact hset.trans hburst.abides
  | unreplayed hburst => exact htold.trans hburst.abides
  | flushed hflush => exact (htold.trans (sentAll_abides _ id _)).trans hflush.abides

theorem Opening.abides (h : Opening r r') : Abides r.attached r' := by
  cases h with
  | rejected e _ =>
      refine .trans (.trans (unsent_abides _ r.machine.hello (.wire e)) ?_) (reportState_abides _ _)
      exact .of_eq rfl rfl rfl
  | lost e => exact (unsent_abides _ _ _).trans (connectionLost_abides _ _)
  | resumed hresume => exact (sentAll_abides _ r.nextId [r.machine.hello]).trans hresume.abides

theorem Asking.abides {m : ClientMessage} {check : Except BoardError Unit}
    (h : Asking r m check r') : Abides r r' := by
  cases h with
  | denied e => exact .of_eq rfl rfl rfl
  | unconnected _ => exact .of_eq rfl rfl rfl
  | unwritable e _ => exact .of_eq rfl rfl rfl
  | lost e _ =>
      have hlost := (r.unsent_abides m (.link e)).trans (connectionLost_abides _ r.machine.state)
      exact hlost.trans (.of_eq rfl rfl rfl)
  | out _ => exact .of_eq rfl rfl rfl

theorem Leaving.abides (h : Leaving r r') : Abides r r' := by
  have hleft : Abides r r.left := .of_eq rfl rfl rfl
  cases h with
  | silent _ => exact hleft.trans (reportState_abides _ _)
  | unsaid _ e _ => exact (hleft.trans (unsent_abides _ _ e)).trans (reportState_abides _ _)
  | said _ _ => exact (hleft.trans (sentAll_abides _ _ [.leave])).trans (reportState_abides _ _)

theorem tearDown_abides (r : Run) : Abides r r.tearDown := by
  refine ⟨.inr r.tearDown_gone, ?_, ?_⟩
  · rw [tearDown_toClient]
  · rw [tearDown_toClient]

theorem Closing.abides (h : Closing r r') : Abides r r' := by
  cases h with
  | going _ => exact .refl r
  | torn _ => exact r.tearDown_abides

theorem Closing.gone (h : Closing r r')
    (hgone : r.isFinished = true ∨ r.keeper.connection = none) : r'.keeper.connection = none := by
  cases h with
  | going hgoing =>
      rcases hgone with hdone | hnone
      · exact absurd (hdone.symm.trans hgoing) (by decide)
      · exact hnone
  | torn _ => exact r.tearDown_gone

end Abides

end Run

/-- What the user says about typing. -/
def Stimulus.typing? : Stimulus → Option Bool
  | .requested (.setTyping value) => some value
  | _ => none

namespace Run

section Stimuli

variable {r r' : Run} {s : Stimulus}

/-- A client when the user has said what a stimulus says about typing. -/
def minded (r : Run) (s : Stimulus) : Run :=
  { r with typing := { r.typing with desired := s.typing?.getD r.typing.desired } }

/-- Only a new connection takes a connection into use. -/
theorem Handling.abides (h : Handling r s r') (hs : s ≠ .connected) : Abides (r.minded s) r' := by
  have hset {r₁ : Run} (h : Abides r₁ r')
      (connection : r₁.keeper.connection = r.keeper.connection)
      (desired : r₁.typing.desired = s.typing?.getD r.typing.desired)
      (config : r₁.config = r.config) : Abides (r.minded s) r' :=
    .trans (.of_eq connection desired config) h
  cases h with
  | opened _ _ => exact absurd rfl hs
  | unopened _ => exact hset (connectionLost_abides _ _) rfl rfl rfl
  | forwarded _ _ =>
      refine hset (reportState_abides _ _) ?_ ?_ ?_
      · rw [applyMessage_toClient]
      · rw [applyMessage_toClient]
        rfl
      · rw [applyMessage_toClient]
  | ignored _ _ => exact .of_eq rfl rfl rfl
  | stopped reason _ _ => exact hset (reportState_abides _ _) rfl rfl rfl
  | cutOff _ hinbound _ =>
      refine hset (r.connectionLost_abides _) rfl ?_ rfl
      cases s <;> first | rfl | cases hinbound
  | chat _ hsend => exact hset hsend.abides rfl rfl rfl
  | held _ => exact .of_eq rfl rfl rfl
  | typing _ hburst => exact hset hburst.abides rfl (r.typing.set_desired _ _) rfl
  | untold _ => exact .of_eq rfl rfl rfl
  | moved hflush => exact hset hflush.abides rfl rfl rfl
  | turn hask => exact hset hask.abides rfl rfl rfl
  | shout hask => exact hset hask.abides rfl rfl rfl
  | capacity hask => exact hset hask.abides rfl rfl rfl
  | snapshot => exact .of_eq rfl rfl rfl
  | left hleave => exact hset (hleave.abides.trans (.of_eq rfl rfl rfl)) rfl rfl rfl
  | abandoned hleave => exact hset hleave.abides rfl rfl rfl
  | keptAlive hsend => exact hset hsend.abides rfl rfl rfl
  | reconnecting _ =>
      refine ⟨.inr ?_, ?_, ?_⟩
      · rw [connect_toClient]
        rfl
      · rw [connect_toClient]
        rfl
      · rw [connect_toClient]
        rfl
  | flushed hflush => exact hset hflush.abides rfl rfl rfl
  | quietened =>
      refine .of_eq ?_ ?_ ?_
      · rw [reportBoard_toClient]
        rfl
      · rw [reportBoard_toClient]
        rfl
      · rw [reportBoard_toClient]
        rfl

/-- Only the user changes whether they want it to be known that they are typing. -/
theorem Handling.desired_eq (h : Handling r s r') :
    r'.typing.desired = s.typing?.getD r.typing.desired := by
  by_cases hs : s = .connected
  · subst hs
    cases h with
    | opened _ ho =>
        rw [ho.abides.desired, attached_toClient]
        rfl
    | cutOff _ hinbound _ => cases hinbound
  · exact (h.abides hs).desired

/-- Nothing changes the settings. -/
theorem Handling.config_eq (h : Handling r s r') : r'.config = r.config := by
  by_cases hs : s = .connected
  · subst hs
    cases h with
    | opened _ ho => rw [ho.abides.config, attached_toClient]
    | cutOff _ hinbound _ => cases hinbound
  · exact (h.abides hs).config

end Stimuli

end Run

end TileRoom

import TileRoom.Proofs.Client.Greeting
import TileRoom.Proofs.Wire.Size

/-!
# Looking at the dragged tiles

Three stimuli make a client look at the dragged tiles (`Stimulus.looks`): a drag, the deadline for
another look, and a new connection. `Handling.looking` says what becomes of the tiles and of that
deadline over any stimulus: they are left alone (`Spares`), or a flush is made as `Looks` describes
it, or a new connection comes to nothing before it gets so far.
-/

namespace TileRoom

/-- Whether a stimulus makes the client look at the dragged tiles. -/
def Stimulus.looks : Stimulus → Bool
  | .connected | .requested (.moveTile ..) | .due .flushRetry => true
  | _ => false

theorem Outbox.marked_of_blind {o : Outbox} {s : Stimulus} (hs : s.looks = false) :
    o.marked s = o := by
  cases s with
  | requested q =>
      cases q with
      | moveTile tile x y => cases hs
      | _ => rfl
  | _ => rfl

namespace Run

/-! ## Reactions that do not look at the tiles -/

/-- Between `r` and `r'` the dragged tiles stayed as they were, and so did the deadline for another
look as long as there was a connection. -/
structure Spares (r r' : Run) : Prop where
  dirty : r'.outbox.dirty = r.outbox.dirty
  retry : r'.keeper.connection = none ∨ r'.flushRetry = r.flushRetry

section Stimuli

variable {r r' : Run} {s : Stimulus} {id : ConnectionId} {ok : Bool}

theorem connectionLost_spares (r : Run) (before : SessionState) :
    Spares r (r.connectionLost before) where
  dirty := by rw [connectionLost_toClient]
  retry := .inl (r.connectionLost_gone before)

theorem Sending.spares {m : ClientMessage} (h : Sending r m (ok, r')) : Spares r r' := by
  refine ⟨by rw [h.outbox_eq], ?_⟩
  cases h with
  | out _ => exact .inr rfl
  | unconnected _ => exact .inr rfl
  | unwritable _ => exact .inr rfl
  | lost _ => exact .inl (connectionLost_gone _ _)

theorem Bursting.spares {ms : List ClientMessage} (h : Bursting r id ms (ok, r')) :
    Spares r r' := by
  refine ⟨by rw [h.outbox_eq], ?_⟩
  cases h with
  | out => exact .inr (by rw [sentAll_toClient])
  | kept before m rest e _ _ => exact .inr (by rw [log_toClient, sentAll_toClient])
  | lost before m rest e _ => exact .inl (connectionLost_gone _ _)

theorem Asking.spares {m : ClientMessage} {check : Except BoardError Unit}
    (h : Asking r m check r') : Spares r r' := by
  refine ⟨by rw [h.outbox_eq], ?_⟩
  cases h with
  | denied e => exact .inr rfl
  | unconnected _ => exact .inr rfl
  | unwritable e _ => exact .inr rfl
  | lost e _ => exact .inl (connectionLost_gone _ _)
  | out _ => exact .inr rfl

theorem Leaving.spares (h : Leaving r r') : Spares r r' := by
  refine ⟨by rw [h.outbox_eq], .inr ?_⟩
  cases h with
  | silent _ => rw [reportState_toClient, left]
  | unsaid _ _ _ => rw [reportState_toClient, log_toClient, left]
  | said _ _ => rw [reportState_toClient, sent_toClient, left]

theorem Handling.spares (h : Handling r s r') (hs : s.looks = false) : Spares r r' := by
  have hsame {r₁ : Run} (h : Spares r₁ r') (dirty : r₁.outbox.dirty = r.outbox.dirty)
      (retry : r₁.flushRetry = r.flushRetry) : Spares r r' :=
    ⟨h.dirty.trans dirty, h.retry.imp_right fun h => h.trans retry⟩
  cases h with
  | opened _ _ => cases hs
  | unopened _ => exact hsame (connectionLost_spares _ _) rfl rfl
  | forwarded _ _ =>
      refine ⟨?_, .inr ?_⟩
      · rw [reportState_toClient, applyMessage_toClient]
      · rw [reportState_toClient, applyMessage_toClient]
  | ignored _ _ => exact ⟨rfl, .inr rfl⟩
  | stopped reason _ _ =>
      refine ⟨?_, .inr ?_⟩
      · rw [reportState_toClient]
      · rw [reportState_toClient]
  | cutOff _ _ _ => exact connectionLost_spares _ _
  | chat _ hsend => exact hsame hsend.spares rfl rfl
  | held _ => exact ⟨rfl, .inr rfl⟩
  | typing _ hburst => exact hsame hburst.spares rfl rfl
  | untold _ => exact ⟨rfl, .inr rfl⟩
  | moved _ => cases hs
  | turn hask => exact hask.spares
  | shout hask => exact hask.spares
  | capacity hask => exact hask.spares
  | snapshot => exact ⟨rfl, .inr rfl⟩
  | left hleave =>
      have hleft := hleave.spares
      exact ⟨hleft.dirty, hleft.retry⟩
  | abandoned hleave => exact hleave.spares
  | keptAlive hsend => exact hsame hsend.spares rfl rfl
  | reconnecting _ =>
      refine ⟨?_, .inr ?_⟩
      · rw [connect_toClient]
      · rw [connect_toClient]
  | flushed _ => cases hs
  | quietened =>
      refine ⟨?_, .inr ?_⟩
      · rw [reportBoard_toClient]
      · rw [reportBoard_toClient]

/-- Tiles that stay as they are are not moved. -/
theorem Handling.hushes_moves (h : Handling r s r') (hs : s ≠ .connected)
    (hdirty : r'.outbox.dirty = (r.outbox.marked s).dirty) : Hushes ClientMessage.isMove r r' := by
  obtain ⟨es, hdeals, hdoing⟩ := h.doing
  refine ⟨es, hdeals, ?_⟩
  intro e he m hm
  cases hdoing.utters e he m hm with
  | hello hs' => exact absurd hs' hs
  | held hs' _ _ => exact absurd hs' hs
  | typing htyping => exact waits_isMove.typing m htyping
  | move hwaits hempty =>
      rw [← hdirty, hempty] at hwaits
      cases hwaits
  | _ => rfl

/-! ## Reactions that do -/

/-- `r'` came from `r` and every message went out. -/
def Lossless (r r' : Run) : Prop :=
  ∃ es, Deals r r' es ∧ undelivered es = []

theorem Deals.lossless (h : Deals r r' []) : Lossless r r' :=
  ⟨[], h, rfl⟩

theorem Lossless.trans {r₁ r₂ r₃ : Run} (h : Lossless r₁ r₂) (h' : Lossless r₂ r₃) :
    Lossless r₁ r₃ := by
  obtain ⟨es, hdeals, hes⟩ := h
  obtain ⟨fs, hdeals', hfs⟩ := h'
  exact ⟨_, hdeals.trans hdeals', by rw [undelivered_append, hes, hfs]; rfl⟩

theorem sentAll_lossless (r : Run) (id : ConnectionId) (ms : List ClientMessage) :
    Lossless r (r.sentAll id ms) :=
  ⟨_, r.sentAll_deals id ms, undelivered_map_sentOn id ms⟩

theorem resumed_lossless (r : Run) : Lossless r r.resumed := by
  have hattached : Lossless r r.attached := by
    refine ⟨_, r.attached_deals, ?_⟩
    simp [undelivered, dropping, List.filterMap_map, Function.comp_def, Effect.unsent?]
  have hset : Deals (r.attached.sent r.nextId r.machine.hello)
      { r.attached.sent r.nextId r.machine.hello with
        typing := (r.attached.sent r.nextId r.machine.hello).typing.sync.2 } [] := .of_trace_eq rfl
  have hgreeted := hattached.trans (sentAll_lossless _ r.nextId [r.machine.hello])
  have htold : Lossless r ((r.attached.sent r.nextId r.machine.hello).told r.nextId) :=
    (hgreeted.trans hset.lossless).trans (sentAll_lossless _ r.nextId _)
  exact htold.trans (Deals.of_trace_eq rfl).lossless

theorem resumed_config (r : Run) : r.resumed.config = r.config := by
  show ((r.attached.sent r.nextId r.machine.hello).told r.nextId).config = r.config
  rw [told, sentAll_toClient]
  show r.attached.config = r.config
  rw [attached_toClient]

theorem resumed_flushRetry (r : Run) : r.resumed.flushRetry = r.flushRetry := by
  show ((r.attached.sent r.nextId r.machine.hello).told r.nextId).flushRetry = r.flushRetry
  rw [told, sentAll_toClient]
  show r.attached.flushRetry = r.flushRetry
  rw [attached_toClient]

theorem resumed_connection (r : Run) : r.resumed.keeper.connection = some r.nextId := by
  have hgreeted : (r.attached.sent r.nextId r.machine.hello).keeper.connection =
      some r.nextId := by
    rw [sent_toClient, attached_toClient]
    rfl
  exact (told_connection _ r.nextId).trans hgreeted

theorem resumed_now (r : Run) : r.resumed.now = r.now := by
  show ((r.attached.sent r.nextId r.machine.hello).told r.nextId).now = r.now
  rw [told, sentAll_now]
  exact r.attached_now

theorem resumed_buffered (r : Run) : r.resumed.uplink.buffered = r.uplink.buffered := by
  show ((r.attached.sent r.nextId r.machine.hello).told r.nextId).uplink.buffered = _
  rw [told, sentAll_buffered]
  exact r.attached_buffered

/-- `r₀` is client `r` about to look at the dragged tiles over `s`. -/
structure Looks (r : Run) (s : Stimulus) (r₀ : Run) : Prop where
  now : r₀.now = r.now
  config : r₀.config = r.config
  buffered : r₀.uplink.buffered = r.uplink.buffered
  connection : r₀.keeper.connection = r.speaksOn s
  dirty : r₀.outbox.dirty = (r.outbox.marked s).dirty
  retry : r₀.flushRetry = if s = .due .flushRetry then r.flushRetry.cancel else r.flushRetry
  /-- Other stimuli than a new connection give nothing to say before the tiles. -/
  quiet : s ≠ .connected → Deals r r₀ []
  lossless : Lossless r r₀

/-- What becomes of the dragged tiles over a stimulus. -/
inductive Looking (r : Run) (s : Stimulus) (r' : Run) : Prop
  | spared (hs : s.looks = false) (h : Spares r r')
  | gone (hs : s = .connected) (h : r'.isFinished = true ∨ r'.keeper.connection = none)
  | flushed {r₀} (hs : s.looks = true) (h : Looks r s r₀) (hflush : Flushing r₀ r')

theorem Flushing.eq_of_unconnected (h : Flushing r r') (hnone : r.keeper.connection = none) :
    r' = r := by
  cases h with
  | unconnected _ => rfl
  | idle _ => rfl
  | deferred hid _ _ => cases hnone.symm.trans hid
  | burst hid _ _ _ => cases hnone.symm.trans hid

/-- What could have been written fails to go out only with the connection. -/
theorem Bursting.gone {ms : List ClientMessage} (h : Bursting r id ms (false, r'))
    (hms : ∀ m ∈ ms, m.Encodes) : r'.keeper.connection = none := by
  cases h with
  | kept before m rest e heq he =>
      obtain ⟨frame, hframe, _⟩ := hms m (by rw [heq]; simp)
      cases he.symm.trans hframe
  | lost before m rest e _ => exact connectionLost_gone _ _

theorem Opening.looking (h : Opening { r with attempting := false } r')
    (hheld : ∀ m ∈ r.outbox.held, m.Encodes) : Looking r .connected r' := by
  have hset : Deals r { r with attempting := false } [] := .of_trace_eq rfl
  generalize hr : ({ r with attempting := false } : Run) = r₁ at h hset
  have hbefore : r₁.toClient = { r.toClient with attempting := false } := by rw [← hr]
  rcases h.outbox_cases with hstill | hburst | hflush
  · exact .gone rfl hstill.gone
  · refine .gone rfl (.inr (hburst.gone ?_))
    rw [hbefore]
    exact hheld
  · refine .flushed rfl ?_ hflush
    have hlossless := hset.lossless.trans (resumed_lossless r₁)
    exact {
      now := by rw [sentAll_now, resumed_now, ← hr]
      config := by rw [sentAll_toClient, resumed_config, ← hr]
      buffered := by rw [sentAll_buffered, resumed_buffered, ← hr]
      connection := by
        rw [sentAll_toClient]
        show r₁.resumed.keeper.connection = some r.nextId
        rw [resumed_connection, ← hr]
        rfl
      dirty := by
        rw [sentAll_toClient, resumed_outbox, ← hr]
        rfl
      retry := by
        rw [sentAll_toClient, resumed_flushRetry, ← hr]
        rfl
      quiet := fun h => absurd rfl h
      lossless := hlossless.trans (sentAll_lossless _ _ _) }

theorem Handling.looking (h : Handling r s r') (hheld : ∀ m ∈ r.outbox.held, m.Encodes) :
    Looking r s r' := by
  cases hs : s.looks with
  | false => exact .spared hs (h.spares hs)
  | true =>
      cases h with
      | opened _ ho => exact ho.looking hheld
      | @moved tile x y _ hflush =>
          have hmarked : Deals r
              { r.answer .done with outbox := r.outbox.markDirty tile x y } [] :=
            .before (r.answer_deals .done) (.of_trace_eq rfl)
          have hlooks : Looks r (.requested (.moveTile tile x y))
              { r.answer .done with outbox := r.outbox.markDirty tile x y } :=
            ⟨rfl, rfl, rfl, rfl, rfl, rfl, fun _ => hmarked, hmarked.lossless⟩
          exact .flushed hs hlooks hflush
      | flushed hflush =>
          have hheard : Deals r { r with flushRetry := r.flushRetry.cancel } [] :=
            .of_trace_eq rfl
          have hlooks : Looks r (.due .flushRetry)
              { r with flushRetry := r.flushRetry.cancel } :=
            ⟨rfl, rfl, rfl, rfl, rfl, rfl, fun _ => hheard, hheard.lossless⟩
          exact .flushed hs hlooks hflush
      | cutOff _ hinbound _ => cases s <;> first | cases hs; done | cases hinbound
      | _ => cases hs

end Stimuli

end Run

end TileRoom

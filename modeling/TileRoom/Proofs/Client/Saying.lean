import TileRoom.Proofs.Client.Reaction

/-!
# What a client has to say

`r.Saying s m` lists the reasons for which a client `r` that hears of `s` can send `m`, and
`Handling.doing` says that there are no others. It also says where attempts and connections come
from. What a client says at a moment is so read off what it remembers and what it has heard.
-/

namespace TileRoom

theorem Outbox.mem_moves {o : Outbox} {m : ClientMessage} (h : m ∈ o.moves) :
    ∃ tile x y, m = .moveTile tile x y ∧ o.dirty.get? tile = some (x, y) := by
  obtain ⟨⟨tile, x, y⟩, hentry, rfl⟩ := List.mem_map.mp h
  exact ⟨tile, x, y, rfl, (o.dirty.mem_entries_iff tile (x, y)).mp hentry⟩

/-- What waits once a stimulus has been heard: a drag counts at once. -/
def Outbox.marked (o : Outbox) : Stimulus → Outbox
  | .requested (.moveTile tile x y) => o.markDirty tile x y
  | _ => o

/-- A message about typing. -/
def ClientMessage.IsTyping (m : ClientMessage) : Prop :=
  m = .startTyping ∨ m = .stopTyping

theorem Typing.sync_isTyping {t : Typing} : ∀ m ∈ t.sync.1.toList, m.IsTyping := by
  intro m hm
  unfold Typing.sync at hm
  split at hm
  · cases hm
  · obtain rfl := List.mem_singleton.mp hm
    split
    · exact .inl rfl
    · exact .inr rfl

theorem Typing.set_isTyping {t : Typing} {value connected : Bool} :
    ∀ m ∈ (t.set value connected).1.toList, m.IsTyping := by
  intro m hm
  cases connected with
  | false => cases hm
  | true => exact Typing.sync_isTyping m hm

/-- The reasons for `c` to send a message about `s` and to be left with `o` to send. -/
inductive Client.Saying (c : Client) (s : Stimulus) (o : Outbox) : ClientMessage → Prop
  | hello (hs : s = .connected) : Saying c s o c.machine.hello
  | held {m} (hs : s = .connected) (h : m ∈ c.outbox.held) (ho : o.held = []) : Saying c s o m
  | typing {m} (h : m.IsTyping) : Saying c s o m
  | move {tile x y} (h : (c.outbox.marked s).dirty.get? tile = some (x, y)) (ho : o.dirty = ∅) :
      Saying c s o (.moveTile tile x y)
  | chat {text} (hs : s = .requested (.sendMessage text)) : Saying c s o (.sendMessage text)
  | turn (hs : s = .requested .takeTurn) : Saying c s o .turn
  | shout (hs : s = .requested .shout) : Saying c s o .shout
  | capacity {tiles} (hs : s = .requested (.setTileCapacity tiles)) :
      Saying c s o (.setTileCapacity tiles)
  | keepAlive (hs : s = .due .keepAlive) : Saying c s o .keepAlive
  | leave (hs : s = .requested .leave ∨ s = .abandoned) : Saying c s o .leave

/-- Nothing more is left when there is nothing left at all. -/
theorem Client.Saying.clear {c : Client} {s : Stimulus} {o : Outbox} {m : ClientMessage}
    (h : c.Saying s o m) : c.Saying s o.clear m := by
  cases h with
  | hello hs => exact .hello hs
  | held hs hm _ => exact .held hs hm rfl
  | typing hm => exact .typing hm
  | move hdirty _ => exact .move hdirty rfl
  | chat hs => exact .chat hs
  | turn hs => exact .turn hs
  | shout hs => exact .shout hs
  | capacity hs => exact .capacity hs
  | keepAlive hs => exact .keepAlive hs
  | leave hs => exact .leave hs

namespace Run

/-- The connection on which is said what there is to say about a stimulus. -/
def speaksOn (r : Run) : Stimulus → Option ConnectionId
  | .connected => some r.nextId
  | _ => r.keeper.connection

/-- `es` are dealings that a client `r` that hears of `s` can come to `r'` by. -/
structure Doing (r : Run) (s : Stimulus) (r' : Run) (es : List Effect) : Prop where
  fits : ∀ e ∈ es, e.Fits (r.speaksOn s)
  utters : ∀ e ∈ es, ∀ m, e.message? = some m → r.Saying s r'.outbox m
  /-- An attempt is started when the deadline for it is due, and nothing else is done then. -/
  attempted : .attempted ∈ es → r.reconnect.isArmed = true ∧ es = r.dropping ++ [.attempted] ∧
    r'.toClient = { r.toClient with
      machine := r.machine.connecting
      keeper := r.keeper.release
      attempting := true
      reconnect := r.reconnect.cancel }
  /-- A connection comes of an attempt. -/
  opened : ∀ id, .opened id ∈ es → s = .connected ∧ r.attempting = true

section Doing

variable {P : ClientMessage → Prop} {r r' : Run} {s : Stimulus}

theorem Asking.utters {m : ClientMessage} {check : Except BoardError Unit}
    (h : Asking r m check r') (hm : P m) : Utters r.keeper.connection P r r' := by
  cases h with
  | denied e => exact (r.answer_deals _).utters
  | unconnected _ =>
      exact (r.unsent_utters .notConnected trivial hm).trans (answer_deals _ _).utters
  | unwritable e he => exact (r.unsent_utters (.wire e) he hm).trans (answer_deals _ _).utters
  | lost e _ =>
      refine .trans (r.unsent_utters (.link e) trivial hm) ?_
      exact (connectionLost_utters _ _).trans (answer_deals _ _).utters
  | out hid =>
      rw [hid]
      exact (r.sent_utters _ hm).trans (answer_deals _ _).utters

theorem Leaving.utters (h : Leaving r r') (hm : P .leave) :
    Utters r.keeper.connection P r r' := by
  have hleft : Utters r.keeper.connection P r r.left := (Deals.of_trace_eq rfl).utters
  cases h with
  | silent _ => exact hleft.trans (reportState_deals _ _).utters
  | unsaid _ e he =>
      exact (hleft.trans (unsent_utters _ e he hm)).trans (reportState_deals _ _).utters
  | said _ hid =>
      rw [hid] at hleft ⊢
      exact (hleft.trans (sent_utters _ _ hm)).trans (reportState_deals _ _).utters

/-- What starts nothing. -/
theorem Utters.doing (h : Utters (r.speaksOn s) (r.Saying s r'.outbox) r r') :
    ∃ es, Deals r r' es ∧ Doing r s r' es := by
  obtain ⟨es, hdeals, hes⟩ := h
  refine ⟨es, hdeals, fun e he => (hes e he).fits, fun e he => (hes e he).utters, ?_, ?_⟩
  · intro he
    cases (hes _ he).quiet
  · intro id he
    cases (hes _ he).quiet

theorem Handling.doing (h : Handling r s r') : ∃ es, Deals r r' es ∧ Doing r s r' es := by
  have hmoves : r'.outbox.dirty = ∅ →
      ∀ m ∈ (r.outbox.marked s).moves, r.Saying s r'.outbox m := by
    intro ho m hm
    obtain ⟨tile, x, y, rfl, hdirty⟩ := Outbox.mem_moves hm
    exact .move hdirty ho
  have hdropping {e : Effect} (he : e ∈ r.dropping) :
      e.Within (r.speaksOn s) (r.Saying s r'.outbox) := dropping_within he
  cases h with
  | opened ha ho =>
      obtain ⟨es, hdeals, hes⟩ := ho.utters (P := r.Saying .connected r'.outbox) (.hello rfl)
        (fun m hm => .typing (Typing.sync_isTyping m hm)) (fun ho m hm => .held rfl hm ho) hmoves
      -- first the connection is taken into use, and then all is said on it
      have hattached := (Deals.of_trace_eq rfl).after
        (attached_deals { r with attempting := false })
      refine ⟨_, hattached.trans hdeals, ?_, ?_, ?_, fun _ _ => ⟨rfl, ha⟩⟩
      · intro e he
        rcases List.mem_append.mp he with he | he
        · rcases List.mem_append.mp he with he | he
          · exact (hdropping he).fits
          · rw [List.mem_singleton.mp he]
            trivial
        · exact (hes e he).fits
      · intro e he m hm
        rcases List.mem_append.mp he with he | he
        · rcases List.mem_append.mp he with he | he
          · exact (hdropping he).utters m hm
          · rw [List.mem_singleton.mp he] at hm
            cases hm
        · exact (hes e he).utters m hm
      · intro he
        rcases List.mem_append.mp he with he | he
        · rcases List.mem_append.mp he with he | he
          · cases (hdropping he).quiet
          · cases List.mem_singleton.mp he
        · cases (hes _ he).quiet
  | unopened ha =>
      have hset : Deals r { r with attempting := false } [] := .of_trace_eq rfl
      exact Utters.doing (hset.utters.trans (connectionLost_utters _ _))
  | @forwarded _ m machine _ _ =>
      have hheard : Deals r { r with machine } [] := .of_trace_eq rfl
      have happlied := hheard.after (applyMessage_deals _ m)
      exact Utters.doing (happlied.before (reportState_deals _ r.machine.state)).utters
  | ignored => exact Utters.doing (.refl r)
  | stopped reason =>
      have hfailed : Deals r { r with machine := (r.machine.fail reason).2 } [] := .of_trace_eq rfl
      exact Utters.doing (hfailed.before (reportState_deals _ _)).utters
  | cutOff _ _ => exact Utters.doing (connectionLost_utters _ _)
  | chat _ hsend =>
      exact Utters.doing ((answer_deals _ _).utters.trans (hsend.utters (.chat rfl)))
  | held _ =>
      exact Utters.doing (Deals.utters (.before (r.answer_deals .done) (.of_trace_eq rfl)))
  | @typing value id ok _ hid hburst =>
      have hline : r.speaksOn (.requested (.setTyping value)) = some id := hid
      refine Utters.doing (.trans (Deals.utters ?_) (hline ▸ hburst.utters ?_))
      · exact .before (r.answer_deals .done) (.of_trace_eq rfl)
      intro m hm
      exact .typing (Typing.set_isTyping m hm)
  | untold _ =>
      exact Utters.doing (Deals.utters (.before (r.answer_deals .done) (.of_trace_eq rfl)))
  | moved hflush =>
      refine Utters.doing (.trans (Deals.utters ?_) (hflush.utters hmoves))
      exact .before (r.answer_deals .done) (.of_trace_eq rfl)
  | turn hask => exact Utters.doing (hask.utters (.turn rfl))
  | shout hask => exact Utters.doing (hask.utters (.shout rfl))
  | capacity hask => exact Utters.doing (hask.utters (.capacity rfl))
  | snapshot => exact Utters.doing (answer_deals _ _).utters
  | left hleave =>
      exact Utters.doing ((hleave.utters (.leave (.inl rfl))).trans (answer_deals _ _).utters)
  | abandoned hleave => exact Utters.doing (hleave.utters (.leave (.inr rfl)))
  | keptAlive hsend =>
      have hheard : Deals r { r with keeper := r.keeper.heard } [] := .of_trace_eq rfl
      exact Utters.doing (hheard.utters.trans (hsend.utters (.keepAlive rfl)))
  | reconnecting harmed =>
      have hconnect := (Deals.of_trace_eq rfl).after
        (connect_deals { r with reconnect := r.reconnect.cancel })
      refine ⟨_, hconnect, ?_, ?_, fun _ => ⟨harmed, rfl, connect_toClient _⟩, ?_⟩
      · intro e he
        rcases List.mem_append.mp he with he | he
        · exact (hdropping he).fits
        · rw [List.mem_singleton.mp he]
          trivial
      · intro e he m hm
        rcases List.mem_append.mp he with he | he
        · exact (hdropping he).utters m hm
        · rw [List.mem_singleton.mp he] at hm
          cases hm
      · intro id he
        rcases List.mem_append.mp he with he | he
        · cases (hdropping he).quiet
        · cases List.mem_singleton.mp he
  | flushed hflush =>
      have hheard : Deals r { r with flushRetry := r.flushRetry.cancel } [] := .of_trace_eq rfl
      exact Utters.doing (hheard.utters.trans (hflush.utters hmoves))
  | quietened =>
      have hcleared : Deals r
        { r with shoutClear := r.shoutClear.cancel, board := r.board.clearShout.1 } [] :=
        .of_trace_eq rfl
      exact Utters.doing (hcleared.before (reportBoard_deals _ _)).utters

end Doing

/-- What is done at a moment is done about the stimulus that was heard, and the end, if it has
come, says nothing. -/
theorem meet_doing {r : Run} (hgoing : r.isFinished = false) (m : Moment) :
    r.dealings m = [] ∨
      ∃ s, m.heard? = some s ∧ Doing r s (r.meet m) (r.dealings m) := by
  have hcases := meet_cases hgoing m
  have harrive := r.arrive_deals m
  have hdealings {es} (h : Deals r (r.meet m) es) : r.dealings m = es := h.dealings_eq
  generalize r.meet m = r' at hcases hdealings ⊢
  cases hcases with
  | refused _ _ => exact .inl (hdealings (harrive.before (answer_deals _ _)))
  | unheard _ _ => exact .inl (hdealings harrive)
  | @handled s _ hs _ hhandle _ =>
      obtain ⟨es, hdeals, hes⟩ := hhandle.doing
      rw [hdealings (harrive.after hdeals)]
      exact .inr ⟨s, hs, hes.fits, hes.utters, hes.attempted, hes.opened⟩
  | @torn s r₁ hs _ hhandle hdone =>
      obtain ⟨es, hdeals, hes⟩ := hhandle.doing
      obtain ⟨fs, hdown, hfs⟩ := tearDown_utters (c := r.speaksOn s) (P := fun _ => False) r₁
      rw [hdealings ((harrive.after hdeals).trans hdown)]
      refine .inr ⟨s, hs, ?_, ?_, ?_, ?_⟩
      · intro e he
        rcases List.mem_append.mp he with he | he
        · exact hes.fits e he
        · exact (hfs e he).fits
      · intro e he m hm
        rw [tearDown_toClient]
        rcases List.mem_append.mp he with he | he
        · exact (hes.utters e he m hm).clear
        · exact ((hfs e he).utters m hm).elim
      · -- an attempt is not the end
        intro he
        rcases List.mem_append.mp he with he | he
        · obtain ⟨_, _, hconnect⟩ := hes.attempted he
          rw [Client.isFinished, hconnect] at hdone
          exact absurd (hgoing.symm.trans hdone) (by decide)
        · cases (hfs _ he).quiet
      · intro id he
        rcases List.mem_append.mp he with he | he
        · exact hes.opened id he
        · cases (hfs _ he).quiet

end Run

end TileRoom

import TileRoom.Proofs.Client.Greeting
import TileRoom.Proofs.Client.Losses
import TileRoom.Proofs.Client.Reconnection
import TileRoom.Proofs.Client.Writing

/-!
# Manners

On every connection the client introduces itself first and only once, and when it has taken its
leave it says nothing more, on this connection or any other. `Conversation` lists what can be said
of one connection from the moment at which it is opened (`meet_connected`) until the next one is
opened (`untilOpened_dealingsOver`), and `Recollection` what the client knows at that moment.
`wire_discipline` says both of every connection of every life.
-/

namespace TileRoom

/-- A message by which a client introduces itself. -/
def ClientMessage.isHello : ClientMessage → Bool
  | newPlayer .. | joinConversation .. | reconnect .. => true
  | _ => false

def Effect.isOpening : Effect → Bool
  | .opened _ => true
  | _ => false

/-- What is done before another connection is opened. -/
def untilOpened (es : List Effect) : List Effect :=
  es.takeWhile (!·.isOpening)

theorem untilOpened_append {es : List Effect} (h : ∀ e ∈ es, e.isOpening = false)
    (fs : List Effect) : untilOpened (es ++ fs) = es ++ untilOpened fs :=
  List.takeWhile_append_of_pos fun e he => by rw [h e he]; rfl

/-- Without a connection nothing is sent at all. -/
theorem Effect.Fits.of_none {e : Effect} (h : e.Fits none) (c : Option ConnectionId) :
    e.Fits c := by
  cases e with
  | sent id m frame => cases h.1
  | _ => exact h

theorem delivered_of_fits_none {es : List Effect} (h : ∀ e ∈ es, e.Fits none) :
    delivered es = [] := by
  refine List.filterMap_eq_nil_iff.mpr fun e he => ?_
  have hfits := h e he
  cases e with
  | sent id m frame => cases hfits.1
  | _ => rfl

/-- What a burst of everything delivers is a beginning of it. -/
theorem Burst.delivered_prefix {ms : List ClientMessage} {es : List Effect}
    (h : Burst (fun _ => true) ms es) : (delivered es).IsPrefix ms := by
  rcases h.split with ⟨sent, _⟩ | ⟨before, lost, rest, heq, sent, _⟩
  · exact sent ▸ List.prefix_refl _
  · rw [sent, heq]
    exact List.prefix_append before _

/-- Messages of which none comes after a farewell. -/
def Concluded (ms : List ClientMessage) : Prop :=
  ∃ talk farewell, ms = talk ++ farewell ∧ .leave ∉ talk ∧ (farewell = [] ∨ farewell = [.leave])

theorem Concluded.silent : Concluded [] :=
  ⟨[], [], rfl, List.not_mem_nil, .inl rfl⟩

theorem Concluded.after {ms ns : List ClientMessage} (h : Concluded ns) (hms : .leave ∉ ms) :
    Concluded (ms ++ ns) := by
  obtain ⟨talk, farewell, rfl, htalk, hend⟩ := h
  refine ⟨ms ++ talk, farewell, (List.append_assoc ..).symm, ?_, hend⟩
  intro hmem
  rcases List.mem_append.mp hmem with hmem | hmem
  · exact hms hmem
  · exact htalk hmem

theorem Concluded.beginning {ms ns : List ClientMessage} (h : Concluded ns)
    (hms : ms.IsPrefix ns) : Concluded ms := by
  obtain ⟨talk, farewell, rfl, htalk, hend⟩ := h
  have hcut {ms : List ClientMessage} (hms : ms.IsPrefix talk) : Concluded ms :=
    ⟨ms, [], (List.append_nil _).symm, fun hmem => htalk (hms.subset hmem), .inl rfl⟩
  rcases hend with rfl | rfl
  · rw [List.append_nil] at hms
    exact hcut hms
  · rcases List.prefix_concat_iff.mp hms with rfl | hms
    · exact ⟨talk, _, rfl, htalk, .inr rfl⟩
    · exact hcut hms

theorem Client.Saying.isHello {c : Client} {s : Stimulus} {o : Outbox} {m : ClientMessage}
    (h : c.Saying s o m) (hs : s ≠ .connected) : m.isHello = false := by
  cases h with
  | hello heq => exact absurd heq hs
  | held heq _ _ => exact absurd heq hs
  | typing htyping => rcases htyping with rfl | rfl <;> rfl
  | _ => rfl

/-- A farewell is said only when the client leaves. -/
theorem Client.Saying.leaving {c : Client} {s : Stimulus} {o : Outbox}
    (h : c.Saying s o .leave) (hheld : ∀ m ∈ c.outbox.held, m ≠ .leave) :
    s = .requested .leave ∨ s = .abandoned := by
  generalize hm : ClientMessage.leave = m at h
  cases h with
  | hello _ => exact absurd hm.symm c.machine.hello_ne_leave
  | held _ hin _ => exact absurd hm.symm (hheld m hin)
  | typing htyping => exact absurd hm.symm htyping.ne_leave
  | leave hs => exact hs
  | _ => cases hm

namespace Run

/-! ## A connection is opened -/

section Opening

variable {r : Run} {m : Moment} {id : ConnectionId}

/-- How a client behaves at the moment at which it takes connection `id` into use. -/
structure Greets (r : Run) (m : Moment) (id : ConnectionId) (es : List Effect) : Prop where
  dealings : r.dealings m = .opened id :: es
  quiet : ∀ e ∈ es, e.isOpening = false
  fits : ∀ e ∈ es, e.Fits (some id)
  burst : Burst (fun _ => true) (r.machine.hello :: r.catchUp m.uplink.buffered) es
  line : (r.meet m).keeper.connection = some id ∨ (r.meet m).keeper.connection = none
  /-- Without a hello there is no connection left. -/
  greeted : delivered es ≠ [] ∨ (r.meet m).keeper.connection = none

theorem reached?_of_opened (h : .opened id ∈ r.dealings m) :
    r.reached? m = some .connected := by
  obtain ⟨s, hs, hdoing⟩ := doing_of_mem_dealings h
  obtain ⟨rfl, _⟩ := hdoing.opened id h
  exact hs

theorem isOpening_of_isStart {e : Effect} (h : e.isStart = false) : e.isOpening = false := by
  cases e <;> first | rfl | cases h

/-- What is done with a new connection once it is in use. -/
theorem Opening.speaks {r' : Run} (h : Opening r r') (huntold : r.typing.told = false) :
    ∃ es, Deals r.attached r' es ∧
      Burst (fun _ => true) (r.machine.hello :: r.catchUp r.uplink.buffered) es ∧
      (∀ e ∈ es, e.Within (some r.nextId) fun _ => True) ∧
      (delivered es ≠ [] ∨ r'.isFinished = true ∨ r'.keeper.connection = none) := by
  obtain ⟨es, hdeals, hburst⟩ := h.recites huntold
  obtain ⟨es', hdeals', hwithin⟩ := h.utters (P := fun _ => True) trivial (by simp) (by simp)
    (by simp)
  obtain rfl := hdeals.unique hdeals'
  refine ⟨es, hdeals, hburst, hwithin, ?_⟩
  rcases h.greeting with hgone | ⟨fs, hgreeted⟩
  · exact .inr hgone
  · obtain rfl := hdeals.unique hgreeted
    exact .inl (by simp [delivered, Effect.sentOn, Effect.sent?])

theorem meet_connected (h : r.Tidy) (hs : r.reached? m = some .connected) :
    ∃ es, Greets r m r.nextId es := by
  obtain ⟨p, hp⟩ := h.sound
  obtain ⟨r₁, hhandle, hclosing⟩ := handling_of_reached? hs
  cases hhandle with
  | cutOff _ hinbound _ => cases hinbound
  | opened ha ho =>
      -- an attempt leaves nothing of an earlier connection
      obtain rfl := hp.attempting.mp ha
      have hline : r.keeper.connection = none := hp.connection_eq_none (by decide)
      have huntold : r.typing.told = false :=
        Bool.eq_false_iff.mpr fun htold => by cases hp.told htold
      have hset : Deals r { r.arrive m with attempting := false } [] := .of_trace_eq rfl
      have hattached := hset.after (attached_deals _)
      have hdropping : Run.dropping { r.arrive m with attempting := false } = [] := by
        rw [dropping]
        show r.keeper.connection.toList.map Effect.dropped = []
        rw [hline]
        rfl
      rw [hdropping, List.nil_append] at hattached
      obtain ⟨es, hdeals, hburst, hwithin, hgreeted⟩ := ho.speaks huntold
      obtain ⟨fs, hclose, hend⟩ := hclosing.utters (c := some r.nextId) (P := fun _ => False)
      have hall : ∀ e ∈ es ++ fs, e.isStart = false ∧ e.Fits (some r.nextId) := by
        intro e he
        rcases List.mem_append.mp he with he | he
        · exact ⟨(hwithin e he).quiet, (hwithin e he).fits⟩
        · exact ⟨(hend e he).quiet, (hend e he).fits⟩
      refine ⟨es ++ fs, ((hattached.trans hdeals).trans hclose).dealings_eq,
        fun e he => isOpening_of_isStart (hall e he).1, fun e he => (hall e he).2,
        hburst.before fun e he m hm => ((hend e he).utters m hm).elim, ?_, ?_⟩
      · have hopened := ho.abides.connection
        rw [attached_toClient] at hopened
        rcases hclosing.abides.connection with hsame | hnone
        · rw [hsame]
          exact hopened
        · exact .inr hnone
      · refine hgreeted.imp (fun hne hnil => hne ?_) hclosing.gone
        exact List.append_eq_nil_iff.mp (delivered_append es fs ▸ hnil) |>.1

end Opening

/-! ## A connection is used -/

section Line

variable {r : Run} {m : Moment} {c : Option ConnectionId} {e : Effect}

/-- As long as no connection is opened, the one at hand is used or lost, and no hello is said. -/
theorem meet_line (hquiet : r.reached? m ≠ some .connected) :
    (∀ e ∈ r.dealings m, e.Fits r.keeper.connection ∧
      ∀ msg, e.message? = some msg → msg.isHello = false) ∧
    ((r.meet m).keeper.connection = r.keeper.connection ∨
      (r.meet m).keeper.connection = none) := by
  rcases r.meet_reached m with ⟨_, hsame, hdeals⟩ | ⟨s, r₁, hs, hhandle, hclosing⟩
  · rw [hdeals.dealings_eq, hsame]
    exact ⟨by simp, .inl rfl⟩
  · have hne : s ≠ .connected := by
      rintro rfl
      exact hquiet hs
    constructor
    · intro e he
      obtain ⟨s', hs', hdoing⟩ := doing_of_mem_dealings he
      obtain rfl := Option.some.inj (hs.symm.trans hs')
      refine ⟨?_, fun msg hmsg => (hdoing.utters e he msg hmsg).isHello hne⟩
      have hfits := hdoing.fits e he
      cases s with
      | connected => exact absurd rfl hne
      | _ => exact hfits
    · have hhandled := ((hhandle.abides hne).trans hclosing.abides).connection
      exact hhandled

/-- What is done until the next connection is opened is done on the connection at hand, and no hello
is among it. -/
theorem untilOpened_dealingsOver (h : r.isFinished = false → r.Tidy)
    (hc : r.keeper.connection = c ∨ r.keeper.connection = none) (ms : List Moment) :
    ∀ e ∈ untilOpened (r.dealingsOver ms), e.Fits c ∧
      ∀ msg, e.message? = some msg → msg.isHello = false := by
  induction ms generalizing r with
  | nil => simp [dealingsOver, untilOpened]
  | cons m ms ih =>
      by_cases hs : r.reached? m = some .connected
      · -- the next connection is the first that is dealt with
        obtain ⟨es, hgreets⟩ := meet_connected (h (isEnabled_of_reached? hs).1) hs
        simp [dealingsOver, hgreets.dealings, untilOpened, Effect.isOpening]
      · obtain ⟨hline, hnext⟩ := meet_line hs
        have hclosed (e : Effect) (he : e ∈ r.dealings m) : e.isOpening = false := by
          cases e with
          | opened id => exact absurd (reached?_of_opened he) hs
          | _ => rfl
        rw [dealingsOver, untilOpened_append hclosed]
        intro e he
        rcases List.mem_append.mp he with he | he
        · obtain ⟨hfits, hhello⟩ := hline e he
          refine ⟨?_, hhello⟩
          rcases hc with hc | hc
          · rw [← hc]
            exact hfits
          · rw [hc] at hfits
            exact hfits.of_none c
        · refine ih (meet_tidy h m) ?_ e he
          rcases hnext with hsame | hnone
          · rw [hsame]
            exact hc
          · exact .inr hnone

end Line

/-! ## The client leaves -/

section Farewell

variable {r r' : Run} {m : Moment}

theorem Leaving.farewell (h : Leaving r r') :
    ∃ es, Deals r r' es ∧ (delivered es = [] ∨ delivered es = [.leave]) := by
  have hleft : Deals r r.left [] := .of_trace_eq rfl
  cases h with
  | silent _ => exact ⟨_, hleft.after (reportState_deals _ _), .inl rfl⟩
  | unsaid _ e _ =>
      have hunsent := hleft.after (r.left.log_deals_of_isDealing (e := .unsent .leave e) rfl)
      exact ⟨_, hunsent.before (reportState_deals _ _), .inl rfl⟩
  | @said id _ _ =>
      have hsent := hleft.after (r.left.sent_deals id .leave)
      exact ⟨_, hsent.before (reportState_deals _ _), .inr rfl⟩

theorem Handling.leaving {s : Stimulus} (h : Handling r s r')
    (hs : s = .requested .leave ∨ s = .abandoned) :
    ∃ r₁, Leaving r r₁ ∧ Deals r₁ r' [] ∧ r'.isFinished = r₁.isFinished := by
  rcases hs with rfl | rfl
  · cases h with
    | left hleave => exact ⟨_, hleave, answer_deals _ _, rfl⟩
    | cutOff _ hinbound _ => cases hinbound
  · cases h with
    | abandoned hleave => exact ⟨_, hleave, .refl _, rfl⟩
    | cutOff _ hinbound _ => cases hinbound

/-- A farewell is all that is said at its moment, and the end. -/
theorem meet_leave (h : r.isFinished = false → r.Tidy) (hmem : .leave ∈ delivered (r.dealings m)) :
    delivered (r.dealings m) = [.leave] ∧ (r.meet m).isFinished = true := by
  obtain ⟨e, he, hsent⟩ := List.mem_filterMap.mp hmem
  obtain ⟨s, hs, hdoing⟩ := doing_of_mem_dealings he
  have hheld := (h (isEnabled_of_reached? hs).1).chats.ne_leave
  have hleaves := (hdoing.utters e he _ (Effect.message?_of_sent? hsent)).leaving hheld
  obtain ⟨r₁, hhandle, hclosing⟩ := handling_of_reached? hs
  obtain ⟨r₀, hleave, hquiet, hsame⟩ := hhandle.leaving hleaves
  obtain ⟨es, hdeals, hsaid⟩ := hleave.farewell
  -- whatever comes of leaving, the rest of the moment says nothing
  obtain ⟨fs, hclose, hend⟩ := hclosing.utters (c := none) (P := fun _ => True)
  have hsilent := delivered_of_fits_none fun e he => (hend e he).fits
  have hall := (((r.arrive_deals m).after hdeals).before hquiet).trans hclose
  rw [hall.dealings_eq, delivered_append, hsilent, List.append_nil] at hmem ⊢
  refine ⟨?_, hclosing.isFinished_eq.trans (hsame.trans hleave.isFinished)⟩
  rcases hsaid with hnothing | hfarewell
  · rw [hnothing] at hmem
    cases hmem
  · exact hfarewell

/-- Nothing is said after a farewell. -/
theorem concluded_dealingsOver (h : r.isFinished = false → r.Tidy) (ms : List Moment) :
    Concluded (delivered (r.dealingsOver ms)) := by
  induction ms generalizing r with
  | nil => exact .silent
  | cons m ms ih =>
      rw [dealingsOver, delivered_append]
      by_cases hleave : .leave ∈ delivered (r.dealings m)
      · obtain ⟨hfarewell, hend⟩ := meet_leave h hleave
        rw [hfarewell, dealingsOver_of_isFinished hend]
        exact ⟨[], _, rfl, List.not_mem_nil, .inr rfl⟩
      · exact (ih (meet_tidy h m)).after hleave

end Farewell

/-! ## What the client has in mind -/

section Mind

variable {r : Run} {m : Moment}

/-- What the session goes through brings an identity if the moment does. -/
theorem OperatingAt.recognizesIn {ops : List Machine.Operation} (h : r.OperatingAt m ops) :
    r.machine.recognizesIn ops = r.identifies m := by
  unfold OperatingAt at h
  unfold identifies
  cases hs : r.reached? m with
  | none =>
      rw [hs] at h
      rw [h]
      rfl
  | some s =>
      rw [hs] at h
      rw [Option.any_some]
      cases h with
      | idle haccepts => exact haccepts.symm
      | heard hdecode =>
          simp only [accepts, hdecode]
          exact Bool.or_false _
      | connected => rfl
      | rejected _ => rfl
      | left hs => rcases hs with rfl | rfl <;> rfl

/-- A client learns who it is from the identities that it accepts. -/
theorem meet_person (h : r.isFinished = false → r.Tidy) (m : Moment) :
    (r.meet m).machine.session.person.isSome =
      (r.machine.session.person.isSome || r.identifies m) := by
  cases meet_passing (fun hgoing => (h hgoing).chats) m with
  | steady ops machine hops =>
      rw [machine, Machine.person_operateAll, hops.recognizesIn]
  | lost machine _ _ _ hidentifies =>
      rw [machine, hidentifies]
      exact (r.machine.operate_keeps .connectionLost).person
  | attempted machine hidentifies =>
      rw [machine, hidentifies]
      exact (r.machine.operate_keeps .connecting).person

theorem follow_person (h : r.isFinished = false → r.Tidy) (ms : List Moment) :
    (r.follow ms).machine.session.person.isSome =
      (r.machine.session.person.isSome || r.identifiesOver ms) := by
  induction ms generalizing r with
  | nil => exact (Bool.or_false _).symm
  | cons m ms ih =>
      rw [follow_cons, ih (meet_tidy h m), meet_person h, Bool.or_assoc]
      rfl

theorem meet_desired (r : Run) (m : Moment) :
    (r.meet m).typing.desired =
      ((r.reached? m).toList.filterMap Stimulus.typing?).getLastD r.typing.desired := by
  rcases r.meet_reached m with ⟨hnone, hsame, _⟩ | ⟨s, r₁, hs, hhandle, hclosing⟩
  · rw [hnone, hsame]
    rfl
  · have harrive : (r.arrive m).typing = r.typing := rfl
    rw [hclosing.abides.desired, hhandle.desired_eq, harrive, hs]
    cases htyping : s.typing? <;> simp [htyping]

/-- Whether the client is to be shown typing is what the user has said last about it. -/
theorem follow_desired (r : Run) (ms : List Moment) :
    (r.follow ms).typing.desired =
      ((r.reachedOver ms).filterMap Stimulus.typing?).getLastD r.typing.desired := by
  induction ms generalizing r with
  | nil => rfl
  | cons m ms ih =>
      rw [follow_cons, ih, meet_desired, reachedOver, List.filterMap_append]
      simp [List.getLastD_eq_getLast?, List.getLast?_append]

end Mind

/-! ## Every connection -/

/-- What is said on one connection: nothing, or the hello, then anything but another hello and a
farewell, and at the end perhaps the farewell. -/
inductive Mannerly (hello : ClientMessage) : List ClientMessage → Prop
  | silent : Mannerly hello []
  | spoken (talk farewell) (htalk : ∀ m ∈ talk, m.isHello = false ∧ m ≠ .leave)
      (hend : farewell = [] ∨ farewell = [.leave]) : Mannerly hello (hello :: talk ++ farewell)

theorem Mannerly.of_concluded {hello : ClientMessage} {rest : List ClientMessage}
    (hrest : ∀ m ∈ rest, m.isHello = false) (hleave : hello ≠ .leave)
    (h : Concluded (hello :: rest)) : Mannerly hello (hello :: rest) := by
  obtain ⟨talk, farewell, heq, htalk, hend⟩ := h
  cases talk with
  | nil =>
      -- a hello is no farewell
      rcases hend with rfl | rfl
      · cases heq
      · exact absurd (List.cons.inj heq).1 hleave
  | cons first talk =>
      obtain ⟨rfl, rfl⟩ := List.cons.inj heq
      refine .spoken talk farewell (fun m hm => ⟨?_, ?_⟩) hend
      · exact hrest m (List.mem_append_left _ hm)
      · rintro rfl
        exact htalk (List.mem_cons_of_mem _ hm)

/-- Nothing of what the server is told after the hello is another hello. -/
theorem isHello_of_mem_catchUp {r : Run} {n : Nat} (hchats : r.HoldsChats) :
    ∀ m ∈ r.catchUp n, m.isHello = false := by
  intro m hm
  rcases List.mem_append.mp hm with hm | hm
  · rcases List.mem_append.mp hm with hm | hm
    · split at hm
      · rw [List.mem_singleton.mp hm]
        rfl
      · cases hm
    · have hchat := hchats m hm
      cases m <;> first | rfl | cases hchat
  · split at hm
    · obtain ⟨tile, x, y, rfl, _⟩ := Outbox.mem_moves hm
      rfl
    · cases hm

/-- What can be said of the connection `id` that a client `r` takes into use at moment `m`, if `es`
is what it does with it at that moment and `after` are the moments that follow. -/
structure Conversation (r : Run) (m : Moment) (id : ConnectionId) (es : List Effect)
    (after : List Moment) : Prop where
  dealings : r.dealings m = .opened id :: es
  /-- The hello and what the server has to be told go out one after the other, up to the first that
  does not go out. -/
  greeting : Burst (fun _ => true) (r.machine.hello :: r.catchUp m.uplink.buffered) es
  /-- Until the next connection is opened all is sent on this one. -/
  line : ∀ id' msg frame, .sent id' msg frame ∈ es ++ untilOpened ((r.meet m).dealingsOver after) →
    id' = id ∧ frame = Wire.layout msg
  manners : Mannerly r.machine.hello
    (delivered (es ++ untilOpened ((r.meet m).dealingsOver after)))
  /-- The moves are in ascending order of their tiles. -/
  moves : r.outbox.moves.Pairwise fun a b => ∀ t x y t' x' y',
    a = .moveTile t x y → b = .moveTile t' x' y' → t < t'

/-- What a client bears in mind when it has lived through some moments under some settings. -/
structure Recollection (config : ClientConfig) (ms : List Moment) : Prop where
  /-- The client returns to its seat if an identity was accepted, and enters if none was. -/
  returning : (start config).identifiesOver ms = true → ∃ person,
    (play config ms).machine.hello =
      .reconnect person (play config ms).machine.session.messageSequence
  entering : (start config).identifiesOver ms = false →
    (play config ms).machine.hello = Machine.entering config.entry
  /-- Whether the user is typing is what they have said last about it. -/
  typing : (play config ms).typing.desired =
    (((start config).reachedOver ms).filterMap Stimulus.typing?).getLastD false
  /-- The held chats are in the order in which they were given. -/
  held : (play config ms).outbox.held.Sublist (((start config).chatsGiven ms).map .sendMessage)

section Connections

variable {r : Run} {m : Moment} {id : ConnectionId}

/-- The messages up to the next connection are the first of all. -/
theorem delivered_untilOpened_prefix (es : List Effect) :
    (delivered (untilOpened es)).IsPrefix (delivered es) :=
  (List.takeWhile_prefix _).filterMap _

theorem Greets.mannerly {es : List Effect} (hgreets : Greets r m id es) (h : r.Tidy)
    (after : List Moment) :
    Mannerly r.machine.hello
      (delivered (es ++ untilOpened ((r.meet m).dealingsOver after))) := by
  have hmeet := meet_tidy (fun _ => h) m
  have hstretch := untilOpened_dealingsOver hmeet hgreets.line after
  have hprefix := hgreets.burst.delivered_prefix
  rw [delivered_append]
  cases hes : delivered es with
  | nil =>
      -- without a hello there is no connection left, so nothing follows
      have hnone := hgreets.greeted.resolve_left fun hne => hne hes
      have hidle := untilOpened_dealingsOver hmeet (.inl hnone) after
      rw [delivered_of_fits_none fun e he => (hidle e he).1]
      exact .silent
  | cons first rest =>
      rw [hes] at hprefix
      obtain ⟨rfl, hrest⟩ := List.cons_prefix_cons.mp hprefix
      refine .of_concluded ?_ r.machine.hello_ne_leave ?_
      · intro msg hmsg
        rcases List.mem_append.mp hmsg with hmsg | hmsg
        · exact isHello_of_mem_catchUp h.chats msg (hrest.subset hmsg)
        · obtain ⟨e, he, hsent⟩ := List.mem_filterMap.mp hmsg
          exact (hstretch e he).2 msg (Effect.message?_of_sent? hsent)
      · -- the connection's part of what is said is a beginning of all that is said from now on
        refine (concluded_dealingsOver (fun _ => h) (m :: after)).beginning ?_
        have hfirst : delivered (r.dealings m) = r.machine.hello :: rest := by
          rw [hgreets.dealings]
          exact hes
        rw [dealingsOver, delivered_append, hfirst]
        have hlater := delivered_untilOpened_prefix ((r.meet m).dealingsOver after)
        exact (List.prefix_append_right_inj (r.machine.hello :: rest)).mpr hlater

theorem conversation_of_opened (h : r.Tidy) (hopened : .opened id ∈ r.dealings m)
    (after : List Moment) : ∃ es, Conversation r m id es after := by
  obtain ⟨es, hgreets⟩ := meet_connected h (reached?_of_opened hopened)
  obtain rfl : id = r.nextId := by
    rw [hgreets.dealings] at hopened
    rcases List.mem_cons.mp hopened with heq | hmem
    · exact Effect.opened.inj heq
    · cases hgreets.quiet _ hmem
  have hstretch := untilOpened_dealingsOver (meet_tidy (fun _ => h) m) hgreets.line after
  refine ⟨es, hgreets.dealings, hgreets.burst, ?_, hgreets.mannerly h after,
    r.outbox.moves_ascending⟩
  intro id' msg frame he
  have hfits : (Effect.sent id' msg frame).Fits (some r.nextId) := by
    rcases List.mem_append.mp he with he | he
    · exact hgreets.fits _ he
    · exact (hstretch _ he).1
  exact ⟨(Option.some.inj hfits.1).symm, hfits.2⟩

end Connections

theorem play_recollection (config : ClientConfig) (ms : List Moment) : Recollection config ms := by
  have hstart : (start config).isFinished = false → (start config).Tidy :=
    fun _ => start_tidy config
  have hperson : (play config ms).machine.session.person.isSome =
      (start config).identifiesOver ms := by
    rw [play_eq, follow_person hstart, start, connect_toClient]
    rfl
  refine ⟨?_, ?_, ?_, ?_⟩
  · intro hid
    exact (Machine.hello_reconnect_iff _).mpr (hperson.trans hid)
  · intro hid
    have hnone : (play config ms).machine.session.person = none := by
      rw [hid] at hperson
      exact Option.not_isSome_iff_eq_none.mp (by rw [hperson]; decide)
    rw [Machine.hello_eq, hnone, (play_presentable config ms).entry]
  · rw [play_eq, follow_desired]
    rfl
  · exact (List.sublist_append_right _ _).trans (play_conveys config ms)

/-- In every life, nothing is sent before the first connection, and nothing after a farewell, on
whatever connection. By the end of any moments the client knows whether it has a seat to return to,
what the user has said about typing, and in which order the chats were given that it holds. And
what is sent on a connection that is taken into use then is nothing at all, or the hello, what the
server has to be told, and anything but another hello, up to a farewell. -/
theorem wire_discipline (config : ClientConfig) (before : List Moment) :
    delivered (untilOpened ((start config).dealingsOver before)) = [] ∧
      Concluded (play config before).said ∧ Recollection config before ∧
      ∀ m id after, .opened id ∈ (play config before).dealings m →
        ∃ es, Conversation (play config before) m id es after := by
  have hstart : (start config).isFinished = false → (start config).Tidy :=
    fun _ => start_tidy config
  have hnone : (start config).keeper.connection = none := by
    rw [start, connect_toClient]
    rfl
  refine ⟨?_, ?_, play_recollection config before, ?_⟩
  · have hidle := untilOpened_dealingsOver hstart (.inl hnone) before
    exact delivered_of_fits_none fun e he => (hidle e he).1
  · rw [play_said]
    exact concluded_dealingsOver hstart before
  · intro m id after hopened
    have hgoing := isFinished_of_mem_dealings hopened
    exact conversation_of_opened (play_tidy hgoing) hopened after

/-- The first connection of a client that was given something of every kind to say. -/
theorem wire_discipline_caughtUp :
    let before : List Moment := [{ stimulus := .requested (.setTyping true) },
      { stimulus := .requested (.sendMessage "a") }, { stimulus := .requested (.moveTile 3 1 2) }]
    .opened ⟨1⟩ ∈ (play {} before).dealings { stimulus := .connected } ∧
      ∃ es, Conversation (play {} before) { stimulus := .connected } ⟨1⟩ es [] ∧
        delivered es =
          [.newPlayer "default" "", .startTyping, .sendMessage "a", .moveTile 3 1 2] := by
  intro before
  have hopened : .opened ⟨1⟩ ∈ (play {} before).dealings { stimulus := .connected } := by
    decide +kernel
  have hsaid : delivered ((play {} before).dealings { stimulus := .connected }) =
      [.newPlayer "default" "", .startTyping, .sendMessage "a", .moveTile 3 1 2] := by
    decide +kernel
  obtain ⟨es, hes⟩ := (wire_discipline {} before).2.2.2 _ _ [] hopened
  rw [hes.dealings] at hsaid
  exact ⟨hopened, es, hes, hsaid⟩

end Run

end TileRoom

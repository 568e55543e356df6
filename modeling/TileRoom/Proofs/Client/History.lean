import TileRoom.Proofs.Client.Course

/-!
# The record of a life

What a client has done with the server over a whole life is what it has done at each moment, one
after the other. So a fact about the trace is a fact about single moments (`dealing_of_trace`), and
what has gone out so far is what was delivered moment by moment (`play_said`).
-/

namespace TileRoom

theorem Effect.isDealing_of_message? {e : Effect} {m : ClientMessage} (h : e.message? = some m) :
    e.isDealing = true := by
  cases e <;> first | rfl | cases h

/-- The only thing at hearing which a message is sent, if there is only one. -/
def ClientMessage.occasion? : ClientMessage → Option Stimulus
  | .turn => some (.requested .takeTurn)
  | .shout => some (.requested .shout)
  | .setTileCapacity tiles => some (.requested (.setTileCapacity tiles))
  | .keepAlive => some (.due .keepAlive)
  | _ => none

theorem ClientMessage.occasion?_of_isChat {m : ClientMessage} (h : m.isChat = true) :
    m.occasion? = none := by
  cases m <;> first | rfl | cases h

namespace Run

/-- All messages that have gone out. -/
def said (r : Run) : List ClientMessage :=
  r.trace.filterMap fun x => x.2.sent?

/-- What reaches a client at some moments. -/
def reachedOver (r : Run) : List Moment → List Stimulus
  | [] => []
  | m :: ms => (r.reached? m).toList ++ (r.meet m).reachedOver ms

/-- What a client does with the server at some moments. -/
def dealingsOver (r : Run) : List Moment → List Effect
  | [] => []
  | m :: ms => r.dealings m ++ (r.meet m).dealingsOver ms

/-- How a moment closes once a stimulus has been handled: a finished client lets go of all. -/
inductive Closing (r : Run) : Run → Prop
  | going (h : r.isFinished = false) : Closing r r
  | torn (h : r.isFinished = true) : Closing r r.tearDown

theorem Closing.utters {r r' : Run} {c : Option ConnectionId} {P : ClientMessage → Prop}
    (h : Closing r r') : Utters c P r r' := by
  cases h with
  | going _ => exact .refl r
  | torn _ => exact r.tearDown_utters

theorem Closing.isFinished_eq {r r' : Run} (h : Closing r r') :
    r'.isFinished = r.isFinished := by
  cases h with
  | going _ => rfl
  | torn _ => rw [Client.isFinished, tearDown_toClient]; rfl

/-- Only a finished client has anything done to it at the close. -/
theorem Closing.eq_of_going {r r' : Run} (h : Closing r r') (hgoing : r'.isFinished = false) :
    r' = r := by
  have hsame := h.isFinished_eq
  cases h with
  | going _ => rfl
  | torn hdone => cases (hsame.trans hdone).symm.trans hgoing

/-- A finished client lets go of all. -/
theorem Closing.eq_tearDown {r r' : Run} (h : Closing r r') (hdone : r'.isFinished = true) :
    r' = r.tearDown := by
  cases h with
  | going hgoing => cases hgoing.symm.trans hdone
  | torn _ => rfl

theorem Closing.machine_eq {r r' : Run} (h : Closing r r') : r'.machine = r.machine := by
  cases h with
  | going _ => rfl
  | torn _ => rw [tearDown_toClient]

/-- Where there is no connection left, nothing is done at the close. -/
theorem Closing.trace_eq {r r' : Run} (h : Closing r r') (hnone : r.keeper.connection = none) :
    r'.trace = r.trace := by
  cases h with
  | going _ => rfl
  | torn _ =>
      rcases r.tearDown_cases with ⟨_, heq⟩ | ⟨id, hid, _⟩
      · rw [heq]
        rfl
      · cases hnone.symm.trans hid

section Moments

variable {r r' : Run} {m : Moment} {ms : List Moment} {e : Effect}

theorem heard?_of_reached? {s : Stimulus} (h : r.reached? m = some s) : m.heard? = some s := by
  unfold reached? at h
  split at h
  · cases h
  · exact (Option.filter_eq_some_iff.mp h).1

/-- A deadline is heard of as it is. -/
theorem heard?_eq_due_iff {t : Timer} : m.heard? = some (.due t) ↔ m.stimulus = .due t := by
  unfold Moment.heard?
  cases m.stimulus with
  | requested q => cases hq : q.admit <;> simp [hq]
  | _ => simp

/-- A deadline that is not due yet reaches nobody. -/
theorem unreached_of_early {t : Timer} (hm : m.stimulus = .due t)
    (hearly : (r.toClient.deadline t).isDue (r.now + m.wait) = false) : r.reached? m = none := by
  cases hs : r.reached? m with
  | none => rfl
  | some s =>
      have hheard := (heard?_of_reached? hs).symm.trans (heard?_eq_due_iff.mpr hm)
      obtain rfl := Option.some.inj hheard
      cases hearly.symm.trans (isEnabled_of_reached? hs).2

theorem heard_of_mem_reachedOver {s : Stimulus} (h : s ∈ r.reachedOver ms) :
    ∃ m : Moment, m.heard? = some s := by
  induction ms generalizing r with
  | nil => cases h
  | cons m ms ih =>
      rcases List.mem_append.mp h with h | h
      · exact ⟨m, heard?_of_reached? (Option.mem_toList.mp h)⟩
      · exact ih h

/-- At a moment nothing reaches the client, and it is left as it is, or a stimulus does, and what
is done about it is all that is done. -/
theorem meet_reached (r : Run) (m : Moment) :
    (r.reached? m = none ∧ (r.meet m).toClient = r.toClient ∧ Deals r (r.meet m) []) ∨
      ∃ s r₁, r.reached? m = some s ∧ Handling (r.arrive m) s r₁ ∧ Closing r₁ (r.meet m) := by
  cases hdone : r.isFinished with
  | true =>
      have hnone : r.reached? m = none := by simp [reached?, hdone]
      exact .inl ⟨hnone, meet_of_isFinished hdone m⟩
  | false =>
      have hcases := meet_cases hdone m
      have harrive := r.arrive_deals m
      generalize r.meet m = r' at hcases ⊢
      cases hcases with
      | refused _ h =>
          exact .inl ⟨by simp [reached?, h], rfl, harrive.before (answer_deals _ _)⟩
      | unheard h hs => exact .inl ⟨by simp [reached?, h, hs], rfl, harrive⟩
      | handled h hs hhandle hgoing =>
          exact .inr ⟨_, _, reached?_eq hdone h hs, hhandle, .going hgoing⟩
      | torn h hs hhandle hend => exact .inr ⟨_, _, reached?_eq hdone h hs, hhandle, .torn hend⟩

/-- Where nothing reaches the client, at most a request is refused. -/
theorem meet_of_unreached (h : r.reached? m = none) :
    r.meet m = r.arrive m ∨ ∃ reason, r.meet m = (r.arrive m).answer (.refused reason) := by
  cases hdone : r.isFinished with
  | true =>
      have harrived : (r.arrive m).isFinished = true := hdone
      show (r.arrive m).react m.stimulus = _ ∨ ∃ reason, (r.arrive m).react m.stimulus = _
      unfold react
      cases m.stimulus with
      | requested q =>
          cases hq : q.admit with
          | error e => exact .inr ⟨e, by simp only [hq]⟩
          | ok q' => exact .inr ⟨.closed, by simp only [hq, harrived, if_true]⟩
      | _ => exact .inl (if_pos harrived)
  | false =>
      have hcases := meet_cases hdone m
      generalize r.meet m = r' at hcases ⊢
      cases hcases with
      | refused reason _ => exact .inr ⟨reason, rfl⟩
      | unheard _ _ => exact .inl rfl
      | handled hs enabled _ _ => cases h.symm.trans (reached?_eq hdone hs enabled)
      | torn hs enabled _ _ => cases h.symm.trans (reached?_eq hdone hs enabled)

theorem handling_of_reached? {s : Stimulus} (hs : r.reached? m = some s) :
    ∃ r₁, Handling (r.arrive m) s r₁ ∧ Closing r₁ (r.meet m) := by
  rcases r.meet_reached m with ⟨hnone, _, _⟩ | ⟨s', r₁, hs', hhandle, hclosing⟩
  · cases hs.symm.trans hnone
  · obtain rfl := Option.some.inj (hs.symm.trans hs')
    exact ⟨r₁, hhandle, hclosing⟩

/-- What reaches the client is handled, and then the moment closes. -/
theorem closing_of_reached? {s : Stimulus} (hs : r.reached? m = some s) :
    Closing ((r.arrive m).handle s) (r.meet m) := by
  obtain ⟨hgoing, enabled⟩ := isEnabled_of_reached? hs
  have harrived : (r.arrive m).isFinished = false := hgoing
  have hheard := heard?_of_reached? hs
  have hadvance : r.meet m = (r.arrive m).advance s := by
    show (r.arrive m).react m.stimulus = _
    rcases Moment.heard?_cases hheard with ⟨hother, rfl⟩ | ⟨q, q', hm, hadmitted, rfl⟩
    · cases hm : m.stimulus with
      | requested q => exact absurd hm (hother q)
      | _ => simp only [react, harrived, Bool.false_eq_true, if_false]
    · simp only [hm, react, hadmitted, harrived, Bool.false_eq_true, if_false]
  rw [hadvance, advance, if_pos enabled]
  dsimp only
  cases hdone : ((r.arrive m).handle s).isFinished with
  | false => exact .going hdone
  | true => exact .torn hdone

/-- At every moment something is added to the trace, and nothing is taken away. -/
theorem meet_deals (r : Run) (m : Moment) : Deals r (r.meet m) (r.dealings m) := by
  have hdeals : ∃ es, Deals r (r.meet m) es := by
    rcases r.meet_reached m with ⟨_, _, hnone⟩ | ⟨s, r₁, _, hhandle, hclosing⟩
    · exact ⟨[], hnone⟩
    · obtain ⟨es, hes, _⟩ := hhandle.doing
      obtain ⟨fs, hfs, _⟩ := hclosing.utters (c := none) (P := fun _ => True)
      exact ⟨_, ((r.arrive_deals m).after hes).trans hfs⟩
  obtain ⟨es, hes⟩ := hdeals
  rw [hes.dealings_eq]
  exact hes

theorem follow_deals (r : Run) (ms : List Moment) :
    Deals r (r.follow ms) (r.dealingsOver ms) := by
  induction ms generalizing r with
  | nil => exact .refl r
  | cons m ms ih => exact (r.meet_deals m).trans (ih (r.meet m))

/-- Only an unfinished client has dealings. -/
theorem isFinished_of_mem_dealings (h : e ∈ r.dealings m) : r.isFinished = false := by
  cases hdone : r.isFinished with
  | false => rfl
  | true =>
      rw [(meet_of_isFinished hdone m).2.dealings_eq] at h
      cases h

/-- What is dealt with at a moment is dealt with about what reaches the client. -/
theorem doing_of_mem_dealings (h : e ∈ r.dealings m) :
    ∃ s, r.reached? m = some s ∧ Doing r s (r.meet m) (r.dealings m) := by
  have hgoing := isFinished_of_mem_dealings h
  rcases r.meet_reached m with ⟨_, _, hnone⟩ | ⟨s, _, hs, _, _⟩
  · rw [hnone.dealings_eq] at h
    cases h
  · rcases meet_doing hgoing m with hnone | ⟨s', hs', hdoing⟩
    · rw [hnone] at h
      cases h
    · obtain rfl := Option.some.inj ((heard?_of_reached? hs).symm.trans hs')
      exact ⟨s, hs, hdoing⟩

theorem occasion_of_saying {s s' : Stimulus} {o : Outbox} {msg : ClientMessage}
    (hchats : r.HoldsChats) (h : r.Saying s o msg) (hmsg : msg.occasion? = some s') : s = s' := by
  cases h with
  | hello _ =>
      unfold Machine.hello at hmsg
      split at hmsg <;> cases hmsg
  | held _ hin _ =>
      cases (ClientMessage.occasion?_of_isChat (hchats msg hin)).symm.trans hmsg
  | typing htyping => rcases htyping with rfl | rfl <;> cases hmsg
  | turn hs => exact hs.trans (Option.some.inj hmsg)
  | shout hs => exact hs.trans (Option.some.inj hmsg)
  | capacity hs => exact hs.trans (Option.some.inj hmsg)
  | keepAlive hs => exact hs.trans (Option.some.inj hmsg)
  | _ => cases hmsg

/-- A message that is sent only at one thing has gone out because this has reached the client. -/
theorem occasion_of_mem_dealings {s : Stimulus} {id : ConnectionId} {msg : ClientMessage}
    {frame : List UInt8} (hchats : r.HoldsChats) (he : .sent id msg frame ∈ r.dealings m)
    (hmsg : msg.occasion? = some s) : r.reached? m = some s ∧ r.speaksOn s = some id := by
  obtain ⟨s', hs, hdoing⟩ := doing_of_mem_dealings he
  obtain rfl := occasion_of_saying hchats (hdoing.utters _ he _ rfl) hmsg
  exact ⟨hs, (hdoing.fits _ he).1⟩

theorem mem_dealingsOver (h : e ∈ r.dealingsOver ms) :
    ∃ before m after, ms = before ++ m :: after ∧ e ∈ (r.follow before).dealings m := by
  induction ms generalizing r with
  | nil => cases h
  | cons m ms ih =>
      rcases List.mem_append.mp h with h | h
      · exact ⟨[], m, ms, rfl, h⟩
      · obtain ⟨before, m', after, rfl, hmem⟩ := ih h
        exact ⟨m :: before, m', after, rfl, hmem⟩

theorem dealingsOver_of_isFinished (hdone : r.isFinished = true) (ms : List Moment) :
    r.dealingsOver ms = [] :=
  (r.follow_deals ms).unique (follow_of_isFinished hdone ms).2

end Moments

section Lives

variable {r r' : Run} {es : List Effect}

theorem Deals.said_eq (h : Deals r r' es) : r'.said = r.said ++ delivered es := by
  obtain ⟨added, htrace, hes⟩ := h
  have hadded : added.filterMap (fun x => x.2.sent?) = delivered es := by
    rw [← hes, delivered, List.filterMap_filter, List.filterMap_map]
    congr 1
    funext x
    -- what is sent is a dealing
    cases hdealing : x.2.isDealing with
    | true => simp [hdealing]
    | false =>
        have hunsent : x.2.sent? = none := by
          cases hx : x.2 <;> rw [hx] at hdealing <;> first | rfl | cases hdealing
        simp [hdealing, hunsent]
  rw [said, htrace, List.filterMap_append, hadded]
  rfl

theorem Deals.mem_trace (h : Deals r r' es) {t : Instant} {e : Effect} (he : e.isDealing = true)
    (hmem : (t, e) ∈ r'.trace) : (t, e) ∈ r.trace ∨ e ∈ es := by
  obtain ⟨added, htrace, hes⟩ := h
  rw [htrace] at hmem
  refine (List.mem_append.mp hmem).imp id fun hadded => ?_
  rw [← hes]
  exact List.mem_filter.mpr ⟨List.mem_map.mpr ⟨_, hadded, rfl⟩, he⟩

theorem start_deals (config : ClientConfig) :
    Deals { toClient := .new config } (start config) [.attempted] :=
  connect_deals _

/-- What has gone out so far is what was delivered at one moment after the other. -/
theorem play_said (config : ClientConfig) (ms : List Moment) :
    (play config ms).said = delivered ((start config).dealingsOver ms) := by
  rw [play_eq, ((start_deals config).trans (follow_deals _ ms)).said_eq]
  rfl

/-- Every dealing in the trace but the first attempt belongs to a moment. -/
theorem dealing_of_trace {config : ClientConfig} {ms : List Moment} {t : Instant} {e : Effect}
    (he : e.isDealing = true) (h : (t, e) ∈ (play config ms).trace) :
    e = .attempted ∨
      ∃ before m after, ms = before ++ m :: after ∧ e ∈ (play config before).dealings m := by
  rw [play_eq] at h
  rcases (follow_deals _ ms).mem_trace he h with hstart | hlater
  · rcases (start_deals config).mem_trace he hstart with hnone | hfirst
    · cases hnone
    · exact .inl (List.mem_singleton.mp hfirst)
  · exact .inr (mem_dealingsOver hlater)

end Lives

end Run

end TileRoom

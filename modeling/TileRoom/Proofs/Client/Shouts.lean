import TileRoom.Proofs.Board.Latest
import TileRoom.Proofs.Client.Talking

/-!
# How long a shout lasts

The board knows who shouts and the client when the shout ends, and neither looks at the other. What
ties them together is what is told: a shout is told when the server says so, and its end when the
deadline for it is due (`Shouting`). The last of this news decides both records (`Run.Standing`),
over all that may happen to the connection meanwhile. So every end that is told follows the shout
that it ends, as long after it as a shout is shown (`Shouted`).
-/

namespace TileRoom

namespace BoardEvent

/-- Who starts to shout. -/
def shouter? : BoardEvent → Option UInt8
  | playerShouted n => some n
  | _ => none

/-- Whether an event tells of a shout or its end. -/
def isShoutNews : BoardEvent → Bool
  | playerShouted _ | shoutCleared _ => true
  | _ => false

end BoardEvent

/-- Who is told to shout. -/
def ServerMessage.shouter? : ServerMessage → Option UInt8
  | playerShouted n => some n
  | _ => none

namespace Board

/-- What a call tells of a shout. -/
def Call.shoutNews (b : Board) : Call → List BoardEvent
  | .apply m => m.shouter?.toList.map .playerShouted
  | .clearShout => b.shouting.toList.map .shoutCleared

theorem act_shoutNews (b : Board) (call : Call) :
    (b.act call).2.filter BoardEvent.isShoutNews = call.shoutNews b := by
  cases call with
  | clearShout => cases h : b.shouting <;> simp [act, h, Call.shoutNews, BoardEvent.isShoutNews]
  | apply m =>
      cases m with
      | tile num x y letter lastMover =>
          show (b.applyTile _).2.filter BoardEvent.isShoutNews = []
          unfold applyTile
          split <;> rfl
      | playerName num name =>
          show (b.applyName num name).2.filter BoardEvent.isShoutNews = []
          unfold applyName
          dsimp only
          split <;> rfl
      | playerFlags num flags =>
          show (b.applyFlags num flags).2.filter BoardEvent.isShoutNews = []
          unfold applyFlags presenceEvents
          dsimp only
          split
          · rfl
          · split
            · split <;> rfl
            · rfl
      | _ => rfl

/-- The news about the turn is none about a shout. -/
theorem take_shoutNews (b : Board) (call : Call) :
    (b.take call).2.filter BoardEvent.isShoutNews = call.shoutNews b := by
  rw [take_eq, withTurnChange]
  split
  · exact b.act_shoutNews call
  · rw [List.filter_append, act_shoutNews]
    exact List.append_nil _

theorem take_shouting (b : Board) (call : Call) :
    (b.take call).1.shouting = (call.word .shouting).getD b.shouting := by
  rw [take_fst]
  exact congrArg shouting (b.act_rest call)

/-- Who shouts by what a message says, if anybody. -/
theorem apply_shouting (b : Board) (m : ServerMessage) :
    (b.apply m).1.shouting = m.shouter?.or b.shouting := by
  have h := b.take_shouting (.apply m)
  cases m <;> exact h

theorem apply_any_isShout (b : Board) (m : ServerMessage) :
    (b.apply m).2.any BoardEvent.isShout = m.shouter?.isSome := by
  have h := congrArg (List.any · BoardEvent.isShout) (b.take_shoutNews (.apply m))
  have hnews : (fun e : BoardEvent => e.isShoutNews && e.isShout) = BoardEvent.isShout := by
    funext e
    cases e <;> rfl
  simp only [List.any_filter, hnews] at h
  refine h.trans ?_
  cases m <;> rfl

end Board

/-- The shout that a frame of the server tells of. -/
def Stimulus.shout? : Stimulus → Option UInt8
  | .received frame =>
    match Wire.decode ServerMessage frame with
    | .ok m => m.shouter?
    | .error _ => none
  | _ => none

theorem Stimulus.eq_of_shout? {s : Stimulus} {n : UInt8} (h : s.shout? = some n) :
    ∃ frame, s = .received frame ∧ Wire.decode ServerMessage frame = .ok (.playerShouted n) := by
  unfold shout? at h
  split at h
  · rename_i frame
    split at h
    · rename_i m hdecode
      refine ⟨frame, rfl, hdecode.trans ?_⟩
      cases m <;> cases h
      rfl
    · cases h
  · cases h

/-- News of shouts and of their ends, each end as long after its shout as `shown` says, with nothing
in between. -/
inductive Shouted (shown : Duration) : List (Instant × BoardEvent) → Prop
  | nil : Shouted shown []
  | shout {news} (h : Shouted shown news) (t : Instant) (n : UInt8) :
      Shouted shown (news ++ [(t, .playerShouted n)])
  | clear {news t₀ n} (h : Shouted shown news) (hlast : news.getLast? = some (t₀, .playerShouted n))
      (t : Instant) (ht : t₀ + shown.nanos ≤ t) : Shouted shown (news ++ [(t, .shoutCleared n)])

/-- Where a list that ends with `x` is split, the rest ends with it too, or starts with it. -/
theorem eq_or_of_concat_eq {α : Type} {l before after : List α} {x y : α}
    (h : l ++ [x] = before ++ y :: after) :
    (l = before ∧ x = y) ∨ ∃ rest, l = before ++ y :: rest := by
  rcases List.append_eq_append_iff.mp h with ⟨as, rfl, hx⟩ | ⟨bs, rfl, hy⟩
  · cases as with
    | nil => exact .inl ⟨(List.append_nil l).symm, (List.cons.inj hx).1⟩
    | cons a as => simp at hx
  · cases bs with
    | nil => exact .inl ⟨List.append_nil before, (List.cons.inj hy).1.symm⟩
    | cons b bs =>
        obtain ⟨rfl, _⟩ := List.cons.inj hy
        exact .inr ⟨bs, rfl⟩

/-- An end that is told tells of the last shout, and not too early. -/
theorem Shouted.split {shown : Duration} {news before after : List (Instant × BoardEvent)}
    {t : Instant} {n : UInt8} (h : Shouted shown news)
    (hsplit : news = before ++ (t, .shoutCleared n) :: after) :
    ∃ t₀, before.getLast? = some (t₀, .playerShouted n) ∧ t₀ + shown.nanos ≤ t := by
  induction h generalizing after with
  | nil => simp at hsplit
  | shout h t' n' ih =>
      rcases eq_or_of_concat_eq hsplit with ⟨_, heq⟩ | ⟨rest, hnews⟩
      · cases heq
      · exact ih hnews
  | clear h hlast t' ht ih =>
      rcases eq_or_of_concat_eq hsplit with ⟨rfl, heq⟩ | ⟨rest, hnews⟩
      · obtain ⟨rfl, hn⟩ := Prod.mk.inj heq
        obtain rfl := BoardEvent.shoutCleared.inj hn
        exact ⟨_, hlast, ht⟩
      · exact ih hnews

namespace Run

/-- The news of shouts and of their ends, and when. -/
def shoutNews (r : Run) : List (Instant × BoardEvent) :=
  r.boardNews.filter fun x => x.2.isShoutNews

/-- The shout that goes on, and when it started. -/
def standing? (r : Run) : Option (Instant × UInt8) :=
  r.shoutNews.getLast?.bind fun x => x.2.shouter?.map (x.1, ·)

/-- The board and the deadline agree on the shout that goes on. -/
structure Standing (r : Run) (shown : Duration) : Prop where
  board : r.board.shouting = r.standing?.map Prod.snd
  deadline : r.shoutClear.due? = r.standing?.map fun x => x.1 + shown.nanos

/-- What a stimulus does about shouts. -/
inductive Shouting (r : Run) (s : Stimulus) (r' : Run) : Prop
  | kept (hs : s.shout? = none) (hearly : s ≠ .due .shoutClear)
      (board : r'.board.shouting = r.board.shouting) (deadline : r'.shoutClear = r.shoutClear)
      (news : r'.shoutNews = r.shoutNews)
  | shout {n} (hs : s.shout? = some n) (board : r'.board.shouting = some n)
      (deadline : r'.shoutClear.due? = some (r.now + r.config.shoutDuration.nanos))
      (news : r'.shoutNews = r.shoutNews ++ [(r.now, .playerShouted n)])
  | clear (hs : s = .due .shoutClear) (machine : r'.machine = r.machine)
      (board : r'.board.shouting = none) (deadline : r'.shoutClear.due? = none)
      (news : r'.shoutNews =
        r.shoutNews ++ r.board.shouting.toList.map fun n => (r.now, .shoutCleared n))
  | ended (hs : s.shout? = none) (hearly : s ≠ .due .shoutClear) (h : r'.isFinished = true)
      (news : r'.shoutNews = r.shoutNews)

section Stimuli

variable {r r' : Run} {s : Stimulus} {m : Moment} {frame : List UInt8} {msg : ServerMessage}

theorem Unmoved.shoutNews_eq (h : Unmoved r r') : r'.shoutNews = r.shoutNews := by
  rw [shoutNews, h.boardNews]
  rfl

theorem Unmoved.shouting (h : Unmoved r r') (hs : s.shout? = none)
    (hearly : s ≠ .due .shoutClear) : Shouting r s r' :=
  .kept hs hearly (by rw [h.board]) h.shoutClear h.shoutNews_eq

theorem reportBoard_boardNews (r : Run) (es : List BoardEvent) :
    (r.reportBoard es).boardNews = r.boardNews ++ es.map (r.now, ·) := by
  rw [reportBoard_eq]
  show (r.trace ++ _).filterMap _ = _
  rw [List.filterMap_append, List.filterMap_map]
  congr 1
  rw [← List.filterMap_eq_map]
  rfl

theorem reportBoard_shoutNews (r : Run) (es : List BoardEvent) :
    (r.reportBoard es).shoutNews =
      r.shoutNews ++ (es.filter BoardEvent.isShoutNews).map (r.now, ·) := by
  rw [shoutNews, reportBoard_boardNews, List.filter_append, List.filter_map]
  rfl

theorem applyMessage_shoutNews (r : Run) (msg : ServerMessage) :
    (r.applyMessage msg).shoutNews =
      r.shoutNews ++ (msg.shouter?.toList.map .playerShouted).map (r.now, ·) := by
  have htold : (r.board.apply msg).2.filter BoardEvent.isShoutNews =
      msg.shouter?.toList.map .playerShouted := r.board.take_shoutNews (.apply msg)
  have hshow (r₀ : Run) (hnow : r₀.now = r.now) (hnews : r₀.boardNews = r.boardNews) :
      ((if (r.board.apply msg).2.any BoardEvent.isShout
          then { r₀ with board := (r.board.apply msg).1 }.armShoutClear
          else { r₀ with board := (r.board.apply msg).1 }).reportBoard
        (r.board.apply msg).2).shoutNews =
      r.shoutNews ++ (msg.shouter?.toList.map .playerShouted).map (r.now, ·) := by
    have harmed : ({ r₀ with board := (r.board.apply msg).1 } : Run).armShoutClear.boardNews =
        r.boardNews := (log_boardNews _ rfl).trans hnews
    rw [reportBoard_shoutNews, htold]
    split
    · rw [shoutNews, harmed, ← hnow]
      rfl
    · rw [shoutNews, ← hnow]
      exact congrArg (· ++ _) (congrArg _ hnews)
  cases msg with
  | conversationId id => exact hshow (r.report (.conversation id)) rfl (log_boardNews _ rfl)
  | _ => exact hshow r rfl rfl

/-- What a message of the server that gets to the board does about shouts. -/
theorem shouting_of_forwarded {machine : Machine}
    (hs : (Stimulus.received frame).shout? = msg.shouter?)
    (h : r' = ({ r with machine }.applyMessage msg).reportState r.machine.state) :
    Shouting r (.received frame) r' := by
  have hnews : r'.shoutNews =
      r.shoutNews ++ (msg.shouter?.toList.map .playerShouted).map (r.now, ·) := by
    rw [h, (reportState_unmoved _ _).shoutNews_eq, applyMessage_shoutNews]
    rfl
  have hboard : r'.board.shouting = msg.shouter?.or r.board.shouting := by
    rw [h, reportState_toClient, applyMessage_toClient]
    exact r.board.apply_shouting msg
  have hdeadline : r'.shoutClear = if msg.shouter?.isSome
      then r.shoutClear.arm r.now r.config.shoutDuration else r.shoutClear := by
    rw [h, reportState_toClient, applyMessage_toClient, ← r.board.apply_any_isShout]
  cases hshouter : msg.shouter? with
  | none =>
      rw [hshouter] at hs hnews hboard hdeadline
      exact .kept hs (by simp) hboard hdeadline (hnews.trans (List.append_nil _))
  | some n =>
      rw [hshouter] at hs hnews hboard hdeadline
      exact .shout hs hboard (by rw [hdeadline]; rfl) hnews

/-- A frame that tells of a shout gets to the board. -/
theorem Handling.forwarded_of_shout {n : UInt8} (h : Handling r (.received frame) r')
    (hgoing : r.isFinished = false)
    (hdecode : Wire.decode ServerMessage frame = .ok (.playerShouted n)) :
    ∃ machine, r' =
      ({ r with machine }.applyMessage (.playerShouted n)).reportState r.machine.state := by
  have hforward : r.machine.handle (.playerShouted n) = (.forward, r.machine) := by
    have hmachine : r.machine.isFinished = false := hgoing
    simp [Machine.handle, hmachine]
  cases h with
  | forwarded hdecode' _ =>
      obtain rfl := Except.ok.inj (hdecode.symm.trans hdecode')
      exact ⟨_, rfl⟩
  | ignored _ hidle => cases (hidle _ hdecode).symm.trans hforward
  | stopped reason hdecode' hhandle =>
      obtain rfl := Except.ok.inj (hdecode.symm.trans hdecode')
      cases hforward.symm.trans hhandle
  | cutOff _ _ hloss =>
      simp [Stimulus.isLoss, hdecode] at hloss

theorem Handling.shouting_of_due (h : Handling r (.due .shoutClear) r') :
    Shouting r (.due .shoutClear) r' := by
  have htold : r.board.clearShout.2.filter BoardEvent.isShoutNews =
      r.board.shouting.toList.map .shoutCleared := r.board.take_shoutNews .clearShout
  cases h with
  | cutOff _ hinbound _ => cases hinbound
  | quietened =>
      refine .clear rfl ?_ ?_ ?_ ?_
      · rw [reportBoard_toClient]
      · rw [reportBoard_toClient]
        exact r.board.take_shouting .clearShout
      · rw [reportBoard_toClient]
        rfl
      · rw [reportBoard_shoutNews, htold, List.map_map]
        rfl

theorem Handling.shouting (h : Handling r s r') (hgoing : r.isFinished = false) :
    Shouting r s r' := by
  cases hs : s.shout? with
  | some n =>
      obtain ⟨frame, rfl, hdecode⟩ := Stimulus.eq_of_shout? hs
      obtain ⟨machine, hr'⟩ := h.forwarded_of_shout hgoing hdecode
      have hshout : (Stimulus.received frame).shout? =
          (ServerMessage.playerShouted n).shouter? := hs
      exact shouting_of_forwarded hshout hr'
  | none =>
      by_cases hdue : s = .due .shoutClear
      · subst hdue
        exact h.shouting_of_due
      · -- whatever else happens leaves the board to what the server says
        cases h.reacting with
        | talked _ htalks => exact ((r.noting_unmoved s).trans htalks.unmoved).shouting hs hdue
        | opened _ ho => exact ((r.noting_unmoved s).trans ho.unmoved).shouting hs hdue
        | forwarded heq hdecode _ hr' =>
            subst heq
            exact shouting_of_forwarded (by simp [Stimulus.shout?, hdecode]) hr'
        | reconnecting _ hr' =>
            have hcancelled : Unmoved r { r with reconnect := r.reconnect.cancel } :=
              ⟨rfl, rfl, rfl, rfl⟩
            rw [hr']
            exact (hcancelled.trans (connect_unmoved _)).shouting hs hdue
        | quietened heq _ => exact absurd heq hdue
        | ended _ hdone _ hunmoved => exact .ended hs hdue hdone hunmoved.shoutNews_eq

end Stimuli

/-! ## Moments -/

/-- The shouts that the server tells of at some moments, and when. -/
def shoutsOver (r : Run) : List Moment → List (Instant × UInt8)
  | [] => []
  | m :: ms =>
    ((r.reached? m).bind Stimulus.shout?).toList.map (r.now + m.wait, ·) ++
      (r.meet m).shoutsOver ms

/-- The shouts among the news. -/
def shoutsTold (r : Run) : List (Instant × UInt8) :=
  r.shoutNews.filterMap fun x => x.2.shouter?.map (x.1, ·)

section Moments

variable {r r' : Run} {m : Moment} {ms : List Moment} {s : Stimulus} {shown : Duration}

theorem Closing.shoutNews_eq (h : Closing r r') : r'.shoutNews = r.shoutNews := by
  cases h with
  | going _ => rfl
  | torn _ =>
      have hclose : Unmoved r.standDown r.standDown.close := by
        unfold close
        cases r.standDown.keeper.connection with
        | none => exact r.standDown.release_unmoved
        | some id => exact (r.standDown.log_unmoved rfl).trans (release_unmoved _)
      rcases r.tearDown_cases with ⟨_, heq⟩ | ⟨id, _, heq⟩
      · rw [heq]
        rfl
      · rw [heq]
        exact hclose.shoutNews_eq

theorem meet_shoutNews_of_unreached (h : r.reached? m = none) :
    (r.meet m).toClient = r.toClient ∧ (r.meet m).shoutNews = r.shoutNews := by
  rcases meet_of_unreached h with heq | ⟨reason, heq⟩
  · rw [heq]
    exact ⟨rfl, rfl⟩
  · rw [heq]
    exact ⟨rfl, (log_unmoved _ rfl).shoutNews_eq⟩

/-- What is told of shouts at a moment is what the stimulus says. -/
theorem meet_shouting (hs : r.reached? m = some s) :
    ∃ r₁, Shouting (r.arrive m) s r₁ ∧ Closing r₁ (r.meet m) := by
  obtain ⟨r₁, hhandle, hclosing⟩ := handling_of_reached? hs
  exact ⟨r₁, hhandle.shouting (isEnabled_of_reached? hs).1, hclosing⟩

/-- A shout that goes on is the last news. -/
theorem getLast?_of_standing? {t : Instant} {n : UInt8} (h : r.standing? = some (t, n)) :
    r.shoutNews.getLast? = some (t, .playerShouted n) := by
  obtain ⟨⟨t', e⟩, hlast, hmap⟩ := Option.bind_eq_some_iff.mp h
  obtain ⟨n', hshouter, heq⟩ := Option.map_eq_some_iff.mp hmap
  obtain ⟨rfl, rfl⟩ := Prod.mk.inj heq
  rw [hlast]
  cases e <;> cases hshouter
  rfl

theorem standing?_of_concat {news : List (Instant × BoardEvent)} {t : Instant} {e : BoardEvent}
    (h : r.shoutNews = news ++ [(t, e)]) : r.standing? = e.shouter?.map (t, ·) := by
  rw [standing?, h, List.getLast?_concat]
  rfl

theorem Standing.of_news (h : r.Standing shown) (board : r'.board.shouting = r.board.shouting)
    (deadline : r'.shoutClear = r.shoutClear) (news : r'.shoutNews = r.shoutNews) :
    r'.Standing shown := by
  have hsame : r'.standing? = r.standing? := by
    rw [standing?, news]
    rfl
  exact ⟨by rw [board, hsame]; exact h.board, by rw [deadline, hsame]; exact h.deadline⟩

/-- Whoever shouts has been told of, and the deadline was set then. -/
theorem Standing.told (h : r.Standing shown) {n : UInt8} (hn : r.board.shouting = some n) :
    ∃ t, r.standing? = some (t, n) ∧ r.shoutClear.due? = some (t + shown.nanos) := by
  obtain ⟨⟨t, n'⟩, hstanding, rfl⟩ := Option.map_eq_some_iff.mp (h.board.symm.trans hn)
  refine ⟨t, hstanding, ?_⟩
  rw [h.deadline, hstanding]
  rfl

theorem Shouting.standing (h : Shouting r s r') (hshown : r.config.shoutDuration = shown)
    (hr : r.Standing shown) : r'.isFinished = true ∨ r'.Standing shown := by
  cases h with
  | kept _ _ board deadline news => exact .inr (hr.of_news board deadline news)
  | shout _ board deadline news =>
      have hstanding := standing?_of_concat news
      refine .inr ⟨?_, ?_⟩
      · rw [board, hstanding]
        rfl
      · rw [deadline, hstanding, hshown]
        rfl
  | clear _ _ board deadline news =>
      have hover : r'.standing? = none := by
        cases hn : r.board.shouting with
        | none =>
            rw [hn] at news
            rw [standing?, news, Option.toList_none, List.map_nil, List.append_nil]
            exact Option.map_eq_none_iff.mp (hr.board.symm.trans hn)
        | some n =>
            rw [hn] at news
            exact standing?_of_concat news
      refine .inr ⟨?_, ?_⟩
      · rw [board, hover]
        rfl
      · rw [deadline, hover]
        rfl
  | ended _ _ hdone _ => exact .inl hdone

theorem Shouting.shouted (h : Shouting r s r') (enabled : r.isEnabled s = true)
    (hr : r.Standing shown) (hnews : Shouted shown r.shoutNews) : Shouted shown r'.shoutNews := by
  cases h with
  | kept _ _ _ _ news => exact news ▸ hnews
  | shout _ _ _ news =>
      rw [news]
      exact hnews.shout _ _
  | clear hs _ _ _ news =>
      subst hs
      cases hn : r.board.shouting with
      | none =>
          rw [hn] at news
          rw [news, Option.toList_none, List.map_nil, List.append_nil]
          exact hnews
      | some n =>
          obtain ⟨t₀, hstanding, hset⟩ := hr.told hn
          have hdue : t₀ + shown.nanos ≤ r.now := by
            simpa [isEnabled, Client.deadline, Deadline.isDue, hset] using enabled
          rw [hn] at news
          rw [news]
          exact hnews.clear (getLast?_of_standing? hstanding) r.now hdue
  | ended _ _ _ news => exact news ▸ hnews

theorem Shouting.shoutsTold_eq (h : Shouting r s r') :
    r'.shoutsTold = r.shoutsTold ++ s.shout?.toList.map (r.now, ·) := by
  cases h with
  | kept hs _ _ _ news =>
      rw [shoutsTold, news, hs]
      exact (List.append_nil _).symm
  | shout hs _ _ news =>
      rw [shoutsTold, news, hs, List.filterMap_append]
      rfl
  | clear hs _ _ _ news =>
      subst hs
      rw [shoutsTold, news, List.filterMap_append]
      cases r.board.shouting <;> rfl
  | ended hs _ _ news =>
      rw [shoutsTold, news, hs]
      exact (List.append_nil _).symm

end Moments

/-! ## Lives -/

section Lives

variable {r : Run} {m : Moment} {ms : List Moment} {config : ClientConfig} {shown : Duration}

/-- The shouts of an unfinished client, under settings that say how long they are shown. -/
structure Showing (r : Run) (shown : Duration) : Prop extends r.Standing shown where
  settings : r.config.shoutDuration = shown

theorem Showing.meet (h : r.Showing shown) (hgoing : (r.meet m).isFinished = false) :
    (r.meet m).Showing shown := by
  cases hs : r.reached? m with
  | none =>
      obtain ⟨hsame, hnews⟩ := meet_shoutNews_of_unreached hs
      refine ⟨h.toStanding.of_news ?_ ?_ hnews, ?_⟩
      · rw [hsame]
      · rw [hsame]
      · rw [hsame]
        exact h.settings
  | some s =>
      obtain ⟨r₁, hhandle, hclosing⟩ := handling_of_reached? hs
      have hshouting := hhandle.shouting (isEnabled_of_reached? hs).1
      have hsame := hclosing.eq_of_going hgoing
      rw [hsame] at hgoing ⊢
      have hstanding := (hshouting.standing h.settings ⟨h.board, h.deadline⟩).resolve_left
        fun hdone => by cases hdone.symm.trans hgoing
      exact ⟨hstanding, (congrArg _ hhandle.config_eq).trans h.settings⟩

theorem meet_shouted (h : r.isFinished = false → r.Showing shown)
    (hnews : Shouted shown r.shoutNews) (m : Moment) : Shouted shown (r.meet m).shoutNews := by
  cases hs : r.reached? m with
  | none => exact (meet_shoutNews_of_unreached hs).2 ▸ hnews
  | some s =>
      obtain ⟨hgoing, enabled⟩ := isEnabled_of_reached? hs
      obtain ⟨r₁, hshouting, hclosing⟩ := meet_shouting hs
      have harrived : (r.arrive m).Standing shown := ⟨(h hgoing).board, (h hgoing).deadline⟩
      exact hclosing.shoutNews_eq ▸ hshouting.shouted enabled harrived hnews

theorem follow_shouted (h : r.isFinished = false → r.Showing shown)
    (hnews : Shouted shown r.shoutNews) (ms : List Moment) :
    ((r.follow ms).isFinished = false → (r.follow ms).Showing shown) ∧
      Shouted shown (r.follow ms).shoutNews := by
  induction ms generalizing r with
  | nil => exact ⟨h, hnews⟩
  | cons m ms ih =>
      exact ih (fun hgoing => (h (isFinished_of_meet hgoing)).meet hgoing) (meet_shouted h hnews m)

/-- Every shout that the server tells of is told when it comes. -/
theorem follow_shoutsTold (r : Run) (ms : List Moment) :
    (r.follow ms).shoutsTold = r.shoutsTold ++ r.shoutsOver ms := by
  induction ms generalizing r with
  | nil => exact (List.append_nil _).symm
  | cons m ms ih =>
      have hmeet : (r.meet m).shoutsTold = r.shoutsTold ++
          ((r.reached? m).bind Stimulus.shout?).toList.map (r.now + m.wait, ·) := by
        cases hs : r.reached? m with
        | none =>
            rw [shoutsTold, (meet_shoutNews_of_unreached hs).2]
            exact (List.append_nil _).symm
        | some s =>
            obtain ⟨r₁, hshouting, hclosing⟩ := meet_shouting hs
            rw [shoutsTold, hclosing.shoutNews_eq]
            exact hshouting.shoutsTold_eq
      rw [follow_cons, ih, hmeet, shoutsOver, List.append_assoc]

/-- A shout that is due to end does. -/
theorem meet_shoutClear {n : UInt8} (hgoing : r.isFinished = false)
    (hm : m.stimulus = .due .shoutClear) (hn : r.board.shouting = some n)
    (hdue : r.shoutClear.isDue (r.now + m.wait) = true) :
    (r.meet m).board.shouting = none ∧
      (r.meet m).shoutNews = r.shoutNews ++ [(r.now + m.wait, .shoutCleared n)] := by
  have hs := reached?_eq hgoing (heard?_eq_due_iff.mpr hm) hdue
  obtain ⟨r₁, hshouting, hclosing⟩ := meet_shouting hs
  cases hshouting with
  | kept _ hearly _ _ _ => exact absurd rfl hearly
  | shout hs' _ _ _ => cases hs'
  | ended _ hearly _ _ => exact absurd rfl hearly
  | clear _ machine board _ news =>
      have hstill : r₁.isFinished = false := by
        rw [Client.isFinished, machine]
        exact hgoing
      rw [hclosing.eq_of_going (hclosing.isFinished_eq.trans hstill)]
      refine ⟨board, news.trans ?_⟩
      show r.shoutNews ++ r.board.shouting.toList.map _ = _
      rw [hn]
      rfl

theorem start_showing (config : ClientConfig) : (start config).Showing config.shoutDuration := by
  refine ⟨⟨?_, ?_⟩, ?_⟩
  · rw [start, connect_toClient]
    rfl
  · rw [start, connect_toClient]
    rfl
  · rw [start, connect_toClient]
    rfl

end Lives

/-- In every life, between any two moments, the deadline for the end of a shout is set just as long
as somebody shouts, whatever happens to the connection, and it is set for the shout duration after
the server told of that shout, which is the last that it told of. Before it is due nothing comes of
it, and when it is due the shout ends and that is told. Every shout is told of when the server tells
of it. And every end that is told comes right after the shout of that very player, and not before it
has been shown for its full duration: no end is told twice, and none is told of a shout that a newer
one has replaced. -/
theorem shouts_end (config : ClientConfig) (ms : List Moment) :
    ((play config ms).isFinished = false →
      (play config ms).shoutClear.isArmed = (play config ms).board.shouting.isSome ∧
      ∀ n, (play config ms).board.shouting = some n →
        ∃ t, ((start config).shoutsOver ms).getLast? = some (t, n) ∧
          (play config ms).shoutClear.due? = some (t + config.shoutDuration.nanos) ∧
          ∀ m, m.stimulus = .due .shoutClear →
            ((play config ms).now + m.wait < t + config.shoutDuration.nanos →
              ((play config ms).meet m).toClient = (play config ms).toClient ∧
                ((play config ms).meet m).shoutNews = (play config ms).shoutNews) ∧
            (t + config.shoutDuration.nanos ≤ (play config ms).now + m.wait →
              ((play config ms).meet m).board.shouting = none ∧
                ((play config ms).meet m).shoutNews = (play config ms).shoutNews ++
                  [((play config ms).now + m.wait, .shoutCleared n)])) ∧
    (play config ms).shoutsTold = (start config).shoutsOver ms ∧
    (∀ before t n after,
      (play config ms).shoutNews = before ++ (t, .shoutCleared n) :: after →
      ∃ t₀, before.getLast? = some (t₀, .playerShouted n) ∧
        t₀ + config.shoutDuration.nanos ≤ t) := by
  have htold : (play config ms).shoutsTold = (start config).shoutsOver ms :=
    follow_shoutsTold (start config) ms
  obtain ⟨hshowing, hshouted⟩ :=
    follow_shouted (fun _ => start_showing config) .nil ms
  refine ⟨fun hgoing => ?_, htold, fun before t n after hsplit => hshouted.split hsplit⟩
  have h := hshowing hgoing
  refine ⟨?_, fun n hn => ?_⟩
  · have hdeadline : (play config ms).shoutClear.due?.isSome =
        (play config ms).standing?.isSome := by
      rw [play_eq, h.deadline, Option.isSome_map]
    rw [Deadline.isArmed, hdeadline, play_eq, h.board, Option.isSome_map]
  · obtain ⟨t, hstanding, hset⟩ := h.told hn
    obtain ⟨news, hnews⟩ := List.getLast?_eq_some_iff.mp (getLast?_of_standing? hstanding)
    refine ⟨t, ?_, hset, fun m hm => ⟨fun hearly => ?_, fun hdue => ?_⟩⟩
    · rw [← htold, shoutsTold, play_eq, hnews, List.filterMap_append]
      exact List.getLast?_concat
    · refine meet_shoutNews_of_unreached (unreached_of_early hm ?_)
      have hset' : (play config ms).shoutClear.due? = _ := hset
      simpa [Client.deadline, Deadline.isDue, hset'] using hearly
    · exact meet_shoutClear hgoing hm hn (Deadline.isDue_of_le hset hdue)

/-- A shout on one connection, and on the next one another that restarts the clock. -/
theorem shouts_end_restarted :
    let shout (wait : Nat) (n : UInt8) : Moment :=
      { wait, stimulus := .received (Wire.layout (ServerMessage.playerShouted n)) }
    let life : List Moment := [{ stimulus := .connected }, shout 0 1, { stimulus := .streamEnded },
      { wait := 5_000_000_000, stimulus := .due .reconnect }, { stimulus := .connected },
      shout 2_000_000_000 2]
    let tick : Moment := { wait := 10_000_000_000, stimulus := .due .shoutClear }
    (play {} life).isFinished = false ∧ (play {} life).board.shouting = some 2 ∧
      ((start {}).shoutsOver life).getLast? = some (7_000_000_000, 2) ∧
      (play {} life).shoutClear.due? = some 17_000_000_000 ∧
      ((play {} life).meet tick).board.shouting = none ∧
      ((play {} life).meet tick).shoutNews = [(0, .playerShouted 1),
        (7_000_000_000, .playerShouted 2), (17_000_000_000, .shoutCleared 2)] ∧
      ∃ t₀ : Instant, [((0 : Instant), BoardEvent.playerShouted 1),
        (7_000_000_000, .playerShouted 2)].getLast? = some (t₀, .playerShouted 2) ∧
        t₀ + 10_000_000_000 ≤ 17_000_000_000 := by
  intro shout life tick
  have hgoing : (play {} life).isFinished = false := by decide +kernel
  have hn : (play {} life).board.shouting = some 2 := by decide +kernel
  have hnews : (play {} (life ++ [tick])).shoutNews = [(0, .playerShouted 1),
      (7_000_000_000, .playerShouted 2), (17_000_000_000, .shoutCleared 2)] := by decide +kernel
  have hlast : ((start {}).shoutsOver life).getLast? = some (7_000_000_000, 2) := by
    decide +kernel
  obtain ⟨t, hlast', hset, hticks⟩ := ((shouts_end {} life).1 hgoing).2 2 hn
  obtain ⟨rfl, _⟩ := Prod.mk.inj (Option.some.inj (hlast.symm.trans hlast'))
  have hquiet := (hticks tick rfl).2 (by decide +kernel)
  have hend := (shouts_end {} (life ++ [tick])).2.2 [(0, .playerShouted 1),
    (7_000_000_000, .playerShouted 2)] _ _ [] hnews
  rw [play_meet] at hnews
  exact ⟨hgoing, hn, hlast, hset, hquiet.1, hnews, hend⟩

end Run

end TileRoom

import TileRoom.Proofs.Client.Delivery

/-!
# What is lost on the way

A chat that is given without a connection, or the place that a tile was dragged to, is safe as
long as it waits. It is taken out when it is about to be sent, together with everything that waits
beside it, and what the burst does not deliver is not put back. So one refused message costs all
that was to follow it: `held_chat_kept_iff` and `latest_move_kept_iff` say exactly what is lost.
-/

namespace TileRoom

/-! ## The end of a burst -/

section Bursts

variable {p : ClientMessage → Bool} {ms : List ClientMessage} {es : List Effect}

/-- A burst of messages of kind `p` broke off before it delivered the one at `place`. -/
def BrokenBefore (p : ClientMessage → Bool) (place : Nat) (es : List Effect) : Prop :=
  (undelivered es).filter p ≠ [] ∧ ((delivered es).filter p).length ≤ place

theorem Burst.delivered_iff (h : Burst p ms es) {place : Nat} {m : ClientMessage}
    (hm : ms[place]? = some m) :
    ((delivered es).filter p)[place]? = some m ↔ ¬ BrokenBefore p place es := by
  unfold BrokenBefore
  cases h with
  | whole sent unsent => simp [sent, unsent, hm]
  | broken before lost rest heq sent unsent =>
      rw [sent, unsent]
      have hbroken : ([lost] ≠ [] ∧ before.length ≤ place) ↔ before.length ≤ place := by simp
      rw [hbroken, Nat.not_le]
      constructor
      · intro hin
        obtain ⟨hplace, _⟩ := List.getElem?_eq_some_iff.mp hin
        exact hplace
      · intro hplace
        rw [heq, List.getElem?_append_left hplace] at hm
        exact hm

/-- A burst of moves broke off at a tile or before it. -/
def BrokenAt (tile : UInt8) (es : List Effect) : Prop :=
  ∃ t x y, .moveTile t x y ∈ undelivered es ∧ t ≤ tile

theorem Outbox.moves_ascending (o : Outbox) :
    o.moves.Pairwise fun a b => ∀ t x y t' x' y',
      a = .moveTile t x y → b = .moveTile t' x' y' → t < t' := by
  refine List.pairwise_map.mpr (o.dirty.ascending.imp ?_)
  rintro ⟨t, x, y⟩ ⟨t', x', y'⟩ hlt _ _ _ _ _ _ ⟨⟩ ⟨⟩
  exact hlt

theorem Outbox.mem_moves_of_get? {o : Outbox} {tile : UInt8} {x y : Int16}
    (h : o.dirty.get? tile = some (x, y)) : .moveTile tile x y ∈ o.moves :=
  List.mem_map.mpr ⟨(tile, x, y), (o.dirty.mem_entries_iff tile (x, y)).mpr h, rfl⟩

/-- The moves before some move are those of the tiles with lower numbers. -/
theorem Outbox.mem_before_iff {o : Outbox} {before rest : List ClientMessage} {t : UInt8}
    {x' y' : Int16} (heq : o.moves = before ++ .moveTile t x' y' :: rest) {tile : UInt8}
    {x y : Int16} (hdirty : o.dirty.get? tile = some (x, y)) :
    .moveTile tile x y ∈ before ↔ tile < t := by
  have hascending := o.moves_ascending
  have hmem := mem_moves_of_get? hdirty
  rw [heq] at hascending hmem
  obtain ⟨_, hrest, hbefore⟩ := List.pairwise_append.mp hascending
  constructor
  · intro hin
    exact hbefore _ hin _ List.mem_cons_self _ _ _ _ _ _ rfl rfl
  · intro hlt
    rcases List.mem_append.mp hmem with hin | hin
    · exact hin
    · rcases List.mem_cons.mp hin with hsame | hin
      · cases hsame
        exact absurd hlt (UInt8.lt_irrefl t)
      · have hgt := (List.pairwise_cons.mp hrest).1 _ hin _ _ _ _ _ _ rfl rfl
        exact absurd hlt (UInt8.lt_asymm hgt)

theorem Burst.moved_iff {o : Outbox} (h : Burst ClientMessage.isMove o.moves es) {tile : UInt8}
    {x y : Int16} (hdirty : o.dirty.get? tile = some (x, y)) :
    .moveTile tile x y ∈ delivered es ↔ ¬ BrokenAt tile es := by
  have hdelivered : .moveTile tile x y ∈ delivered es ↔
      .moveTile tile x y ∈ (delivered es).filter ClientMessage.isMove := by
    simp [List.mem_filter, ClientMessage.isMove]
  have hundelivered (t : UInt8) (x y : Int16) : .moveTile t x y ∈ undelivered es ↔
      .moveTile t x y ∈ (undelivered es).filter ClientMessage.isMove := by
    simp [List.mem_filter, ClientMessage.isMove]
  unfold BrokenAt
  simp only [hdelivered, hundelivered]
  cases h with
  | whole sent unsent =>
      rw [sent, unsent]
      simpa using Outbox.mem_moves_of_get? hdirty
  | broken before lost rest heq sent unsent =>
      have hlost : lost ∈ o.moves := by simp [heq]
      obtain ⟨t, x', y', rfl, _⟩ := Outbox.mem_moves hlost
      -- of the burst one move is known not to be delivered, and that tells where it broke off
      rw [sent, unsent, Outbox.mem_before_iff heq hdirty]
      simp [UInt8.not_le]

/-- Where a message moves a tile to, if it does. -/
def ClientMessage.place? (tile : UInt8) : ClientMessage → Option (Int16 × Int16)
  | moveTile t x y => if t = tile then some (x, y) else none
  | _ => none

/-- A number stands for one entry at most. -/
theorem Numbered.filterMap_entries {α : Type} (m : Numbered α) (n : UInt8) :
    m.entries.filterMap (fun e => if e.1 = n then some e.2 else none) = (m.get? n).toList := by
  have hentries (es : List (UInt8 × α)) (ascending : es.Pairwise fun a b => a.1 < b.1) :
      es.filterMap (fun e => if e.1 = n then some e.2 else none) = (find n es).toList := by
    induction es with
    | nil => rfl
    | cons e es ih =>
        obtain ⟨hfirst, hes⟩ := List.pairwise_cons.mp ascending
        rw [List.filterMap_cons, find]
        by_cases he : e.1 = n
        · -- all that come after it have higher numbers
          have hrest : es.filterMap (fun e => if e.1 = n then some e.2 else none) = [] := by
            refine List.filterMap_eq_nil_iff.mpr fun d hd => if_neg ?_
            intro hsame
            have hlt := hfirst d hd
            rw [he, hsame] at hlt
            exact UInt8.lt_irrefl n hlt
          rw [if_pos he, if_pos he.symm, hrest]
          rfl
        · rw [if_neg he, if_neg fun h => he h.symm]
          exact ih hes
  exact hentries m.entries m.ascending

/-- Every dragged tile is moved once, to where it was dragged. -/
theorem Outbox.moves_place? (o : Outbox) (tile : UInt8) :
    o.moves.filterMap (ClientMessage.place? tile) = (o.dirty.get? tile).toList := by
  rw [← Numbered.filterMap_entries, moves, List.filterMap_map]
  rfl

/-- If all of a burst of moves went out, every dragged tile was moved once. -/
theorem Burst.moves_delivered {o : Outbox} (h : Burst ClientMessage.isMove o.moves es)
    (hall : undelivered es = []) (tile : UInt8) :
    (delivered es).filterMap (ClientMessage.place? tile) = (o.dirty.get? tile).toList := by
  have hmoves : (delivered es).filter ClientMessage.isMove = o.moves := by
    cases h with
    | whole sent _ => exact sent
    | broken before lost rest _ _ unsent =>
        rw [hall] at unsent
        cases unsent
  rw [← Outbox.moves_place?, ← hmoves, List.filterMap_filter]
  congr 1
  funext msg
  cases msg <;> rfl

end Bursts

namespace Run

/-- The dealings of the first moment that leaves behind an outbox as described, if there is one. -/
def departure? (gone : Outbox → Bool) (r : Run) : List Moment → Option (List Effect)
  | [] => none
  | m :: ms =>
    if gone (r.meet m).outbox then some (r.dealings m) else (r.meet m).departure? gone ms

/-! ## Held chats -/

/-- The dealings of the moment at which the queue of chats is taken out. -/
def replay? (r : Run) (ms : List Moment) : Option (List Effect) :=
  r.departure? (fun o => o.held.isEmpty) ms

/-- After `ms` the chat at `place` of the queue still waits there, or the replay has delivered
it. -/
def KeepsChat (r : Run) (place : Nat) (chat : ClientMessage) (ms : List Moment) : Prop :=
  match r.replay? ms with
  | none => (r.follow ms).outbox.held[place]? = some chat
  | some es => ((delivered es).filter ClientMessage.isChat)[place]? = some chat

/-- The replay has broken off before the chat at `place` of the queue was delivered. -/
def LosesChat (r : Run) (place : Nat) (ms : List Moment) : Prop :=
  ∃ es, r.replay? ms = some es ∧ BrokenBefore ClientMessage.isChat place es

/-- At one moment a chat keeps its place, or the replay decides. -/
theorem meet_chat {r : Run} {m : Moment} (hend : (r.meet m).isFinished = false)
    (hchats : r.HoldsChats) {place : Nat} {chat : ClientMessage}
    (h : r.outbox.held[place]? = some chat) :
    ((r.meet m).outbox.held.isEmpty = false ∧ (r.meet m).outbox.held[place]? = some chat) ∨
      ((r.meet m).outbox.held.isEmpty = true ∧
        (((delivered (r.dealings m)).filter ClientMessage.isChat)[place]? = some chat ↔
          ¬ BrokenBefore ClientMessage.isChat place (r.dealings m))) := by
  have hkept {held : List ClientMessage} (hheld : held[place]? = some chat) :
      held.isEmpty = false := by
    cases held with
    | nil => cases hheld
    | cons _ _ => rfl
  rcases meet_held hend hchats with hsame | ⟨text, hadded⟩ | ⟨hempty, hburst⟩
  · rw [hsame]
    exact .inl ⟨hkept h, h⟩
  · rw [hadded]
    obtain ⟨hlt, _⟩ := List.getElem?_eq_some_iff.mp h
    have hplace : (r.outbox.held ++ [.sendMessage text])[place]? = some chat := by
      rw [List.getElem?_append_left hlt, h]
    exact .inl ⟨hkept hplace, hplace⟩
  · rw [hempty]
    exact .inr ⟨rfl, hburst.delivered_iff h⟩

theorem keepsChat_iff {r : Run} {ms : List Moment} (hend : (r.follow ms).isFinished = false)
    (hchats : r.HoldsChats) {place : Nat} {chat : ClientMessage}
    (h : r.outbox.held[place]? = some chat) :
    r.KeepsChat place chat ms ↔ ¬ r.LosesChat place ms := by
  unfold KeepsChat LosesChat replay?
  -- the chat keeps its place until the queue is taken out, and then the burst decides
  induction ms generalizing r with
  | nil => simp [departure?, h]
  | cons m ms ih =>
      have hmeet : (r.meet m).isFinished = false := isFinished_of_follow hend
      unfold departure?
      rcases meet_chat hmeet hchats h with ⟨hstay, hplace⟩ | ⟨hgone, hfate⟩
      · simpa [hstay] using ih hend (meet_holdsChats hmeet hchats) hplace
      · simpa [hgone] using hfate

/-- A chat that is given without a connection goes to the end of the queue. -/
theorem meet_hold {r : Run} {m : Moment} {text : String} (hend : (r.meet m).isFinished = false)
    (hgiven : m.heard? = some (.requested (.sendMessage text)))
    (hid : r.keeper.connection = none) :
    (r.meet m).outbox.held = r.outbox.held ++ [.sendMessage text] := by
  have hcases := going_cases hend
  generalize r.meet m = r' at hcases ⊢
  cases hcases with
  | refused _ h => rw [hgiven] at h; cases h
  | unheard h hs =>
      obtain rfl := Option.some.inj (hgiven.symm.trans h)
      cases hs
  | handled h _ hhandle =>
      obtain rfl := Option.some.inj (hgiven.symm.trans h)
      cases hhandle with
      | cutOff _ hinbound => cases hinbound
      | chat hid' _ => exact absurd (hid.symm.trans hid') (by simp)
      | held _ => rfl

/-- A chat that is given without a connection is never lost but in one way. As long as the client
goes on, the chat waits in its place or has been delivered by the replay that took it out, unless
that replay broke off at it or at one given earlier. -/
theorem held_chat_kept_iff (config : ClientConfig) (before : List Moment) (m : Moment)
    (after : List Moment) (text : String)
    (hgiven : m.heard? = some (.requested (.sendMessage text)))
    (hid : (play config before).keeper.connection = none)
    (hgoing : (play config (before ++ m :: after)).isFinished = false) :
    (play config (before ++ [m])).KeepsChat (play config before).outbox.held.length
        (.sendMessage text) after ↔
      ¬ (play config (before ++ [m])).LosesChat (play config before).outbox.held.length after := by
  have hsplit : before ++ m :: after = before ++ [m] ++ after := by simp
  rw [hsplit, play_eq, follow_append, ← play_eq] at hgoing
  have hmeet := isFinished_of_follow hgoing
  have hstep : play config (before ++ [m]) = (play config before).meet m := by
    rw [play_eq, follow_append]
    rfl
  refine keepsChat_iff hgoing (play_holdsChats config hmeet) ?_
  rw [hstep] at hmeet ⊢
  rw [meet_hold hmeet hgiven hid]
  exact List.getElem?_concat_length

/-- A second chat, when the replay of two breaks off at the first. -/
theorem held_chat_lost_behind :
    let a : Moment := { stimulus := .requested (.sendMessage "a") }
    let b : Moment := { stimulus := .requested (.sendMessage "b") }
    let after : List Moment := [{ stimulus := .connected, uplink := { accepts := some 1 } },
      { wait := 2_000_000_000, stimulus := .due .reconnect }, { stimulus := .connected }]
    b.heard? = some (.requested (.sendMessage "b")) ∧
      (play {} [a]).keeper.connection = none ∧
      (play {} ([a] ++ b :: after)).isFinished = false ∧
      ¬ (play {} ([a] ++ [b])).KeepsChat (play {} [a]).outbox.held.length (.sendMessage "b")
        after := by
  intro a b after
  have hgiven : b.heard? = some (.requested (.sendMessage "b")) := by decide +kernel
  have hid : (play {} [a]).keeper.connection = none := by decide +kernel
  have hgoing : (play {} ([a] ++ b :: after)).isFinished = false := by decide +kernel
  refine ⟨hgiven, hid, hgoing, ?_⟩
  rw [held_chat_kept_iff {} [a] b after "b" hgiven hid hgoing]
  have hlost : (play {} ([a] ++ [b])).LosesChat (play {} [a]).outbox.held.length after :=
    ⟨_, rfl, by unfold BrokenBefore; decide +kernel⟩
  exact fun hkept => hkept hlost

/-- A second chat is lost when the replay of two breaks off at it: it no longer waits, and the
connection after that does not deliver it. -/
theorem held_chat_lost :
    ∃ before m after, m.heard? = some (.requested (.sendMessage "b")) ∧
      (play {} before).keeper.connection = none ∧
      (play {} (before ++ m :: after)).isFinished = false ∧
      .sendMessage "b" ∉ (play {} (before ++ m :: after)).outbox.held ∧
      ∀ e ∈ (play {} (before ++ m :: after)).trace, e.2.sent? ≠ some (.sendMessage "b") := by
  refine ⟨[{ stimulus := .requested (.sendMessage "a") }],
    { stimulus := .requested (.sendMessage "b") },
    [{ stimulus := .connected, uplink := { accepts := some 2 } },
      { wait := 2_000_000_000, stimulus := .due .reconnect }, { stimulus := .connected }], ?_⟩
  decide +kernel

/-! ## Dragged tiles -/

/-- All that is delivered at some moments. -/
def deliveredOver (r : Run) : List Moment → List ClientMessage
  | [] => []
  | m :: ms => delivered (r.dealings m) ++ (r.meet m).deliveredOver ms

/-- Over `ms` the tile still waits where it was dragged to, or that has been delivered. -/
def KeepsMove (r : Run) (tile : UInt8) (x y : Int16) (ms : List Moment) : Prop :=
  (r.follow ms).outbox.dirty.get? tile = some (x, y) ∨
    .moveTile tile x y ∈ r.deliveredOver ms

/-- The flush that took a dragged tile out has broken off at it or at a lower number. -/
def LosesMove (r : Run) (tile : UInt8) (ms : List Moment) : Prop :=
  ∃ es, r.departure? (fun o => (o.dirty.get? tile).isNone) ms = some es ∧ BrokenAt tile es

/-- A move is sent only if it waits, and no tile waits after it. -/
theorem move_of_delivered {r : Run} {m : Moment} (hgoing : r.isFinished = false)
    (hchats : r.HoldsChats) {tile : UInt8} {x y : Int16}
    (h : .moveTile tile x y ∈ delivered (r.dealings m)) :
    (r.heardOutbox m).dirty.get? tile = some (x, y) ∧ (r.meet m).outbox.dirty = ∅ := by
  obtain ⟨e, he, hsent⟩ := List.mem_filterMap.mp h
  rcases meet_doing hgoing m with hnone | ⟨s, hs, hdoing⟩
  · rw [hnone] at he
    cases he
  · have hsaying := hdoing.utters e he _ (Effect.message?_of_sent? hsent)
    unfold heardOutbox
    rw [hs]
    -- of all reasons to send a message only one gives a move
    generalize hmove : ClientMessage.moveTile tile x y = msg at hsaying
    have hkind : msg.isMove = true := by rw [← hmove]; rfl
    cases hsaying with
    | hello _ => exact absurd (hkind.symm.trans (waits_isMove.hello _)) (by decide)
    | held _ hheld _ =>
        have hchat := ClientMessage.isMove_of_isChat (hchats msg hheld)
        exact absurd (hkind.symm.trans hchat) (by decide)
    | typing htyping =>
        exact absurd (hkind.symm.trans (waits_isMove.typing msg htyping)) (by decide)
    | move hdirty hempty =>
        cases hmove
        exact ⟨hdirty, hempty⟩
    | _ => cases hmove

/-- At one moment a dragged tile goes on waiting, or the flush decides. -/
theorem meet_move {r : Run} {m : Moment} (hend : (r.meet m).isFinished = false)
    (hchats : r.HoldsChats) {tile : UInt8} {x y : Int16}
    (h : (r.heardOutbox m).dirty.get? tile = some (x, y)) :
    ((r.meet m).outbox.dirty.get? tile = some (x, y) ∧
        .moveTile tile x y ∉ delivered (r.dealings m)) ∨
      ((r.meet m).outbox.dirty.get? tile = none ∧
        (.moveTile tile x y ∈ delivered (r.dealings m) ↔ ¬ BrokenAt tile (r.dealings m))) := by
  rcases meet_dirty hend hchats with hsame | ⟨hempty, hburst⟩
  · refine .inl ⟨by rw [hsame, h], ?_⟩
    intro hdelivered
    obtain ⟨_, hempty⟩ := move_of_delivered (isFinished_of_meet hend) hchats hdelivered
    rw [hsame] at hempty
    rw [hempty] at h
    cases h
  · refine .inr ⟨?_, hburst.moved_iff h⟩
    rw [hempty]
    rfl

/-- A moment that does not drag a tile leaves it as it waits. -/
theorem heardOutbox_get? {r : Run} {m : Moment} {tile : UInt8}
    (h : ∀ x y, m.heard? ≠ some (.requested (.moveTile tile x y))) :
    (r.heardOutbox m).dirty.get? tile = r.outbox.dirty.get? tile := by
  unfold heardOutbox
  cases hs : m.heard? with
  | none => rfl
  | some s =>
      cases s with
      | requested q =>
          cases q with
          | moveTile tile' x y =>
              have hne : tile ≠ tile' := by
                rintro rfl
                exact h x y hs
              simp [Outbox.marked, Outbox.markDirty, hne]
          | _ => rfl
      | _ => rfl

/-- A tile that does not wait and is not dragged again is not sent again. -/
theorem not_delivered_of_gone {r : Run} {ms : List Moment} {tile : UInt8}
    (hend : (r.follow ms).isFinished = false) (hchats : r.HoldsChats)
    (hgone : r.outbox.dirty.get? tile = none)
    (hlatest : ∀ m ∈ ms, ∀ x y, m.heard? ≠ some (.requested (.moveTile tile x y)))
    (x y : Int16) : (r.follow ms).outbox.dirty.get? tile = none ∧
      .moveTile tile x y ∉ r.deliveredOver ms := by
  induction ms generalizing r with
  | nil => exact ⟨hgone, by simp [deliveredOver]⟩
  | cons m ms ih =>
      have hmeet : (r.meet m).isFinished = false := isFinished_of_follow hend
      have hheard := heardOutbox_get? (r := r) (hlatest m List.mem_cons_self)
      have hgone' : (r.meet m).outbox.dirty.get? tile = none := by
        rcases meet_dirty hmeet hchats with hsame | ⟨hempty, _⟩
        · rw [hsame, hheard, hgone]
        · rw [hempty]
          rfl
      obtain ⟨hdirty, hrest⟩ := ih hend (meet_holdsChats hmeet hchats) hgone'
        fun m' hm' => hlatest m' (List.mem_cons_of_mem _ hm')
      refine ⟨hdirty, ?_⟩
      intro hdelivered
      rcases List.mem_append.mp hdelivered with hdelivered | hdelivered
      · obtain ⟨hwaits, _⟩ := move_of_delivered (isFinished_of_meet hmeet) hchats hdelivered
        rw [hheard, hgone] at hwaits
        cases hwaits
      · exact hrest hdelivered

section Moves

variable {r : Run} {m : Moment} {ms : List Moment} {tile : UInt8} {x y : Int16}

theorem losesMove_cons_of_waits (h : (r.meet m).outbox.dirty.get? tile = some (x, y)) :
    r.LosesMove tile (m :: ms) ↔ (r.meet m).LosesMove tile ms := by
  simp [LosesMove, departure?, h]

theorem losesMove_cons_of_gone (h : (r.meet m).outbox.dirty.get? tile = none) :
    r.LosesMove tile (m :: ms) ↔ BrokenAt tile (r.dealings m) := by
  simp [LosesMove, departure?, h]

/-- If a tile that goes on waiting after a moment is kept unless it is lost, so it is before. -/
theorem keepsMove_cons (hend : (r.follow (m :: ms)).isFinished = false) (hchats : r.HoldsChats)
    (h : (r.heardOutbox m).dirty.get? tile = some (x, y))
    (hlatest : ∀ m ∈ ms, ∀ x y, m.heard? ≠ some (.requested (.moveTile tile x y)))
    (hrest : (r.meet m).outbox.dirty.get? tile = some (x, y) →
      ((r.meet m).KeepsMove tile x y ms ↔ ¬ (r.meet m).LosesMove tile ms)) :
    r.KeepsMove tile x y (m :: ms) ↔ ¬ r.LosesMove tile (m :: ms) := by
  rw [follow_cons] at hend
  have hmeet := isFinished_of_follow hend
  unfold KeepsMove at hrest ⊢
  rw [follow_cons, deliveredOver, List.mem_append]
  rcases meet_move hmeet hchats h with ⟨hwaits, hunsent⟩ | ⟨hgone, hfate⟩
  · rw [losesMove_cons_of_waits hwaits, ← hrest hwaits]
    simp only [hunsent, false_or]
  · -- the tile is gone for good, so all hangs on this moment
    obtain ⟨hdirty, hrest⟩ :=
      not_delivered_of_gone hend (meet_holdsChats hmeet hchats) hgone hlatest x y
    rw [losesMove_cons_of_gone hgone, ← hfate, hdirty]
    simp only [reduceCtorEq, hrest, or_false, false_or]

theorem keepsMove_of_waits (hend : (r.follow ms).isFinished = false) (hchats : r.HoldsChats)
    (h : r.outbox.dirty.get? tile = some (x, y))
    (hlatest : ∀ m ∈ ms, ∀ x y, m.heard? ≠ some (.requested (.moveTile tile x y))) :
    r.KeepsMove tile x y ms ↔ ¬ r.LosesMove tile ms := by
  induction ms generalizing r with
  | nil => simp [KeepsMove, LosesMove, departure?, h]
  | cons m ms ih =>
      have hmeet : (r.meet m).isFinished = false := isFinished_of_follow hend
      have hlater := fun m' hm' => hlatest m' (List.mem_cons_of_mem m hm')
      refine keepsMove_cons hend hchats ?_ hlater ?_
      · rw [heardOutbox_get? (hlatest m List.mem_cons_self), h]
      · intro hwaits
        exact ih hend (meet_holdsChats hmeet hchats) hwaits hlater

end Moves

/-- Where a tile was dragged to last is never lost but in one way. As long as the client goes on,
it waits to be sent or has been delivered since, unless the flush that took it out broke off at
the tile or at one with a lower number. -/
theorem latest_move_kept_iff (config : ClientConfig) (before : List Moment) (m : Moment)
    (after : List Moment) (tile : UInt8) (x y : Int16)
    (hgiven : m.heard? = some (.requested (.moveTile tile x y)))
    (hlatest : ∀ c ∈ after, ∀ x' y', c.heard? ≠ some (.requested (.moveTile tile x' y')))
    (hgoing : (play config (before ++ m :: after)).isFinished = false) :
    (play config before).KeepsMove tile x y (m :: after) ↔
      ¬ (play config before).LosesMove tile (m :: after) := by
  rw [play_eq, follow_append, ← play_eq] at hgoing
  have hbefore := isFinished_of_follow hgoing
  have hchats := play_holdsChats config hbefore
  have hmeet : ((play config before).meet m).isFinished = false := isFinished_of_follow hgoing
  refine keepsMove_cons hgoing hchats ?_ hlatest ?_
  · rw [heardOutbox, hgiven]
    simp [Outbox.marked, Outbox.markDirty]
  · intro hwaits
    exact keepsMove_of_waits hgoing (meet_holdsChats hmeet hchats) hwaits hlatest

/-- A second tile, when the flush of two breaks off at the first. -/
theorem latest_move_lost_behind :
    let before : List Moment := [{ stimulus := .connected },
      { stimulus := .requested (.moveTile 1 1 1), uplink := { buffered := 1 } }]
    let m : Moment :=
      { stimulus := .requested (.moveTile 2 2 2), uplink := { buffered := 1 } }
    let retry : Moment :=
      { wait := 100_000_000, stimulus := .due .flushRetry, uplink := { accepts := some 0 } }
    m.heard? = some (.requested (.moveTile 2 2 2)) ∧
      (∀ c ∈ [retry], ∀ x y, c.heard? ≠ some (.requested (.moveTile 2 x y))) ∧
      (play {} (before ++ [m, retry])).isFinished = false ∧
      ¬ (play {} before).KeepsMove 2 2 2 [m, retry] := by
  intro before m retry
  have hgiven : m.heard? = some (.requested (.moveTile 2 2 2)) := by decide +kernel
  have hlatest : ∀ c ∈ [retry], ∀ x y, c.heard? ≠ some (.requested (.moveTile 2 x y)) := by
    intro c hc x y
    rw [List.mem_singleton.mp hc]
    simp [retry, Moment.heard?]
  have hgoing : (play {} (before ++ [m, retry])).isFinished = false := by decide +kernel
  refine ⟨hgiven, hlatest, hgoing, ?_⟩
  rw [latest_move_kept_iff {} before m [retry] 2 2 2 hgiven hlatest hgoing]
  have hwaits : ((play {} before).meet m).outbox.dirty.get? 2 = some (2, 2) := by decide +kernel
  have hgone : (((play {} before).meet m).meet retry).outbox.dirty.get? 2 = none := by
    decide +kernel
  have hlost : (play {} before).LosesMove 2 [m, retry] := by
    rw [losesMove_cons_of_waits hwaits, losesMove_cons_of_gone hgone]
    exact ⟨1, 1, 1, by decide +kernel, by decide⟩
  exact fun hkept => hkept hlost

/-- A second tile is lost when the flush of two breaks off at it: it no longer waits, and the
connection after that does not deliver it. -/
theorem latest_move_lost :
    ∃ before m after, m.heard? = some (.requested (.moveTile 2 2 2)) ∧
      (∀ c ∈ after, ∀ x y, c.heard? ≠ some (.requested (.moveTile 2 x y))) ∧
      (play {} (before ++ m :: after)).isFinished = false ∧
      (play {} (before ++ m :: after)).outbox.dirty.get? 2 = none ∧
      ∀ e ∈ (play {} (before ++ m :: after)).trace, e.2.sent? ≠ some (.moveTile 2 2 2) := by
  refine ⟨[{ stimulus := .connected },
      { stimulus := .requested (.moveTile 1 1 1), uplink := { buffered := 1 } }],
    { stimulus := .requested (.moveTile 2 2 2), uplink := { buffered := 1 } },
    [{ wait := 100_000_000, stimulus := .due .flushRetry, uplink := { accepts := some 1 } },
      { wait := 2_000_000_000, stimulus := .due .reconnect }, { stimulus := .connected }],
    by decide +kernel, ?_, by decide +kernel⟩
  intro c hc x y
  simp only [List.mem_cons, List.not_mem_nil, or_false] at hc
  rcases hc with rfl | rfl | rfl <;> simp [Moment.heard?]

end Run

end TileRoom

import Mathlib.Logic.Function.Basic
import TileRoom.Board.Update

/-!
# The board from its events

Whoever shows the game never sees the board, only the events. `BoardView` is what they can put
together: `BoardView.hear` notes one event, and `Board.view` is what should be known of a board.
`Board.events_tell_board` says that after any messages and shouts the two agree. A change that is
not reported would part them for good, so the proof goes through every way in which a board can
change (`applyMessage_tells`, `clearShout_tells`) and then by induction over the calls.
-/

namespace TileRoom

/-- What can be known of a board from its events. -/
structure BoardView where
  tiles : Numbered Tile := ∅
  totalTiles : UInt8 := 0
  selfNum : Option UInt8 := none
  synced : Bool := false
  shouting : Option UInt8 := none
  name : UInt8 → String := fun _ => ""
  flags : UInt8 → PlayerFlags := fun _ => .none
  canTakeTurn : Bool := false

namespace BoardView

/-- Notes an event. -/
def hear (v : BoardView) : BoardEvent → BoardView
  | .selfAssigned player => { v with selfNum := some player }
  | .playerNameChanged player name => { v with name := Function.update v.name player name }
  | .playerFlagsChanged player flags => { v with flags := Function.update v.flags player flags }
  | .playerJoined _ | .playerLeft _ | .chatMessage .. => v
  | .tileAdded tile | .tileMoved tile _ => { v with tiles := v.tiles.insert tile.num tile }
  | .tileCapacityChanged totalTiles _ => { v with totalTiles }
  | .turnEligibilityChanged canTakeTurn => { v with canTakeTurn }
  | .playerShouted player => { v with shouting := some player }
  | .shoutCleared _ => { v with shouting := none }
  | .synced => { v with synced := true }

def hearAll (v : BoardView) (es : List BoardEvent) : BoardView :=
  es.foldl hear v

theorem hearAll_append (v : BoardView) (es fs : List BoardEvent) :
    v.hearAll (es ++ fs) = (v.hearAll es).hearAll fs :=
  List.foldl_append

end BoardView

namespace BoardEvent

def isTurnChange : BoardEvent → Bool
  | turnEligibilityChanged _ => true
  | _ => false

/-- Whether an event is about the tile with a number. -/
def isAbout (n : UInt8) : BoardEvent → Bool
  | tileAdded tile | tileMoved tile _ => tile.num = n
  | _ => false

/-- Whether a tile is seen for the first time. -/
def isArrival : BoardEvent → Bool
  | tileAdded _ => true
  | _ => false

/-- An event that is about neither the turn nor a tile. -/
def IsAside (e : BoardEvent) : Prop :=
  e.isTurnChange = false ∧ ∀ n, e.isAbout n = false

end BoardEvent

namespace Board

/-- What is to be known of a board by those who take `canTakeTurn` for the answer whether a turn
can be taken. -/
def viewWith (b : Board) (canTakeTurn : Bool) : BoardView where
  tiles := b.tiles
  totalTiles := b.totalTiles
  selfNum := b.selfNum
  synced := b.synced
  shouting := b.shouting
  name n := (b.player n).name
  flags n := (b.player n).flags
  canTakeTurn

/-- What is to be known of a board. A player who has not been described has no name and no
flags. -/
def view (b : Board) : BoardView :=
  b.viewWith b.canTakeTurn

/-! ## Players -/

/-- Every player is listed under the number that it bears. -/
def Keyed (b : Board) : Prop :=
  ∀ n, (b.player n).num = n

section Players

variable {b : Board}

theorem keyed_empty : Keyed {} :=
  fun _ => rfl

/-- An entry for a player tells nothing new. -/
theorem player_withPlayer (b : Board) (num n : UInt8) :
    (b.withPlayer num).player n = b.player n := by
  unfold withPlayer player Numbered.contains
  cases hnum : b.players.get? num with
  | some p => rfl
  | none =>
      simp only [Option.isSome_none, Bool.false_eq_true, if_false, Numbered.get?_insert]
      by_cases hn : n = num
      · rw [hn, if_pos rfl, hnum]
        rfl
      · rw [if_neg hn]

theorem player_setPlayer (b : Board) (p : Player) (n : UInt8) :
    (b.setPlayer p).player n = if n = p.num then p else b.player n := by
  unfold setPlayer player
  rw [Numbered.get?_insert]
  split <;> rfl

theorem Keyed.withPlayer (h : b.Keyed) (num : UInt8) : (b.withPlayer num).Keyed := by
  intro n
  rw [player_withPlayer]
  exact h n

theorem Keyed.setPlayer (h : b.Keyed) (p : Player) : (b.setPlayer p).Keyed := by
  intro n
  rw [player_setPlayer]
  by_cases hn : n = p.num
  · rw [if_pos hn, hn]
  · rw [if_neg hn]
    exact h n

theorem viewWith_withPlayer (b : Board) (num : UInt8) (turn : Bool) :
    (b.withPlayer num).viewWith turn = b.viewWith turn := by
  unfold viewWith
  simp only [player_withPlayer]
  unfold withPlayer
  split <;> rfl

theorem viewWith_setPlayer (b : Board) (p : Player) (turn : Bool) :
    (b.setPlayer p).viewWith turn =
      { b.viewWith turn with
        name := Function.update (b.viewWith turn).name p.num p.name
        flags := Function.update (b.viewWith turn).flags p.num p.flags } := by
  have hname : (fun n => ((b.setPlayer p).player n).name) =
      Function.update (b.viewWith turn).name p.num p.name := by
    funext n
    rw [player_setPlayer, Function.update_apply]
    split <;> rfl
  have hflags : (fun n => ((b.setPlayer p).player n).flags) =
      Function.update (b.viewWith turn).flags p.num p.flags := by
    funext n
    rw [player_setPlayer, Function.update_apply]
    split <;> rfl
  rw [← hname, ← hflags]
  rfl

end Players

/-! ## What one call tells -/

/-- The events `es` tell of all that is different on `b'`, but for whether a turn can be taken. -/
def Tells (b b' : Board) (es : List BoardEvent) : Prop :=
  ∀ turn, (b.viewWith turn).hearAll es = b'.viewWith turn

section Tells

variable {b b' : Board} {es : List BoardEvent}

theorem Tells.refl (b : Board) : Tells b b [] :=
  fun _ => rfl

theorem withPlayer_tells (b : Board) (num : UInt8) : Tells b (b.withPlayer num) [] :=
  fun turn => (b.viewWith_withPlayer num turn).symm

theorem Tells.trans {b₁ b₂ b₃ : Board} {fs : List BoardEvent} (h : Tells b₁ b₂ es)
    (h' : Tells b₂ b₃ fs) : Tells b₁ b₃ (es ++ fs) := by
  intro turn
  rw [BoardView.hearAll_append, h turn, h' turn]

theorem applyName_tells (h : b.Keyed) (num : UInt8) (name : String) :
    Tells b (b.applyName num name).1 (b.applyName num name).2 := by
  have hentry := b.withPlayer_tells num
  have hkeyed := h.withPlayer num
  unfold applyName
  generalize b.withPlayer num = b₁ at hentry hkeyed
  by_cases hsame : (b₁.player num).name = name
  · rw [if_pos hsame]
    exact hentry
  · rw [if_neg hsame]
    have hset : Tells b₁ (b₁.setPlayer { b₁.player num with name })
        [.playerNameChanged num name] := by
      intro turn
      -- of a player described anew only the name is news
      have hflags : Function.update (b₁.viewWith turn).flags num (b₁.player num).flags =
          (b₁.viewWith turn).flags := Function.update_eq_self num _
      rw [viewWith_setPlayer]
      simp only [hkeyed num, hflags]
      rfl
    exact hentry.trans hset

theorem presenceEvents_tell (b : Board) (old new : Player) :
    Tells b b (b.presenceEvents old new) := by
  intro turn
  unfold presenceEvents
  split
  · split <;> rfl
  · rfl

theorem applyFlags_tells (h : b.Keyed) (num : UInt8) (flags : PlayerFlags) :
    Tells b (b.applyFlags num flags).1 (b.applyFlags num flags).2 := by
  have hentry := b.withPlayer_tells num
  have hkeyed := h.withPlayer num
  unfold applyFlags
  generalize b.withPlayer num = b₁ at hentry hkeyed
  by_cases hsame : (b₁.player num).flags = flags
  · rw [if_pos hsame]
    exact hentry
  · rw [if_neg hsame]
    have hset : Tells b₁ (b₁.setPlayer { b₁.player num with flags })
        [.playerFlagsChanged num flags] := by
      intro turn
      have hname : Function.update (b₁.viewWith turn).name num (b₁.player num).name =
          (b₁.viewWith turn).name := Function.update_eq_self num _
      rw [viewWith_setPlayer]
      simp only [hkeyed num, hname]
      rfl
    have hpresence := presenceEvents_tell (b₁.setPlayer { b₁.player num with flags })
      (b₁.player num) { b₁.player num with flags }
    exact hentry.trans (hset.trans hpresence)

theorem applyTile_tells (b : Board) (t : Tile) :
    Tells b (b.applyTile t).1 (b.applyTile t).2 := by
  intro turn
  unfold applyTile
  -- whether the tile is new or known, its place is noted
  by_cases hknown : b.tiles.contains t.num = true
  · rw [if_pos hknown]
    rfl
  · rw [if_neg hknown]
    rfl

/-- A message changes nothing that its events do not tell. -/
theorem applyMessage_tells (h : b.Keyed) (m : ServerMessage) :
    Tells b (b.applyMessage m).1 (b.applyMessage m).2 := by
  cases m with
  | playerId person num =>
      have hself : Tells b { b with selfNum := some num } [.selfAssigned num] := fun _ => rfl
      exact hself.trans (withPlayer_tells _ num)
  | message num text =>
      have hchat : Tells b b [.chatMessage num text] := fun _ => rfl
      exact hchat.trans (b.withPlayer_tells num)
  | tileCapacity n => exact fun _ => rfl
  | tile num x y letter lastMover => exact b.applyTile_tells _
  | playerName num name => exact applyName_tells h num name
  | playerFlags num flags => exact applyFlags_tells h num flags
  | playerShouted num =>
      have hshout : Tells b { b with shouting := some num } [.playerShouted num] := fun _ => rfl
      exact hshout.trans (withPlayer_tells _ num)
  | sync => exact fun _ => rfl
  | _ => exact .refl b

theorem clearShout_tells (b : Board) :
    Tells b { b with shouting := none } (b.shouting.toList.map .shoutCleared) := by
  intro turn
  cases hshouting : b.shouting with
  | none =>
      show b.viewWith turn = _
      unfold viewWith
      rw [hshouting]
      rfl
  | some num => rfl

/-- With the eligibility for a turn the events tell everything. -/
theorem Tells.withTurnChange (h : Tells b b' es) :
    b.view.hearAll (b.withTurnChange (b', es)).2 = (b.withTurnChange (b', es)).1.view := by
  unfold Board.withTurnChange
  by_cases hsame : b'.canTakeTurn = b.canTakeTurn
  · rw [if_pos hsame, view, view, hsame]
    exact h _
  · rw [if_neg hsame, BoardView.hearAll_append, view, h]
    rfl

end Tells

/-! ## Calls -/

/-- What can be done with a board. -/
inductive Call
  | apply (m : ServerMessage)
  | clearShout
  deriving DecidableEq

def take (b : Board) : Call → Board × List BoardEvent
  | .apply m => b.apply m
  | .clearShout => b.clearShout

/-- What a call does and reports before it looks whether a turn can be taken. -/
def act (b : Board) : Call → Board × List BoardEvent
  | .apply m => b.applyMessage m
  | .clearShout => ({ b with shouting := none }, b.shouting.toList.map .shoutCleared)

theorem take_eq (b : Board) (call : Call) : b.take call = b.withTurnChange (b.act call) := by
  cases call <;> rfl

/-- The board after some calls. -/
def takeAll (b : Board) (calls : List Call) : Board :=
  calls.foldl (fun b call => (b.take call).1) b

/-- What each of some calls reports. -/
def told (b : Board) : List Call → List (List BoardEvent)
  | [] => []
  | call :: calls => (b.take call).2 :: (b.take call).1.told calls

section Calls

variable {b : Board}

theorem takeAll_append (b : Board) (calls later : List Call) :
    b.takeAll (calls ++ later) = (b.takeAll calls).takeAll later :=
  List.foldl_append

theorem told_append (b : Board) (calls later : List Call) :
    b.told (calls ++ later) = b.told calls ++ (b.takeAll calls).told later := by
  induction calls generalizing b with
  | nil => rfl
  | cons call calls ih => exact congrArg ((b.take call).2 :: ·) (ih (b.take call).1)

theorem take_fst (b : Board) (call : Call) : (b.take call).1 = (b.act call).1 := by
  rw [take_eq, withTurnChange]
  split <;> rfl

theorem act_tells (h : b.Keyed) (call : Call) : Tells b (b.act call).1 (b.act call).2 := by
  cases call with
  | apply m => exact applyMessage_tells h m
  | clearShout => exact b.clearShout_tells

theorem act_keyed (h : b.Keyed) (call : Call) : (b.act call).1.Keyed := by
  cases call with
  | clearShout => exact h
  | apply m =>
      cases m with
      | playerId person num => exact Keyed.withPlayer (b := { b with selfNum := some num }) h num
      | message num text => exact h.withPlayer num
      | playerName num name =>
          show (b.applyName num name).1.Keyed
          unfold applyName
          dsimp only
          split
          · exact h.withPlayer num
          · exact (h.withPlayer num).setPlayer _
      | playerFlags num flags =>
          show (b.applyFlags num flags).1.Keyed
          unfold applyFlags
          dsimp only
          split
          · exact h.withPlayer num
          · exact (h.withPlayer num).setPlayer _
      | playerShouted num => exact Keyed.withPlayer (b := { b with shouting := some num }) h num
      | _ => exact h

theorem Keyed.take (h : b.Keyed) (call : Call) : (b.take call).1.Keyed := by
  rw [take_fst]
  exact act_keyed h call

/-- Those who knew the board before a call know it afterwards. -/
theorem take_view (h : b.Keyed) (call : Call) :
    b.view.hearAll (b.take call).2 = (b.take call).1.view := by
  rw [take_eq]
  exact (act_tells h call).withTurnChange

theorem told_view (h : b.Keyed) (calls : List Call) :
    b.view.hearAll (b.told calls).flatten = (b.takeAll calls).view := by
  induction calls generalizing b with
  | nil => rfl
  | cons call calls ih =>
      rw [told, List.flatten_cons, BoardView.hearAll_append, take_view h call]
      exact ih (h.take call)

end Calls

/-! ## The order of events -/

/-- Whether a turn can be taken is told at most once, and last. -/
def TurnLast (es : List BoardEvent) : Prop :=
  ∃ own, (∀ e ∈ own, e.isTurnChange = false) ∧
    (es = own ∨ ∃ canTakeTurn, es = own ++ [.turnEligibilityChanged canTakeTurn])

/-- What is told of a tile begins with its arrival, and it does not arrive again. -/
def Arrives (n : UInt8) (es : List BoardEvent) : Prop :=
  match es.filter (·.isAbout n) with
  | [] => True
  | e :: later => e.isArrival = true ∧ ∀ e' ∈ later, e'.isArrival = false

section Order

variable {b : Board}

/-- What a call can do: it places a tile, or it has nothing to do with tiles. -/
inductive Acting (b : Board) : Board × List BoardEvent → Prop
  | placed (tile : Tile) : Acting b (b.applyTile tile)
  | aside {b' es} (htiles : b'.tiles = b.tiles) (hes : ∀ e ∈ es, e.IsAside) : Acting b (b', es)

theorem withPlayer_tiles (b : Board) (num : UInt8) : (b.withPlayer num).tiles = b.tiles := by
  unfold withPlayer
  split <;> rfl

theorem presenceEvents_aside (b : Board) (old new : Player) :
    ∀ e ∈ b.presenceEvents old new, e.IsAside := by
  intro e he
  unfold presenceEvents at he
  split at he
  · rw [List.mem_singleton.mp he]
    split <;> exact ⟨rfl, fun _ => rfl⟩
  · cases he

theorem applyName_cases (b : Board) (num : UInt8) (name : String) :
    Acting b (b.applyName num name) := by
  have htiles := b.withPlayer_tiles num
  unfold applyName
  dsimp only
  split
  · exact .aside htiles (by simp)
  · refine .aside htiles ?_
    intro e he
    rw [List.mem_singleton.mp he]
    exact ⟨rfl, fun _ => rfl⟩

theorem applyFlags_cases (b : Board) (num : UInt8) (flags : PlayerFlags) :
    Acting b (b.applyFlags num flags) := by
  have htiles := b.withPlayer_tiles num
  unfold applyFlags
  dsimp only
  split
  · exact .aside htiles (by simp)
  · refine .aside htiles ?_
    intro e he
    rcases List.mem_cons.mp he with rfl | he
    · exact ⟨rfl, fun _ => rfl⟩
    · exact presenceEvents_aside _ _ _ e he

theorem act_cases (b : Board) (call : Call) : Acting b (b.act call) := by
  have hone {b' : Board} {e : BoardEvent} (htiles : b'.tiles = b.tiles) (he : e.IsAside) :
      Acting b (b', [e]) := .aside htiles fun e' he' => List.mem_singleton.mp he' ▸ he
  have hquiet : Acting b (b, []) := .aside rfl (by simp)
  cases call with
  | clearShout =>
      refine .aside rfl ?_
      intro e he
      obtain ⟨num, _, rfl⟩ := List.mem_map.mp he
      exact ⟨rfl, fun _ => rfl⟩
  | apply m =>
      cases m with
      | playerId person num => exact hone (withPlayer_tiles _ num) ⟨rfl, fun _ => rfl⟩
      | message num text => exact hone (withPlayer_tiles _ num) ⟨rfl, fun _ => rfl⟩
      | tileCapacity n => exact hone rfl ⟨rfl, fun _ => rfl⟩
      | tile num x y letter lastMover => exact .placed _
      | playerName num name => exact b.applyName_cases num name
      | playerFlags num flags => exact b.applyFlags_cases num flags
      | playerShouted num => exact hone (withPlayer_tiles _ num) ⟨rfl, fun _ => rfl⟩
      | sync => exact hone rfl ⟨rfl, fun _ => rfl⟩
      | _ => exact hquiet

/-- A call does not tell of the turn before it is done. -/
theorem act_quiet (b : Board) (call : Call) : ∀ e ∈ (b.act call).2, e.isTurnChange = false := by
  have hcases := b.act_cases call
  generalize b.act call = r at hcases
  intro e he
  cases hcases with
  | placed tile =>
      unfold applyTile at he
      split at he <;> (rw [List.mem_singleton.mp he]; rfl)
  | aside _ hes => exact (hes e he).1

theorem take_turnLast (b : Board) (call : Call) : TurnLast (b.take call).2 := by
  rw [take_eq]
  refine ⟨(b.act call).2, b.act_quiet call, ?_⟩
  unfold withTurnChange
  split
  · exact .inl rfl
  · exact .inr ⟨_, rfl⟩

theorem told_turnLast (b : Board) (calls : List Call) : ∀ es ∈ b.told calls, TurnLast es := by
  induction calls generalizing b with
  | nil =>
      intro es hes
      cases hes
  | cons call calls ih =>
      intro es hes
      rcases List.mem_cons.mp hes with rfl | hes
      · exact b.take_turnLast call
      · exact ih _ es hes

/-- What a call tells of the tile with a number. -/
inductive Placing (b : Board) (n : UInt8) : Board × List BoardEvent → Prop
  | silent {b' es} (h : es.filter (·.isAbout n) = [])
      (hsame : b'.tiles.contains n = b.tiles.contains n) : Placing b n (b', es)
  | added {b' es} (tile : Tile) (h : es.filter (·.isAbout n) = [.tileAdded tile])
      (hnew : b.tiles.contains n = false) (hknown : b'.tiles.contains n = true) :
      Placing b n (b', es)
  | moved {b' es} (tile : Tile) (animate : Bool)
      (h : es.filter (·.isAbout n) = [.tileMoved tile animate])
      (hbefore : b.tiles.contains n = true) (hknown : b'.tiles.contains n = true) :
      Placing b n (b', es)

theorem withTurnChange_isAbout (b : Board) (r : Board × List BoardEvent) (n : UInt8) :
    (b.withTurnChange r).2.filter (·.isAbout n) = r.2.filter (·.isAbout n) := by
  unfold withTurnChange
  split
  · rfl
  · rw [List.filter_append]
    exact List.append_nil _

theorem contains_insert (tiles : Numbered Tile) (tile : Tile) (n : UInt8) :
    (tiles.insert tile.num tile).contains n = (n == tile.num || tiles.contains n) := by
  unfold Numbered.contains
  rw [Numbered.get?_insert]
  by_cases hn : n = tile.num
  · simp [hn]
  · simp [hn]

theorem take_placing (b : Board) (call : Call) (n : UInt8) : Placing b n (b.take call) := by
  have hfst := b.take_fst call
  have hsnd : (b.take call).2.filter (·.isAbout n) = (b.act call).2.filter (·.isAbout n) := by
    rw [take_eq, withTurnChange_isAbout]
  have hcases := b.act_cases call
  generalize b.act call = r at hcases hfst hsnd
  generalize b.take call = r' at hfst hsnd ⊢
  obtain ⟨b', es⟩ := r'
  cases hcases with
  | aside htiles hes =>
      refine .silent ?_ ?_
      · rw [hsnd, List.filter_eq_nil_iff]
        intro e he habout
        exact absurd (habout.symm.trans ((hes e he).2 n)) (by decide)
      · obtain rfl : b' = _ := hfst
        rw [htiles]
  | placed tile =>
      have hcontains : b'.tiles.contains n = (n == tile.num || b.tiles.contains n) := by
        rw [show b' = (b.applyTile tile).1 from hfst]
        exact contains_insert b.tiles tile n
      unfold applyTile at hsnd
      by_cases hn : n = tile.num
      · subst hn
        have hknown : b'.tiles.contains tile.num = true := by simp [hcontains]
        cases hbefore : b.tiles.contains tile.num with
        | true =>
            refine .moved tile (b.selfNum ≠ some tile.lastMover) ?_ hbefore hknown
            rw [hsnd, hbefore]
            simp [BoardEvent.isAbout]
        | false =>
            refine .added tile ?_ hbefore hknown
            rw [hsnd, hbefore]
            simp [BoardEvent.isAbout]
      · have hne : ¬ tile.num = n := fun heq => hn heq.symm
        refine .silent ?_ ?_
        · rw [hsnd]
          split <;> simp [BoardEvent.isAbout, hne]
        · simp [hcontains, hn]

/-- A tile that is known does not arrive, and one that is not arrives before it moves. -/
theorem told_arrives (b : Board) (calls : List Call) (n : UInt8) :
    (b.tiles.contains n = true →
      ∀ e ∈ (b.told calls).flatten.filter (·.isAbout n), e.isArrival = false) ∧
    (b.tiles.contains n = false → Arrives n (b.told calls).flatten) := by
  induction calls generalizing b with
  | nil => simp [told, Arrives]
  | cons call calls ih =>
      -- all that the first call leaves to the others is whether the tile is known
      have hplacing := b.take_placing call n
      unfold Arrives
      rw [told, List.flatten_cons, List.filter_append]
      obtain ⟨hknown, hnew⟩ := ih (b.take call).1
      unfold Arrives at hnew
      generalize b.take call = r at hplacing hknown hnew ⊢
      cases hplacing with
      | silent h hsame =>
          rw [h, List.nil_append]
          rw [hsame] at hknown hnew
          exact ⟨hknown, hnew⟩
      | added tile h hbefore hafter =>
          rw [h]
          refine ⟨fun hcontains => ?_, fun _ => ⟨rfl, hknown hafter⟩⟩
          exact absurd (hcontains.symm.trans hbefore) (by decide)
      | moved tile animate h hbefore hafter =>
          rw [h]
          refine ⟨fun _ e he => ?_, fun hcontains => ?_⟩
          · rcases List.mem_cons.mp he with rfl | he
            · rfl
            · exact hknown hafter e he
          · exact absurd (hbefore.symm.trans hcontains) (by decide)

end Order

/-- After any calls, those who note the events of all of them know the board as it is. Each call
tells at most once whether a turn can be taken, and last, and each tile arrives at most once and
does not move before. -/
theorem events_tell_board (calls : List Call) :
    BoardView.hearAll {} (told {} calls).flatten = (takeAll {} calls).view ∧
      (∀ es ∈ told {} calls, TurnLast es) ∧ ∀ n, Arrives n (told {} calls).flatten := by
  refine ⟨?_, told_turnLast {} calls, ?_⟩
  · -- at first there is nothing to be known
    have hfirst : view {} = {} := rfl
    rw [← hfirst]
    exact told_view keyed_empty calls
  · intro n
    exact (told_arrives {} calls n).2 rfl

end Board

end TileRoom

import TileRoom.Proofs.Board.Replay

/-!
# The board from its history

A board consists of cells, and a call says what is in some of them: `Call.word` is what, and
`lastSaid` is the last that a history says of a cell. `Reflects` is a board that knows what was
last said of every cell and nothing else. `act_rest`, `act_tiles_get?` and `act_players_get?` are
the equations for one call, and `last_writer_wins` joins them over a history.

Histories can therefore be compared by their last words alone (`Agree`): neither the order of calls
that speak of different cells matters, nor whether the whole is heard a second time.
-/

namespace TileRoom.Board

/-- What is written over as a whole. -/
inductive Cell
  | tile (num : UInt8)
  | name (player : UInt8)
  | flags (player : UInt8)
  | totalTiles
  | selfNum
  | shouting
  deriving DecidableEq

abbrev Cell.Value : Cell → Type
  | tile _ => Tile
  | name _ => String
  | flags _ => PlayerFlags
  | totalTiles => UInt8
  | selfNum => UInt8
  | shouting => Option UInt8

namespace Call

def tile? : Call → Option Tile
  | .apply (.tile num x y letter lastMover) => some { num, letter, x, y, lastMover }
  | _ => none

/-- What a call says of a cell. The end of a shout says that nobody shouts. -/
def word : Call → (cell : Cell) → Option cell.Value
  | call, .tile n => call.tile?.filter (·.num = n)
  | .apply (.playerName num name), .name n => if num = n then some name else none
  | .apply (.playerFlags num flags), .flags n => if num = n then some flags else none
  | .apply (.tileCapacity total), .totalTiles => some total
  | .apply (.playerId _ num), .selfNum => some num
  | .apply (.playerShouted num), .shouting => some (some num)
  | .clearShout, .shouting => some none
  | _, _ => none

theorem word_tile (call : Call) (n : UInt8) :
    call.word (.tile n) = call.tile?.filter (·.num = n) := by
  cases call with
  | clearShout => rfl
  | apply m => cases m <;> rfl

/-- The player that a call is about. The last mover of a tile is not. -/
def player? : Call → Option UInt8
  | .apply (.playerId _ num) | .apply (.message num _) | .apply (.playerName num _)
  | .apply (.playerFlags num _) | .apply (.playerShouted num) => some num
  | _ => none

def isSync : Call → Bool
  | .apply .sync => true
  | _ => false

/-- A player once a call has been heard. -/
def describe (call : Call) (p : Player) : Player where
  num := p.num
  name := (call.word (.name p.num)).getD p.name
  flags := (call.word (.flags p.num)).getD p.flags

/-- Two calls that do not speak of the same cell. -/
def Apart (c c' : Call) : Prop :=
  ∀ cell, c.word cell = none ∨ c'.word cell = none

end Call

/-! ## One call -/

section OneCall

variable {b : Board} {num n : UInt8}

/-- A board without its players. -/
def rest (b : Board) : Board :=
  { b with players := ∅ }

theorem withPlayer_rest (b : Board) (num : UInt8) : (b.withPlayer num).rest = b.rest := by
  unfold withPlayer
  split <;> rfl

theorem withPlayer_get? (b : Board) (num n : UInt8) :
    (b.withPlayer num).players.get? n =
      if num = n then some (b.player n) else b.players.get? n := by
  unfold withPlayer player Numbered.contains
  by_cases hn : num = n
  · subst hn
    cases hknown : b.players.get? num with
    | some p => simp [hknown]
    | none => simp
  · rw [if_neg hn]
    split
    · rfl
    · simp [Ne.symm hn]

theorem setPlayer_get? (b : Board) (p : Player) (n : UInt8) :
    (b.setPlayer p).players.get? n = if p.num = n then some p else b.players.get? n := by
  simp [setPlayer, eq_comm]

section Described

variable {p : Player} {same : Prop} [Decidable same]

/-- A player who is described anew, unless the description is the same. -/
theorem described_get? (hsame : same → p = b.player num) (hnum : p.num = num) :
    (if same then b.withPlayer num else (b.withPlayer num).setPlayer p).players.get? n =
      if num = n then some p else b.players.get? n := by
  by_cases h : same
  · rw [if_pos h, withPlayer_get?]
    by_cases hn : num = n
    · rw [if_pos hn, if_pos hn, hsame h, hn]
    · rw [if_neg hn, if_neg hn]
  · rw [if_neg h, setPlayer_get?, withPlayer_get?, hnum]
    by_cases hn : num = n
    · rw [if_pos hn, if_pos hn]
    · simp only [if_neg hn]

theorem described_rest :
    (if same then b.withPlayer num else (b.withPlayer num).setPlayer p).rest = b.rest := by
  split
  · exact b.withPlayer_rest num
  · exact b.withPlayer_rest num

end Described

theorem applyName_fst (b : Board) (num : UInt8) (name : String) :
    (b.applyName num name).1 = if (b.player num).name = name then b.withPlayer num
      else (b.withPlayer num).setPlayer ⟨(b.player num).num, name, (b.player num).flags⟩ := by
  unfold applyName
  rw [apply_ite Prod.fst, player_withPlayer]

theorem applyFlags_fst (b : Board) (num : UInt8) (flags : PlayerFlags) :
    (b.applyFlags num flags).1 = if (b.player num).flags = flags then b.withPlayer num
      else (b.withPlayer num).setPlayer ⟨(b.player num).num, (b.player num).name, flags⟩ := by
  unfold applyFlags
  rw [apply_ite Prod.fst, player_withPlayer]

/-- A call writes over what it speaks of and leaves alone all else but the players. -/
theorem act_rest (b : Board) (call : Call) :
    (b.act call).1.rest =
      { b.rest with
        tiles := call.tile?.elim b.tiles fun t => b.tiles.insert t.num t
        totalTiles := (call.word .totalTiles).getD b.totalTiles
        selfNum := (call.word .selfNum).or b.selfNum
        synced := call.isSync || b.synced
        shouting := (call.word .shouting).getD b.shouting } := by
  cases call with
  | clearShout => rfl
  | apply m =>
      cases m with
      | playerId person num => exact withPlayer_rest _ num
      | message num text => exact withPlayer_rest _ num
      | playerName num name =>
          show (b.applyName num name).1.rest = _
          rw [applyName_fst]
          exact described_rest
      | playerFlags num flags =>
          show (b.applyFlags num flags).1.rest = _
          rw [applyFlags_fst]
          exact described_rest
      | playerShouted num => exact withPlayer_rest _ num
      | _ => rfl

theorem act_tiles_get? (b : Board) (call : Call) (n : UInt8) :
    (b.act call).1.tiles.get? n = (call.word (.tile n)).or (b.tiles.get? n) := by
  have htiles : (b.act call).1.tiles = call.tile?.elim b.tiles fun t => b.tiles.insert t.num t :=
    congrArg Board.tiles (b.act_rest call)
  rw [htiles, Call.word_tile]
  cases call.tile? with
  | none => rfl
  | some t =>
      show (b.tiles.insert t.num t).get? n = ((some t).filter (·.num = n)).or (b.tiles.get? n)
      rw [Numbered.get?_insert, Option.filter_some]
      by_cases hn : t.num = n
      · rw [if_pos hn.symm, if_pos (decide_eq_true hn)]
        rfl
      · rw [if_neg (Ne.symm hn), if_neg (by simpa using hn)]
        rfl

/-- A call makes sure of the player that it is about, describes it, and leaves alone all others. -/
theorem act_players_get? (h : b.Keyed) (call : Call) (n : UInt8) :
    (b.act call).1.players.get? n =
      if call.player? = some n then some (call.describe (b.player n)) else b.players.get? n := by
  have hknown (b₀ : Board) (hplayers : b₀.players = b.players) (num : UInt8) :
      (b₀.withPlayer num).players.get? n =
        if some num = some n then some (b.player n) else b.players.get? n := by
    rw [withPlayer_get?, player, player, hplayers]
    simp only [Option.some.injEq]
  cases call with
  | clearShout => rfl
  | apply m =>
      cases m with
      | playerId person num => exact hknown { b with selfNum := some num } rfl num
      | message num text => exact hknown b rfl num
      | playerName num name =>
          have hsame : (b.player num).name = name →
              ⟨(b.player num).num, name, (b.player num).flags⟩ = b.player num := by
            rintro rfl
            rfl
          show (b.applyName num name).1.players.get? n = _
          rw [applyName_fst, described_get? hsame (h num)]
          by_cases hn : num = n
          · have hword : (Call.apply (.playerName num name)).word (.name (b.player num).num) =
                some name := if_pos (h num).symm
            rw [← hn, if_pos rfl, Call.describe, hword]
            exact (if_pos rfl).symm
          · simp [Call.player?, hn]
      | playerFlags num flags =>
          have hsame : (b.player num).flags = flags →
              ⟨(b.player num).num, (b.player num).name, flags⟩ = b.player num := by
            rintro rfl
            rfl
          show (b.applyFlags num flags).1.players.get? n = _
          rw [applyFlags_fst, described_get? hsame (h num)]
          by_cases hn : num = n
          · have hword : (Call.apply (.playerFlags num flags)).word (.flags (b.player num).num) =
                some flags := if_pos (h num).symm
            rw [← hn, if_pos rfl, Call.describe, hword]
            exact (if_pos rfl).symm
          · simp [Call.player?, hn]
      | playerShouted num => exact hknown { b with shouting := some num } rfl num
      | _ => rfl

end OneCall

/-! ## Last words -/

/-- The last that some calls say of a cell. -/
def lastSaid (cell : Cell) (calls : List Call) : Option cell.Value :=
  calls.reverse.findSome? (·.word cell)

/-- Whether some calls are about a player. -/
def named (n : UInt8) (calls : List Call) : Bool :=
  calls.any (·.player? = some n)

/-- A player as last described. The name and the flags are empty until they are told. -/
def lastDescribed (n : UInt8) (calls : List Call) : Player where
  num := n
  name := (lastSaid (.name n) calls).getD ""
  flags := (lastSaid (.flags n) calls).getD .none

/-- A board that knows what was last said of every cell, and nothing else. -/
structure Reflects (calls : List Call) (b : Board) : Prop where
  tiles (n : UInt8) : b.tiles.get? n = lastSaid (.tile n) calls
  players (n : UInt8) :
    b.players.get? n = if named n calls then some (lastDescribed n calls) else none
  totalTiles : b.totalTiles = (lastSaid .totalTiles calls).getD 0
  selfNum : b.selfNum = lastSaid .selfNum calls
  synced : b.synced = calls.any Call.isSync
  shouting : b.shouting = (lastSaid .shouting calls).join

section Histories

variable {b b' : Board} {calls calls' : List Call} {n : UInt8}

theorem lastSaid_append (cell : Cell) (calls later : List Call) :
    lastSaid cell (calls ++ later) = (lastSaid cell later).or (lastSaid cell calls) := by
  simp [lastSaid, List.findSome?_append]

theorem lastSaid_singleton (cell : Cell) (call : Call) : lastSaid cell [call] = call.word cell := by
  simp [lastSaid, List.findSome?_singleton]

theorem lastSaid_eq_none {cell : Cell} (h : ∀ call ∈ calls, call.word cell = none) :
    lastSaid cell calls = none := by
  simpa [lastSaid] using h

/-- A call that is not about a player does not describe it. -/
theorem word_of_player?_ne {call : Call} (h : call.player? ≠ some n) :
    call.word (.name n) = none ∧ call.word (.flags n) = none := by
  cases call with
  | clearShout => exact ⟨rfl, rfl⟩
  | apply m =>
      cases m with
      | playerName num name => exact ⟨if_neg fun hn => h (congrArg some hn), rfl⟩
      | playerFlags num flags => exact ⟨rfl, if_neg fun hn => h (congrArg some hn)⟩
      | _ => exact ⟨rfl, rfl⟩

/-- Nothing is known of a player that no call was about. -/
theorem lastDescribed_of_not_named (h : named n calls = false) :
    lastDescribed n calls = { num := n } := by
  have hother : ∀ call ∈ calls, call.player? ≠ some n := by
    simpa [named] using h
  unfold lastDescribed
  rw [lastSaid_eq_none fun call hcall => (word_of_player?_ne (hother call hcall)).1,
    lastSaid_eq_none fun call hcall => (word_of_player?_ne (hother call hcall)).2]
  rfl

theorem lastDescribed_append (n : UInt8) (calls : List Call) (call : Call) :
    lastDescribed n (calls ++ [call]) = call.describe (lastDescribed n calls) := by
  unfold lastDescribed Call.describe
  rw [lastSaid_append, lastSaid_append, lastSaid_singleton, lastSaid_singleton]
  cases call.word (.name n) <;> cases call.word (.flags n) <;> rfl

theorem named_append (n : UInt8) (calls later : List Call) :
    named n (calls ++ later) = (named n calls || named n later) := by
  simp [named]

theorem Reflects.player (h : Reflects calls b) (n : UInt8) :
    b.player n = lastDescribed n calls := by
  unfold Board.player
  rw [h.players]
  cases hnamed : named n calls with
  | true => rfl
  | false => exact (lastDescribed_of_not_named hnamed).symm

theorem Reflects.keyed (h : Reflects calls b) : b.Keyed := by
  intro n
  rw [h.player]
  rfl

theorem reflects_nil : Reflects [] {} where
  tiles _ := rfl
  players _ := rfl
  totalTiles := rfl
  selfNum := rfl
  synced := rfl
  shouting := rfl

theorem Reflects.act (h : Reflects calls b) (call : Call) :
    Reflects (calls ++ [call]) (b.act call).1 := by
  have hrest := b.act_rest call
  constructor
  case tiles =>
    intro n
    rw [act_tiles_get?, h.tiles, lastSaid_append, lastSaid_singleton]
  case players =>
    intro n
    rw [act_players_get? h.keyed, h.player, h.players, ← lastDescribed_append, named_append]
    by_cases hn : call.player? = some n
    · simp [hn, named]
    · -- a call about another player leaves this one as described
      have hsame : lastDescribed n (calls ++ [call]) = lastDescribed n calls := by
        obtain ⟨hname, hflags⟩ := word_of_player?_ne hn
        rw [lastDescribed_append, Call.describe, lastDescribed, hname, hflags]
        rfl
      simp [hn, hsame, named]
  case totalTiles =>
    have htotal : (b.act call).1.totalTiles = (call.word .totalTiles).getD b.totalTiles :=
      congrArg Board.totalTiles hrest
    rw [htotal, h.totalTiles, lastSaid_append, lastSaid_singleton]
    cases call.word .totalTiles <;> rfl
  case selfNum =>
    rw [lastSaid_append, lastSaid_singleton, ← h.selfNum]
    exact congrArg Board.selfNum hrest
  case synced =>
    have hsynced : (b.act call).1.synced = (call.isSync || b.synced) :=
      congrArg Board.synced hrest
    rw [hsynced, h.synced]
    simp [Bool.or_comm]
  case shouting =>
    have hshouting : (b.act call).1.shouting = (call.word .shouting).getD b.shouting :=
      congrArg Board.shouting hrest
    rw [hshouting, h.shouting, lastSaid_append, lastSaid_singleton]
    cases call.word .shouting <;> rfl

theorem Reflects.takeAll (h : Reflects calls b) (later : List Call) :
    Reflects (calls ++ later) (b.takeAll later) := by
  induction later generalizing calls b with
  | nil => simpa [Board.takeAll] using h
  | cons call later ih =>
      have hone := h.act call
      rw [← take_fst] at hone
      simpa [Board.takeAll] using ih hone

theorem takeAll_reflects (calls : List Call) : Reflects calls (takeAll {} calls) :=
  reflects_nil.takeAll calls

/-! ## Histories with the same last words -/

/-- Two histories that end with the same words. -/
structure Agree (calls calls' : List Call) : Prop where
  cells (cell : Cell) : lastSaid cell calls = lastSaid cell calls'
  players (n : UInt8) : named n calls = named n calls'
  synced : calls.any Call.isSync = calls'.any Call.isSync

/-- The last words tell the whole board. -/
theorem Reflects.unique (h : Reflects calls b) (h' : Reflects calls' b')
    (heq : Agree calls calls') :
    b = b' := by
  have htiles : b.tiles = b'.tiles := Numbered.ext fun n => by
    rw [h.tiles, h'.tiles, heq.cells]
  have hplayers : b.players = b'.players := Numbered.ext fun n => by
    rw [h.players, h'.players, heq.players, lastDescribed, lastDescribed, heq.cells, heq.cells]
  have htotal : b.totalTiles = b'.totalTiles := by
    rw [h.totalTiles, h'.totalTiles, heq.cells]
  have hself : b.selfNum = b'.selfNum := by
    rw [h.selfNum, h'.selfNum, heq.cells]
  have hsynced : b.synced = b'.synced := by
    rw [h.synced, h'.synced, heq.synced]
  have hshouting : b.shouting = b'.shouting := by
    rw [h.shouting, h'.shouting, heq.cells]
  cases b
  cases b'
  simp_all

theorem takeAll_eq (h : Agree calls calls') : takeAll {} calls = takeAll {} calls' :=
  (takeAll_reflects calls).unique (takeAll_reflects calls') h

/-- Hearing all of it again adds nothing. -/
theorem agree_again (calls : List Call) : Agree (calls ++ calls) calls where
  cells cell := by rw [lastSaid_append, Option.or_self]
  players n := by rw [named_append, Bool.or_self]
  synced := by rw [List.any_append, Bool.or_self]

/-- Of two calls that do not speak of the same cell it does not matter which comes first. -/
theorem agree_swap (before after : List Call) {c c' : Call} (h : c.Apart c') :
    Agree (before ++ [c, c'] ++ after) (before ++ [c', c] ++ after) := by
  have hperm : (before ++ [c, c'] ++ after).Perm (before ++ [c', c] ++ after) :=
    ((List.Perm.swap c' c []).append_left before).append_right after
  constructor
  case cells =>
    intro cell
    have hpair (c c' : Call) : lastSaid cell [c, c'] = (c'.word cell).or (c.word cell) := by
      rw [← List.singleton_append, lastSaid_append, lastSaid_singleton, lastSaid_singleton]
    simp only [lastSaid_append, hpair]
    rcases h cell with hnone | hnone
    · rw [hnone, Option.or_none, Option.none_or]
    · rw [hnone, Option.or_none, Option.none_or]
  case players =>
    intro n
    exact hperm.any_eq
  case synced => exact hperm.any_eq

/-! ## Nothing is forgotten -/

theorem Reflects.tiles_contains (h : Reflects calls b) (n : UInt8) :
    b.tiles.contains n = (lastSaid (.tile n) calls).isSome := by
  rw [Numbered.contains, h.tiles]

theorem Reflects.players_contains (h : Reflects calls b) (n : UInt8) :
    b.players.contains n = named n calls := by
  rw [Numbered.contains, h.players]
  cases named n calls <;> rfl

end Histories

/-- A board is what was last said of every cell, by whatever messages and ends of shouts, and
nothing else. So no tile or player is ever forgotten, the order of two calls that do not speak of
the same cell does not matter, and hearing the whole history a second time changes nothing. -/
theorem last_writer_wins (calls : List Call) :
    Reflects calls (takeAll {} calls) ∧
      (∀ later n, (takeAll {} calls).tiles.contains n = true →
        (takeAll {} (calls ++ later)).tiles.contains n = true) ∧
      (∀ later n, (takeAll {} calls).players.contains n = true →
        (takeAll {} (calls ++ later)).players.contains n = true) ∧
      (∀ before c c' after, calls = before ++ [c, c'] ++ after → c.Apart c' →
        takeAll {} (before ++ [c', c] ++ after) = takeAll {} calls) ∧
      takeAll {} (calls ++ calls) = takeAll {} calls := by
  have h := takeAll_reflects calls
  refine ⟨h, ?_, ?_, ?_, takeAll_eq (agree_again calls)⟩
  · intro later n hknown
    rw [(takeAll_reflects _).tiles_contains, lastSaid_append, Option.isSome_or]
    rw [h.tiles_contains] at hknown
    rw [hknown, Bool.or_true]
  · intro later n hknown
    rw [(takeAll_reflects _).players_contains, named_append]
    rw [h.players_contains] at hknown
    rw [hknown, Bool.true_or]
  · rintro before c c' after rfl hapart
    exact (takeAll_eq (agree_swap before after hapart)).symm

/-- Two players can be named in either order. -/
theorem last_writer_wins_names_swapped :
    let a : Call := .apply (.playerName 1 "a")
    let b : Call := .apply (.playerName 2 "b")
    a.Apart b ∧ takeAll {} [b, a] = takeAll {} [a, b] := by
  intro a b
  have hapart : a.Apart b := by
    intro cell
    cases cell with
    | name n =>
        by_cases hn : 1 = n
        · exact .inr (if_neg (by rw [← hn]; decide))
        · exact .inl (if_neg hn)
    | _ => exact .inl rfl
  obtain ⟨_, _, _, hswap, _⟩ := last_writer_wins [a, b]
  exact ⟨hapart, hswap [] a b [] rfl hapart⟩

end TileRoom.Board

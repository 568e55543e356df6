import Mathlib.Data.List.Chain
import TileRoom.Proofs.Board.Latest

/-!
# Who is known, and who is there

A board refers to players by their numbers. It lists every player that a call was about, so its own
player and the one who shouts are always listed. A tile, though, brings the number of its last
mover with it and makes no entry for it, so that one may be unknown (`references_known_but_movers`).

Players come and go by their flags. Once the board is synced each change of the flag in question is
noticed (`take_notices`), so the notices about a player and its presence go hand in hand. This is
`notices_alternate`: comings and goings alternate, and the last of them tells whether the player is
there.
-/

namespace TileRoom

namespace Board

/-! ## References -/

section References

variable {b : Board} {calls : List Call} {n : UInt8}

/-- What was said last was said by some call. -/
theorem exists_of_lastSaid {cell : Cell} {w : cell.Value} (h : lastSaid cell calls = some w) :
    ∃ call ∈ calls, call.word cell = some w := by
  obtain ⟨call, hmem, hword⟩ := List.exists_of_findSome?_eq_some h
  exact ⟨call, List.mem_reverse.mp hmem, hword⟩

theorem Call.player?_of_selfNum {call : Call} (h : call.word .selfNum = some n) :
    call.player? = some n := by
  cases call with
  | clearShout => cases h
  | apply m =>
      cases m with
      | playerId person num => exact h
      | _ => cases h

theorem Call.player?_of_shouting {call : Call} (h : call.word .shouting = some (some n)) :
    call.player? = some n := by
  cases call with
  | clearShout => cases h
  | apply m =>
      cases m with
      | playerShouted num => exact Option.some.inj h
      | _ => cases h

theorem Reflects.players_contains_iff (h : Reflects calls b) :
    b.players.contains n = true ↔ ∃ call ∈ calls, call.player? = some n := by
  rw [h.players_contains, named, List.any_eq_true]
  simp only [decide_eq_true_eq]

theorem Reflects.selfNum_known (h : Reflects calls b) (hself : b.selfNum = some n) :
    b.players.contains n = true := by
  obtain ⟨call, hmem, hword⟩ := exists_of_lastSaid (h.selfNum.symm.trans hself)
  exact h.players_contains_iff.mpr ⟨call, hmem, Call.player?_of_selfNum hword⟩

theorem Reflects.shouting_known (h : Reflects calls b) (hshouting : b.shouting = some n) :
    b.players.contains n = true := by
  have hsaid : lastSaid .shouting calls = some (some n) :=
    Option.join_eq_some_iff.mp (h.shouting.symm.trans hshouting)
  obtain ⟨call, hmem, hword⟩ := exists_of_lastSaid hsaid
  exact h.players_contains_iff.mpr ⟨call, hmem, Call.player?_of_shouting hword⟩

end References

/-- After any calls the client's own player and the one who shouts are known. The last mover of a
tile on the board is not if and only if the last that was said of some tile names it and no call was
about it. -/
theorem references_known_but_movers (calls : List Call) :
    let b := takeAll {} calls
    (∀ n, b.selfNum = some n → b.players.contains n = true) ∧
      (∀ n, b.shouting = some n → b.players.contains n = true) ∧
      ∀ n, (∃ num t, b.tiles.get? num = some t ∧ t.lastMover = n) ∧ b.players.contains n = false ↔
        (∃ num t, lastSaid (.tile num) calls = some t ∧ t.lastMover = n) ∧
          ∀ call ∈ calls, call.player? ≠ some n := by
  intro b
  have h : Reflects calls b := takeAll_reflects calls
  refine ⟨fun n => h.selfNum_known, fun n => h.shouting_known, fun n => ?_⟩
  have hunknown : b.players.contains n = false ↔ ∀ call ∈ calls, call.player? ≠ some n := by
    rw [Bool.eq_false_iff, ne_eq, h.players_contains_iff]
    simp only [not_exists, not_and, ne_eq]
  rw [hunknown]
  simp only [h.tiles]

/-- A tile can be on the board before anything is known of the player who put it there. -/
theorem mover_unknown :
    let b := takeAll {} [.apply (.tile 1 0 0 "A" 3)]
    b.tiles.get? 1 = some { num := 1, letter := "A", x := 0, y := 0, lastMover := 3 } ∧
      b.players.contains 3 = false := by
  decide +kernel

end Board

/-! ## Notices -/

/-- Whether an event tells that a player has come, or that it has gone. -/
def BoardEvent.presenceOf? (p : UInt8) : BoardEvent → Option Bool
  | playerJoined q => if q = p then some true else none
  | playerLeft q => if q = p then some false else none
  | _ => none

/-- The comings and goings of a player among some events. -/
def notices (p : UInt8) (es : List BoardEvent) : List Bool :=
  es.filterMap (·.presenceOf? p)

theorem notices_append (p : UInt8) (es fs : List BoardEvent) :
    notices p (es ++ fs) = notices p es ++ notices p fs :=
  List.filterMap_append

namespace Board

/-- Whether a player is there. -/
def isPresent (b : Board) (p : UInt8) : Bool :=
  (b.player p).isConnected

/-- What a call says of whether a player is there. Flags say it whatever else they say. -/
def Call.presence? (call : Call) (p : UInt8) : Option Bool :=
  (call.word (.flags p)).map (·.contains .connected)

section Notices

variable {b : Board} {p : UInt8}

/-- Nothing but the flags of a player says whether it is there. -/
theorem Call.playerFlags_of_presence? {call : Call} {now : Bool}
    (h : call.presence? p = some now) :
    ∃ flags, call = .apply (.playerFlags p flags) ∧ flags.contains .connected = now := by
  obtain ⟨flags, hword, hnow⟩ := Option.map_eq_some_iff.mp h
  cases call with
  | clearShout => cases hword
  | apply m =>
      cases m with
      | playerFlags num flags' =>
          obtain ⟨rfl, hflags⟩ := Option.ite_none_right_eq_some.mp hword
          obtain rfl := Option.some.inj hflags
          exact ⟨_, rfl, hnow⟩
      | _ => cases hword

theorem act_player (h : b.Keyed) (call : Call) (n : UInt8) :
    (b.act call).1.player n = call.describe (b.player n) := by
  unfold player
  rw [act_players_get? h]
  by_cases hn : call.player? = some n
  · rw [if_pos hn]
    rfl
  · obtain ⟨hname, hflags⟩ := word_of_player?_ne hn
    have hnum : (b.player n).num = n := h n
    unfold player at hnum
    rw [if_neg hn, Call.describe, hnum, hname, hflags]
    exact congrArg (fun num => Player.mk num _ _) hnum

theorem take_isPresent (h : b.Keyed) (call : Call) (p : UInt8) :
    (b.take call).1.isPresent p = (call.presence? p).getD (b.isPresent p) := by
  unfold isPresent Call.presence? Player.isConnected
  rw [take_fst, act_player h, Call.describe, h p]
  cases call.word (.flags p) <;> rfl

theorem take_synced (b : Board) (call : Call) :
    (b.take call).1.synced = (call.isSync || b.synced) := by
  rw [take_fst]
  exact congrArg Board.synced (b.act_rest call)

theorem presenceEvents_notices (b : Board) (old new : Player) (p : UInt8) :
    notices p (b.presenceEvents old new) =
      if new.num = p ∧ b.synced = true ∧ old.isConnected ≠ new.isConnected
        then [new.isConnected] else [] := by
  have hone (now : Bool) :
      notices p [if now = true then .playerJoined new.num else .playerLeft new.num] =
        if new.num = p then [now] else [] := by
    cases now <;> by_cases hp : new.num = p <;> simp [notices, BoardEvent.presenceOf?, hp]
  unfold presenceEvents
  by_cases hnews : b.synced = true ∧ old.isConnected ≠ new.isConnected
  · rw [if_pos hnews, hone]
    simp only [hnews, and_true, ne_eq, not_false_eq_true]
  · rw [if_neg hnews, if_neg (not_and_of_not_right _ hnews)]
    rfl

theorem applyFlags_notices (h : b.Keyed) (num : UInt8) (flags : PlayerFlags) (p : UInt8) :
    notices p (b.applyFlags num flags).2 =
      if num = p ∧ b.synced = true ∧ b.isPresent p ≠ flags.contains .connected
        then [flags.contains .connected] else [] := by
  have hsynced : (b.withPlayer num).rest.synced = b.rest.synced :=
    congrArg Board.synced (b.withPlayer_rest num)
  unfold applyFlags
  simp only [player_withPlayer]
  by_cases hsame : (b.player num).flags = flags
  · -- flags that are the same say the same of the player
    have hquiet : ¬(num = p ∧ b.synced = true ∧ b.isPresent p ≠ flags.contains .connected) := by
      rintro ⟨rfl, _, hne⟩
      exact hne (congrArg (·.contains .connected) hsame)
    rw [if_pos hsame, if_neg hquiet]
    rfl
  · rw [if_neg hsame]
    show notices p (presenceEvents _ _ _) = _
    rw [presenceEvents_notices, h num]
    by_cases hnum : num = p
    · subst hnum
      rw [show (b.withPlayer num).synced = b.synced from hsynced]
      rfl
    · rw [if_neg fun hall => hnum hall.1, if_neg fun hall => hnum hall.1]

theorem withTurnChange_notices (b : Board) (r : Board × List BoardEvent) (p : UInt8) :
    notices p (b.withTurnChange r).2 = notices p r.2 := by
  unfold withTurnChange
  split
  · rfl
  · rw [notices_append]
    exact List.append_nil _

/-- A call gives notice of a player if and only if it says that the player is there when it was
not, or the other way round, and the board is synced. -/
theorem take_notices (h : b.Keyed) (call : Call) (p : UInt8) :
    notices p (b.take call).2 =
      ((call.presence? p).filter fun now => b.synced && now != b.isPresent p).toList := by
  rw [take_eq, withTurnChange_notices]
  cases call with
  | clearShout =>
      show notices p (b.shouting.toList.map .shoutCleared) = []
      cases b.shouting <;> rfl
  | apply m =>
      cases m with
      | playerFlags num flags =>
          show notices p (b.applyFlags num flags).2 = _
          rw [applyFlags_notices h, Call.presence?]
          by_cases hnum : num = p
          · rw [show (Call.apply (.playerFlags num flags)).word (.flags p) = some flags from
              if_pos hnum, Option.map_some]
            generalize flags.contains .connected = now
            cases b.synced <;> cases now <;> cases b.isPresent p <;> simp [hnum, Option.filter]
          · rw [show (Call.apply (.playerFlags num flags)).word (.flags p) = none from
              if_neg hnum, if_neg fun hall => hnum hall.1]
            rfl
      | playerName num name =>
          show notices p (b.applyName num name).2 = []
          unfold applyName
          dsimp only
          split <;> rfl
      | tile num x y letter lastMover =>
          show notices p (b.applyTile _).2 = []
          unfold applyTile
          dsimp only
          split <;> rfl
      | _ => rfl

/-- Nothing is noticed before the board is synced. -/
theorem told_notices_of_unsynced {calls : List Call} (h : b.Keyed) (hb : b.synced = false)
    (hcalls : calls.any Call.isSync = false) (p : UInt8) :
    notices p (b.told calls).flatten = [] := by
  induction calls generalizing b with
  | nil => rfl
  | cons call calls ih =>
      rw [List.any_cons, Bool.or_eq_false_iff] at hcalls
      have hquiet : notices p (b.take call).2 = [] := by
        rw [take_notices h, hb]
        cases call.presence? p <;> rfl
      have hafter : (b.take call).1.synced = false := by rw [take_synced, hcalls.1, hb]; rfl
      rw [told, List.flatten_cons, notices_append, hquiet, List.nil_append]
      exact ih (h.take call) hafter hcalls.2

/-- On a synced board the notices about a player follow its presence step by step. -/
theorem told_notices_of_synced (h : b.Keyed) (hb : b.synced = true) (calls : List Call)
    (p : UInt8) :
    (b.isPresent p :: notices p (b.told calls).flatten).IsChain (· ≠ ·) ∧
      (b.isPresent p :: notices p (b.told calls).flatten).getLast? =
        some ((b.takeAll calls).isPresent p) := by
  induction calls generalizing b with
  | nil => exact ⟨.singleton _, rfl⟩
  | cons call calls ih =>
      have hafter : (b.take call).1.synced = true := by rw [take_synced, hb, Bool.or_true]
      obtain ⟨hchain, hlast⟩ := ih (h.take call) hafter
      rw [take_isPresent h] at hchain hlast
      rw [told, List.flatten_cons, notices_append, take_notices h, hb]
      show _ ∧ _ = some (((b.take call).1.takeAll calls).isPresent p)
      cases hcall : call.presence? p with
      | none =>
          rw [hcall] at hchain hlast
          exact ⟨hchain, hlast⟩
      | some now =>
          rw [hcall, Option.getD_some] at hchain hlast
          by_cases hsame : now = b.isPresent p
          · subst hsame
            simpa [Option.filter] using And.intro hchain hlast
          · -- the presence changes, and that is what is noticed
            have hnotice : ((some now).filter fun now => true && now != b.isPresent p).toList =
                [now] := by
              simp [Option.filter, hsame]
            rw [hnotice]
            exact ⟨.cons_cons (Ne.symm hsame) hchain, hlast⟩

/-- Up to the first sync, and at it, nothing is noticed. -/
theorem told_notices_from_sync {before : List Call} (hbefore : before.any Call.isSync = false)
    (after : List Call) (p : UInt8) :
    notices p (told {} (before ++ .apply .sync :: after)).flatten =
      notices p ((takeAll {} (before ++ [.apply .sync])).told after).flatten := by
  have hfirst := told_notices_of_unsynced keyed_empty rfl hbefore p
  -- a sync is not about a player
  have hsync : notices p ((takeAll {} before).take (.apply .sync)).2 = [] :=
    take_notices (takeAll_reflects before).keyed _ p
  rw [told_append, told, List.flatten_append, List.flatten_cons, notices_append, notices_append,
    hfirst, hsync, takeAll_append]
  rfl

end Notices

/-- After any calls, if the board has not been synced yet, no coming or going of a player has been
noticed. From the first sync on comings and goings alternate. They begin with a going if and only if
the player was there when the board was synced, and the last of them tells whether it is there now;
if there was none, it is there if and only if it was there then. Nothing is noticed but by flags
of the player that differ from the last in whether it is connected. -/
theorem notices_alternate (calls : List Call) (p : UInt8) :
    (calls.any Call.isSync = false → notices p (told {} calls).flatten = []) ∧
      (∀ before after, before.any Call.isSync = false → calls = before ++ .apply .sync :: after →
        let there := (takeAll {} before).isPresent p
        let noticed := notices p (told {} calls).flatten
        (there :: noticed).IsChain (· ≠ ·) ∧
          (∀ first ∈ noticed.head?, first = !there) ∧
          (there :: noticed).getLast? = some ((takeAll {} calls).isPresent p)) ∧
      ∀ call, notices p ((takeAll {} calls).take call).2 ≠ [] →
        (takeAll {} calls).synced = true ∧ ∃ flags, call = .apply (.playerFlags p flags) ∧
          flags.contains .connected ≠ (takeAll {} calls).isPresent p := by
  refine ⟨fun hcalls => told_notices_of_unsynced keyed_empty rfl hcalls p, ?_, ?_⟩
  · rintro before after hbefore rfl there noticed
    have hreflects := takeAll_reflects (before ++ [.apply .sync])
    have hsynced : (takeAll {} (before ++ [.apply .sync])).synced = true := by
      rw [hreflects.synced, List.any_append]
      exact Bool.or_true _
    have hthere : (takeAll {} (before ++ [.apply .sync])).isPresent p = there := by
      rw [takeAll_append]
      exact take_isPresent (takeAll_reflects before).keyed _ p
    obtain ⟨hchain, hlast⟩ := told_notices_of_synced hreflects.keyed hsynced after p
    rw [hthere, ← told_notices_from_sync hbefore] at hchain hlast
    refine ⟨hchain, ?_, ?_⟩
    · intro first hfirst
      exact Bool.eq_not_of_ne (hchain.rel_head? hfirst).symm
    · rw [hlast, ← takeAll_append, List.append_assoc]
      rfl
  · intro call hcall
    rw [take_notices (takeAll_reflects calls).keyed] at hcall
    obtain ⟨now, hnow⟩ := List.exists_mem_of_ne_nil _ hcall
    obtain ⟨hpresence, hnews⟩ := Option.filter_eq_some_iff.mp (Option.mem_toList.mp hnow)
    obtain ⟨flags, rfl, rfl⟩ := Call.playerFlags_of_presence? hpresence
    rw [Bool.and_eq_true, bne_iff_ne] at hnews
    exact ⟨hnews.1, flags, rfl, hnews.2⟩

end Board

end TileRoom

import Mathlib.Data.List.DropRight
import TileRoom.Client.Outbox

/-!
# What an outbox gives out

An outbox is asked for its moves and for its held messages, and what it gives is told by what it was
asked before. The moves are those of the tiles that were marked since moves were last given out or
all was forgotten, each to where it was marked last. The messages are those that were held since they
were last taken. `since` picks both from the record of an outbox, and `Recalls` says that the outbox
has nothing else: it holds at first and survives each operation (`Recalls.operate`).

The two halves of an outbox have nothing to do with each other but that `clear` empties both
(`Half.record_filter`): what is done to one of them can be left out of the history of the other.
-/

namespace TileRoom.Outbox

/-! ## Histories -/

/-- What is done to an outbox. -/
inductive Operation
  | markDirty (tile : UInt8) (x y : Int16)
  | flush (buffered : Nat)
  | hold (m : ClientMessage)
  | takeHeld
  | clear
  deriving DecidableEq

/-- What is given back. -/
inductive Answer
  | nothing
  | flushed (f : Flush)
  | taken (ms : List ClientMessage)
  deriving DecidableEq

def answer (o : Outbox) : Operation → Answer
  | .flush buffered => .flushed (o.flush buffered).1
  | .takeHeld => .taken o.takeHeld.1
  | _ => .nothing

def operate (o : Outbox) : Operation → Outbox
  | .markDirty tile x y => o.markDirty tile x y
  | .flush buffered => (o.flush buffered).2
  | .hold m => o.hold m
  | .takeHeld => o.takeHeld.2
  | .clear => o.clear

def operateAll (o : Outbox) (ops : List Operation) : Outbox :=
  ops.foldl operate o

/-- An operation with its answer. -/
abbrev Entry := Operation × Answer

/-- Operations, each with its answer. -/
def record (o : Outbox) : List Operation → List Entry
  | [] => []
  | op :: ops => (op, o.answer op) :: (o.operate op).record ops

/-! ## What a record tells -/

/-- What is picked from the entries after the last that puts an end to those before it. -/
def since {α : Type} (ends : Entry → Bool) (pick : Entry → Option α) (es : List Entry) : List α :=
  (es.rtakeWhile fun e => !ends e).filterMap pick

theorem since_concat {α : Type} (ends : Entry → Bool) (pick : Entry → Option α) (es : List Entry)
    (e : Entry) :
    since ends pick (es ++ [e]) = if ends e then [] else since ends pick es ++ (pick e).toList := by
  unfold since
  rw [List.rtakeWhile_concat]
  cases ends e with
  | true => rfl
  | false => cases hpick : pick e <;> simp [hpick]

/-- An entry that ends nothing and from which nothing is picked. -/
theorem since_idle {α : Type} {ends : Entry → Bool} {pick : Entry → Option α} {e : Entry}
    (hends : ends e = false) (hpick : pick e = none) (es : List Entry) :
    since ends pick (es ++ [e]) = since ends pick es := by
  simp [since_concat, hends, hpick]

/-- Whether no tile is dirty after an entry. -/
def Entry.cleans : Entry → Bool
  | (.flush _, .flushed (.sent _)) => true
  | (.clear, _) => true
  | _ => false

/-- Whether nothing is held after an entry. -/
def Entry.releases : Entry → Bool
  | (.takeHeld, _) => true
  | (.clear, _) => true
  | _ => false

/-- The tile that an entry marks, with its place. -/
def Entry.mark? : Entry → Option (UInt8 × Int16 × Int16)
  | (.markDirty tile x y, _) => some (tile, x, y)
  | _ => none

def Entry.held? : Entry → Option ClientMessage
  | (.hold m, _) => some m
  | _ => none

/-- The marks since moves were last sent or all was forgotten. -/
def marksSince (es : List Entry) : List (UInt8 × Int16 × Int16) :=
  since Entry.cleans Entry.mark? es

/-- The messages since they were last taken or all was forgotten. -/
def heldSince (es : List Entry) : List ClientMessage :=
  since Entry.releases Entry.held? es

/-- Where a tile was marked last. -/
def lastMark (tile : UInt8) (marks : List (UInt8 × Int16 × Int16)) : Option (Int16 × Int16) :=
  (marks.filterMap fun mark => if tile = mark.1 then some mark.2 else none).getLast?

theorem lastMark_concat (tile : UInt8) (marks : List (UInt8 × Int16 × Int16))
    (mark : UInt8 × Int16 × Int16) :
    lastMark tile (marks ++ [mark]) =
      if tile = mark.1 then some mark.2 else lastMark tile marks := by
  unfold lastMark
  by_cases h : tile = mark.1
  · simp [h]
  · simp [h]

/-- If no tile was marked last anywhere, none was marked. -/
theorem eq_nil_of_lastMark {marks : List (UInt8 × Int16 × Int16)}
    (h : ∀ tile, lastMark tile marks = none) : marks = [] := by
  cases marks with
  | nil => rfl
  | cons mark marks =>
      have hmark := h mark.1
      rw [lastMark, List.getLast?_eq_none_iff, List.filterMap_eq_nil_iff] at hmark
      exact absurd (hmark mark List.mem_cons_self) (by simp)

/-! ## What an outbox recalls -/

section
variable {o : Outbox}

/-- The three ways in which a flush can end. -/
inductive Flushes (o : Outbox) : Nat → Flush × Outbox → Prop
  | idle (hclean : o.dirty = ∅) (buffered : Nat) : Flushes o buffered (.idle, o)
  | deferred (hdirty : o.dirty ≠ ∅) {buffered : Nat} (hbuffered : 0 < buffered) :
      Flushes o buffered (.deferred, o)
  | sent (hdirty : o.dirty ≠ ∅) : Flushes o 0 (.sent o.moves, { o with dirty := ∅ })

theorem flush_flushes (o : Outbox) (buffered : Nat) : Flushes o buffered (o.flush buffered) := by
  unfold flush
  by_cases hclean : o.dirty.isEmpty = true
  · rw [if_pos hclean]
    exact .idle ((Numbered.isEmpty_iff _).mp hclean) buffered
  · have hdirty : o.dirty ≠ ∅ := fun h => hclean ((Numbered.isEmpty_iff _).mpr h)
    rw [if_neg hclean]
    by_cases hbuffered : 0 < buffered
    · rw [if_pos hbuffered]
      exact .deferred hdirty hbuffered
    · obtain rfl := Nat.eq_zero_of_not_pos hbuffered
      rw [if_neg hbuffered]
      exact .sent hdirty

theorem flush_held (o : Outbox) (buffered : Nat) : (o.flush buffered).2.held = o.held := by
  have hflush := o.flush_flushes buffered
  generalize o.flush buffered = result at hflush ⊢
  cases hflush <;> rfl

/-- The outbox has what its record tells, and nothing else. -/
structure Recalls (o : Outbox) (es : List Entry) : Prop where
  dirty : ∀ tile, o.dirty.get? tile = lastMark tile (marksSince es)
  held : o.held = heldSince es

variable {es : List Entry}

theorem recalls_nil : Recalls {} [] where
  dirty _ := rfl
  held := rfl

theorem Recalls.dirty_operate (h : o.Recalls es) (op : Operation) (tile : UInt8) :
    (o.operate op).dirty.get? tile = lastMark tile (marksSince (es ++ [(op, o.answer op)])) := by
  cases op with
  | markDirty marked x y =>
      have hmarks : marksSince (es ++ [(.markDirty marked x y, o.answer (.markDirty marked x y))]) =
          marksSince es ++ [(marked, x, y)] := since_concat _ _ _ _
      rw [hmarks, lastMark_concat, ← h.dirty]
      exact Numbered.get?_insert _ _ _ _
  | flush buffered =>
      have hflush := o.flush_flushes buffered
      simp only [operate, answer]
      generalize o.flush buffered = result at hflush ⊢
      cases hflush with
      | idle hclean => exact (h.dirty tile).trans (congrArg _ (since_idle rfl rfl es).symm)
      | deferred hdirty hbuffered =>
          exact (h.dirty tile).trans (congrArg _ (since_idle rfl rfl es).symm)
      | sent hdirty =>
          have hmarks : marksSince (es ++ [(.flush 0, .flushed (.sent o.moves))]) = [] :=
            since_concat _ _ _ _
          rw [hmarks]
          rfl
  | hold m => exact (h.dirty tile).trans (congrArg _ (since_idle rfl rfl es).symm)
  | takeHeld => exact (h.dirty tile).trans (congrArg _ (since_idle rfl rfl es).symm)
  | clear =>
      have hmarks : marksSince (es ++ [(.clear, o.answer .clear)]) = [] := since_concat _ _ _ _
      rw [hmarks]
      rfl

theorem Recalls.held_operate (h : o.Recalls es) (op : Operation) :
    (o.operate op).held = heldSince (es ++ [(op, o.answer op)]) := by
  cases op with
  | markDirty marked x y => exact h.held.trans (since_idle rfl rfl es).symm
  | flush buffered =>
      exact (o.flush_held buffered).trans (h.held.trans (since_idle rfl rfl es).symm)
  | hold m =>
      have hmore : heldSince (es ++ [(.hold m, o.answer (.hold m))]) = heldSince es ++ [m] :=
        since_concat _ _ _ _
      rw [hmore, ← h.held]
      rfl
  | takeHeld =>
      have hnone : heldSince (es ++ [(.takeHeld, o.answer .takeHeld)]) = [] := since_concat _ _ _ _
      rw [hnone]
      rfl
  | clear =>
      have hnone : heldSince (es ++ [(.clear, o.answer .clear)]) = [] := since_concat _ _ _ _
      rw [hnone]
      rfl

theorem Recalls.operate (h : o.Recalls es) (op : Operation) :
    (o.operate op).Recalls (es ++ [(op, o.answer op)]) where
  dirty := h.dirty_operate op
  held := h.held_operate op

theorem Recalls.operateAll (h : o.Recalls es) (ops : List Operation) :
    (o.operateAll ops).Recalls (es ++ o.record ops) := by
  induction ops generalizing o es with
  | nil =>
      rw [record, List.append_nil]
      exact h
  | cons op ops ih =>
      have hrest := ih (h.operate op)
      rw [List.append_assoc] at hrest
      exact hrest

/-- Nothing is dirty just if nothing was marked. -/
theorem Recalls.dirty_eq_empty_iff (h : o.Recalls es) : o.dirty = ∅ ↔ marksSince es = [] := by
  constructor
  · intro hclean
    refine eq_nil_of_lastMark fun tile => ?_
    rw [← h.dirty, hclean, Numbered.get?_empty]
  · intro hmarks
    refine Numbered.ext fun tile => ?_
    rw [h.dirty, hmarks]
    rfl

theorem Recalls.hasDirty_iff (h : o.Recalls es) : o.hasDirty = true ↔ marksSince es ≠ [] := by
  rw [Outbox.hasDirty_iff, Ne, h.dirty_eq_empty_iff]

theorem Recalls.mem_entries_iff (h : o.Recalls es) (tile : UInt8) (place : Int16 × Int16) :
    (tile, place) ∈ o.dirty.entries ↔ lastMark tile (marksSince es) = some place := by
  rw [Numbered.mem_entries_iff, h.dirty]

theorem Recalls.idle_iff (h : o.Recalls es) (buffered : Nat) :
    (o.flush buffered).1 = .idle ↔ marksSince es = [] := by
  rw [← h.dirty_eq_empty_iff]
  have hflush := o.flush_flushes buffered
  generalize o.flush buffered = result at hflush ⊢
  cases hflush with
  | idle hclean => simp [hclean]
  | deferred hdirty hbuffered => simp [hdirty]
  | sent hdirty => simp [hdirty]

theorem Recalls.deferred_iff (h : o.Recalls es) (buffered : Nat) :
    (o.flush buffered).1 = .deferred ↔ marksSince es ≠ [] ∧ 0 < buffered := by
  rw [Ne, ← h.dirty_eq_empty_iff]
  have hflush := o.flush_flushes buffered
  generalize o.flush buffered = result at hflush ⊢
  cases hflush with
  | idle hclean => simp [hclean]
  | deferred hdirty hbuffered => simp [hdirty, hbuffered]
  | sent hdirty => simp

/-- A flush that sends nothing changes nothing. -/
theorem flush_snd (o : Outbox) (buffered : Nat)
    (h : (o.flush buffered).1 = .idle ∨ (o.flush buffered).1 = .deferred) :
    (o.flush buffered).2 = o := by
  have hflush := o.flush_flushes buffered
  generalize o.flush buffered = result at h hflush ⊢
  cases hflush with
  | idle hclean => rfl
  | deferred hdirty hbuffered => rfl
  | sent hdirty => simp at h

theorem Recalls.flush_zero (h : o.Recalls es) (hmarks : marksSince es ≠ []) :
    o.flush 0 = (.sent o.moves, { o with dirty := ∅ }) := by
  have hdirty : o.dirty ≠ ∅ := fun hclean => hmarks (h.dirty_eq_empty_iff.mp hclean)
  have hflush := o.flush_flushes 0
  generalize o.flush 0 = result at hflush ⊢
  cases hflush with
  | idle hclean => exact absurd hclean hdirty
  | deferred hdirty hbuffered => exact absurd hbuffered (Nat.lt_irrefl 0)
  | sent hdirty => rfl

end

/-! ## The halves of an outbox -/

/-- A part of an outbox that only some operations look at or change. -/
structure Half {α : Type} (part : Outbox → α) (concerns : Operation → Bool) : Prop where
  answer : ∀ {o o' : Outbox} {op : Operation}, concerns op = true → part o = part o' →
    o.answer op = o'.answer op
  changed : ∀ {o o' : Outbox} {op : Operation}, concerns op = true → part o = part o' →
    part (o.operate op) = part (o'.operate op)
  kept : ∀ {o : Outbox} {op : Operation}, concerns op = false → part (o.operate op) = part o

/-- What does not concern a part can be left out of its history. -/
theorem Half.record_filter {α : Type} {part : Outbox → α} {concerns : Operation → Bool}
    (h : Half part concerns) {o o' : Outbox} (hpart : part o = part o') (ops : List Operation) :
    (o.record ops).filter (fun e => concerns e.1) = o'.record (ops.filter concerns) ∧
      part (o.operateAll ops) = part (o'.operateAll (ops.filter concerns)) := by
  induction ops generalizing o o' with
  | nil => exact ⟨rfl, hpart⟩
  | cons op ops ih =>
      cases hop : concerns op with
      | true =>
          obtain ⟨hrecord, hrest⟩ := ih (h.changed hop hpart)
          have hanswer := h.answer hop hpart
          refine ⟨?_, ?_⟩
          · simp [record, hop, hanswer, hrecord]
          · simpa [operateAll, hop] using hrest
      | false =>
          obtain ⟨hrecord, hrest⟩ := ih ((h.kept hop).trans hpart)
          refine ⟨?_, ?_⟩
          · simp [record, hop, hrecord]
          · simpa [operateAll, hop] using hrest

/-- Whether an operation is about dirty tiles. -/
def Operation.isTiles : Operation → Bool
  | .markDirty .. | .flush _ | .clear => true
  | _ => false

/-- Whether an operation is about held messages. -/
def Operation.isHeld : Operation → Bool
  | .hold _ | .takeHeld | .clear => true
  | _ => false

theorem half_dirty : Half dirty Operation.isTiles where
  answer {o o' op} hop hdirty := by
    cases op with
    | flush buffered =>
        simp only [Outbox.answer, flush, moves, hdirty]
        split
        · rfl
        · split <;> rfl
    | takeHeld => cases hop
    | _ => rfl
  changed {o o' op} hop hdirty := by
    cases op with
    | markDirty tile x y => simp only [operate, markDirty, hdirty]
    | flush buffered =>
        simp only [operate, flush, hdirty]
        split
        · exact hdirty
        · split
          · exact hdirty
          · rfl
    | clear => rfl
    | _ => cases hop
  kept {o op} hop := by
    cases op with
    | hold m => rfl
    | takeHeld => rfl
    | _ => cases hop

theorem half_held : Half held Operation.isHeld where
  answer {o o' op} hop hheld := by
    cases op with
    | takeHeld => simp only [Outbox.answer, takeHeld, hheld]
    | flush buffered => cases hop
    | _ => rfl
  changed {o o' op} hop hheld := by
    cases op with
    | hold m => simp only [operate, hold, hheld]
    | takeHeld => rfl
    | clear => rfl
    | _ => cases hop
  kept {o op} hop := by
    cases op with
    | markDirty tile x y => rfl
    | flush buffered => exact o.flush_held buffered
    | _ => cases hop

/-- Whatever was done to an outbox, what it gives is told by the record of that. A flush is idle just
if no tile was marked since moves were last sent or all was forgotten. Otherwise it is deferred just
if something is still to be written, and both leave the outbox as it is. Else one move is sent for
each tile that was marked since then, to where it was marked last, in ascending order and with
nothing else, and no tile is dirty any more. The held messages are those that were held since they
were last taken or all was forgotten, in order. What was done to the tiles has no say in what is
held, and what was held none in the tiles: either can be left out of the history of the other. -/
theorem latest_marks_sent (ops : List Operation) :
    let o := ({} : Outbox).operateAll ops
    let es := ({} : Outbox).record ops
    let marks := marksSince es
    (o.hasDirty = true ↔ marks ≠ []) ∧
    (∀ buffered,
      ((o.flush buffered).1 = .idle ↔ marks = []) ∧
      ((o.flush buffered).1 = .deferred ↔ marks ≠ [] ∧ 0 < buffered) ∧
      ((o.flush buffered).1 = .idle ∨ (o.flush buffered).1 = .deferred →
        (o.flush buffered).2 = o) ∧
      (marks ≠ [] → buffered = 0 → ∃ moves : List (UInt8 × Int16 × Int16),
        (o.flush buffered).1 = .sent (moves.map fun (tile, x, y) => .moveTile tile x y) ∧
        moves.Pairwise (fun a b => a.1 < b.1) ∧
        (∀ tile place, (tile, place) ∈ moves ↔ lastMark tile marks = some place) ∧
        (o.flush buffered).2.hasDirty = false)) ∧
    o.takeHeld.1 = heldSince es ∧
    (es.filter (fun e => e.1.isTiles) = ({} : Outbox).record (ops.filter Operation.isTiles) ∧
      o.dirty = (({} : Outbox).operateAll (ops.filter Operation.isTiles)).dirty) ∧
    es.filter (fun e => e.1.isHeld) = ({} : Outbox).record (ops.filter Operation.isHeld) ∧
      o.held = (({} : Outbox).operateAll (ops.filter Operation.isHeld)).held := by
  intro o es marks
  have hrecalls : o.Recalls es := recalls_nil.operateAll ops
  refine ⟨hrecalls.hasDirty_iff, fun buffered => ⟨hrecalls.idle_iff buffered,
    hrecalls.deferred_iff buffered, o.flush_snd buffered, ?_⟩, hrecalls.held,
    half_dirty.record_filter rfl ops, half_held.record_filter rfl ops⟩
  rintro hmarks rfl
  rw [hrecalls.flush_zero hmarks]
  exact ⟨o.dirty.entries, rfl, o.dirty.ascending, hrecalls.mem_entries_iff, rfl⟩

-- a flush that is put off keeps the tiles, and one of them is dragged on before the next
example : (({} : Outbox).operateAll [.markDirty 7 1 1, .markDirty 3 1 2, .flush 12,
    .markDirty 3 4 5]).answer (.flush 0) =
      .flushed (.sent [.moveTile 3 4 5, .moveTile 7 1 1]) := by decide

end TileRoom.Outbox

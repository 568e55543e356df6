import TileRoom.Proofs.Wire.Frame

/-!
# Fields in any order

Writers and readers do not know the messages: they take fields of any kinds, in any number and order,
and go on after a field that they refuse. `fields_exact` says what a script of such calls comes to.

`put` and `read` hand back what they changed, so a call that fails has nothing to undo. A frame can
also be written and read in place, piece by piece, with the place in the frame as a number that is
subtracted from its length. There it is a property of the calls that they fail before they change
anything and that the place never leaves the frame. `Writer.writing` and `Cursor.reading` are these
calls, and they agree with the others (`write_eq_attempt`, `Alongside`).
-/

namespace TileRoom.Wire

variable {σ τ ι α β : Type}

/-! ## Scripts -/

/-- Calls one after the other, each made whether or not those before it failed, and what they came
to. -/
def attemptAll (call : σ → ι → Except WireError α × σ) (s : σ) :
    List ι → List (Except WireError α) × σ
  | [] => ([], s)
  | i :: is =>
    let (outcome, s) := call s i
    let (outcomes, s) := attemptAll call s is
    (outcome :: outcomes, s)

/-- Calls on two states that stay related come to the same. -/
theorem attemptAll_related {R : σ → τ → Prop} {call : σ → ι → Except WireError α × σ}
    {call' : τ → ι → Except WireError α × τ}
    (step : ∀ s t i, R s t → (call s i).1 = (call' t i).1 ∧ R (call s i).2 (call' t i).2)
    {s : σ} {t : τ} (h : R s t) (is : List ι) :
    (attemptAll call s is).1 = (attemptAll call' t is).1 ∧
      R (attemptAll call s is).2 (attemptAll call' t is).2 := by
  induction is generalizing s t with
  | nil => exact ⟨rfl, h⟩
  | cons i is ih =>
      have now := step s t i h
      have tail := ih now.2
      exact ⟨List.cons_eq_cons.mpr ⟨now.1, tail.1⟩, tail.2⟩

/-- Puts a value. A writer that refuses it is used further as it was. -/
def Writer.attempt (w : Writer) (v : Value) : Except WireError Unit × Writer :=
  match w.put v with
  | .ok w' => (.ok (), w')
  | .error e => (.error e, w)

/-- Reads a value. A reader that finds none is used further as it was. -/
def Reader.attempt (r : Reader) (k : Kind) : Except WireError Value × Reader :=
  match r.read k with
  | .ok (v, r') => (.ok ⟨k, v⟩, r')
  | .error e => (.error e, r)

/-! ## Work in place -/

/-- Work that changes what it is done on. What was changed before it failed stays changed. -/
abbrev InPlace (σ α : Type) : Type :=
  ExceptT WireError (StateM σ) α

/-- What work in place comes to, and what it leaves. -/
def InPlace.on (work : InPlace σ α) (s : σ) : Except WireError α × σ :=
  Id.run (work.run.run s)

theorem InPlace.on_map (f : α → β) (work : InPlace σ α) (s : σ) :
    InPlace.on (f <$> work) s = (f <$> (work.on s).1, (work.on s).2) := by
  unfold InPlace.on
  simp only [ExceptT.run_map, StateT.run_map]
  rfl

/-- Work that starts with a look at what it is done on. -/
theorem InPlace.on_get (work : σ → InPlace σ α) (s : σ) :
    InPlace.on (do work (← get)) s = (work s).on s :=
  rfl

/-- The bytes of a value. -/
def Value.written : Value → List UInt8
  | ⟨.byte, n⟩ => [n]
  | ⟨.sequence, n⟩ => twoBytes n
  | ⟨.coordinate, n⟩ => twoBytes n.toUInt16
  | ⟨.id, n⟩ => eightBytes n
  | ⟨.text, s⟩ => zeroTerminated s

namespace Writer

/-- Appends bytes. -/
def push (bs : List UInt8) : InPlace Writer Unit :=
  modify fun w => { w with body := w.body ++ bs }

/-- Appends a value. A text is looked through for zero bytes before any of it is appended. -/
def writing : Value → InPlace Writer Unit
  | ⟨.byte, n⟩ => push [n]
  | ⟨.sequence, n⟩ => push (twoBytes n)
  | ⟨.coordinate, n⟩ => push (twoBytes n.toUInt16)
  | ⟨.id, n⟩ => push (eightBytes n)
  | ⟨.text, s⟩ =>
    let bs := s.toUTF8.data.toList
    if bs.contains 0 then throw .embeddedNul
    else do
      push bs
      push [0]

def write (w : Writer) (v : Value) : Except WireError Unit × Writer :=
  (writing v).on w

end Writer

/-- A frame and how many of its bytes are read. -/
structure Cursor where
  frame : List UInt8
  position : Nat
  deriving DecidableEq

namespace Cursor

def remaining (c : Cursor) : Nat :=
  c.frame.length - c.position

/-- The bytes that are not read. -/
def rest (c : Cursor) : List UInt8 :=
  c.frame.drop c.position

def moveTo (c : Cursor) (position : Nat) : Cursor :=
  { c with position }

/-- The next `n` bytes. -/
def taking (n : Nat) : InPlace Cursor (List UInt8) := do
  let c ← get
  let stop := c.position + n
  if c.frame.length < stop then throw (.malformed (.truncated n c.position c.remaining))
  else
    set (c.moveTo stop)
    return c.rest.take n

/-- A text. Its end is looked for first, and passed only after the text is found to be one. -/
def readingText : InPlace Cursor String := do
  let c ← get
  match c.rest.findIdx? (· == 0) with
  | none => throw (.malformed .unterminated)
  | some length =>
    match Utf8.decode (c.rest.take length) with
    | .error fault => throw (.malformed (.badText fault))
    | .ok s =>
      set (c.moveTo (c.position + (length + 1)))
      return s

def readingNumber (width : Nat) : InPlace Cursor Nat :=
  ofLittleEndian <$> taking width

def reading : (k : Kind) → InPlace Cursor k.Carrier
  | .byte => UInt8.ofNat <$> readingNumber 1
  | .sequence => UInt16.ofNat <$> readingNumber 2
  | .coordinate => (fun n => (UInt16.ofNat n).toInt16) <$> readingNumber 2
  | .id => UInt64.ofNat <$> readingNumber 8
  | .text => readingText

def read (c : Cursor) (k : Kind) : Except WireError Value × Cursor :=
  (Value.mk k <$> reading k).on c

/-- Ends the reading. All of the frame must have been read. -/
def finish (c : Cursor) : Except WireError Unit :=
  match c.remaining with
  | 0 => .ok ()
  | count => .error (.malformed (.trailing count))

/-- The reader that has come as far. -/
def reader (opcode : UInt8) (c : Cursor) : Reader :=
  ⟨opcode, c.position, c.rest⟩

end Cursor

/-! ## Writing -/

theorem Value.layout_eq_written (v : Value) : v.layout = v.written := by
  obtain ⟨kind, data⟩ := v
  cases kind with
  | byte => exact layout_byte data
  | sequence => exact layout_sequence data
  | coordinate => exact layout_coordinate data
  | id => exact layout_id data
  | text => exact layout_text data

namespace Writer

theorem attempt_eq (w : Writer) (v : Value) :
    w.attempt v =
      if v.isWritable then (.ok (), { w with body := w.body ++ v.written })
      else (.error .embeddedNul, w) := by
  unfold attempt put
  rw [v.layout_eq_written]
  cases v.isWritable <;> rfl

theorem write_text (w : Writer) (s : String) :
    w.write ⟨.text, s⟩ =
      if hasNul s then (.error .embeddedNul, w)
      else (.ok (), { w with body := w.body ++ zeroTerminated s }) := by
  have hzero : s.toUTF8.data.toList.contains 0 = hasNul s := by
    rw [← Utf8.encode_eq_toUTF8, Bool.eq_iff_iff, List.contains_iff_mem, Utf8.zero_mem_encode,
      hasNul, List.contains_iff_mem]
  simp only [write, writing]
  rw [hzero]
  by_cases hnul : hasNul s = true
  · rw [if_pos hnul, if_pos hnul]
    rfl
  · rw [if_neg hnul, if_neg hnul, zeroTerminated, ← List.append_assoc]
    rfl

/-- Written in place, a value comes to the same. In particular a refused one leaves no trace. -/
theorem write_eq_attempt (w : Writer) (v : Value) : w.write v = w.attempt v := by
  rw [attempt_eq]
  obtain ⟨kind, data⟩ := v
  cases kind with
  | text =>
      rw [write_text]
      cases hnul : hasNul data with
      | true => simp [Value.isWritable, hnul]
      | false => simp [Value.isWritable, hnul, Value.written]
  | _ => rfl

/-- A script of values: those that have no place on the wire are refused, the bytes of the others
are appended. -/
theorem attemptAll_attempt (w : Writer) (vs : List Value) :
    attemptAll attempt w vs =
      (vs.map fun v => if v.isWritable then .ok () else .error .embeddedNul,
        { w with body := w.body ++ (vs.filter Value.isWritable).flatMap Value.written }) := by
  induction vs generalizing w with
  | nil => simp [attemptAll]
  | cons v vs ih =>
      rw [attemptAll, attempt_eq]
      cases hv : v.isWritable with
      | true => simp [ih, hv]
      | false => simp [ih, hv]

end Writer

/-! ## Reading back -/

theorem attemptAll_written (opcode : UInt8) (position : Nat) (rest : List UInt8) (vs : List Value)
    (h : ∀ v ∈ vs, v.isWritable) :
    attemptAll Reader.attempt ⟨opcode, position, vs.flatMap Value.written ++ rest⟩
        (vs.map Value.kind) =
      (vs.map .ok, ⟨opcode, position + (vs.flatMap Value.written).length, rest⟩) := by
  induction vs generalizing position with
  | nil => simp [attemptAll]
  | cons v vs ih =>
      rw [List.forall_mem_cons] at h
      have hread := @read_layout opcode position (vs.flatMap Value.written ++ rest) v h.1
      rw [v.layout_eq_written] at hread
      simp only [List.flatMap_cons, List.append_assoc, List.map_cons, attemptAll, Reader.attempt]
      rw [hread]
      simp only
      rw [ih _ h.2, List.length_append, Nat.add_assoc]

/-! ## Any script of reads -/

theorem Cursor.length_rest (c : Cursor) : c.rest.length = c.remaining :=
  List.length_drop

theorem Cursor.reader_moveTo (opcode : UInt8) (c : Cursor) (n : Nat) :
    (c.moveTo (c.position + n)).reader opcode = (c.reader opcode).skip n := by
  simp [reader, rest, moveTo, Reader.skip]

theorem Cursor.on_taking (c : Cursor) (n : Nat) :
    (taking n).on c =
      if c.frame.length < c.position + n then
        (.error (.malformed (.truncated n c.position c.remaining)), c)
      else (.ok (c.rest.take n), c.moveTo (c.position + n)) := by
  rw [taking, InPlace.on_get]
  simp only
  split <;> rfl

theorem Cursor.take_reader (opcode : UInt8) (c : Cursor) (n : Nat) :
    (c.reader opcode).take n =
      if c.remaining < n then .error (.malformed (.truncated n c.position c.remaining))
      else .ok (c.rest.take n, (c.reader opcode).skip n) := by
  have hremaining : (c.reader opcode).remaining = c.remaining := c.length_rest
  rw [Reader.take, hremaining]
  rfl

/-- The first zero byte is where the bytes before it end. -/
theorem findIdx?_zero (bs : List UInt8) :
    bs.findIdx? (· == 0) =
      if (bs.takeWhile (· ≠ 0)).length = bs.length then none
      else some (bs.takeWhile (· ≠ 0)).length := by
  induction bs with
  | nil => rfl
  | cons b bs ih =>
      rw [List.findIdx?_cons, ih]
      by_cases hb : b = 0
      · simp [hb]
      · simp only [hb, beq_iff_eq, if_false, decide_not, decide_false, Bool.not_false,
          List.takeWhile_cons_of_pos, List.length_cons, Nat.add_right_cancel_iff]
        split <;> rfl

theorem take_takeWhile (bs : List UInt8) :
    bs.take (bs.takeWhile (· ≠ 0)).length = bs.takeWhile (· ≠ 0) :=
  (List.prefix_iff_eq_take.mp (List.takeWhile_prefix _)).symm

/-- How work on a cursor can end, beside the same work on the reader that has come as far: both find
the same and pass over it, or neither moves. -/
inductive Alongside (opcode : UInt8) (c : Cursor) :
    Except WireError α × Cursor → Except WireError (α × Reader) → Prop
  | found (a : α) (stop : Nat) (hlt : c.position < stop) (hle : stop ≤ c.frame.length) :
      Alongside opcode c (.ok a, c.moveTo stop) (.ok (a, (c.moveTo stop).reader opcode))
  | failed (e : WireError) : Alongside opcode c (.error e, c) (.error e)

section
variable {opcode : UInt8} {c : Cursor}

theorem Alongside.map {outcome : Except WireError α × Cursor}
    {result : Except WireError (α × Reader)} (h : Alongside opcode c outcome result) (f : α → β) :
    Alongside opcode c (f <$> outcome.1, outcome.2) (do let (a, r) ← result; return (f a, r)) := by
  cases h with
  | found a stop hlt hle => exact .found (f a) stop hlt hle
  | failed e => exact .failed e

theorem taking_alongside (hc : c.position ≤ c.frame.length) {n : Nat} (hn : 0 < n) :
    Alongside opcode c ((Cursor.taking n).on c) ((c.reader opcode).take n) := by
  rw [Cursor.on_taking, Cursor.take_reader]
  unfold Cursor.remaining
  by_cases hshort : c.frame.length < c.position + n
  · rw [if_pos hshort, if_pos (by omega)]
    exact .failed _
  · rw [if_neg hshort, if_neg (by omega), ← Cursor.reader_moveTo]
    exact .found _ _ (by omega) (by omega)

/-- A value that is read as a number. -/
theorem readingNumber_alongside (hc : c.position ≤ c.frame.length) {width : Nat}
    (hwidth : 0 < width) (value : Nat → α) :
    Alongside opcode c (InPlace.on (value <$> Cursor.readingNumber width) c)
      (do let (n, r) ← (c.reader opcode).number width; return (value n, r)) := by
  unfold Cursor.readingNumber Reader.number
  rw [InPlace.on_map, InPlace.on_map]
  exact ((taking_alongside hc hwidth).map ofLittleEndian).map value

theorem readingText_alongside :
    Alongside opcode c (Cursor.readingText.on c) (c.reader opcode).text := by
  have htext : (c.reader opcode).text =
      if (c.rest.takeWhile (· ≠ 0)).length = c.rest.length then .error (.malformed .unterminated)
      else match Utf8.decode (c.rest.takeWhile (· ≠ 0)) with
        | .error fault => .error (.malformed (.badText fault))
        | .ok s =>
          .ok (s, (c.reader opcode).skip ((c.rest.takeWhile (· ≠ 0)).length + 1)) := rfl
  rw [Cursor.readingText, InPlace.on_get, htext]
  simp only [findIdx?_zero]
  have hfits := (List.takeWhile_prefix (l := c.rest) (· ≠ 0)).length_le
  by_cases hall : (c.rest.takeWhile (· ≠ 0)).length = c.rest.length
  · rw [if_pos hall, if_pos hall]
    exact .failed _
  · rw [if_neg hall, if_neg hall]
    simp only [take_takeWhile]
    cases Utf8.decode (c.rest.takeWhile (· ≠ 0)) with
    | error fault => exact .failed _
    | ok s =>
        -- the terminator is one of the bytes that are left
        rw [Cursor.length_rest, Cursor.remaining] at hfits hall
        rw [← Cursor.reader_moveTo]
        exact .found s _ (by omega) (by omega)

theorem reading_alongside (opcode : UInt8) (hc : c.position ≤ c.frame.length) (k : Kind) :
    Alongside opcode c ((Cursor.reading k).on c) ((c.reader opcode).read k) := by
  cases k with
  | byte => exact readingNumber_alongside hc (by decide) _
  | sequence => exact readingNumber_alongside hc (by decide) _
  | coordinate => exact readingNumber_alongside hc (by decide) _
  | id => exact readingNumber_alongside hc (by decide) _
  | text => exact readingText_alongside

end

/-- A reader and a cursor that have come as far in the same frame, past the opcode and not past the
end. -/
structure Abreast (opcode : UInt8) (frame : List UInt8) (r : Reader) (c : Cursor) : Prop where
  reader : r = c.reader opcode
  whole : c.frame = frame
  one_le : 1 ≤ c.position
  le : c.position ≤ frame.length

section
variable {opcode : UInt8} {frame : List UInt8} {r : Reader} {c : Cursor}

/-- Both find the next value and pass over it, or both stay where they are. -/
theorem Abreast.call (h : Abreast opcode frame r c) (k : Kind) :
    (∃ v r' c', r.attempt k = (.ok v, r') ∧ c.read k = (.ok v, c') ∧
      r.position < r'.position ∧ Abreast opcode frame r' c') ∨
    ∃ e, r.attempt k = (.error e, r) ∧ c.read k = (.error e, c) := by
  obtain ⟨rfl, rfl, hpos, hle⟩ := h
  have hreading := reading_alongside opcode hle k
  unfold Reader.attempt Cursor.read
  rw [InPlace.on_map]
  generalize (Cursor.reading k).on c = outcome at hreading ⊢
  generalize (c.reader opcode).read k = result at hreading ⊢
  cases hreading with
  | found v stop hlt hstop =>
      have hpast : 1 ≤ stop := Nat.le_trans hpos (Nat.le_of_lt hlt)
      exact .inl ⟨⟨k, v⟩, _, _, rfl, rfl, hlt, rfl, rfl, hpast, hstop⟩
  | failed e => exact .inr ⟨e, rfl, rfl⟩

/-- They stay abreast over any script. -/
theorem Abreast.script (h : Abreast opcode frame r c) (ks : List Kind) :
    (attemptAll Reader.attempt r ks).1 = (attemptAll Cursor.read c ks).1 ∧
      Abreast opcode frame (attemptAll Reader.attempt r ks).2 (attemptAll Cursor.read c ks).2 := by
  refine attemptAll_related ?_ h ks
  intro r c k h
  rcases h.call k with ⟨v, r', c', hattempt, hread, _, h'⟩ | ⟨e, hattempt, hread⟩
  · rw [hattempt, hread]
    exact ⟨rfl, h'⟩
  · rw [hattempt, hread]
    exact ⟨rfl, h⟩

/-! ## Both directions -/

/-- What is known after the values `vs` were written under `opcode`. -/
structure WrittenOut (opcode : UInt8) (vs : List Value) (outcomes : List (Except WireError Unit))
    (w : Writer) : Prop where
  /-- A text with a NUL character is refused, and nothing else. -/
  outcomes : outcomes = vs.map fun v => if v.isWritable then .ok () else .error .embeddedNul
  bytes : w.bytes = opcode :: (vs.filter Value.isWritable).flatMap Value.written
  /-- What is refused leaves no byte behind. -/
  refused : ∀ v : Value, v.isWritable = false → w.write v = (.error .embeddedNul, w)
  /-- A frame that is not too large is read back. -/
  readBack : w.bytes.length ≤ 1024 → w.finish = .ok w.bytes ∧
    ∃ r s, Reader.start w.bytes = .ok r ∧ r.opcode = opcode ∧
      attemptAll Reader.attempt r ((vs.filter Value.isWritable).map Value.kind) =
        ((vs.filter Value.isWritable).map .ok, s) ∧
      s.finish = .ok ()

theorem writtenOut (opcode : UInt8) (vs : List Value) :
    WrittenOut opcode vs (vs.map fun v => if v.isWritable then .ok () else .error .embeddedNul)
      ⟨opcode, (vs.filter Value.isWritable).flatMap Value.written⟩ where
  outcomes := rfl
  bytes := rfl
  refused v hv := by
    rw [Writer.write_eq_attempt, Writer.attempt_eq, if_neg (by simp [hv])]
  readBack hsize := by
    have hback := attemptAll_written opcode 1 [] (vs.filter Value.isWritable)
      fun v hv => (List.mem_filter.mp hv).2
    rw [List.append_nil] at hback
    exact ⟨if_neg (Nat.not_lt.mpr hsize), _, _, rfl, rfl, hback, rfl⟩

/-- What is known of a reader and of a cursor that came through the same script. -/
structure Underway (opcode : UInt8) (frame : List UInt8) (r : Reader) (c : Cursor) : Prop
    extends Abreast opcode frame r c where
  position : r.position = c.position
  remaining : r.remaining = frame.length - r.position
  /-- The next read passes over what it finds, and stays where it was if it finds nothing. -/
  read : ∀ k,
    (∃ v r' c', r.attempt k = (.ok v, r') ∧ c.read k = (.ok v, c') ∧
      r.position < r'.position ∧ r'.position ≤ frame.length ∧ c'.position = r'.position) ∨
    ∃ e, r.attempt k = (.error e, r) ∧ c.read k = (.error e, c)
  finish : c.finish = r.finish
  finish_iff : r.finish = .ok () ↔ r.position = frame.length

theorem Abreast.remaining_eq (h : Abreast opcode frame r c) :
    r.remaining = c.remaining ∧ c.remaining = frame.length - r.position := by
  obtain ⟨rfl, rfl, _, _⟩ := h
  exact ⟨c.length_rest, rfl⟩

theorem Abreast.underway (h : Abreast opcode frame r c) : Underway opcode frame r c where
  toAbreast := h
  position := by rw [h.reader]; rfl
  remaining := h.remaining_eq.1.trans h.remaining_eq.2
  read k := by
    rcases h.call k with ⟨v, r', c', hattempt, hread, hlt, h'⟩ | still
    · have hposition : c'.position = r'.position := by rw [h'.reader]; rfl
      exact .inl ⟨v, r', c', hattempt, hread, hlt, hposition ▸ h'.le, hposition⟩
    · exact .inr still
  finish := by
    unfold Reader.finish Cursor.finish
    rw [h.remaining_eq.1]
    cases c.remaining <;> rfl
  finish_iff := by
    have hle : r.position ≤ frame.length := by rw [h.reader]; exact h.le
    unfold Reader.finish
    rw [h.remaining_eq.1, h.remaining_eq.2]
    by_cases hend : frame.length - r.position = 0
    · rw [if_pos hend]
      exact iff_of_true rfl (by omega)
    · rw [if_neg hend]
      exact iff_of_false (by simp) (by omega)

end

/-- **Fields are exact in any order.** Any values can be written under any opcode: a text with a NUL
character is refused and leaves the frame as it was, each other value adds its own bytes, and from a
frame that is not too large the values that were taken are read back, in order and without a byte
left.

On any frame but the empty one, which has no opcode, any script of reads keeps to the bytes between
the opcode and the end: a read that finds a value passes over at least one byte, one that finds none
stays, and the reading can be ended just where the frame ends. Done in place, both come to the
same. -/
theorem fields_exact :
    (∀ opcode vs, ∃ outcomes w, attemptAll Writer.attempt ⟨opcode, []⟩ vs = (outcomes, w) ∧
      attemptAll Writer.write ⟨opcode, []⟩ vs = (outcomes, w) ∧ WrittenOut opcode vs outcomes w) ∧
    (∀ opcode body ks, ∃ r outcomes s c, Reader.start (opcode :: body) = .ok r ∧
      attemptAll Reader.attempt r ks = (outcomes, s) ∧
      attemptAll Cursor.read ⟨opcode :: body, 1⟩ ks = (outcomes, c) ∧
      Underway opcode (opcode :: body) s c) ∧
    Reader.start [] = .error (.malformed .empty) := by
  refine ⟨?_, ?_, rfl⟩
  · intro opcode vs
    have hattempts := Writer.attemptAll_attempt ⟨opcode, []⟩ vs
    have hsame : Writer.write = Writer.attempt := funext fun w => funext w.write_eq_attempt
    exact ⟨_, _, hattempts, hsame ▸ hattempts, writtenOut opcode vs⟩
  · intro opcode body ks
    have hstart : Abreast opcode (opcode :: body) ⟨opcode, 1, body⟩ ⟨opcode :: body, 1⟩ :=
      ⟨rfl, rfl, Nat.le_refl 1, by simp⟩
    obtain ⟨houtcomes, habreast⟩ := hstart.script ks
    exact ⟨_, _, _, _, rfl, Prod.ext houtcomes rfl, rfl, habreast.underway⟩

/-- The fields after a refused text are written where it would have been. -/
example :
    attemptAll Writer.attempt ⟨0x88, []⟩
        [⟨.byte, (5 : UInt8)⟩, ⟨.text, "a\x00b"⟩, ⟨.coordinate, (-2 : Int16)⟩] =
      ([.ok (), .error .embeddedNul, .ok ()], ⟨0x88, [5, 0xfe, 0xff]⟩) := by rfl

end TileRoom.Wire

import TileRoom.Message.Client
import TileRoom.Message.Server
import TileRoom.Proofs.Wire.Field

/-!
# Messages as frames, in both directions

`encode_eq` says what becomes of any message of any format, `decode_layout` that a frame gives its
message back. What a format must satisfy for that is `LawfulFormat`, and both message types do.

`ClientMessage.written` and `ServerMessage.written` spell out the frame of every message, byte by
byte and without the formats. `frames_exact` joins everything: which messages have a frame, which
frame that is, and that it is read back.
-/

namespace TileRoom.Wire

/-! ## Any format -/

/-- A writer takes a list of values if it takes each of them. -/
theorem putAll_eq (w : Writer) (vs : List Value) :
    w.putAll vs =
      if ∀ v ∈ vs, v.isWritable then .ok { w with body := w.body ++ vs.flatMap Value.layout }
      else .error .embeddedNul := by
  induction vs generalizing w with
  | nil => simp [Writer.putAll]
  | cons v vs ih =>
      by_cases hv : v.isWritable
      · simp [Writer.putAll, Writer.put, hv, ih, bind, Except.bind]
      · simp [Writer.putAll, Writer.put, hv, bind, Except.bind]

section
variable {M : Type} [Format M]

/-- A text that has no place on the wire comes before a size that has none. -/
theorem encode_eq (m : M) :
    encode m =
      if ∀ v ∈ values m, v.isWritable then
        if maxFrame < (layout m).length then .error (.tooLarge ⟨(layout m).length, maxFrame⟩)
        else .ok (layout m)
      else .error .embeddedNul := by
  unfold encode
  rw [putAll_eq]
  split <;> simp [bind, Except.bind, Writer.finish, Writer.bytes, layout]

theorem encode_eq_ok_iff {m : M} {frame : List UInt8} :
    encode m = .ok frame ↔
      frame = layout m ∧ (∀ v ∈ values m, v.isWritable) ∧ (layout m).length ≤ maxFrame := by
  rw [encode_eq]
  split
  case isTrue hw =>
    split
    case isTrue hlarge =>
      simp only [reduceCtorEq, false_iff]
      exact fun h => Nat.not_lt.mpr h.2.2 hlarge
    case isFalse hfits =>
      simp only [Except.ok.injEq, @eq_comm _ (layout m)]
      exact ⟨fun h => ⟨h, hw, Nat.not_lt.mp hfits⟩, fun h => h.1⟩
  case isFalse hw =>
    simp only [reduceCtorEq, false_iff]
    exact fun h => hw h.2.1

/-- A frame that was written is the layout of its message. -/
theorem layout_of_encode {m : M} {frame : List UInt8} (h : encode m = .ok frame) :
    frame = layout m :=
  (encode_eq_ok_iff.mp h).1

end

/-- A format whose opcodes tell the tags apart and whose rows hold all of a message. -/
class LawfulFormat (M : Type) [Format M] : Prop where
  tag?_opcode (m : M) : tag? M (opcode m) = some (Format.tag m)
  build_row (m : M) : Format.build (Format.tag m) (Format.row m) = m

/-- A message is read back from its layout. -/
theorem decode_layout {M : Type} [Format M] [LawfulFormat M] (m : M)
    (h : ∀ v ∈ values m, v.isWritable) : decode M (layout m) = .ok m := by
  have hrow := readRow_layout (opcode m) 1 [] (Format.row m) h
  rw [List.append_nil] at hrow
  unfold decode layout values
  simp [Reader.start, LawfulFormat.tag?_opcode, hrow, bind, Except.bind, Reader.finish,
    Reader.remaining, pure, Except.pure, LawfulFormat.build_row]

instance : LawfulFormat ClientMessage where
  tag?_opcode m := by cases m <;> rfl
  build_row m := by cases m <;> rfl

instance : LawfulFormat ServerMessage where
  tag?_opcode m := by cases m <;> rfl
  build_row m := by cases m <;> rfl

/-! ## The frames spelled out -/

/-- Two bytes, the low one first. -/
def twoBytes (n : UInt16) : List UInt8 :=
  [n.toUInt8, (n >>> 8).toUInt8]

/-- Eight bytes, the lowest first. -/
def eightBytes (n : UInt64) : List UInt8 :=
  [n.toUInt8, (n >>> 8).toUInt8, (n >>> 16).toUInt8, (n >>> 24).toUInt8,
    (n >>> 32).toUInt8, (n >>> 40).toUInt8, (n >>> 48).toUInt8, (n >>> 56).toUInt8]

/-- The UTF-8 bytes of a text and a zero. -/
def zeroTerminated (s : String) : List UInt8 :=
  s.toUTF8.data.toList ++ [0]

end TileRoom.Wire

namespace TileRoom

open Wire

/-- What a client's message is on the wire. -/
def ClientMessage.written : ClientMessage → List UInt8
  | newPlayer room name => [0x80] ++ zeroTerminated room ++ zeroTerminated name
  | reconnect person last => [0x81] ++ eightBytes person.value ++ twoBytes last
  | keepAlive => [0x83]
  | leave => [0x84]
  | sendMessage text => [0x85] ++ zeroTerminated text
  | startTyping => [0x86]
  | stopTyping => [0x87]
  | moveTile tile x y => [0x88, tile] ++ twoBytes x.toUInt16 ++ twoBytes y.toUInt16
  | turn => [0x89]
  | shout => [0x8a]
  | setTileCapacity tiles => [0x8b, tiles]
  | joinConversation conversation name =>
    [0x8d] ++ eightBytes conversation.value ++ zeroTerminated name

/-- What a server's message is on the wire. -/
def ServerMessage.written : ServerMessage → List UInt8
  | playerId person player => [0x00] ++ eightBytes person.value ++ [player]
  | message player text => [0x01, player] ++ zeroTerminated text
  | tileCapacity tiles => [0x02, tiles]
  | tile num x y letter lastMover =>
    [0x03, num] ++ twoBytes x.toUInt16 ++ twoBytes y.toUInt16 ++ zeroTerminated letter ++
      [lastMover]
  | playerName player name => [0x04, player] ++ zeroTerminated name
  | playerFlags player flags => [0x05, player, flags.bits]
  | playerShouted player => [0x06, player]
  | sync => [0x07]
  | sessionEnd => [0x08]
  | badPlayerId => [0x09]
  | conversationId conversation => [0x0a] ++ eightBytes conversation.value
  | badConversationId => [0x0b]
  | conversationFull => [0x0d]

/-- The texts in a client's message. -/
def ClientMessage.texts : ClientMessage → List String
  | newPlayer room name => [room, name]
  | sendMessage text => [text]
  | joinConversation _ name => [name]
  | _ => []

/-- The texts in a server's message. -/
def ServerMessage.texts : ServerMessage → List String
  | message _ text => [text]
  | tile _ _ _ letter _ => [letter]
  | playerName _ name => [name]
  | _ => []

namespace Wire

theorem layout_text (s : String) : Value.layout ⟨.text, s⟩ = zeroTerminated s := by
  rw [Value.layout, Kind.layout, Utf8.encode_eq_toUTF8, zeroTerminated]

theorem layout_sequence (n : UInt16) : Value.layout ⟨.sequence, n⟩ = twoBytes n :=
  littleEndian_two n

theorem layout_coordinate (n : Int16) : Value.layout ⟨.coordinate, n⟩ = twoBytes n.toUInt16 :=
  littleEndian_two n.toUInt16

theorem layout_id (n : UInt64) : Value.layout ⟨.id, n⟩ = eightBytes n :=
  littleEndian_eight n

theorem layout_byte (n : UInt8) : Value.layout ⟨.byte, n⟩ = [n] :=
  rfl

end Wire

/-- The fields of a client's message with their kinds. -/
def ClientMessage.fields : ClientMessage → List Value
  | newPlayer room name => [⟨.text, room⟩, ⟨.text, name⟩]
  | reconnect person last => [⟨.id, person.value⟩, ⟨.sequence, last⟩]
  | sendMessage text => [⟨.text, text⟩]
  | moveTile tile x y => [⟨.byte, tile⟩, ⟨.coordinate, x⟩, ⟨.coordinate, y⟩]
  | setTileCapacity tiles => [⟨.byte, tiles⟩]
  | joinConversation conversation name => [⟨.id, conversation.value⟩, ⟨.text, name⟩]
  | keepAlive | leave | startTyping | stopTyping | turn | shout => []

/-- The fields of a server's message with their kinds. -/
def ServerMessage.fields : ServerMessage → List Value
  | playerId person player => [⟨.id, person.value⟩, ⟨.byte, player⟩]
  | message player text => [⟨.byte, player⟩, ⟨.text, text⟩]
  | tileCapacity tiles => [⟨.byte, tiles⟩]
  | tile num x y letter lastMover =>
    [⟨.byte, num⟩, ⟨.coordinate, x⟩, ⟨.coordinate, y⟩, ⟨.text, letter⟩, ⟨.byte, lastMover⟩]
  | playerName player name => [⟨.byte, player⟩, ⟨.text, name⟩]
  | playerFlags player flags => [⟨.byte, player⟩, ⟨.byte, flags.bits⟩]
  | playerShouted player => [⟨.byte, player⟩]
  | conversationId conversation => [⟨.id, conversation.value⟩]
  | sync | sessionEnd | badPlayerId | badConversationId | conversationFull => []

theorem ClientMessage.values_eq_fields (m : ClientMessage) : values m = m.fields := by
  cases m <;> rfl

theorem ServerMessage.values_eq_fields (m : ServerMessage) : values m = m.fields := by
  cases m <;> rfl

theorem ClientMessage.layout_eq_written (m : ClientMessage) : layout m = m.written := by
  rw [layout, values_eq_fields]
  cases m <;>
    simp [fields, written, layout_text, layout_sequence, layout_coordinate, layout_id,
      layout_byte] <;> rfl

theorem ServerMessage.layout_eq_written (m : ServerMessage) : layout m = m.written := by
  rw [layout, values_eq_fields]
  cases m <;>
    simp [fields, written, layout_text, layout_coordinate, layout_id, layout_byte] <;> rfl

theorem ClientMessage.writable_iff (m : ClientMessage) :
    (∀ v ∈ values m, v.isWritable) ↔ ∀ s ∈ m.texts, '\x00' ∉ s.toList := by
  rw [values_eq_fields]
  cases m <;> simp [fields, texts, hasNul_eq_false_iff, Value.isWritable]

theorem ServerMessage.writable_iff (m : ServerMessage) :
    (∀ v ∈ values m, v.isWritable) ↔ ∀ s ∈ m.texts, '\x00' ∉ s.toList := by
  rw [values_eq_fields]
  cases m <;> simp [fields, texts, hasNul_eq_false_iff, Value.isWritable]

/-! ## Which messages have a frame -/

/-- What is known about the frame of a message that holds `texts`, if it is to be `bytes`. -/
structure Wire.Framed {M : Type} [Wire.Format M] (texts : List String) (bytes : List UInt8)
    (m : M) : Prop where
  /-- A NUL character in a text is refused, whatever else is wrong. -/
  embeddedNul : encode m = .error .embeddedNul ↔ ∃ s ∈ texts, '\x00' ∈ s.toList
  /-- Without one, too many bytes are refused. -/
  tooLarge : (∀ s ∈ texts, '\x00' ∉ s.toList) →
    (encode m = .error (.tooLarge ⟨bytes.length, 1024⟩) ↔ 1024 < bytes.length)
  /-- All else is written, and read back. -/
  fits : (∀ s ∈ texts, '\x00' ∉ s.toList) → bytes.length ≤ 1024 →
    encode m = .ok bytes ∧ bytes.head? = some (opcode m) ∧ decode M bytes = .ok m

theorem Wire.framed_of_layout {M : Type} [Wire.Format M] [LawfulFormat M] {texts : List String}
    {bytes : List UInt8} {m : M} (hbytes : layout m = bytes)
    (htexts : (∀ v ∈ values m, v.isWritable) ↔ ∀ s ∈ texts, '\x00' ∉ s.toList) :
    Wire.Framed texts bytes m := by
  subst hbytes
  constructor
  case embeddedNul =>
    rw [encode_eq]
    by_cases h : ∃ s ∈ texts, '\x00' ∈ s.toList
    · have hw : ¬ ∀ v ∈ values m, v.isWritable := by
        intro hw
        obtain ⟨s, hs, hnul⟩ := h
        exact htexts.mp hw s hs hnul
      rw [if_neg hw]
      exact iff_of_true rfl h
    · have hw : ∀ v ∈ values m, v.isWritable :=
        htexts.mpr fun s hs hnul => h ⟨s, hs, hnul⟩
      rw [if_pos hw]
      refine iff_of_false ?_ h
      intro he
      split at he <;> cases he
  case tooLarge =>
    intro h
    rw [encode_eq, if_pos (htexts.mpr h)]
    by_cases hsize : maxFrame < (layout m).length
    · rw [if_pos hsize]
      exact iff_of_true rfl hsize
    · rw [if_neg hsize]
      exact iff_of_false (by simp) hsize
  case fits =>
    intro h hsize
    have hw := htexts.mpr h
    have hlarge : ¬ maxFrame < (layout m).length := Nat.not_lt.mpr hsize
    refine ⟨?_, rfl, decode_layout m hw⟩
    rw [encode_eq, if_pos hw, if_neg hlarge]

/-- **Frames are exact.** For every message of either side: it has a frame unless a text holds a
NUL character or the frame would be larger than 1024 bytes, in this order; the frame is the one
spelled out, starts with the opcode, and is read back as the message. -/
theorem frames_exact :
    (∀ m : ClientMessage, Wire.Framed m.texts m.written m) ∧
      ∀ m : ServerMessage, Wire.Framed m.texts m.written m :=
  ⟨fun m => framed_of_layout m.layout_eq_written m.writable_iff,
    fun m => framed_of_layout m.layout_eq_written m.writable_iff⟩

end TileRoom

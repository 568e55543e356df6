import TileRoom.Client.Config
import TileRoom.Client.Request
import TileRoom.Proofs.Truncation
import TileRoom.Proofs.Wire.Frame

/-!
# What fits into a frame

Names and chats are cut to a number of bytes before they are sent. The limits leave room for the
rest of the largest message they stand in, so every message whose texts keep to them has a frame
(`ClientMessage.Fits.encodes`).
-/

namespace TileRoom

/-! ## Texts -/

namespace Text

/-- A text that has a place in a field of at most `max` bytes. -/
structure Fits (max : Nat) (s : String) : Prop where
  size : byteSize s.toList ≤ max
  writable : '\x00' ∉ s.toList

theorem truncate_fits {s : String} (h : '\x00' ∉ s.toList) (max : Nat) :
    Fits max (truncate s max) where
  size := by
    rw [truncate, String.toList_ofList]
    exact byteSize_fit_le max s.toList
  writable := by
    rw [truncate, String.toList_ofList]
    exact fun hnul => h ((fit_isPrefix max s.toList).subset hnul)

theorem nul_not_mem_withoutNul (s : String) : '\x00' ∉ (withoutNul s).toList := by
  rw [withoutNul, String.toList_ofList]
  simp

end Text

theorem ClientConfig.fitName_fits (s : String) : Text.Fits maxName (fitName s) :=
  Text.truncate_fits (Text.nul_not_mem_withoutNul s) maxName

/-- A chat that is admitted has been cut to size. -/
theorem Request.fits_of_admit {q : Request} {text : String}
    (h : q.admit = .ok (.sendMessage text)) : Text.Fits maxChat text := by
  unfold Request.admit at h
  cases q with
  | sendMessage given =>
      cases hnul : Wire.hasNul given with
      | true =>
          simp only [hnul, if_true] at h
          cases h
      | false =>
          simp only [hnul, Bool.false_eq_true, if_false] at h
          cases h
          exact Text.truncate_fits ((Wire.hasNul_eq_false_iff given).mp hnul) maxChat
  | setTileCapacity tiles =>
      cases hcheck : Board.checkTileCapacity tiles <;> simp only [hcheck] at h <;> cases h
  | _ => cases h

/-! ## Messages -/

theorem Wire.length_zeroTerminated (s : String) :
    (Wire.zeroTerminated s).length = Text.byteSize s.toList + 1 := by
  rw [Wire.zeroTerminated, ← Utf8.encode_eq_toUTF8, List.length_append]
  rfl

namespace ClientMessage

/-- The texts of a message keep to their limits. -/
def Fits : ClientMessage → Prop
  | newPlayer room playerName => Text.Fits maxName room ∧ Text.Fits maxName playerName
  | joinConversation _ playerName => Text.Fits maxName playerName
  | sendMessage text => Text.Fits maxChat text
  | _ => True

/-- A message has a frame that is not too large. -/
def Encodes (m : ClientMessage) : Prop :=
  ∃ frame, Wire.encode m = .ok frame ∧ frame.length ≤ Wire.maxFrame

theorem Fits.length_written {m : ClientMessage} (h : m.Fits) : m.written.length ≤ 1024 := by
  cases m with
  | newPlayer room playerName =>
      obtain ⟨hroom, hname⟩ := h
      have hroom := hroom.size
      have hname := hname.size
      simp only [written, List.length_append, Wire.length_zeroTerminated, List.length_singleton]
      unfold maxName at hroom hname
      omega
  | joinConversation conversation playerName =>
      have hname := h.size
      simp only [written, List.length_append, Wire.length_zeroTerminated, Wire.eightBytes,
        List.length_cons, List.length_nil]
      unfold maxName at hname
      omega
  | sendMessage text =>
      have htext := h.size
      simp only [written, List.length_append, Wire.length_zeroTerminated, List.length_singleton]
      unfold maxChat at htext
      omega
  | _ => simp [written, Wire.twoBytes, Wire.eightBytes]

theorem Fits.writable {m : ClientMessage} (h : m.Fits) : ∀ s ∈ m.texts, '\x00' ∉ s.toList := by
  cases m with
  | newPlayer room playerName =>
      intro s hs
      simp only [texts, List.mem_cons, List.not_mem_nil, or_false] at hs
      rcases hs with rfl | rfl
      · exact h.1.writable
      · exact h.2.writable
  | joinConversation conversation playerName =>
      intro s hs
      rw [List.mem_singleton.mp hs]
      exact Text.Fits.writable h
  | sendMessage text =>
      intro s hs
      rw [List.mem_singleton.mp hs]
      exact Text.Fits.writable h
  | _ => simp [texts]

theorem Fits.encodes {m : ClientMessage} (h : m.Fits) : m.Encodes := by
  have hframed := Wire.framed_of_layout m.layout_eq_written m.writable_iff
  obtain ⟨hencode, _⟩ := hframed.fits h.writable h.length_written
  exact ⟨_, hencode, h.length_written⟩

end ClientMessage

end TileRoom

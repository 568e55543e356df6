import Mathlib.Data.List.TakeWhile
import TileRoom.Proofs.Wire.Frame

/-!
# Frames that are cut short or run together

There are no lengths on the wire, so the end of a frame is where its fields end. Each field takes a
number of bytes that is settled by what was read before: a cut anywhere in it leaves too few bytes
or no terminator (`read_cut`), and so does a cut anywhere in a row (`readRow_cut`). What follows the
last field is left over. `frames_prefix_free` says what this means for the messages of either side.
-/

namespace TileRoom.Wire

/-- Whether a malformation means that bytes are missing at the end. -/
def Malformation.isCut : Malformation → Bool
  | .truncated .. | .unterminated => true
  | _ => false

section
variable {opcode : UInt8} {position : Nat} {bs : List UInt8}

/-! ## Fields -/

/-- A number whose bytes break off is not read, whatever it stands for. -/
theorem number_cut {α : Type} {width : Nat} (value : Nat → α) (h : bs.length < width) :
    (do let (n, r) ← (Reader.mk opcode position bs).number width; return (value n, r)) =
      Except.error (.malformed (.truncated width position bs.length)) := by
  unfold Reader.number Reader.take
  rw [if_pos (show (Reader.mk opcode position bs).remaining < width from h)]
  rfl

theorem text_cut (h : 0 ∉ bs) :
    (Reader.mk opcode position bs).text = .error (.malformed .unterminated) := by
  have hall : bs.takeWhile (· ≠ 0) = bs := by
    rw [List.takeWhile_eq_self_iff]
    intro b hb
    simp only [ne_eq, decide_not, Bool.not_eq_true', decide_eq_false_iff_not]
    rintro rfl
    exact h hb
  unfold Reader.text
  simp only [hall, Reader.remaining, if_true]

/-- A value whose bytes break off is not read. -/
theorem read_cut (opcode : UInt8) (position : Nat) {v : Value} (hv : v.isWritable)
    (hbegin : bs <+: v.layout) (hcut : bs ≠ v.layout) :
    ∃ d, d.isCut = true ∧
      (Reader.mk opcode position bs).read v.kind = .error (.malformed d) := by
  have hshort : bs.length < v.layout.length :=
    Nat.lt_of_le_of_ne hbegin.length_le fun heq => hcut (hbegin.eq_of_length heq)
  obtain ⟨kind, data⟩ := v
  cases kind with
  | text =>
      -- the only zero byte of a text is its terminator, and that is what is cut off
      have hnul : '\x00' ∉ data.toList :=
        (hasNul_eq_false_iff data).mp (by simpa [Value.isWritable] using hv)
      have hbody : bs <+: Utf8.encode data := (List.prefix_concat_iff.mp hbegin).resolve_left hcut
      have hzero : 0 ∉ bs := fun hz => hnul ((Utf8.zero_mem_encode data).mp (hbody.subset hz))
      exact ⟨_, rfl, text_cut hzero⟩
  | byte => exact ⟨_, rfl, number_cut UInt8.ofNat hshort⟩
  | sequence => exact ⟨_, rfl, number_cut UInt16.ofNat hshort⟩
  | coordinate => exact ⟨_, rfl, number_cut (fun n => (UInt16.ofNat n).toInt16) hshort⟩
  | id => exact ⟨_, rfl, number_cut UInt64.ofNat hshort⟩

end

/-! ## Rows -/

/-- A row of values whose bytes break off is not read. -/
theorem readRow_cut (opcode : UInt8) (position : Nat) :
    {kinds : List Kind} → (row : Row kinds) → (∀ v ∈ row.values, v.isWritable) →
    {bs : List UInt8} → bs <+: row.values.flatMap Value.layout →
    bs ≠ row.values.flatMap Value.layout →
    ∃ d, d.isCut = true ∧
      (Reader.mk opcode position bs).readRow kinds = .error (.malformed d)
  | [], (), _, _, hbegin, hcut => absurd (List.prefix_nil.mp hbegin) hcut
  | kind :: kinds, (data, row), h, bs, hbegin, hcut => by
      have hv := h ⟨kind, data⟩ (by simp [Row.values])
      have hrow : ∀ v ∈ row.values, v.isWritable := fun v hv => h v (by simp [Row.values, hv])
      simp only [Row.values, List.flatMap_cons] at hbegin hcut
      -- the bytes break off in the first value or behind it
      by_cases hfirst : (Value.mk kind data).layout <+: bs
      · obtain ⟨rest, rfl⟩ := hfirst
        have hrest := (List.prefix_append_right_inj _).mp hbegin
        obtain ⟨d, hd, hread⟩ := readRow_cut opcode
          (position + (Value.mk kind data).layout.length) row hrow hrest fun heq => hcut (by rw [heq])
        refine ⟨d, hd, ?_⟩
        rw [Reader.readRow, read_layout ⟨kind, data⟩ hv]
        simp only [bind, Except.bind]
        rw [hread]
      · have hbegun : bs <+: (Value.mk kind data).layout :=
          (List.prefix_or_prefix_of_prefix hbegin (List.prefix_append _ _)).resolve_right hfirst
        have hne : bs ≠ (Value.mk kind data).layout := fun heq => hfirst (heq ▸ List.prefix_refl bs)
        obtain ⟨d, hd, hread⟩ := read_cut opcode position hv hbegun hne
        refine ⟨d, hd, ?_⟩
        rw [Reader.readRow, hread]
        rfl

/-! ## Frames -/

section
variable {M : Type} [Format M] [LawfulFormat M] {m : M} {p s : List UInt8}

/-- A frame that breaks off behind its opcode is not read. -/
theorem decode_cut (h : ∀ v ∈ values m, v.isWritable) (hbegin : p <+: layout m) (hsome : p ≠ [])
    (hcut : p ≠ layout m) : ∃ d, d.isCut = true ∧ decode M p = .error (.malformed d) := by
  rw [layout, List.prefix_cons_iff] at hbegin
  obtain ⟨bs, rfl, hbs⟩ := hbegin.resolve_left hsome
  obtain ⟨d, hd, hread⟩ := readRow_cut (opcode m) 1 (Format.row m) h hbs fun heq =>
    hcut (congrArg (opcode m :: ·) heq)
  refine ⟨d, hd, ?_⟩
  simp [decode, Reader.start, LawfulFormat.tag?_opcode, hread, bind, Except.bind]

/-- What follows a frame is left over. -/
theorem decode_glued (h : ∀ v ∈ values m, v.isWritable) (hsome : s ≠ []) :
    decode M (layout m ++ s) = .error (.malformed (.trailing s.length)) := by
  have hrow := readRow_layout (opcode m) 1 s (Format.row m) h
  unfold decode layout values
  simp [Reader.start, LawfulFormat.tag?_opcode, hrow, bind, Except.bind, Reader.finish,
    Reader.remaining, hsome]

end

/-- What becomes of the frames of a message type when they lose their ends or run together. -/
structure PrefixFree (M : Type) [Format M] : Prop where
  /-- A frame that breaks off is malformed, for want of the bytes that are missing. -/
  cut : ∀ (m : M) (b p : List UInt8), encode m = .ok b → p <+: b → p ≠ [] → p ≠ b →
    ∃ d, d.isCut = true ∧ decode M p = .error (.malformed d)
  /-- A frame that something follows is malformed, for the bytes that are too many. -/
  glued : ∀ (m : M) (b s : List UInt8), encode m = .ok b → s ≠ [] →
    decode M (b ++ s) = .error (.malformed (.trailing s.length))
  /-- No frame is the beginning of another. -/
  apart : ∀ (m n : M) (b c : List UInt8), encode m = .ok b → encode n = .ok c → b <+: c → m = n

theorem prefixFree_of_lawful (M : Type) [Format M] [LawfulFormat M] : PrefixFree M where
  cut m b p hm hbegin hsome hcut := by
    obtain ⟨rfl, hw, -⟩ := encode_eq_ok_iff.mp hm
    exact decode_cut hw hbegin hsome hcut
  glued m b s hm hsome := by
    obtain ⟨rfl, hw, -⟩ := encode_eq_ok_iff.mp hm
    exact decode_glued hw hsome
  apart m n b c hm hn hbegin := by
    obtain ⟨rfl, hmw, -⟩ := encode_eq_ok_iff.mp hm
    obtain ⟨rfl, hnw, -⟩ := encode_eq_ok_iff.mp hn
    have hread := decode_layout m hmw
    by_cases heq : layout m = layout n
    · rw [heq, decode_layout n hnw] at hread
      exact (Except.ok.inj hread).symm
    · obtain ⟨d, -, hfault⟩ := decode_cut hnw hbegin (by simp [layout]) heq
      rw [hread] at hfault
      cases hfault

end TileRoom.Wire

namespace TileRoom

open Wire

/-- **Frames are prefix-free.** A frame of either side that loses its end behind the opcode, or that
anything follows, is malformed: it is never a message and never of an unknown opcode. So no frame is
the beginning of the frame of another message. -/
theorem frames_prefix_free : PrefixFree ClientMessage ∧ PrefixFree ServerMessage :=
  ⟨prefixFree_of_lawful ClientMessage, prefixFree_of_lawful ServerMessage⟩

/-- The frame of a chat that is cut in the middle of a letter, or that a farewell follows. -/
theorem frames_prefix_free_chat :
    let chat : ClientMessage := .sendMessage "aŝ"
    let frame : List UInt8 := [0x85, 0x61, 0xc5, 0x9d, 0x00]
    encode chat = .ok frame ∧ encode ClientMessage.leave = .ok [0x84] ∧
      (∃ d, d.isCut = true ∧ decode ClientMessage [0x85, 0x61, 0xc5] = .error (.malformed d)) ∧
      decode ClientMessage (frame ++ [0x84]) = .error (.malformed (.trailing 1)) ∧
      ¬ [0x84] <+: frame := by
  intro chat frame
  obtain ⟨⟨hcut, hglued, hapart⟩, -⟩ := frames_prefix_free
  have hchat : encode chat = .ok frame := by decide +kernel
  have hleave : encode ClientMessage.leave = .ok [0x84] := by decide +kernel
  refine ⟨hchat, hleave, hcut chat frame _ hchat (by decide) (by decide) (by decide),
    hglued chat frame _ hchat (by decide), fun hbegin => ?_⟩
  have hsame : ClientMessage.leave = .sendMessage "aŝ" := hapart _ _ _ _ hleave hchat hbegin
  cases hsame

end TileRoom

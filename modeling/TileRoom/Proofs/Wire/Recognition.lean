import TileRoom.Proofs.Wire.Frame

/-!
# Which byte strings are frames

`decode_cases` lists the three ways in which reading a frame can end: it is the layout of a
message, its first byte is no opcode, or it is malformed. With `decode_layout` this settles what is
accepted and why all else is refused. `frames_recognized` says so of both sides, with the frames
spelled out.

A reading that succeeds hands back a message that was built of the row it read, so the formats have
to keep the row (`FullFormat`).
-/

namespace TileRoom.Wire

/-! ## Any format -/

/-- A format in which a message can be made of any row of the right kinds. -/
class FullFormat (M : Type) [Format M] : Prop extends LawfulFormat M where
  opcode_build (t : Format.Tag M) (row : Row (Format.kinds t)) :
    opcode (Format.build t row) = Format.opcode t
  values_build (t : Format.Tag M) (row : Row (Format.kinds t)) :
    values (Format.build t row) = row.values

instance : FullFormat ClientMessage where
  opcode_build t row := by cases t <;> rfl
  values_build t row := by cases t <;> rfl

instance : FullFormat ServerMessage where
  opcode_build t row := by cases t <;> rfl
  values_build t row := by cases t <;> rfl

theorem nonempty_row : (kinds : List Kind) → Nonempty (Row kinds)
  | [] => ⟨()⟩
  | kind :: kinds => by
      obtain ⟨row⟩ := nonempty_row kinds
      have v : kind.Carrier := by
        cases kind with
        | text => exact ""
        | byte => exact (0 : UInt8)
        | sequence => exact (0 : UInt16)
        | coordinate => exact (0 : Int16)
        | id => exact (0 : UInt64)
      exact ⟨(v, row)⟩

theorem opcode_of_tag? {M : Type} [Format M] {op : UInt8} {t : Format.Tag M}
    (h : tag? M op = some t) : Format.opcode t = op := by
  simpa using List.find?_some h

section
variable {M : Type} [Format M] [FullFormat M]

theorem exists_opcode {op : UInt8} {t : Format.Tag M} (h : tag? M op = some t) :
    ∃ m : M, opcode m = op := by
  obtain ⟨row⟩ := nonempty_row (Format.kinds t)
  exact ⟨Format.build t row, by rw [FullFormat.opcode_build, opcode_of_tag? h]⟩

/-- An opcode stands for a tag if a message has it. -/
theorem tag?_eq_none_iff (op : UInt8) : tag? M op = none ↔ ∀ m : M, opcode m ≠ op := by
  constructor
  · rintro hnone m rfl
    rw [LawfulFormat.tag?_opcode] at hnone
    cases hnone
  · intro hother
    cases htag : tag? M op with
    | none => rfl
    | some t =>
        obtain ⟨m, hm⟩ := exists_opcode htag
        exact absurd hm (hother m)

/-- How reading a frame can end. -/
inductive Decoding (M : Type) [Format M] (b : List UInt8) : Except WireError M → Prop
  | read (m : M) (hb : b = layout m) (hm : ∀ v ∈ values m, v.isWritable) : Decoding M b (.ok m)
  | unknown (op : UInt8) (rest : List UInt8) (hb : b = op :: rest) (hop : ∀ m : M, opcode m ≠ op) :
      Decoding M b (.error (.unknownOpcode op))
  | malformed (d : Malformation) (hop : ∀ op rest, b = op :: rest → ∃ m : M, opcode m = op) :
      Decoding M b (.error (.malformed d))

theorem decode_cases (b : List UInt8) : Decoding M b (decode M b) := by
  cases b with
  | nil => exact .malformed _ (by simp)
  | cons op rest =>
      simp only [decode, Reader.start, bind, Except.bind]
      cases htag : tag? M op with
      | none => exact .unknown op rest rfl ((tag?_eq_none_iff op).mp htag)
      | some t =>
          have hknown : ∀ op' rest', op :: rest = op' :: rest' → ∃ m : M, opcode m = op' := by
            rintro _ _ ⟨⟩
            exact exists_opcode htag
          have hrow := readRow_cases ⟨op, 1, rest⟩ (Format.kinds t)
          simp only
          generalize Reader.readRow ⟨op, 1, rest⟩ (Format.kinds t) = result at hrow ⊢
          cases hrow with
          | malformed d => exact .malformed d hknown
          | read row r' hwritable hrest =>
              rcases finish_cases r' with ⟨hend, hfinish⟩ | ⟨d, hfinish⟩
              · simp only [hfinish]
                rw [hend, List.append_nil] at hrest
                refine .read _ ?_ ?_
                · rw [layout, FullFormat.opcode_build, FullFormat.values_build,
                    opcode_of_tag? htag]
                  exact congrArg (op :: ·) hrest
                · rw [FullFormat.values_build]
                  exact hwritable
              · simp only [hfinish]
                exact .malformed d hknown

end

end TileRoom.Wire

namespace TileRoom

open Wire

/-- How frames are told from other byte strings, if `written m` is to be the frame of `m` and
`texts m` are the texts in it. -/
structure Wire.Recognized (M : Type) [Wire.Format M] (texts : M → List String)
    (written : M → List UInt8) : Prop where
  /-- What is read is exactly what is written. -/
  ok_iff : ∀ b m, decode M b = .ok m ↔ b = written m ∧ ∀ s ∈ texts m, '\x00' ∉ s.toList
  /-- No message is read from two byte strings. -/
  unique : ∀ b c m, decode M b = .ok m → decode M c = .ok m → b = c
  /-- What was read is written as it was, if it is not too large for that. -/
  encode_of_ok : ∀ b m, decode M b = .ok m →
    encode m = if b.length ≤ 1024 then .ok b else .error (.tooLarge ⟨b.length, 1024⟩)
  /-- The first byte alone makes an opcode unknown. -/
  unknownOpcode_iff : ∀ b op, decode M b = .error (.unknownOpcode op) ↔
    ∃ rest, b = op :: rest ∧ ∀ m, (written m).head? ≠ some op
  /-- All else that is no frame is malformed. -/
  malformed_iff : ∀ b, (∃ d, decode M b = .error (.malformed d)) ↔
    (¬ ∃ m, b = written m ∧ ∀ s ∈ texts m, '\x00' ∉ s.toList) ∧
      ¬ ∃ op rest, b = op :: rest ∧ ∀ m, (written m).head? ≠ some op
  /-- The faults of writing are no faults of reading. -/
  no_writing_fault : ∀ b, decode M b ≠ .error .embeddedNul ∧
    ∀ size, decode M b ≠ .error (.tooLarge size)

section
variable {M : Type} [Wire.Format M] [FullFormat M] {texts : M → List String}
  {written : M → List UInt8}

theorem Wire.recognized_of_layout (hwritten : ∀ m : M, layout m = written m)
    (htexts : ∀ m : M, (∀ v ∈ values m, v.isWritable) ↔ ∀ s ∈ texts m, '\x00' ∉ s.toList) :
    Wire.Recognized M texts written := by
  have hok (b : List UInt8) (m : M) :
      decode M b = .ok m ↔ b = written m ∧ ∀ s ∈ texts m, '\x00' ∉ s.toList := by
    rw [← htexts, ← hwritten]
    constructor
    · intro hread
      have hcases := decode_cases (M := M) b
      rw [hread] at hcases
      cases hcases with
      | read _ hb hm => exact ⟨hb, hm⟩
    · rintro ⟨rfl, hm⟩
      exact decode_layout m hm
  have hhead (m : M) (op : UInt8) : (written m).head? ≠ some op ↔ opcode m ≠ op := by
    rw [← hwritten, layout, List.head?_cons, ne_eq, Option.some.injEq]
  have hunknown (b : List UInt8) (op : UInt8) : decode M b = .error (.unknownOpcode op) ↔
      ∃ rest, b = op :: rest ∧ ∀ m, (written m).head? ≠ some op := by
    simp only [hhead]
    have hcases := decode_cases (M := M) b
    constructor
    · intro hread
      rw [hread] at hcases
      cases hcases with
      | unknown _ rest hb hop => exact ⟨rest, hb, hop⟩
    · rintro ⟨rest, rfl, hop⟩
      generalize decode M (op :: rest) = result at hcases ⊢
      cases hcases with
      | read m hb _ => exact absurd (List.cons.inj hb).1.symm (hop m)
      | unknown op' rest' hb _ => rw [(List.cons.inj hb).1]
      | malformed d hknown =>
          obtain ⟨m, hm⟩ := hknown op rest rfl
          exact absurd hm (hop m)
  constructor
  case ok_iff => exact hok
  case unique =>
    intro b c m hb hc
    rw [((hok b m).mp hb).1, ((hok c m).mp hc).1]
  case encode_of_ok =>
    intro b m hread
    obtain ⟨rfl, hm⟩ := (hok b m).mp hread
    rw [encode_eq, if_pos ((htexts m).mpr hm), hwritten]
    by_cases hsize : (written m).length ≤ 1024
    · have hfits : ¬ maxFrame < (written m).length := Nat.not_lt.mpr hsize
      rw [if_pos hsize, if_neg hfits]
    · have hlarge : maxFrame < (written m).length := Nat.lt_of_not_le hsize
      rw [if_neg hsize, if_pos hlarge]
      rfl
  case unknownOpcode_iff => exact hunknown
  case malformed_iff =>
    intro b
    have hcases := decode_cases (M := M) b
    simp only [← hok, ← hunknown]
    generalize decode M b = result at hcases ⊢
    cases hcases with
    | read m _ _ => simp
    | unknown op _ _ _ => simp
    | malformed d _ => simp
  case no_writing_fault =>
    intro b
    have hcases := decode_cases (M := M) b
    generalize decode M b = result at hcases ⊢
    cases hcases with
    | read m _ _ => simp
    | unknown op _ _ _ => simp
    | malformed d _ => simp

end

/-- The high bit tells the sides apart. -/
theorem ClientMessage.opcode_ne (c : ClientMessage) (s : ServerMessage) : opcode c ≠ opcode s := by
  have hclient : 0x80 ≤ opcode c := by
    show 0x80 ≤ c.tag.opcode
    cases c.tag <;> decide
  have hserver : opcode s < 0x80 := by
    show s.tag.opcode < 0x80
    cases s.tag <;> decide
  intro heq
  rw [heq] at hclient
  exact UInt8.not_lt.mpr hclient hserver

/-- **Frames are recognized exactly.** A byte string is read as a message of either side if it is
the frame spelled out for it and holds no other NUL than the terminators; all others are refused,
for their opcode if that is unknown to the side and else as malformed. No byte string is a message
of both sides. -/
theorem frames_recognized :
    Wire.Recognized ClientMessage ClientMessage.texts ClientMessage.written ∧
      Wire.Recognized ServerMessage ServerMessage.texts ServerMessage.written ∧
      ∀ b c s, decode ClientMessage b = .ok c → decode ServerMessage b ≠ .ok s := by
  refine ⟨recognized_of_layout ClientMessage.layout_eq_written ClientMessage.writable_iff,
    recognized_of_layout ServerMessage.layout_eq_written ServerMessage.writable_iff, ?_⟩
  intro b c s hclient hserver
  have hc := decode_cases (M := ClientMessage) b
  have hs := decode_cases (M := ServerMessage) b
  rw [hclient] at hc
  rw [hserver] at hs
  cases hc with
  | read _ hb _ =>
      cases hs with
      | read _ hb' _ => exact ClientMessage.opcode_ne c s (List.cons.inj (hb.symm.trans hb')).1

end TileRoom

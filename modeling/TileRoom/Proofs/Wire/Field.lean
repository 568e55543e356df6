import TileRoom.Proofs.Wire.Text
import TileRoom.Wire.Reader
import TileRoom.Wire.Writer

/-!
# Fields read back

A value that can be written is read back from its layout, whatever follows it (`read_layout`), and
so is a row of values (`readRow_layout`). Nothing else is read: `read_cases` and `readRow_cases` say
that what was read was laid out in the bytes that it took, or that they are malformed.
-/

namespace TileRoom.Wire

/-! ## Integers -/

@[simp] theorem length_littleEndian (width n : Nat) : (littleEndian width n).length = width := by
  induction width generalizing n with
  | zero => rfl
  | succ width ih => simp [littleEndian, ih]

/-- How many numbers can be written in so many bytes. -/
def numbersIn : Nat → Nat
  | 0 => 1
  | width + 1 => 256 * numbersIn width

theorem ofLittleEndian_littleEndian (width n : Nat) :
    ofLittleEndian (littleEndian width n) = n % numbersIn width := by
  induction width generalizing n with
  | zero => simp [littleEndian, ofLittleEndian, numbersIn, Nat.mod_one]
  | succ width ih =>
      have hmod : n % numbersIn (width + 1) = n % 256 + 256 * (n / 256 % numbersIn width) := by
        rw [numbersIn, Nat.mod_mul]
      simp [littleEndian, ofLittleEndian, ih, hmod]

theorem littleEndian_two (n : UInt16) :
    littleEndian 2 n.toNat = [n.toUInt8, (n >>> 8).toUInt8] := by
  simp [littleEndian, ← UInt8.toNat_inj, Nat.shiftRight_eq_div_pow]

theorem littleEndian_eight (n : UInt64) :
    littleEndian 8 n.toNat = [n.toUInt8, (n >>> 8).toUInt8, (n >>> 16).toUInt8,
      (n >>> 24).toUInt8, (n >>> 32).toUInt8, (n >>> 40).toUInt8, (n >>> 48).toUInt8,
      (n >>> 56).toUInt8] := by
  simp [littleEndian, ← UInt8.toNat_inj, Nat.shiftRight_eq_div_pow, Nat.div_div_eq_div_mul]

/-! ## One field -/

section
variable {opcode : UInt8} {position : Nat} {rest : List UInt8}

theorem take_append {bs : List UInt8} {width : Nat} (h : bs.length = width) :
    (Reader.mk opcode position (bs ++ rest)).take width =
      .ok (bs, ⟨opcode, position + width, rest⟩) := by
  subst h
  simp [Reader.take, Reader.skip, Reader.remaining]

theorem number_littleEndian {width n : Nat} (h : n < numbersIn width) :
    (Reader.mk opcode position (littleEndian width n ++ rest)).number width =
      .ok (n, ⟨opcode, position + width, rest⟩) := by
  unfold Reader.number
  rw [take_append (length_littleEndian width n)]
  simp only [bind, Except.bind, pure, Except.pure]
  rw [ofLittleEndian_littleEndian, Nat.mod_eq_of_lt h]

theorem takeWhile_terminated {bs : List UInt8} (h : 0 ∉ bs) :
    (bs ++ 0 :: rest).takeWhile (· ≠ 0) = bs := by
  rw [List.takeWhile_append_of_pos]
  · simp
  · intro b hb
    simp only [decide_not, Bool.not_eq_true', decide_eq_false_iff_not]
    rintro rfl
    exact h hb

theorem text_layout {s : String} (h : '\x00' ∉ s.toList) :
    (Reader.mk opcode position (Utf8.encode s ++ 0 :: rest)).text =
      .ok (s, ⟨opcode, position + ((Utf8.encode s).length + 1), rest⟩) := by
  have hzero : 0 ∉ Utf8.encode s := fun hz => h ((Utf8.zero_mem_encode s).mp hz)
  have hlength : (Utf8.encode s).length ≠ (Utf8.encode s ++ 0 :: rest).length := by simp
  unfold Reader.text
  simp only [takeWhile_terminated hzero, Reader.remaining, if_neg hlength, Utf8.decode_encode]
  simp [Reader.skip]

theorem hasNul_eq_false_iff (s : String) : hasNul s = false ↔ '\x00' ∉ s.toList := by
  simp [hasNul]

/-- A value that can be written is read back, and what follows it is left. -/
theorem read_layout (v : Value) (h : v.isWritable) :
    (Reader.mk opcode position (v.layout ++ rest)).read v.kind =
      .ok (v.data, ⟨opcode, position + v.layout.length, rest⟩) := by
  obtain ⟨kind, data⟩ := v
  -- a number is read by its width; only a text needs to be writable
  cases kind with
  | byte =>
      have hone : [data] = littleEndian 1 data.toNat := by simp [littleEndian]
      simp only [Reader.read, Value.layout, Kind.layout]
      rw [hone, number_littleEndian data.toNat_lt]
      simp [bind, Except.bind, pure, Except.pure]
  | sequence =>
      simp only [Reader.read, Value.layout, Kind.layout]
      rw [number_littleEndian data.toNat_lt]
      simp [bind, Except.bind, pure, Except.pure]
  | coordinate =>
      simp only [Reader.read, Value.layout, Kind.layout]
      rw [number_littleEndian data.toUInt16.toNat_lt]
      simp [bind, Except.bind, pure, Except.pure]
  | id =>
      simp only [Reader.read, Value.layout, Kind.layout]
      rw [number_littleEndian data.toNat_lt]
      simp [bind, Except.bind, pure, Except.pure]
  | text =>
      have hnul : '\x00' ∉ data.toList :=
        (hasNul_eq_false_iff data).mp (by simpa [Value.isWritable] using h)
      simp only [Reader.read, Value.layout, Kind.layout, List.append_assoc, List.singleton_append]
      rw [text_layout hnul]
      simp

end

/-! ## Rows -/

/-- A row of values that can be written is read back, and what follows it is left. -/
theorem readRow_layout (opcode : UInt8) (position : Nat) (rest : List UInt8) :
    {kinds : List Kind} → (row : Row kinds) → (∀ v ∈ row.values, v.isWritable) →
    (Reader.mk opcode position (row.values.flatMap Value.layout ++ rest)).readRow kinds =
      .ok (row, ⟨opcode, position + (row.values.flatMap Value.layout).length, rest⟩)
  | [], (), _ => by simp [Reader.readRow, Row.values]
  | kind :: kinds, (data, row), h => by
      have hv := h ⟨kind, data⟩ (by simp [Row.values])
      have hrow : ∀ v ∈ row.values, v.isWritable := fun v hv => h v (by simp [Row.values, hv])
      simp only [Row.values, List.flatMap_cons, List.append_assoc]
      rw [Reader.readRow, read_layout ⟨kind, data⟩ hv]
      simp only [bind, Except.bind]
      rw [readRow_layout opcode _ rest row hrow]
      simp [pure, Except.pure, Nat.add_assoc]

/-! ## Only what was written is read -/

theorem littleEndian_ofLittleEndian (bs : List UInt8) :
    littleEndian bs.length (ofLittleEndian bs) = bs := by
  induction bs with
  | nil => rfl
  | cons b bs ih =>
      have hb := b.toNat_lt
      have hlow : UInt8.ofNat (b.toNat + 256 * ofLittleEndian bs) = b := by
        rw [← UInt8.toNat_inj, UInt8.toNat_ofNat']
        omega
      have hhigh : (b.toNat + 256 * ofLittleEndian bs) / 256 = ofLittleEndian bs := by omega
      simp only [List.length_cons, littleEndian, ofLittleEndian]
      rw [hlow, hhigh, ih]

theorem ofLittleEndian_lt (bs : List UInt8) : ofLittleEndian bs < numbersIn bs.length := by
  induction bs with
  | nil => decide
  | cons b bs ih =>
      have hb := b.toNat_lt
      simp only [List.length_cons, ofLittleEndian, numbersIn]
      omega

/-- How reading a number can end. -/
inductive Numbering (r : Reader) (width : Nat) : Except WireError (Nat × Reader) → Prop
  | read (n : Nat) (r' : Reader) (hn : n < numbersIn width)
      (hrest : r.rest = littleEndian width n ++ r'.rest) : Numbering r width (.ok (n, r'))
  | malformed (d : Malformation) : Numbering r width (.error (.malformed d))

theorem number_cases (r : Reader) (width : Nat) : Numbering r width (r.number width) := by
  unfold Reader.number Reader.take
  by_cases hshort : r.remaining < width
  · rw [if_pos hshort]
    exact .malformed _
  · rw [if_neg hshort]
    have hlength : (r.rest.take width).length = width :=
      List.length_take_of_le (Nat.not_lt.mp hshort)
    refine .read _ _ ?_ ?_
    · simpa only [hlength] using ofLittleEndian_lt (r.rest.take width)
    · have hbytes := littleEndian_ofLittleEndian (r.rest.take width)
      rw [hlength] at hbytes
      rw [hbytes]
      exact (List.take_append_drop width r.rest).symm

/-- How reading a value can end. -/
inductive Reading (r : Reader) (kind : Kind) : Except WireError (kind.Carrier × Reader) → Prop
  | read (v : kind.Carrier) (r' : Reader) (hv : (Value.mk kind v).isWritable)
      (hrest : r.rest = (Value.mk kind v).layout ++ r'.rest) : Reading r kind (.ok (v, r'))
  | malformed (d : Malformation) : Reading r kind (.error (.malformed d))

/-- A kind whose values are laid out as numbers. -/
theorem Numbering.reading {r : Reader} {width : Nat} {result : Except WireError (Nat × Reader)}
    (h : Numbering r width result) (kind : Kind) (value : Nat → kind.Carrier)
    (hv : ∀ n, (Value.mk kind (value n)).isWritable)
    (hlayout : ∀ n < numbersIn width, (Value.mk kind (value n)).layout = littleEndian width n) :
    Reading r kind (do let (n, r) ← result; return (value n, r)) := by
  cases h with
  | read n r' hn hrest => exact .read _ r' (hv n) (by rw [hlayout n hn, hrest])
  | malformed d => exact .malformed d

/-- A byte string with a zero byte is split at the first. -/
theorem takeWhile_split {bs : List UInt8} (h : (bs.takeWhile (· ≠ 0)).length ≠ bs.length) :
    bs = bs.takeWhile (· ≠ 0) ++ 0 :: bs.drop ((bs.takeWhile (· ≠ 0)).length + 1) := by
  induction bs with
  | nil => exact absurd rfl h
  | cons b bs ih =>
      by_cases hb : b = 0
      · simp [hb]
      · have hrest : (bs.takeWhile (· ≠ 0)).length ≠ bs.length := by simpa [hb] using h
        simpa [hb] using ih hrest

theorem text_cases (r : Reader) : Reading r .text r.text := by
  unfold Reader.text
  simp only
  split
  · exact .malformed _
  · next hended =>
      cases hdecode : Utf8.decode (r.rest.takeWhile (· ≠ 0)) with
      | error fault => exact .malformed _
      | ok s =>
          have hbytes := Utf8.eq_encode_of_decode hdecode
          have hzero : 0 ∉ r.rest.takeWhile (· ≠ 0) := by
            intro hmem
            have hall : (r.rest.takeWhile (· ≠ 0)).all (· ≠ 0) = true := List.all_takeWhile
            simpa using List.all_eq_true.mp hall 0 hmem
          have hsplit := takeWhile_split hended
          rw [hbytes, Utf8.zero_mem_encode] at hzero
          refine @Reading.read r .text s _ ?_ ?_
          · simpa [Value.isWritable, hasNul] using hzero
          · simpa [Value.layout, Kind.layout, Reader.skip, ← hbytes] using hsplit

theorem read_cases (r : Reader) (kind : Kind) : Reading r kind (r.read kind) := by
  cases kind with
  | text => exact text_cases r
  | byte =>
      refine (number_cases r 1).reading .byte UInt8.ofNat (fun _ => rfl) ?_
      intro n hn
      simp [Value.layout, Kind.layout, littleEndian]
  | sequence =>
      refine (number_cases r 2).reading .sequence UInt16.ofNat (fun _ => rfl) ?_
      intro n hn
      have hback : (UInt16.ofNat n).toNat = n := UInt16.toNat_ofNat_of_lt' hn
      simp only [Value.layout, Kind.layout, hback]
  | coordinate =>
      refine (number_cases r 2).reading .coordinate (fun n => (UInt16.ofNat n).toInt16)
        (fun _ => rfl) ?_
      intro n hn
      have hback : (UInt16.ofNat n).toNat = n := UInt16.toNat_ofNat_of_lt' hn
      simp only [Value.layout, Kind.layout, UInt16.toUInt16_toInt16, hback]
  | id =>
      refine (number_cases r 8).reading .id UInt64.ofNat (fun _ => rfl) ?_
      intro n hn
      have hback : (UInt64.ofNat n).toNat = n := UInt64.toNat_ofNat_of_lt' hn
      simp only [Value.layout, Kind.layout, hback]

/-- How reading a row can end. -/
inductive RowReading (r : Reader) (kinds : List Kind) : Except WireError (Row kinds × Reader) → Prop
  | read (row : Row kinds) (r' : Reader) (hrow : ∀ v ∈ row.values, v.isWritable)
      (hrest : r.rest = row.values.flatMap Value.layout ++ r'.rest) :
      RowReading r kinds (.ok (row, r'))
  | malformed (d : Malformation) : RowReading r kinds (.error (.malformed d))

theorem readRow_cases (r : Reader) (kinds : List Kind) : RowReading r kinds (r.readRow kinds) := by
  induction kinds generalizing r with
  | nil => exact @RowReading.read r [] () r (by simp [Row.values]) (by simp [Row.values])
  | cons kind kinds ih =>
      have hread := read_cases r kind
      unfold Reader.readRow
      generalize r.read kind = result at hread ⊢
      cases hread with
      | malformed d => exact .malformed d
      | read v r₁ hv hrest =>
          have hrow := ih r₁
          simp only [bind, Except.bind]
          generalize r₁.readRow kinds = result at hrow ⊢
          cases hrow with
          | malformed d => exact .malformed d
          | read row r₂ hwritable hrest' =>
              refine @RowReading.read r (kind :: kinds) (v, row) r₂ ?_ ?_
              · intro w hw
                rcases List.mem_cons.mp hw with rfl | hw
                · exact hv
                · exact hwritable w hw
              · rw [hrest, hrest', Row.values, List.flatMap_cons, List.append_assoc]

theorem finish_cases (r : Reader) :
    r.rest = [] ∧ r.finish = .ok () ∨ ∃ d, r.finish = .error (.malformed d) := by
  unfold Reader.finish
  by_cases hend : r.remaining = 0
  · rw [if_pos hend]
    exact .inl ⟨List.eq_nil_of_length_eq_zero hend, rfl⟩
  · rw [if_neg hend]
    exact .inr ⟨_, rfl⟩

end TileRoom.Wire

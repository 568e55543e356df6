import TileRoom.Wire.Field

/-!
# Text on the wire

A text is read back from its bytes (`decode_encode`) and from no others (`eq_encode_of_decode`), and
a zero byte stands among them only for a NUL character (`zero_mem_encode`). The last fact is what
makes the terminator of a text field unambiguous.
-/

namespace TileRoom.Utf8

variable {index bits seen left low high n : Nat} {bs : List UInt8}

/-! ## The first byte of a sequence -/

theorem begin_ascii (h : n < 0x80) :
    Pending.begin n = some { bits := n, seen := 1, left := 0 } := by
  simp [Pending.begin, h]

theorem begin_two (hlow : 0xc2 ≤ n) (hhigh : n < 0xe0) :
    Pending.begin n = some { bits := n - 0xc0, seen := 1, left := 1 } := by
  unfold Pending.begin
  rw [if_neg (by omega), if_neg (by omega), if_pos hhigh]

theorem begin_three (hlow : 0xe0 ≤ n) (hhigh : n < 0xf0) :
    Pending.begin n =
      some { bits := n - 0xe0, seen := 1, left := 2
             low := if n = 0xe0 then 0xa0 else 0x80, high := if n = 0xed then 0x9f else 0xbf } := by
  unfold Pending.begin
  rw [if_neg (by omega), if_neg (by omega), if_neg (by omega), if_pos hhigh]

theorem begin_four (hlow : 0xf0 ≤ n) (hhigh : n < 0xf5) :
    Pending.begin n =
      some { bits := n - 0xf0, seen := 1, left := 3
             low := if n = 0xf0 then 0x90 else 0x80, high := if n = 0xf4 then 0x8f else 0xbf } := by
  unfold Pending.begin
  rw [if_neg (by omega), if_neg (by omega), if_neg (by omega), if_neg (by omega), if_pos hhigh]

/-! ## One byte of a scan -/

theorem scan_begin {p : Pending} (hn : n < 0xf5) (hp : Pending.begin n = some p)
    (more : p.left ≠ 0) :
    scan index none (UInt8.ofNat n :: bs) = scan index (some p) bs := by
  have hmod : n % 256 = n := by omega
  simp [scan, hmod, hp, more]

theorem scan_advance (hlow : low ≤ n) (hhigh : n ≤ high) (hbyte : n < 256) :
    scan index (some ⟨bits, seen, left + 2, low, high⟩) (UInt8.ofNat n :: bs) =
      scan index (some ⟨bits * 64 + (n - 0x80), seen + 1, left + 1, 0x80, 0xbf⟩) bs := by
  have hmod : n % 256 = n := by omega
  simp [scan, Pending.advance, hmod, hlow, hhigh]

theorem scan_complete (hlow : low ≤ n) (hhigh : n ≤ high) (hbyte : n < 256) :
    scan index (some ⟨bits, seen, 1, low, high⟩) (UInt8.ofNat n :: bs) =
      (Char.ofNat (bits * 64 + (n - 0x80)) :: ·) <$> scan (index + (seen + 1)) none bs := by
  have hmod : n % 256 = n := by omega
  simp [scan, Pending.advance, hmod, hlow, hhigh]

/-! ## A whole text -/

/-- A character's code point is no surrogate. -/
theorem val_valid (c : Char) :
    c.val.toNat < 0xd800 ∨ 0xdfff < c.val.toNat ∧ c.val.toNat < 0x110000 :=
  c.valid

/-- A written character is read first, whatever follows it. -/
theorem scan_encodeChar (c : Char) :
    scan index none (String.utf8EncodeChar c ++ bs) =
      (c :: ·) <$> scan (index + (String.utf8EncodeChar c).length) none bs := by
  have valid := val_valid c
  have back {n : Nat} (h : n = c.val.toNat) : Char.ofNat n = c := by
    rw [h]; exact Char.ofNat_toNat c
  unfold String.utf8EncodeChar
  generalize c.val.toNat = v at *
  simp only
  split
  · -- one byte
    have hmod : v % 256 = v := by omega
    simp [scan, hmod, begin_ascii (show v < 0x80 by omega), back]
  · split
    · -- two bytes
      simp only [List.cons_append, List.nil_append, List.length_cons, List.length_nil]
      rw [scan_begin (by omega) (begin_two (by omega) (by omega)) (by simp),
        scan_complete (by omega) (by omega) (by omega), back (by omega)]
    · split
      · -- three bytes; the second keeps clear of overlong forms and surrogates
        simp only [List.cons_append, List.nil_append, List.length_cons, List.length_nil]
        rw [scan_begin (by omega) (begin_three (by omega) (by omega)) (by simp),
          scan_advance (by split <;> omega) (by split <;> omega) (by omega),
          scan_complete (by omega) (by omega) (by omega), back (by omega)]
      · -- four bytes; the second keeps to the code points there are
        simp only [List.cons_append, List.nil_append, List.length_cons, List.length_nil]
        rw [scan_begin (by omega) (begin_four (by omega) (by omega)) (by simp),
          scan_advance (by split <;> omega) (by split <;> omega) (by omega),
          scan_advance (by omega) (by omega) (by omega),
          scan_complete (by omega) (by omega) (by omega), back (by omega)]

theorem scan_encode (index : Nat) (cs : List Char) :
    scan index none (cs.flatMap String.utf8EncodeChar) = .ok cs := by
  induction cs generalizing index with
  | nil => rfl
  | cons c cs ih =>
      rw [List.flatMap_cons, scan_encodeChar, ih]
      rfl

/-- A text is read back from its bytes. -/
theorem decode_encode (s : String) : decode (encode s) = .ok s := by
  unfold decode encode
  rw [scan_encode]
  simp [Functor.map, Except.map]

/-- The bytes are the ones that the text is kept in. -/
theorem encode_eq_toUTF8 (s : String) : encode s = s.toUTF8.data.toList := by
  rw [String.toUTF8_eq_toByteArray, ← String.utf8Encode_toList]
  exact List.toList_data_toByteArray.symm

/-! ## Zero bytes -/

theorem ofNat_eq_zero_iff (hbyte : n < 256) : UInt8.ofNat n = 0 ↔ n = 0 := by
  rw [← UInt8.toNat_inj]
  have hmod : n % 256 = n := by omega
  simp [hmod]

theorem zero_mem_encodeChar (c : Char) : 0 ∈ String.utf8EncodeChar c ↔ c = '\x00' := by
  constructor
  · intro h
    have valid := val_valid c
    have back : c.val.toNat = 0 → c = '\x00' := fun hz => Char.ext (UInt32.toNat_inj.mp hz)
    unfold String.utf8EncodeChar at h
    generalize c.val.toNat = v at *
    apply back
    -- every byte of a longer sequence is at least 0x80
    simp only at h
    split at h
    · rw [List.mem_singleton, eq_comm, ofNat_eq_zero_iff (by omega)] at h
      exact h
    · exfalso
      split at h
      · simp only [List.mem_cons, List.not_mem_nil, or_false, @eq_comm UInt8 0] at h
        rw [ofNat_eq_zero_iff (by omega), ofNat_eq_zero_iff (by omega)] at h
        omega
      · split at h
        · simp only [List.mem_cons, List.not_mem_nil, or_false, @eq_comm UInt8 0] at h
          rw [ofNat_eq_zero_iff (by omega), ofNat_eq_zero_iff (by omega),
            ofNat_eq_zero_iff (by omega)] at h
          omega
        · simp only [List.mem_cons, List.not_mem_nil, or_false, @eq_comm UInt8 0] at h
          rw [ofNat_eq_zero_iff (by omega), ofNat_eq_zero_iff (by omega),
            ofNat_eq_zero_iff (by omega), ofNat_eq_zero_iff (by omega)] at h
          omega
  · rintro rfl
    decide

/-- A zero byte stands only for a NUL character. -/
theorem zero_mem_encode (s : String) : 0 ∈ encode s ↔ '\x00' ∈ s.toList := by
  simp only [encode, List.mem_flatMap, zero_mem_encodeChar]
  constructor
  · rintro ⟨c, hc, rfl⟩
    exact hc
  · intro h
    exact ⟨_, h, rfl⟩

/-! ## Only texts are read -/

theorem begin_eq_some {p : Pending} (h : Pending.begin n = some p) :
    n < 0x80 ∧ p = { bits := n, seen := 1, left := 0 } ∨
      0xc2 ≤ n ∧ n < 0xe0 ∧ p = { bits := n - 0xc0, seen := 1, left := 1 } ∨
      0xe0 ≤ n ∧ n < 0xf0 ∧
        p = { bits := n - 0xe0, seen := 1, left := 2
              low := if n = 0xe0 then 0xa0 else 0x80, high := if n = 0xed then 0x9f else 0xbf } ∨
      0xf0 ≤ n ∧ n < 0xf5 ∧
        p = { bits := n - 0xf0, seen := 1, left := 3
              low := if n = 0xf0 then 0x90 else 0x80, high := if n = 0xf4 then 0x8f else 0xbf } := by
  unfold Pending.begin at h
  split at h
  · next hascii => exact .inl ⟨hascii, (Option.some.inj h).symm⟩
  split at h
  · cases h
  split at h
  · next hlow htwo => exact .inr (.inl ⟨by omega, htwo, (Option.some.inj h).symm⟩)
  split at h
  · next hlow hthree => exact .inr (.inr (.inl ⟨by omega, hthree, (Option.some.inj h).symm⟩))
  split at h
  · next hlow hfour => exact .inr (.inr (.inr ⟨by omega, hfour, (Option.some.inj h).symm⟩))
  · cases h

theorem val_ofNat (h : n.isValidChar) : (Char.ofNat n).val.toNat = n := by
  unfold Char.ofNat
  rw [dif_pos h]
  rfl

theorem ofNat_eq {b : UInt8} (h : n = b.toNat) : UInt8.ofNat n = b := by
  rw [h]
  exact UInt8.ofNat_toNat

section
variable {a b c d : UInt8}

theorem encodeChar_one (ha : a.toNat < 0x80) :
    String.utf8EncodeChar (Char.ofNat a.toNat) = [a] := by
  have hval := val_ofNat (n := a.toNat) (.inl (by omega))
  simp only [String.utf8EncodeChar, hval]
  rw [if_pos (by omega), ofNat_eq rfl]

theorem encodeChar_two (ha : 0xc2 ≤ a.toNat) (ha' : a.toNat < 0xe0) (hb : 0x80 ≤ b.toNat)
    (hb' : b.toNat ≤ 0xbf) :
    String.utf8EncodeChar (Char.ofNat ((a.toNat - 0xc0) * 64 + (b.toNat - 0x80))) = [a, b] := by
  have hval := val_ofNat (n := (a.toNat - 0xc0) * 64 + (b.toNat - 0x80)) (.inl (by omega))
  simp only [String.utf8EncodeChar, hval]
  rw [if_neg (by omega), if_pos (by omega), ofNat_eq (b := a) (by omega),
    ofNat_eq (b := b) (by omega)]

/-- The narrowed range of the second byte keeps the code point from being too small or a
surrogate. -/
theorem encodeChar_three (ha : 0xe0 ≤ a.toNat) (ha' : a.toNat < 0xf0)
    (hb : (if a.toNat = 0xe0 then 0xa0 else 0x80) ≤ b.toNat)
    (hb' : b.toNat ≤ if a.toNat = 0xed then 0x9f else 0xbf) (hc : 0x80 ≤ c.toNat)
    (hc' : c.toNat ≤ 0xbf) :
    String.utf8EncodeChar (Char.ofNat
      (((a.toNat - 0xe0) * 64 + (b.toNat - 0x80)) * 64 + (c.toNat - 0x80))) = [a, b, c] := by
  have hrange : 0x80 ≤ b.toNat ∧ b.toNat ≤ 0xbf := by split at hb <;> split at hb' <;> omega
  have hsmall : a.toNat = 0xe0 → 0xa0 ≤ b.toNat := fun heq => by rwa [if_pos heq] at hb
  have hsurrogate : a.toNat = 0xed → b.toNat ≤ 0x9f := fun heq => by rwa [if_pos heq] at hb'
  clear hb hb'
  have hval := val_ofNat
    (n := ((a.toNat - 0xe0) * 64 + (b.toNat - 0x80)) * 64 + (c.toNat - 0x80))
    (by unfold Nat.isValidChar; omega)
  simp only [String.utf8EncodeChar, hval]
  rw [if_neg (by omega), if_neg (by omega), if_pos (by omega), ofNat_eq (b := a) (by omega),
    ofNat_eq (b := b) (by omega), ofNat_eq (b := c) (by omega)]

theorem encodeChar_four (ha : 0xf0 ≤ a.toNat) (ha' : a.toNat < 0xf5)
    (hb : (if a.toNat = 0xf0 then 0x90 else 0x80) ≤ b.toNat)
    (hb' : b.toNat ≤ if a.toNat = 0xf4 then 0x8f else 0xbf) (hc : 0x80 ≤ c.toNat)
    (hc' : c.toNat ≤ 0xbf) (hd : 0x80 ≤ d.toNat) (hd' : d.toNat ≤ 0xbf) :
    String.utf8EncodeChar (Char.ofNat
      ((((a.toNat - 0xf0) * 64 + (b.toNat - 0x80)) * 64 + (c.toNat - 0x80)) * 64 +
        (d.toNat - 0x80))) = [a, b, c, d] := by
  have hrange : 0x80 ≤ b.toNat ∧ b.toNat ≤ 0xbf := by split at hb <;> split at hb' <;> omega
  have hsmall : a.toNat = 0xf0 → 0x90 ≤ b.toNat := fun heq => by rwa [if_pos heq] at hb
  have hlarge : a.toNat = 0xf4 → b.toNat ≤ 0x8f := fun heq => by rwa [if_pos heq] at hb'
  clear hb hb'
  have hval := val_ofNat
    (n := (((a.toNat - 0xf0) * 64 + (b.toNat - 0x80)) * 64 + (c.toNat - 0x80)) * 64 +
      (d.toNat - 0x80))
    (by unfold Nat.isValidChar; omega)
  simp only [String.utf8EncodeChar, hval]
  rw [if_neg (by omega), if_neg (by omega), if_neg (by omega), ofNat_eq (b := a) (by omega),
    ofNat_eq (b := b) (by omega), ofNat_eq (b := c) (by omega), ofNat_eq (b := d) (by omega)]

end

section
variable {cs : List Char}

theorem map_cons_eq_ok {c : Char} {r : Except Fault (List Char)} (h : (c :: ·) <$> r = .ok cs) :
    ∃ cs', r = .ok cs' ∧ cs = c :: cs' := by
  cases r with
  | error e => cases h
  | ok cs' => exact ⟨cs', rfl, (Except.ok.inj h).symm⟩

theorem scan_last (h : scan index (some ⟨bits, seen, 1, low, high⟩) bs = .ok cs) :
    ∃ b rest cs', bs = b :: rest ∧ low ≤ b.toNat ∧ b.toNat ≤ high ∧
      cs = Char.ofNat (bits * 64 + (b.toNat - 0x80)) :: cs' ∧
      scan (index + (seen + 1)) none rest = .ok cs' := by
  cases bs with
  | nil => cases h
  | cons b rest =>
      by_cases hrange : low ≤ b.toNat ∧ b.toNat ≤ high
      · simp only [scan, Pending.advance, hrange, and_self, if_true] at h
        obtain ⟨cs', hrest, rfl⟩ := map_cons_eq_ok h
        exact ⟨b, rest, cs', rfl, hrange.1, hrange.2, rfl, hrest⟩
      · simp only [scan, Pending.advance, hrange, if_false] at h
        cases h

theorem scan_more (h : scan index (some ⟨bits, seen, left + 2, low, high⟩) bs = .ok cs) :
    ∃ b rest, bs = b :: rest ∧ low ≤ b.toNat ∧ b.toNat ≤ high ∧
      scan index (some ⟨bits * 64 + (b.toNat - 0x80), seen + 1, left + 1, 0x80, 0xbf⟩) rest =
        .ok cs := by
  cases bs with
  | nil => cases h
  | cons b rest =>
      by_cases hrange : low ≤ b.toNat ∧ b.toNat ≤ high
      · simp only [scan, Pending.advance, hrange, and_self, if_true] at h
        exact ⟨b, rest, rfl, hrange.1, hrange.2, h⟩
      · simp only [scan, Pending.advance, hrange, if_false] at h
        cases h

/-- What is read first is a written character. -/
theorem scan_char {a : UInt8} (h : scan index none (a :: bs) = .ok cs) :
    ∃ c cs' rest index', cs = c :: cs' ∧ a :: bs = String.utf8EncodeChar c ++ rest ∧
      scan index' none rest = .ok cs' := by
  unfold scan at h
  cases hbegin : Pending.begin a.toNat with
  | none => rw [hbegin] at h; cases h
  | some p =>
      rw [hbegin] at h
      rcases begin_eq_some hbegin with
        ⟨ha, rfl⟩ | ⟨ha, ha', rfl⟩ | ⟨ha, ha', rfl⟩ | ⟨ha, ha', rfl⟩
      · obtain ⟨cs', hrest, rfl⟩ := map_cons_eq_ok h
        refine ⟨_, cs', bs, _, rfl, ?_, hrest⟩
        rw [encodeChar_one ha]
        rfl
      · obtain ⟨b, rest, cs', rfl, hb, hb', rfl, hrest⟩ := scan_last h
        refine ⟨_, cs', rest, _, rfl, ?_, hrest⟩
        rw [encodeChar_two ha ha' hb hb']
        rfl
      · obtain ⟨b, bs, rfl, hb, hb', h⟩ := scan_more h
        obtain ⟨c, rest, cs', rfl, hc, hc', rfl, hrest⟩ := scan_last h
        refine ⟨_, cs', rest, _, rfl, ?_, hrest⟩
        rw [encodeChar_three ha ha' hb hb' hc hc']
        rfl
      · obtain ⟨b, bs, rfl, hb, hb', h⟩ := scan_more h
        obtain ⟨c, bs, rfl, hc, hc', h⟩ := scan_more h
        obtain ⟨d, rest, cs', rfl, hd, hd', rfl, hrest⟩ := scan_last h
        refine ⟨_, cs', rest, _, rfl, ?_, hrest⟩
        rw [encodeChar_four ha ha' hb hb' hc hc' hd hd']
        rfl

theorem eq_encode_of_scan (h : scan index none bs = .ok cs) :
    bs = cs.flatMap String.utf8EncodeChar := by
  induction cs generalizing index bs with
  | nil =>
      cases bs with
      | nil => rfl
      | cons a bs =>
          obtain ⟨c, cs', rest, index', hcs, _⟩ := scan_char h
          cases hcs
  | cons c cs ih =>
      cases bs with
      | nil => cases h
      | cons a bs =>
          obtain ⟨c', cs', rest, index', hcs, hbs, hrest⟩ := scan_char h
          cases hcs
          rw [hbs, ih hrest, List.flatMap_cons]

end

/-- A byte string is read as a text only if it is the text's bytes. -/
theorem eq_encode_of_decode {s : String} (h : decode bs = .ok s) : bs = encode s := by
  unfold decode at h
  cases hscan : scan 0 none bs with
  | error fault => rw [hscan] at h; cases h
  | ok cs =>
      rw [hscan] at h
      obtain rfl := Except.ok.inj h
      rw [eq_encode_of_scan hscan, encode, String.toList_ofList]

end TileRoom.Utf8

import TileRoom.Proofs.Wire.Text
import TileRoom.Text

/-!
# Cutting texts

A text is cut between two of its characters, as late as the limit allows. `truncate_longest` says
so without the recursion that cuts: what is kept is the longest beginning of the text that takes no
more bytes than it may, and nothing else is.

On bytes the place is found by a search backwards from the limit (`stepBack`). It stops, because a
text begins with a boundary, and it stops where the text is cut, because the bytes that begin a
character can be told from those that continue one (`begins_iff`).
-/

namespace TileRoom

namespace Text

/-! ## The size of a text -/

@[simp] theorem byteSize_nil : byteSize [] = 0 :=
  rfl

theorem byteSize_cons (c : Char) (cs : List Char) :
    byteSize (c :: cs) = c.utf8Size + byteSize cs := by
  rw [byteSize, List.flatMap_cons, List.length_append, String.length_utf8EncodeChar]
  rfl

theorem byteSize_append (cs ds : List Char) : byteSize (cs ++ ds) = byteSize cs + byteSize ds := by
  rw [byteSize, List.flatMap_append, List.length_append]
  rfl

theorem byteSize_le_of_prefix {cs ds : List Char} (h : cs <+: ds) : byteSize cs ≤ byteSize ds := by
  obtain ⟨rest, rfl⟩ := h
  rw [byteSize_append]
  omega

theorem byteSize_toList (s : String) : byteSize s.toList = s.utf8ByteSize := by
  have hbytes := congrArg List.length (Utf8.encode_eq_toUTF8 s)
  rw [Utf8.encode] at hbytes
  exact hbytes

/-! ## What is kept -/

/-- What is left of a text takes no more than it may. -/
theorem byteSize_fit_le (max : Nat) (cs : List Char) : byteSize (fit max cs) ≤ max := by
  induction cs generalizing max with
  | nil => exact Nat.zero_le max
  | cons c cs ih =>
      unfold fit
      by_cases hc : c.utf8Size ≤ max
      · have hrest := ih (max - c.utf8Size)
        rw [if_pos hc, byteSize_cons]
        omega
      · rw [if_neg hc]
        exact Nat.zero_le max

/-- What is left of a text is a beginning of it. -/
theorem fit_isPrefix (max : Nat) (cs : List Char) : (fit max cs).IsPrefix cs := by
  induction cs generalizing max with
  | nil => exact List.prefix_refl []
  | cons c cs ih =>
      unfold fit
      by_cases hc : c.utf8Size ≤ max
      · rw [if_pos hc]
        exact List.prefix_cons_iff.mpr (.inr ⟨_, rfl, ih _⟩)
      · rw [if_neg hc]
        exact List.nil_prefix

/-- No longer beginning would do. -/
theorem prefix_fit {max : Nat} {cs p : List Char} (hp : p <+: cs) (hsize : byteSize p ≤ max) :
    p <+: fit max cs := by
  induction cs generalizing max p with
  | nil => exact hp
  | cons c cs ih =>
      rcases List.prefix_cons_iff.mp hp with rfl | ⟨q, rfl, hq⟩
      · exact List.nil_prefix
      · rw [byteSize_cons] at hsize
        have hc : c.utf8Size ≤ max := by omega
        have hrest : q <+: fit (max - c.utf8Size) cs := ih hq (by omega)
        rw [fit, if_pos hc]
        exact List.cons_prefix_cons.mpr ⟨rfl, hrest⟩

/-- A text that takes no more than it may is not cut. -/
theorem fit_eq_self {max : Nat} {cs : List Char} (h : byteSize cs ≤ max) : fit max cs = cs :=
  (fit_isPrefix max cs).eq_of_length_le (prefix_fit (List.prefix_refl cs) h).length_le

/-- A text is cut only before a character that has no place any more. -/
theorem fit_full (max : Nat) (cs : List Char) :
    fit max cs = cs ∨
      ∃ c rest, cs = fit max cs ++ c :: rest ∧ max < byteSize (fit max cs) + c.utf8Size := by
  obtain ⟨rest, hsplit⟩ := fit_isPrefix max cs
  cases rest with
  | nil =>
      rw [List.append_nil] at hsplit
      exact .inl hsplit
  | cons c rest =>
      refine .inr ⟨c, rest, hsplit.symm, Nat.lt_of_not_le fun hroom => ?_⟩
      -- with the next character it would be a longer beginning that still fits
      have hnext : fit max cs ++ [c] <+: cs := ⟨rest, by rw [List.append_assoc]; exact hsplit⟩
      have hsize : byteSize (fit max cs ++ [c]) ≤ max := by
        rw [byteSize_append, byteSize_cons, byteSize_nil]
        omega
      have hlonger := (prefix_fit hnext hsize).length_le
      rw [List.length_append, List.length_singleton] at hlonger
      omega

/-- `t` is the longest beginning of `s` that takes at most `max` bytes. -/
structure IsLongestFitting (max : Nat) (s t : String) : Prop where
  beginning : t.toList <+: s.toList
  size : t.utf8ByteSize ≤ max
  longest : ∀ p : String, p.toList <+: s.toList → p.utf8ByteSize ≤ max → p.toList <+: t.toList

theorem IsLongestFitting.unique {max : Nat} {s t u : String} (ht : IsLongestFitting max s t)
    (hu : IsLongestFitting max s u) : t = u := by
  have htu := hu.longest t ht.beginning ht.size
  have hut := ht.longest u hu.beginning hu.size
  exact String.toList_inj.mp (htu.eq_of_length_le hut.length_le)

theorem truncate_isLongestFitting (s : String) (max : Nat) :
    IsLongestFitting max s (truncate s max) where
  beginning := by
    rw [truncate, String.toList_ofList]
    exact fit_isPrefix max s.toList
  size := by
    rw [← byteSize_toList, truncate, String.toList_ofList]
    exact byteSize_fit_le max s.toList
  longest p hp hsize := by
    rw [← byteSize_toList] at hsize
    rw [truncate, String.toList_ofList]
    exact prefix_fit hp hsize

theorem truncate_eq_self {s : String} {max : Nat} (h : s.utf8ByteSize ≤ max) :
    truncate s max = s := by
  rw [← byteSize_toList] at h
  rw [truncate, fit_eq_self h, String.ofList_toList]

end Text

namespace Utf8

/-! ## Boundaries among bytes -/

/-- Whether a byte continues a character that an earlier one has begun. -/
def isContinuation (b : UInt8) : Bool :=
  0x80 ≤ b.toNat && b.toNat < 0xc0

/-- Whether a character begins at a place among bytes, or the bytes end there. -/
def begins (bs : List UInt8) (place : Nat) : Bool :=
  match bs[place]? with
  | some b => !isContinuation b
  | none => place == bs.length

/-- Whether bytes can be divided at a place. At the beginning they always can. -/
def isBoundary (bs : List UInt8) (place : Nat) : Bool :=
  place == 0 || begins bs place

/-- The first boundary on the way from a place back to the beginning, byte by byte. There is none
if the way leads past the beginning. -/
def stepBack (bs : List UInt8) : (place : Nat) → Option Nat
  | 0 => if isBoundary bs 0 then some 0 else none
  | place + 1 => if isBoundary bs (place + 1) then some (place + 1) else stepBack bs place

/-- The first `max` bytes, or what is left of them up to the last boundary among them. -/
def cut (bs : List UInt8) (max : Nat) : Option (List UInt8) :=
  if bs.length ≤ max then some bs else (stepBack bs max).map bs.take

theorem isContinuation_low {n : Nat} (h : n < 0x80) : isContinuation (UInt8.ofNat n) = false := by
  have hmod : n % 256 = n := by omega
  simp [isContinuation, hmod]
  omega

theorem isContinuation_high {n : Nat} (h : 0xc0 ≤ n) (hbyte : n < 256) :
    isContinuation (UInt8.ofNat n) = false := by
  have hmod : n % 256 = n := by omega
  simp [isContinuation, hmod]
  omega

theorem isContinuation_middle {n : Nat} (h : 0x80 ≤ n) (h' : n < 0xc0) :
    isContinuation (UInt8.ofNat n) = true := by
  have hmod : n % 256 = n := by omega
  simp [isContinuation, hmod, h, h']

/-- The first byte of a character begins it, the others continue it. -/
theorem encodeChar_split (c : Char) :
    ∃ b bs, String.utf8EncodeChar c = b :: bs ∧ isContinuation b = false ∧
      ∀ b ∈ bs, isContinuation b = true := by
  have valid := val_valid c
  unfold String.utf8EncodeChar
  generalize c.val.toNat = v at *
  simp only
  split
  · exact ⟨_, _, rfl, isContinuation_low (by omega), by simp⟩
  · split
    · refine ⟨_, _, rfl, isContinuation_high (by omega) (by omega), ?_⟩
      simp only [List.mem_singleton, forall_eq]
      exact isContinuation_middle (by omega) (by omega)
    · split
      · refine ⟨_, _, rfl, isContinuation_high (by omega) (by omega), ?_⟩
        simp only [List.mem_cons, List.not_mem_nil, or_false, forall_eq_or_imp, forall_eq]
        exact ⟨isContinuation_middle (by omega) (by omega),
          isContinuation_middle (by omega) (by omega)⟩
      · refine ⟨_, _, rfl, isContinuation_high (by omega) (by omega), ?_⟩
        simp only [List.mem_cons, List.not_mem_nil, or_false, forall_eq_or_imp, forall_eq]
        exact ⟨isContinuation_middle (by omega) (by omega),
          isContinuation_middle (by omega) (by omega), isContinuation_middle (by omega) (by omega)⟩

theorem begins_append (bs rest : List UInt8) (place : Nat) :
    begins (bs ++ rest) (bs.length + place) = begins rest place := by
  unfold begins
  rw [List.getElem?_append_right (Nat.le_add_right _ _), Nat.add_sub_cancel_left, List.length_append]
  cases rest[place]? with
  | some b => rfl
  | none =>
      show (bs.length + place == bs.length + rest.length) = (place == rest.length)
      rw [Bool.eq_iff_iff, beq_iff_eq, beq_iff_eq, Nat.add_left_cancel_iff]

/-- A text begins with a character, if with anything. -/
theorem begins_zero (cs : List Char) : begins (cs.flatMap String.utf8EncodeChar) 0 = true := by
  cases cs with
  | nil => rfl
  | cons c cs =>
      obtain ⟨b, bs, hc, hb, _⟩ := encodeChar_split c
      simp [begins, hc, hb]

/-- No character begins inside of another. -/
theorem begins_inside (c : Char) (rest : List UInt8) {place : Nat} (hpos : 0 < place)
    (hlt : place < c.utf8Size) : begins (String.utf8EncodeChar c ++ rest) place = false := by
  obtain ⟨b, bs, hc, _, hbs⟩ := encodeChar_split c
  obtain ⟨inner, rfl⟩ := Nat.exists_eq_add_of_lt hpos
  rw [← String.length_utf8EncodeChar, hc, List.length_cons] at hlt
  have hinner : inner < bs.length := by omega
  unfold begins
  rw [hc, Nat.zero_add, List.cons_append, List.getElem?_cons_succ, List.getElem?_append_left hinner,
    List.getElem?_eq_getElem hinner]
  simp [hbs]

/-- The places where a character begins or the text ends are the sizes of its beginnings. -/
theorem begins_iff (cs : List Char) (place : Nat) :
    begins (cs.flatMap String.utf8EncodeChar) place = true ↔
      ∃ p, p <+: cs ∧ Text.byteSize p = place := by
  induction cs generalizing place with
  | nil =>
      simp only [List.prefix_nil, exists_eq_left, Text.byteSize_nil, List.flatMap_nil, begins,
        List.getElem?_nil, List.length_nil, beq_iff_eq]
      exact eq_comm
  | cons c cs ih =>
      rw [List.flatMap_cons]
      rcases Nat.lt_or_ge place c.utf8Size with hlt | hge
      · rcases Nat.eq_zero_or_pos place with rfl | hpos
        · rw [← List.flatMap_cons]
          exact iff_of_true (begins_zero (c :: cs)) ⟨[], List.nil_prefix, rfl⟩
        · rw [begins_inside c _ hpos hlt]
          refine iff_of_false (by simp) ?_
          rintro ⟨p, hp, rfl⟩
          rcases List.prefix_cons_iff.mp hp with rfl | ⟨q, rfl, _⟩
          · exact absurd hpos (Nat.lt_irrefl 0)
          · rw [Text.byteSize_cons] at hlt
            omega
      · obtain ⟨rest, rfl⟩ := Nat.exists_eq_add_of_le hge
        rw [← String.length_utf8EncodeChar, begins_append, ih]
        constructor
        · rintro ⟨p, hp, rfl⟩
          refine ⟨c :: p, List.cons_prefix_cons.mpr ⟨rfl, hp⟩, ?_⟩
          rw [Text.byteSize_cons, String.length_utf8EncodeChar]
        · rintro ⟨p, hp, hsize⟩
          rcases List.prefix_cons_iff.mp hp with rfl | ⟨q, rfl, hq⟩
          · have hpos := Char.utf8Size_pos c
            rw [Text.byteSize_nil, String.length_utf8EncodeChar] at hsize
            omega
          · rw [Text.byteSize_cons, String.length_utf8EncodeChar] at hsize
            exact ⟨q, hq, by omega⟩

theorem isBoundary_iff (s : String) (place : Nat) :
    isBoundary (encode s) place = true ↔ ∃ p, p <+: s.toList ∧ Text.byteSize p = place := by
  rw [isBoundary, Bool.or_eq_true, encode, begins_iff, beq_iff_eq]
  constructor
  · rintro (rfl | h)
    · exact ⟨[], List.nil_prefix, rfl⟩
    · exact h
  · exact .inr

/-! ## The search backwards -/

/-- The search stops at the last boundary on its way. -/
theorem stepBack_spec (bs : List UInt8) (place : Nat) :
    ∃ stop, stepBack bs place = some stop ∧ stop ≤ place ∧ isBoundary bs stop = true ∧
      ∀ later, stop < later → later ≤ place → isBoundary bs later = false := by
  induction place with
  | zero => exact ⟨0, rfl, Nat.le_refl 0, rfl, by omega⟩
  | succ place ih =>
      unfold stepBack
      cases hhere : isBoundary bs (place + 1) with
      | true => exact ⟨place + 1, rfl, Nat.le_refl _, hhere, by omega⟩
      | false =>
          obtain ⟨stop, hstop, hle, hboundary, hnone⟩ := ih
          refine ⟨stop, hstop, by omega, hboundary, ?_⟩
          intro later hlater hlast
          rcases Nat.lt_or_eq_of_le hlast with hlt | rfl
          · exact hnone later hlater (by omega)
          · exact hhere

/-- The last boundary up to `max` is where the text is cut. -/
theorem stepBack_encode (s : String) (max : Nat) :
    stepBack (encode s) max = some (Text.truncate s max).utf8ByteSize := by
  obtain ⟨stop, hstop, hle, hboundary, hnone⟩ := stepBack_spec (encode s) max
  rw [hstop, Option.some.injEq, ← Text.byteSize_toList, Text.truncate, String.toList_ofList]
  have hkept : isBoundary (encode s) (Text.byteSize (Text.fit max s.toList)) = true :=
    (isBoundary_iff s _).mpr ⟨_, Text.fit_isPrefix max s.toList, rfl⟩
  apply Nat.le_antisymm
  · -- the boundary is the end of a beginning that fits, and no longer one than is kept
    obtain ⟨p, hp, rfl⟩ := (isBoundary_iff s stop).mp hboundary
    exact Text.byteSize_le_of_prefix (Text.prefix_fit hp hle)
  · -- the end of what is kept is a boundary, so the search does not pass it
    refine Nat.le_of_not_lt fun hpassed => ?_
    have hmissed := hnone _ hpassed (Text.byteSize_fit_le max s.toList)
    rw [hkept] at hmissed
    cases hmissed

/-- The bytes up to there are those of the text that is kept. -/
theorem take_encode (s : String) (max : Nat) :
    (encode s).take (Text.truncate s max).utf8ByteSize = encode (Text.truncate s max) := by
  obtain ⟨rest, hsplit⟩ := (Text.truncate_isLongestFitting s max).beginning
  have hbytes : encode s = encode (Text.truncate s max) ++ rest.flatMap String.utf8EncodeChar := by
    rw [encode, ← hsplit, List.flatMap_append, encode]
  rw [hbytes, ← Text.byteSize_toList]
  exact List.take_left

theorem cut_encode (s : String) (max : Nat) :
    cut (encode s) max = some (encode (Text.truncate s max)) := by
  unfold cut
  split
  case isTrue hshort =>
    rw [Text.truncate_eq_self]
    rw [← Text.byteSize_toList]
    exact hshort
  case isFalse => rw [stepBack_encode, Option.map_some, take_encode]

end Utf8

namespace Text

/-- **A text is cut as late as the limit allows.** What is kept is the longest beginning that takes
at most `max` bytes. It is all of the text, or the next character has no place any more, and then
fewer than four of the bytes are left over. A second cut changes nothing.

On bytes, the search backwards from the limit stops, at a place where a character of the text
begins or the text ends, and what it leaves are the bytes of the text that is kept. -/
theorem truncate_longest (s : String) (max : Nat) :
    IsLongestFitting max s (truncate s max) ∧
      (truncate s max = s ∨ ∃ c rest, s.toList = (truncate s max).toList ++ c :: rest ∧
        max < (truncate s max).utf8ByteSize + c.utf8Size ∧
        max - (truncate s max).utf8ByteSize < 4) ∧
      truncate (truncate s max) max = truncate s max ∧
      (∃ stop, Utf8.stepBack s.toUTF8.data.toList max = some stop ∧ stop ≤ max ∧
        (⟨stop⟩ : String.Pos.Raw).IsValid s ∧ stop = (truncate s max).utf8ByteSize) ∧
      Utf8.cut s.toUTF8.data.toList max = some (truncate s max).toUTF8.data.toList := by
  have hkept := truncate_isLongestFitting s max
  refine ⟨hkept, ?_, truncate_eq_self hkept.size, ?_, ?_⟩
  · rcases fit_full max s.toList with hall | ⟨c, rest, hsplit, hfull⟩
    · exact .inl (by rw [truncate, hall, String.ofList_toList])
    · have hfour := Char.utf8Size_le_four c
      have hsize : (truncate s max).utf8ByteSize = byteSize (fit max s.toList) := by
        rw [← byteSize_toList, truncate, String.toList_ofList]
      refine .inr ⟨c, rest, ?_, ?_, ?_⟩
      · rwa [truncate, String.toList_ofList]
      · rwa [hsize]
      · rw [hsize]
        omega
  · rw [← Utf8.encode_eq_toUTF8, Utf8.stepBack_encode]
    refine ⟨_, rfl, hkept.size, ?_, rfl⟩
    obtain ⟨rest, hsplit⟩ := hkept.beginning
    refine String.Pos.Raw.isValid_iff_exists_append.mpr ⟨truncate s max, String.ofList rest, ?_, rfl⟩
    rw [← String.toList_inj, String.toList_append, String.toList_ofList, hsplit]
  · rw [← Utf8.encode_eq_toUTF8, ← Utf8.encode_eq_toUTF8]
    exact Utf8.cut_encode s max

/-- The second of three characters takes two bytes. -/
example : truncate "aĉb" 2 = "a" := by decide

end Text

end TileRoom

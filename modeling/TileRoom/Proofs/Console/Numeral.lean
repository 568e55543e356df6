import TileRoom.Console.Numeral

/-!
# What is read as a number

A numeral is one or more ASCII digits, after a sign or without one. `IsDigits`, `IsUnsigned` and
`IsSigned` say which number it stands for, however large; leading zeros count for nothing. What is
read is just the numerals of the numbers that fit (`byte?_eq_some_iff`, `coordinate?_eq_some_iff`),
among them the decimal form of each number (`isDigits_repr`, `isSigned_repr`).
-/

namespace TileRoom.Console

/-- Characters are the digits of a number, perhaps with zeros before them. -/
structure IsDigits (cs : List Char) (n : Nat) : Prop where
  ne_nil : cs ≠ []
  digit : ∀ c ∈ cs, c.isDigit = true
  value : Nat.ofDigitChars 10 cs 0 = n

/-- Characters are a numeral without a minus sign. -/
def IsUnsigned (cs : List Char) (n : Nat) : Prop :=
  IsDigits cs n ∨ ∃ ds, cs = '+' :: ds ∧ IsDigits ds n

/-- Characters are a numeral with a sign or without one. -/
def IsSigned (cs : List Char) (n : Int) : Prop :=
  (∃ k : Nat, n = k ∧ IsUnsigned cs k) ∨ ∃ ds, ∃ k : Nat, n = -k ∧ cs = '-' :: ds ∧ IsDigits ds k

variable {cs : List Char} {n : Nat}

/-! ## Digits -/

theorem digitsValue_eq (cs : List Char) : digitsValue cs = Nat.ofDigitChars 10 cs 0 := by
  unfold digitsValue Nat.ofDigitChars
  congr 1
  funext n c
  rw [Nat.mul_comm]
  rfl

theorem digits?_eq_some_iff : digits? cs = some n ↔ IsDigits cs n := by
  unfold digits?
  rw [digitsValue_eq]
  constructor
  · intro h
    split at h
    case isFalse => cases h
    case isTrue hdigits =>
        rw [Bool.and_eq_true, Bool.not_eq_true', List.isEmpty_eq_false_iff, List.all_eq_true]
          at hdigits
        exact ⟨hdigits.1, hdigits.2, Option.some.inj h⟩
  · rintro ⟨hne, hdigits, rfl⟩
    rw [if_pos]
    rw [Bool.and_eq_true, Bool.not_eq_true', List.isEmpty_eq_false_iff, List.all_eq_true]
    exact ⟨hne, hdigits⟩

/-- A sign is no digit. -/
theorem not_isDigits_cons {c : Char} (hc : c.isDigit = false) (n : Nat) :
    ¬IsDigits (c :: cs) n := by
  intro h
  have hdigit := h.digit c List.mem_cons_self
  rw [hc] at hdigit
  cases hdigit

/-! ## Signs -/

theorem unsigned?_eq_some_iff : unsigned? cs = some n ↔ IsUnsigned cs n := by
  unfold unsigned? IsUnsigned
  split
  case h_1 ds =>
      have hsign : ¬IsDigits ('+' :: ds) n := not_isDigits_cons (by decide) n
      simp [hsign, digits?_eq_some_iff]
  case h_2 hsign =>
      have hne : ¬∃ ds, cs = '+' :: ds ∧ IsDigits ds n := by
        rintro ⟨ds, rfl, -⟩
        exact hsign ds rfl
      rw [digits?_eq_some_iff, or_iff_left hne]

theorem not_isUnsigned_minus (ds : List Char) (n : Nat) : ¬IsUnsigned ('-' :: ds) n := by
  rintro (h | ⟨ds', heq, -⟩)
  · exact not_isDigits_cons (by decide) n h
  · cases heq

theorem signed?_minus (ds : List Char) :
    signed? ('-' :: ds) = (digits? ds).map fun k : Nat => -(k : Int) := by
  rw [signed?]
  cases digits? ds <;> rfl

theorem signed?_of_ne (h : ∀ ds, cs ≠ '-' :: ds) :
    signed? cs = (unsigned? cs).map fun k : Nat => (k : Int) := by
  rw [signed?.eq_def]
  split
  case h_1 ds => exact absurd rfl (h ds)
  case h_2 => cases unsigned? cs <;> rfl

theorem signed?_eq_some_iff {n : Int} : signed? cs = some n ↔ IsSigned cs n := by
  by_cases hminus : ∃ ds, cs = '-' :: ds
  · obtain ⟨ds, rfl⟩ := hminus
    rw [signed?_minus, Option.map_eq_some_iff]
    constructor
    · rintro ⟨k, hk, rfl⟩
      exact .inr ⟨ds, k, rfl, rfl, digits?_eq_some_iff.mp hk⟩
    · rintro (⟨k, -, hk⟩ | ⟨ds', k, rfl, heq, hk⟩)
      · exact absurd hk (not_isUnsigned_minus ds k)
      · obtain ⟨-, rfl⟩ := List.cons.inj heq
        exact ⟨k, digits?_eq_some_iff.mpr hk, rfl⟩
  · rw [signed?_of_ne fun ds heq => hminus ⟨ds, heq⟩, Option.map_eq_some_iff]
    constructor
    · rintro ⟨k, hk, rfl⟩
      exact .inl ⟨k, rfl, unsigned?_eq_some_iff.mp hk⟩
    · rintro (⟨k, rfl, hk⟩ | ⟨ds, k, -, heq, -⟩)
      · exact ⟨k, unsigned?_eq_some_iff.mpr hk, rfl⟩
      · exact absurd ⟨ds, heq⟩ hminus

/-! ## Numbers that fit -/

theorem byte?_eq_some_iff {n : UInt8} : byte? cs = some n ↔ IsUnsigned cs n.toNat := by
  unfold byte?
  rw [← unsigned?_eq_some_iff, Option.bind_eq_some_iff]
  constructor
  · rintro ⟨k, hk, h⟩
    split at h
    case isFalse => cases h
    case isTrue hlt =>
        obtain rfl := Option.some.inj h
        rw [hk, UInt8.toNat_ofNat_of_lt' hlt]
  · intro h
    refine ⟨n.toNat, h, ?_⟩
    rw [if_pos n.toNat_lt, UInt8.ofNat_toNat]

theorem coordinate?_eq_some_iff {n : Int16} : coordinate? cs = some n ↔ IsSigned cs n.toInt := by
  unfold coordinate?
  rw [← signed?_eq_some_iff, Option.bind_eq_some_iff]
  constructor
  · rintro ⟨k, hk, h⟩
    split at h
    case isFalse => cases h
    case isTrue hfits =>
        obtain rfl := Option.some.inj h
        rw [hk, Int16.toInt_ofInt_of_le hfits.1 (Int.lt_of_le_of_lt hfits.2 (by decide))]
  · intro h
    refine ⟨n.toInt, h, ?_⟩
    have hlow := n.le_toInt
    have hhigh := n.toInt_lt
    rw [if_pos (by omega), Int16.ofInt_toInt]

/-! ## Decimal forms -/

theorem isDigits_toDigits (n : Nat) : IsDigits (Nat.toDigits 10 n) n where
  ne_nil := Nat.toDigits_ne_nil
  digit _ hc := Nat.isDigit_of_mem_toDigits (by decide) (by decide) hc
  value := Nat.ofDigitChars_ten_toDigits

theorem isDigits_repr (n : Nat) : IsDigits (toString n).toList n := by
  rw [Nat.toString_eq_repr, Nat.toList_repr]
  exact isDigits_toDigits n

theorem isSigned_repr (n : Int) : IsSigned (toString n).toList n := by
  cases n with
  | ofNat k => exact .inl ⟨k, rfl, .inl (isDigits_repr k)⟩
  | negSucc k =>
      have htext : (toString (Int.negSucc k)).toList = '-' :: (toString (k + 1)).toList := by
        show ("-" ++ (k + 1).repr).toList = _
        rw [String.toList_append]
        rfl
      exact .inr ⟨_, k + 1, rfl, htext, isDigits_repr (k + 1)⟩

end TileRoom.Console

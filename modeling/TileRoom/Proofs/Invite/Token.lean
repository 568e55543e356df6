import Mathlib.Algebra.Group.Nat.Defs
import Mathlib.Data.List.Induction
import TileRoom.Invite.Token

/-!
# Each id has one token

A token is ten digits in base sixty-four and one below sixteen, each written as a symbol. What is
shifted out of the id are these digits (`shiftOut_spec`), and what is shifted in is the number that
they stand for (`foldlM_shiftIn`). A token is read back as the id that it spells
(`ofTokenChars?_tokenChars`), and no other characters are read (`eq_tokenChars`), because a number
has only one spelling of a given width (`digits_ofDigits`). `tokens_bijective` says which texts
these are.
-/

namespace TileRoom.Invite

variable {c : Char} {cs : List Char} {n : Nat} {ds : List Nat} {last : Nat} {id : UInt64}

/-! ## Symbols -/

/-- Whether a character can stand in a token: a letter or digit of ASCII, a hyphen, or an
underscore. -/
def isSymbol (c : Char) : Bool :=
  c.isAlphanum || c == '-' || c == '_'

theorem symbolValue?_symbol (h : n < 64) : symbolValue? (symbol n) = some n := by
  have hall : ∀ n < 64, symbolValue? (symbol n) = some n := by decide +kernel
  exact hall n h

theorem symbolValue?_eq_some_iff : symbolValue? c = some n ↔ n < 64 ∧ c = symbol n := by
  constructor
  · intro h
    obtain ⟨hlt, heq, _⟩ := List.idxOf?_eq_some_iff.mp h
    refine ⟨hlt, ?_⟩
    rw [symbol, List.getD_eq_getElem?_getD, List.getElem?_eq_getElem hlt]
    exact heq.symm
  · rintro ⟨hlt, rfl⟩
    exact symbolValue?_symbol hlt

theorem toNat_lt_of_isSymbol (h : isSymbol c = true) : c.toNat < 128 := by
  simp only [isSymbol, Char.isAlphanum, Bool.or_eq_true, beq_iff_eq] at h
  rcases h with ((hletter | hdigit) | rfl) | rfl
  · rcases Bool.or_eq_true_iff.mp hletter with hupper | hlower
    · exact Nat.lt_of_le_of_lt (of_decide_eq_true hupper).2 (by decide)
    · have hlast := (Bool.and_eq_true_iff.mp hlower).2
      exact Nat.lt_of_le_of_lt (of_decide_eq_true hlast) (by decide)
  · have hlast := (Bool.and_eq_true_iff.mp hdigit).2
    exact Nat.lt_of_le_of_lt (of_decide_eq_true hlast) (by decide)
  · decide
  · decide

/-- The symbols are the characters that have a value. -/
theorem isSymbol_iff : isSymbol c = true ↔ ∃ n < 64, c = symbol n := by
  constructor
  · intro h
    have hall : ∀ k < 128, isSymbol (Char.ofNat k) = true →
        ∃ n < 64, Char.ofNat k = symbol n := by decide +kernel
    have hc := hall c.toNat (toNat_lt_of_isSymbol h)
    rw [Char.ofNat_toNat] at hc
    exact hc h
  · rintro ⟨n, hn, rfl⟩
    have hall : ∀ n < 64, isSymbol (symbol n) = true := by decide +kernel
    exact hall n hn

/-- The first sixteen values are those of the letters up to P. -/
theorem lt_lastValues_iff (h : n < 64) : n < lastValues ↔ 'A' ≤ symbol n ∧ symbol n ≤ 'P' := by
  have hall : ∀ n < 64, n < lastValues ↔ 'A' ≤ symbol n ∧ symbol n ≤ 'P' := by decide +kernel
  exact hall n h

/-! ## Numbers in base sixty-four -/

/-- The last `width` digits of a number in base sixty-four, most significant first. -/
def digits : (width n : Nat) → List Nat
  | 0, _ => []
  | width + 1, n => digits width (n / 64) ++ [n % 64]

/-- The number that digits in base sixty-four stand for. -/
def ofDigits (ds : List Nat) : Nat :=
  ds.foldl (fun n d => n * 64 + d) 0

@[simp] theorem length_digits (width n : Nat) : (digits width n).length = width := by
  induction width generalizing n with
  | zero => rfl
  | succ width ih => simp [digits, ih]

theorem digits_lt {width d : Nat} (h : d ∈ digits width n) : d < 64 := by
  induction width generalizing n with
  | zero => cases h
  | succ width ih =>
      rcases List.mem_append.mp h with h | h
      · exact ih h
      · rw [List.mem_singleton.mp h]
        exact Nat.mod_lt n (by decide)

@[simp] theorem ofDigits_nil : ofDigits [] = 0 := rfl

@[simp] theorem ofDigits_concat (ds : List Nat) (d : Nat) :
    ofDigits (ds ++ [d]) = ofDigits ds * 64 + d := by
  simp [ofDigits]

/-- A number that is not too large is what its digits stand for. -/
theorem ofDigits_digits {width : Nat} (h : n < 64 ^ width) : ofDigits (digits width n) = n := by
  induction width generalizing n with
  | zero =>
      rw [digits, ofDigits_nil]
      omega
  | succ width ih =>
      rw [Nat.pow_succ] at h
      have hquotient : n / 64 < 64 ^ width := Nat.div_lt_of_lt_mul (by omega)
      rw [digits, ofDigits_concat, ih hquotient]
      omega

theorem ofDigits_lt (h : ∀ d ∈ ds, d < 64) : ofDigits ds < 64 ^ ds.length := by
  induction ds using List.reverseRecOn with
  | nil => decide
  | append_singleton ds d ih =>
      have hd := h d (by simp)
      have hds := ih fun d' hd' => h d' (by simp [hd'])
      rw [ofDigits_concat, List.length_append, List.length_singleton, Nat.pow_succ]
      omega

/-- Digits are those of the number that they stand for. -/
theorem digits_ofDigits (h : ∀ d ∈ ds, d < 64) : digits ds.length (ofDigits ds) = ds := by
  induction ds using List.reverseRecOn with
  | nil => rfl
  | append_singleton ds d ih =>
      have hd := h d (by simp)
      have hds := ih fun d' hd' => h d' (by simp [hd'])
      have hquotient : (ofDigits ds * 64 + d) / 64 = ofDigits ds := by omega
      have hlast : (ofDigits ds * 64 + d) % 64 = d := by omega
      rw [ofDigits_concat, List.length_append, List.length_singleton, digits, hquotient, hlast, hds]

/-- The first digit, and the others of what is left without it. -/
theorem digits_succ (width n : Nat) :
    digits (width + 1) n = n / 64 ^ width % 64 :: digits width n := by
  induction width generalizing n with
  | zero => simp [digits]
  | succ width ih =>
      have hfirst : n / 64 / 64 ^ width = n / 64 ^ (width + 1) := by
        rw [Nat.div_div_eq_div_mul, Nat.pow_succ, Nat.mul_comm 64]
      rw [digits, ih, hfirst, digits, List.cons_append]

/-- What is above the digits has no say in them. -/
theorem digits_mod (width n : Nat) : digits width (n % 64 ^ width) = digits width n := by
  induction width generalizing n with
  | zero => rfl
  | succ width ih =>
      have hquotient : n % 64 ^ (width + 1) / 64 = n / 64 % 64 ^ width := by
        rw [Nat.pow_succ, Nat.mul_comm, Nat.mod_mul_right_div_self]
      have hlast : n % 64 ^ (width + 1) % 64 = n % 64 :=
        Nat.mod_mod_of_dvd n ⟨64 ^ width, Nat.pow_succ'⟩
      rw [digits, hquotient, ih, hlast, digits]

/-! ## Words of sixty-four bits -/

theorem toNat_shiftLeft_six (bits : UInt64) : (bits <<< 6).toNat = bits.toNat * 64 % 2 ^ 64 := by
  simp [UInt64.toNat_shiftLeft, Nat.shiftLeft_eq]

theorem toNat_shiftRight_top (bits : UInt64) : (bits >>> 58).toNat = bits.toNat / 2 ^ 58 := by
  simp [UInt64.toNat_shiftRight, Nat.shiftRight_eq_div_pow]

/-- A digit that is shifted in from below is added. -/
theorem ofNat_shiftLeft_or {k : Nat} (hk : k < 64) (n : Nat) {d : Nat} (hd : d < 2 ^ k) :
    UInt64.ofNat n <<< UInt64.ofNat k ||| UInt64.ofNat d = UInt64.ofNat (n * 2 ^ k + d) := by
  rw [← UInt64.ofNat_shiftLeft n k hk, ← UInt64.ofNat_or, ← Nat.shiftLeft_add_eq_or_of_lt hd,
    Nat.shiftLeft_eq]

theorem shiftOut_succ (count : Nat) (bits : UInt64) :
    shiftOut (count + 1) bits = (symbol (bits >>> 58).toNat :: (shiftOut count (bits <<< 6)).1,
      (shiftOut count (bits <<< 6)).2) :=
  rfl

/-- A word is made of as many digits as are shifted out and of what is below them. -/
theorem word_eq {count : Nat} (hcount : count ≤ 10) :
    2 ^ 64 = 2 ^ (64 - 6 * count) * 64 ^ count := by
  have hdigits : 64 ^ count = 2 ^ (6 * count) := (Nat.pow_mul 2 6 count).symm
  rw [hdigits, ← Nat.pow_add]
  congr 1
  omega

/-- One digit more leaves that much less below it. -/
theorem place_eq {count : Nat} (hcount : count + 1 ≤ 10) :
    2 ^ (64 - 6 * count) = 2 ^ (64 - 6 * (count + 1)) * 64 := by
  show _ = _ * 2 ^ 6
  rw [← Nat.pow_add]
  congr 1
  omega

/-- What is shifted out are the top digits, and the other bits are moved to the top. -/
theorem shiftOut_spec {count : Nat} (hcount : count ≤ 10) (bits : UInt64) :
    (shiftOut count bits).1 = (digits count (bits.toNat / 2 ^ (64 - 6 * count))).map symbol ∧
      (shiftOut count bits).2.toNat = bits.toNat * 64 ^ count % 2 ^ 64 := by
  induction count generalizing bits with
  | zero => exact ⟨rfl, by simp [shiftOut, Nat.mod_eq_of_lt bits.toNat_lt]⟩
  | succ count ih =>
      obtain ⟨hfull, hrest⟩ := ih (Nat.le_of_succ_le hcount) (bits <<< 6)
      rw [toNat_shiftLeft_six] at hfull hrest
      have hword := word_eq (Nat.le_of_succ_le hcount)
      have hplace := place_eq hcount
      rw [shiftOut_succ]
      constructor
      · have hfirst : bits.toNat / 2 ^ (64 - 6 * (count + 1)) / 64 ^ count % 64 =
            bits.toNat / 2 ^ 58 := by
          have hbits := bits.toNat_lt
          rw [hplace, Nat.mul_right_comm] at hword
          rw [Nat.div_div_eq_div_mul]
          generalize 2 ^ (64 - 6 * (count + 1)) * 64 ^ count = top at hword ⊢
          obtain rfl : top = 2 ^ 58 := by omega
          omega
        -- the bits that the shift drops are above the digits that are left
        have htail : bits.toNat * 64 % 2 ^ 64 / 2 ^ (64 - 6 * count) =
            bits.toNat / 2 ^ (64 - 6 * (count + 1)) % 64 ^ count := by
          rw [hword, Nat.mod_mul_right_div_self, hplace, Nat.mul_div_mul_right _ _ (by decide)]
        rw [digits_succ, List.map_cons, hfirst, toNat_shiftRight_top, hfull, htail, digits_mod]
      · have hshifts : bits.toNat * 64 * 64 ^ count = bits.toNat * 64 ^ (count + 1) := by
          rw [Nat.mul_assoc, ← Nat.pow_succ']
        rw [hrest, Nat.mod_mul_mod, hshifts]

/-- What is shifted in is what the digits stand for. -/
theorem foldlM_shiftIn (h : ∀ d ∈ ds, d < 64) (n : Nat) :
    (ds.map symbol).foldlM shiftIn (UInt64.ofNat n) =
      some (UInt64.ofNat (ds.foldl (fun n d => n * 64 + d) n)) := by
  induction ds generalizing n with
  | nil => rfl
  | cons d ds ih =>
      obtain ⟨hd, hds⟩ := List.forall_mem_cons.mp h
      have hstep : shiftIn (UInt64.ofNat n) (symbol d) = some (UInt64.ofNat (n * 64 + d)) := by
        rw [shiftIn, symbolValue?_symbol hd]
        exact congrArg some (ofNat_shiftLeft_or (k := 6) (by decide) n hd)
      rw [List.map_cons, List.foldlM_cons, hstep]
      exact ih hds (n * 64 + d)

/-- Only symbols are shifted in. -/
theorem eq_map_symbol {bits bits' : UInt64} (h : cs.foldlM shiftIn bits = some bits') :
    ∃ ds : List Nat, (∀ d ∈ ds, d < 64) ∧ cs = ds.map symbol := by
  induction cs generalizing bits with
  | nil => exact ⟨[], by simp, rfl⟩
  | cons c cs ih =>
      rw [List.foldlM_cons] at h
      obtain ⟨next, hnext, hrest⟩ := Option.bind_eq_some_iff.mp h
      obtain ⟨d, hd, _⟩ := Option.map_eq_some_iff.mp hnext
      obtain ⟨hlt, rfl⟩ := symbolValue?_eq_some_iff.mp hd
      obtain ⟨ds, hds, rfl⟩ := ih hrest
      exact ⟨d :: ds, List.forall_mem_cons.mpr ⟨hlt, hds⟩, rfl⟩

/-! ## Tokens as characters -/

/-- The characters that are shifted out of an id are ten digits and the last four bits. -/
theorem tokenChars_eq (id : UInt64) :
    tokenChars id = (digits fullSymbols (id.toNat / lastValues)).map symbol ++
      [symbol (id.toNat % lastValues)] := by
  obtain ⟨hfull, hrest⟩ := @shiftOut_spec fullSymbols (Nat.le_refl 10) id
  have hlast : ((shiftOut fullSymbols id).2 >>> 60).toNat = id.toNat % lastValues := by
    simp only [UInt64.toNat_shiftRight, Nat.shiftRight_eq_div_pow, hrest]
    unfold fullSymbols lastValues
    show id.toNat * 64 ^ 10 % 2 ^ 64 / 2 ^ 60 = id.toNat % 16
    omega
  unfold tokenChars
  rw [← hlast]
  exact congrArg (· ++ _) hfull

/-- The value of a token's characters: ten digits and a last one. -/
def spelled (ds : List Nat) (last : Nat) : Nat :=
  ofDigits ds * lastValues + last

/-- A list of characters that spells digits, the last of them below sixteen. -/
structure Spells (cs : List Char) (ds : List Nat) (last : Nat) : Prop where
  eq : cs = ds.map symbol ++ [symbol last]
  length : ds.length = fullSymbols
  digit_lt : ∀ d ∈ ds, d < 64
  last_lt : last < lastValues

theorem Spells.ofTokenChars? (h : Spells cs ds last) :
    ofTokenChars? cs = some (UInt64.ofNat (spelled ds last)) := by
  obtain ⟨rfl, hlength, hdigits, hlast⟩ := h
  have hvalue : symbolValue? (symbol last) = some last :=
    symbolValue?_symbol (Nat.lt_trans hlast (by decide))
  have hlen : (ds.map symbol).length = fullSymbols := by rw [List.length_map, hlength]
  have hfull : (ds.map symbol).foldlM shiftIn 0 = some (UInt64.ofNat (ofDigits ds)) :=
    foldlM_shiftIn hdigits 0
  unfold Invite.ofTokenChars?
  rw [if_pos (by rw [List.length_append, hlen]; rfl), List.take_left' hlen, List.drop_left' hlen,
    hfull]
  have hspelled := ofNat_shiftLeft_or (k := 4) (by decide) (ofDigits ds) hlast
  simp only [Option.bind_eq_bind, Option.bind_some, List.head?_cons, hvalue, if_pos hlast]
  exact congrArg some hspelled

theorem spells_of_ofTokenChars? (h : ofTokenChars? cs = some id) :
    ∃ ds last, Spells cs ds last := by
  unfold Invite.ofTokenChars? at h
  split at h
  case isFalse => cases h
  case isTrue hlength =>
      obtain ⟨bits, hbits, h⟩ := Option.bind_eq_some_iff.mp h
      obtain ⟨last, hlast, h⟩ := Option.bind_eq_some_iff.mp h
      obtain ⟨c, hc, hvalue⟩ := Option.bind_eq_some_iff.mp hlast
      obtain ⟨ds, hdigits, hfull⟩ := eq_map_symbol hbits
      obtain ⟨-, rfl⟩ := symbolValue?_eq_some_iff.mp hvalue
      split at h
      case isFalse => cases h
      case isTrue hlt =>
        have hten : ds.length = fullSymbols := by
          have htake := congrArg List.length hfull
          rw [List.length_take, List.length_map] at htake
          omega
        have hone : (cs.drop fullSymbols).length = 1 := by
          rw [List.length_drop]
          omega
        obtain ⟨c', hrest⟩ := List.length_eq_one_iff.mp hone
        rw [hrest] at hc
        obtain rfl := Option.some.inj hc
        refine ⟨ds, last, ?_, hten, hdigits, hlt⟩
        rw [← hfull, ← hrest, List.take_append_drop]

theorem tokenChars_spells (id : UInt64) :
    Spells (tokenChars id) (digits fullSymbols (id.toNat / lastValues)) (id.toNat % lastValues) where
  eq := tokenChars_eq id
  length := length_digits _ _
  digit_lt _ h := digits_lt h
  last_lt := Nat.mod_lt _ (by decide)

/-- A token is read back. -/
theorem ofTokenChars?_tokenChars (id : UInt64) : ofTokenChars? (tokenChars id) = some id := by
  have hid := id.toNat_lt
  have hfits : id.toNat / lastValues < 64 ^ fullSymbols := by
    unfold lastValues fullSymbols
    omega
  rw [(tokenChars_spells id).ofTokenChars?, spelled, ofDigits_digits hfits, Nat.mul_comm,
    Nat.div_add_mod, UInt64.ofNat_toNat]

theorem Spells.tokenChars (h : Spells cs ds last) :
    tokenChars (UInt64.ofNat (spelled ds last)) = cs := by
  have hds := ofDigits_lt h.digit_lt
  have hback := digits_ofDigits h.digit_lt
  have hlast := h.last_lt
  rw [h.length] at hds hback
  unfold fullSymbols at hds
  unfold lastValues at hlast
  have hnat : (UInt64.ofNat (spelled ds last)).toNat = ofDigits ds * 16 + last :=
    UInt64.toNat_ofNat_of_lt' (by unfold spelled lastValues UInt64.size; omega)
  have hquotient : (ofDigits ds * 16 + last) / lastValues = ofDigits ds := by
    unfold lastValues
    omega
  have hremainder : (ofDigits ds * 16 + last) % lastValues = last := by
    unfold lastValues
    omega
  rw [tokenChars_eq, hnat, hquotient, hremainder, hback, h.eq]

/-- Nothing but tokens is read. -/
theorem eq_tokenChars (h : ofTokenChars? cs = some id) : cs = tokenChars id := by
  obtain ⟨ds, last, hspells⟩ := spells_of_ofTokenChars? h
  rw [hspells.ofTokenChars?] at h
  rw [← Option.some.inj h, hspells.tokenChars]

/-! ## Tokens as texts -/

theorem toList_token (id : UInt64) : (token id).toList = tokenChars id :=
  String.toList_ofList

theorem ofToken?_eq_some_iff {t : String} : ofToken? t = some id ↔ t = token id := by
  constructor
  · intro h
    rw [token, ← eq_tokenChars h, String.ofList_toList]
  · rintro rfl
    rw [ofToken?, toList_token, ofTokenChars?_tokenChars]

theorem exists_digits (h : cs.all isSymbol = true) :
    ∃ ds : List Nat, (∀ d ∈ ds, d < 64) ∧ cs = ds.map symbol := by
  induction cs with
  | nil => exact ⟨[], by simp, rfl⟩
  | cons c cs ih =>
      rw [List.all_cons, Bool.and_eq_true] at h
      obtain ⟨d, hd, rfl⟩ := isSymbol_iff.mp h.1
      obtain ⟨ds, hds, rfl⟩ := ih h.2
      exact ⟨d :: ds, List.forall_mem_cons.mpr ⟨hd, hds⟩, rfl⟩

/-- What spells a number is told by its characters alone. -/
theorem exists_spells_iff : (∃ ds last, Spells cs ds last) ↔
    cs.length = 11 ∧ cs.all isSymbol = true ∧ ∃ c, cs.getLast? = some c ∧ 'A' ≤ c ∧ c ≤ 'P' := by
  constructor
  · rintro ⟨ds, last, rfl, hlength, hdigits, hlast⟩
    have hlt : last < 64 := Nat.lt_trans hlast (by decide)
    refine ⟨?_, ?_, symbol last, List.getLast?_concat, (lt_lastValues_iff hlt).mp hlast⟩
    · rw [List.length_append, List.length_map, hlength]
      rfl
    · simp only [List.all_append, List.all_map, List.all_cons, List.all_nil, Bool.and_true,
        Bool.and_eq_true, List.all_eq_true]
      exact ⟨fun d hd => isSymbol_iff.mpr ⟨d, hdigits d hd, rfl⟩, isSymbol_iff.mpr ⟨last, hlt, rfl⟩⟩
  · rintro ⟨hlength, hsymbols, c, hc, hrange⟩
    obtain ⟨full, rfl⟩ := List.getLast?_eq_some_iff.mp hc
    rw [List.all_append, Bool.and_eq_true, List.all_cons, List.all_nil, Bool.and_true] at hsymbols
    obtain ⟨ds, hdigits, rfl⟩ := exists_digits hsymbols.1
    obtain ⟨last, hlt, rfl⟩ := isSymbol_iff.mp hsymbols.2
    refine ⟨ds, last, rfl, ?_, hdigits, (lt_lastValues_iff hlt).mpr hrange⟩
    simpa [fullSymbols] using hlength

/-- Which texts can be read. -/
theorem isSome_ofToken?_iff (t : String) : (ofToken? t).isSome = true ↔
    t.length = 11 ∧ t.toList.all isSymbol = true ∧
      ∃ c, t.toList.getLast? = some c ∧ 'A' ≤ c ∧ c ≤ 'P' := by
  rw [← String.length_toList, ← exists_spells_iff, Option.isSome_iff_exists]
  constructor
  · rintro ⟨id, h⟩
    exact spells_of_ofTokenChars? h
  · rintro ⟨ds, last, h⟩
    exact ⟨_, h.ofTokenChars?⟩

/-- The characters stand for the bits of the id, six at a time from the top, and the last four. -/
theorem map_symbolValue?_token (id : UInt64) :
    (token id).toList.map symbolValue? =
      ([58, 52, 46, 40, 34, 28, 22, 16, 10, 4].map fun k => some (id.toNat / 2 ^ k % 64)) ++
        [some (id.toNat % 16)] := by
  have hvalue (n : Nat) : symbolValue? (symbol (n % 64)) = some (n % 64) :=
    symbolValue?_symbol (Nat.mod_lt n (by decide))
  have hlast : symbolValue? (symbol (id.toNat % 16)) = some (id.toNat % 16) :=
    symbolValue?_symbol (Nat.lt_trans (Nat.mod_lt _ (by decide)) (by decide))
  simp [toList_token, tokenChars_eq, fullSymbols, lastValues, digits, hvalue, hlast,
    Nat.div_div_eq_div_mul]

/-- Each id has one token and each token one id. A token is eleven letters, digits, hyphens and
underscores that spell the bits of the id in order, and is read back as the id. No other text is
read: a text has an id just if it is made of eleven such characters and the last of them is one of
the letters from A to P, the symbols of the values below sixteen. -/
theorem tokens_bijective :
    (∀ id, (token id).length = 11 ∧ (token id).toList.all isSymbol = true ∧
      (token id).toList.map symbolValue? =
        ([58, 52, 46, 40, 34, 28, 22, 16, 10, 4].map fun k => some (id.toNat / 2 ^ k % 64)) ++
          [some (id.toNat % 16)] ∧
      ofToken? (token id) = some id) ∧
    (∀ t id, ofToken? t = some id ↔ t = token id) ∧
    ∀ t, (ofToken? t).isSome = true ↔ t.length = 11 ∧ t.toList.all isSymbol = true ∧
      ∃ c, t.toList.getLast? = some c ∧ 'A' ≤ c ∧ c ≤ 'P' := by
  refine ⟨fun id => ?_, fun t id => ofToken?_eq_some_iff, isSome_ofToken?_iff⟩
  have hread : ofToken? (token id) = some id := ofToken?_eq_some_iff.mpr rfl
  have hsome : (ofToken? (token id)).isSome = true := by
    rw [hread]
    rfl
  obtain ⟨hlength, hsymbols, -⟩ := (isSome_ofToken?_iff _).mp hsome
  exact ⟨hlength, hsymbols, map_symbolValue?_token id, hread⟩

example : token 0xcafecafecafecafe = "yv7K_sr-yvO" := by decide +kernel

end TileRoom.Invite

import TileRoom.Invite.Link
import TileRoom.Proofs.Invite.Token

/-!
# What is read as an invitation

A link is an address and a token, and a query is a token with or without a question mark before it.
`IsLink` and `IsQuery` say so without reading. What is read is just that (`ofLink?_eq_some_iff`,
`ofQuery?_eq_some_iff`), and because an address is longer than a question mark no text is both
(`not_isQuery`). So it does not matter which reader is tried first.

The case of a letter is that of ASCII alone. The long s, for one, which Unicode takes for an s when
it disregards case, does not stand for the s of the scheme.
-/

namespace TileRoom.Invite

/-- A text is a link to a conversation. The letters before the token may be of either case. -/
def IsLink (id : UInt64) (s : String) : Prop :=
  ∃ start : String,
    (start.toLower = "http://gemelo.org/j/" ∨ start.toLower = "https://gemelo.org/j/") ∧
      s = start ++ token id

/-- A text is a query for a conversation. -/
def IsQuery (id : UInt64) (s : String) : Prop :=
  s = token id ∨ s = "?" ++ token id

variable {start spelling cs rest : List Char} {s : String} {id id' : UInt64}

/-! ## Either case -/

theorem foldCase_eq_toLower (c : Char) : foldCase c = c.toLower := by
  unfold foldCase
  by_cases hupper : 'A' ≤ c ∧ c ≤ 'Z'
  · have hall : ∀ n ≤ 'Z'.toNat, 'A'.toNat ≤ n →
        Char.ofNat (n + 32) = (Char.ofNat n).toLower := by decide
    have hc := hall c.toNat hupper.2 hupper.1
    rw [Char.ofNat_toNat] at hc
    rw [if_pos hupper, hc]
  · have hval : ¬(c.val ≥ 'A'.val ∧ c.val ≤ 'Z'.val) := hupper
    have hsame : c.toLower = c := dif_neg hval
    rw [if_neg hupper, hsame]

theorem toList_toLower (s : String) : s.toLower.toList = s.toList.map foldCase := by
  calc s.toLower.toList = (s.map Char.toLower).toList := rfl
    _ = s.toList.map foldCase := by rw [String.toList_map, funext foldCase_eq_toLower]

/-- Any spelling of `start` is dropped. -/
theorem dropFolded?_append (h : spelling.map foldCase = start.map foldCase) (rest : List Char) :
    dropFolded? start (spelling ++ rest) = some rest := by
  induction start generalizing spelling with
  | nil =>
      obtain rfl := List.map_eq_nil_iff.mp h
      rfl
  | cons d ds ih =>
      obtain ⟨c, cs, rfl, hc, hcs⟩ := List.map_eq_cons_iff.mp h
      rw [List.cons_append, dropFolded?, if_pos hc.symm, ih hcs]

/-- What is dropped is a spelling of `start`. -/
theorem exists_spelling (h : dropFolded? start cs = some rest) :
    ∃ spelling, spelling.map foldCase = start.map foldCase ∧ cs = spelling ++ rest := by
  induction start generalizing cs with
  | nil => exact ⟨[], rfl, Option.some.inj h⟩
  | cons d ds ih =>
      cases cs with
      | nil => cases h
      | cons c cs =>
          unfold dropFolded? at h
          split at h
          case isFalse => cases h
          case isTrue heq =>
              obtain ⟨spelling, hspelling, rfl⟩ := ih h
              exact ⟨c :: spelling, by rw [List.map_cons, List.map_cons, heq, hspelling], rfl⟩

/-! ## Links -/

/-- The schemes differ in one letter, and the address does not begin with that letter. So a link is
read in one way only, although the letter may be left out. -/
theorem dropFolded?_letter (h : spelling.map foldCase = address.toList.map foldCase)
    (rest : List Char) : dropFolded? ['s'] (spelling ++ rest) = none := by
  obtain ⟨c, cs, rfl, hc, -⟩ := List.map_eq_cons_iff.mp h
  have hne : foldCase 's' ≠ foldCase c := by
    rw [hc]
    decide
  exact if_neg hne

theorem http_eq :
    "http://gemelo.org/j/".toList = "http".toList.map foldCase ++ address.toList.map foldCase := by
  decide

theorem https_eq : "https://gemelo.org/j/".toList =
    "http".toList.map foldCase ++ (['s'].map foldCase ++ address.toList.map foldCase) := by
  decide

theorem exists_spelling_of_ofLink? (h : ofLink? s = some id) :
    ∃ spelling, (spelling.map foldCase = "http://gemelo.org/j/".toList ∨
      spelling.map foldCase = "https://gemelo.org/j/".toList) ∧
        s.toList = spelling ++ tokenChars id := by
  unfold ofLink? at h
  obtain ⟨afterScheme, hscheme, h⟩ := Option.bind_eq_some_iff.mp h
  obtain ⟨afterAddress, haddress, h⟩ := Option.bind_eq_some_iff.mp h
  obtain ⟨scheme, hscheme, hs⟩ := exists_spelling hscheme
  obtain ⟨place, hplace, hrest⟩ := exists_spelling haddress
  obtain rfl := eq_tokenChars h
  cases hletter : dropFolded? ['s'] afterScheme with
  | none =>
      rw [hletter, Option.getD_none] at hrest
      refine ⟨scheme ++ place, .inl ?_, ?_⟩
      · rw [List.map_append, hscheme, hplace, http_eq]
      · rw [hs, hrest, List.append_assoc]
  | some afterLetter =>
      rw [hletter, Option.getD_some] at hrest
      obtain ⟨letter, hletter, hafter⟩ := exists_spelling hletter
      refine ⟨scheme ++ (letter ++ place), .inr ?_, ?_⟩
      · rw [List.map_append, List.map_append, hscheme, hletter, hplace, https_eq]
      · rw [hs, hafter, hrest, List.append_assoc, List.append_assoc]

theorem ofLink?_of_http (h : spelling.map foldCase = "http://gemelo.org/j/".toList)
    (hs : s.toList = spelling ++ tokenChars id) : ofLink? s = some id := by
  rw [http_eq] at h
  obtain ⟨scheme, place, rfl, hscheme, hplace⟩ := List.map_eq_append_iff.mp h
  simp only [ofLink?, hs, List.append_assoc, dropFolded?_append hscheme, dropFolded?_letter hplace,
    dropFolded?_append hplace, Option.getD_none, Option.bind_eq_bind, Option.bind_some,
    ofTokenChars?_tokenChars]

theorem ofLink?_of_https (h : spelling.map foldCase = "https://gemelo.org/j/".toList)
    (hs : s.toList = spelling ++ tokenChars id) : ofLink? s = some id := by
  rw [https_eq] at h
  obtain ⟨scheme, rest, rfl, hscheme, hrest⟩ := List.map_eq_append_iff.mp h
  obtain ⟨letter, place, rfl, hletter, hplace⟩ := List.map_eq_append_iff.mp hrest
  simp only [ofLink?, hs, List.append_assoc, dropFolded?_append hscheme,
    dropFolded?_append hletter, dropFolded?_append hplace, Option.getD_some, Option.bind_eq_bind,
    Option.bind_some, ofTokenChars?_tokenChars]

theorem ofLink?_eq_some_iff : ofLink? s = some id ↔ IsLink id s := by
  constructor
  · intro h
    obtain ⟨spelling, hspelling, hs⟩ := exists_spelling_of_ofLink? h
    refine ⟨String.ofList spelling, ?_, ?_⟩
    · simpa only [← String.toList_inj, toList_toLower, String.toList_ofList] using hspelling
    · rw [← String.toList_inj, hs, String.toList_append, String.toList_ofList, toList_token]
  · rintro ⟨start, hstart, rfl⟩
    have hs : (start ++ token id).toList = start.toList ++ tokenChars id := by
      rw [String.toList_append, toList_token]
    simp only [← String.toList_inj, toList_toLower] at hstart
    rcases hstart with hhttp | hhttps
    · exact ofLink?_of_http hhttp hs
    · exact ofLink?_of_https hhttps hs

/-! ## Queries -/

theorem ofTokenChars?_eq_some_iff : ofTokenChars? cs = some id ↔ cs = tokenChars id := by
  constructor
  · exact eq_tokenChars
  · rintro rfl
    exact ofTokenChars?_tokenChars id

theorem tokenChars_ne_cons_question (id : UInt64) (cs : List Char) :
    '?' :: cs ≠ tokenChars id := by
  intro heq
  obtain ⟨-, hsymbols, -⟩ := exists_spells_iff.mp ⟨_, _, tokenChars_spells id⟩
  rw [← heq, List.all_cons, Bool.and_eq_true] at hsymbols
  exact absurd hsymbols.1 (by decide)

theorem ofQuery?_eq_some_iff : ofQuery? s = some id ↔ IsQuery id s := by
  have hquestion : ("?" ++ token id).toList = '?' :: tokenChars id := by
    rw [String.toList_append, toList_token]
    rfl
  unfold ofQuery? IsQuery
  rw [← String.toList_inj, ← String.toList_inj, hquestion, toList_token]
  split
  case h_1 cs hs =>
      -- no token begins with a question mark
      simp [hs, tokenChars_ne_cons_question, ofTokenChars?_eq_some_iff]
  case h_2 hs =>
      have hne : s.toList ≠ '?' :: tokenChars id := fun heq => hs _ heq
      simp [hne, ofTokenChars?_eq_some_iff]

/-! ## One or the other -/

theorem length_token (id : UInt64) : (token id).length = 11 := by
  obtain ⟨hlength, -⟩ := exists_spells_iff.mp ⟨_, _, tokenChars_spells id⟩
  rw [← String.length_toList, toList_token, hlength]

theorem length_of_toLower {s t : String} (h : s.toLower = t) : s.length = t.length := by
  rw [← h, ← String.length_toList, ← String.length_toList, toList_toLower, List.length_map]

theorem IsLink.length (h : IsLink id s) : s.length = 31 ∨ s.length = 32 := by
  obtain ⟨start, hstart, rfl⟩ := h
  rw [String.length_append, length_token]
  rcases hstart with hhttp | hhttps
  · left
    rw [length_of_toLower hhttp]
    decide
  · right
    rw [length_of_toLower hhttps]
    decide

theorem IsQuery.length (h : IsQuery id s) : s.length = 11 ∨ s.length = 12 := by
  rcases h with rfl | rfl
  · exact .inl (length_token id)
  · right
    rw [String.length_append, length_token]
    decide

/-- No text is both a link and a query. -/
theorem IsLink.not_isQuery (h : IsLink id s) (id' : UInt64) : ¬IsQuery id' s := by
  intro hquery
  have hlong := h.length
  have hshort := hquery.length
  omega

theorem ofLink?_eq_none_or (s : String) : ofLink? s = none ∨ ofQuery? s = none := by
  cases hlink : ofLink? s with
  | none => exact .inl rfl
  | some id =>
      right
      rw [Option.eq_none_iff_forall_not_mem]
      intro id' hquery
      exact (ofLink?_eq_some_iff.mp hlink).not_isQuery id' (ofQuery?_eq_some_iff.mp hquery)

theorem parse?_eq_some_iff :
    parse? s = some id ↔ ofLink? s = some id ∨ ofQuery? s = some id := by
  unfold parse?
  rcases ofLink?_eq_none_or s with h | h
  · simp [h]
  · simp [h]

theorem link_isLink (id : UInt64) : IsLink id (link id) := by
  refine ⟨"https" ++ address, .inr ?_, rfl⟩
  rw [← String.toList_inj, toList_toLower]
  decide

/-- A text is read as a link just if it is an address in letters of either case with a token after
it, and as a query just if it is a token, or one after a question mark. No text is read as both, and
an invitation is what is read as either. So every form of an invitation leads to its conversation,
the link that is given out among them, and no text leads to two. -/
theorem invitations_exact :
    (∀ s id, ofLink? s = some id ↔ IsLink id s) ∧
    (∀ s id, ofQuery? s = some id ↔ IsQuery id s) ∧
    (∀ s, ofLink? s = none ∨ ofQuery? s = none) ∧
    (∀ s id, parse? s = some id ↔ ofLink? s = some id ∨ ofQuery? s = some id) ∧
    (∀ id, parse? (link id) = some id ∧ parse? (token id) = some id ∧
      parse? ("?" ++ token id) = some id) ∧
    ∀ s id id', IsLink id s ∨ IsQuery id s → IsLink id' s ∨ IsQuery id' s → id = id' := by
  have hparse (s : String) (id : UInt64) : parse? s = some id ↔ IsLink id s ∨ IsQuery id s := by
    rw [parse?_eq_some_iff, ofLink?_eq_some_iff, ofQuery?_eq_some_iff]
  refine ⟨fun s id => ofLink?_eq_some_iff, fun s id => ofQuery?_eq_some_iff, ofLink?_eq_none_or,
    fun s id => parse?_eq_some_iff, fun id => ⟨?_, ?_, ?_⟩, ?_⟩
  · exact (hparse _ _).mpr (.inl (link_isLink id))
  · exact (hparse _ _).mpr (.inr (.inl rfl))
  · exact (hparse _ _).mpr (.inr (.inr rfl))
  · intro s id id' h h'
    rw [← hparse] at h h'
    exact Option.some.inj (h.symm.trans h')

example : parse? "HTTPS://Gemelo.org/J/yv7K_sr-yvO" = some 0xcafecafecafecafe := by decide +kernel

example : parse? "httpſ://gemelo.org/j/yv7K_sr-yvO" = none := by decide +kernel

end TileRoom.Invite

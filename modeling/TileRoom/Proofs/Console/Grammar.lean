import TileRoom.Console.Command
import TileRoom.Proofs.Console.Numeral

/-!
# The grammar of the console

A line that begins with a slash names a command if its words do, and its words are what stands
between the blanks (`words_eq_splitOnP`). `Names` lists the words that name a command; no more of
them and no fewer are taken (`parse_slash_eq_ok_iff`). Every command but a chat has a plain form in
words, and is read back however the blanks are set around them (`Spaced.words_eq`).
-/

namespace TileRoom.Console

/-! ## Words -/

/-- Characters that are one word. -/
def IsWord (w : List Char) : Prop :=
  w ≠ [] ∧ ∀ c ∈ w, isBlank c = false

instance (w : List Char) : Decidable (IsWord w) :=
  @instDecidableAnd _ _ inferInstance (w.decidableBAll _)

/-- Words with blanks around them. After a word comes a blank or nothing. -/
inductive Spaced : List (List Char) → List Char → Prop
  | nil : Spaced [] []
  | blank {ws cs} {c : Char} (hc : isBlank c = true) (h : Spaced ws cs) : Spaced ws (c :: cs)
  | word {ws cs} (w : List Char) (hcs : ∀ c ∈ cs.head?, isBlank c = true) (h : Spaced ws cs) :
      Spaced (w :: ws) (w ++ cs)

variable {cs : List Char} {ws more : List (List Char)} {command : Command}

/-- The word that is being read goes on up to the first blank. -/
theorem wordsFrom_eq_splitOnP (word cs : List Char) :
    wordsFrom word cs =
      ((cs.splitOnP isBlank).modifyHead (word ++ ·)).filter (fun w => !w.isEmpty) := by
  induction cs generalizing word with
  | nil =>
      rw [List.splitOnP_nil, List.modifyHead_cons, List.append_nil, wordsFrom]
      cases word <;> rfl
  | cons c cs ih =>
      obtain ⟨next, rest, hsplit⟩ :=
        List.exists_cons_of_ne_nil (List.splitOnP_ne_nil isBlank cs)
      rw [wordsFrom, List.splitOnP_cons_eq_if_modifyHead]
      by_cases hblank : isBlank c = true
      · rw [if_pos hblank, if_pos hblank, ih, hsplit, List.modifyHead_cons, List.modifyHead_cons,
          List.append_nil]
        cases word <;> rfl
      · rw [if_neg hblank, if_neg hblank, ih, hsplit]
        simp only [List.modifyHead_cons, List.append_assoc, List.singleton_append]

/-- The words are the parts between blanks that are not empty. -/
theorem words_eq_splitOnP (cs : List Char) :
    words cs = (cs.splitOnP isBlank).filter (fun w => !w.isEmpty) := by
  obtain ⟨next, rest, hsplit⟩ := List.exists_cons_of_ne_nil (List.splitOnP_ne_nil isBlank cs)
  rw [words, wordsFrom_eq_splitOnP, hsplit]
  rfl

theorem wordsFrom_append {w : List Char} (h : ∀ c ∈ w, isBlank c = false) (word cs : List Char) :
    wordsFrom word (w ++ cs) = wordsFrom (word ++ w) cs := by
  induction w generalizing word with
  | nil => rw [List.nil_append, List.append_nil]
  | cons c w ih =>
      have hc := h c List.mem_cons_self
      have hrest := ih (fun d hd => h d (List.mem_cons_of_mem _ hd)) (word ++ [c])
      rw [List.cons_append, wordsFrom, if_neg (by simp [hc]), hrest, List.append_assoc]
      rfl

theorem words_blank {c : Char} (hc : isBlank c = true) (cs : List Char) :
    words (c :: cs) = words cs := by
  simp [words, wordsFrom, hc]

theorem words_word {w : List Char} (hw : IsWord w) (hcs : ∀ c ∈ cs.head?, isBlank c = true) :
    words (w ++ cs) = w :: words cs := by
  obtain ⟨hne, hw⟩ := hw
  rw [words, wordsFrom_append hw, List.nil_append]
  cases cs with
  | nil => simp [words, wordsFrom, hne]
  | cons c cs =>
      have hc : isBlank c = true := hcs c rfl
      simp [words, wordsFrom, hc, hne]

/-- Words are read back wherever the blanks are. -/
theorem Spaced.words_eq (h : Spaced ws cs) (hws : ∀ w ∈ ws, IsWord w) : words cs = ws := by
  induction h with
  | nil => rfl
  | blank hc h ih => rw [words_blank hc, ih hws]
  | word w hcs h ih =>
      rw [words_word (hws w List.mem_cons_self) hcs,
        ih fun w' hw' => hws w' (List.mem_cons_of_mem _ hw')]

/-! ## Commands -/

/-- Words name a command. -/
inductive Names : List (List Char) → Command → Prop
  | turn : Names ["turn".toList] .turn
  | shout : Names ["shout".toList] .shout
  | state : Names ["state".toList] .state
  | quit : Names ["quit".toList] .quit
  | tiles {w n} (hn : IsUnsigned w n.toNat) : Names ["tiles".toList, w] (.tiles n)
  | move {wTile wX wY tile x y} (htile : IsUnsigned wTile tile.toNat) (hx : IsSigned wX x.toInt)
      (hy : IsSigned wY y.toInt) : Names ["move".toList, wTile, wX, wY] (.move tile x y)

theorem argument_cons {α : Type} {read : List Char → Option α} {w : List Char} {a : α}
    (h : read w = some a) (ws : List (List Char)) : argument read (w :: ws) = .ok (a, ws) := by
  rw [argument, h]

theorem exists_word_of_argument {α : Type} {read : List Char → Option α} {a : α}
    (h : argument read ws = .ok (a, more)) : ∃ w, ws = w :: more ∧ read w = some a := by
  cases ws with
  | nil => cases h
  | cons w ws =>
      rw [argument] at h
      cases hread : read w with
      | none =>
          rw [hread] at h
          cases h
      | some b =>
          rw [hread] at h
          cases h
          exact ⟨w, rfl, hread⟩

theorem exists_of_bind_eq_ok {ε α β : Type} {x : Except ε α} {f : α → Except ε β} {b : β}
    (h : x >>= f = .ok b) : ∃ a, x = .ok a ∧ f a = .ok b := by
  cases x with
  | error e => cases h
  | ok a => exact ⟨a, rfl, h⟩

theorem Names.ofWords_append (h : Names ws command) (line : String) (more : List (List Char)) :
    Command.ofWords line (ws ++ more) = .ok (command, more) := by
  cases h with
  | turn => rfl
  | shout => rfl
  | state => rfl
  | quit => rfl
  | @tiles w n hn =>
      show (argument byte? (w :: more) >>= fun p => pure (Command.tiles p.1, p.2)) = _
      rw [argument_cons (byte?_eq_some_iff.mpr hn)]
      rfl
  | @move wTile wX wY tile x y htile hx hy =>
      show (argument byte? (wTile :: wX :: wY :: more) >>= fun p =>
        argument coordinate? p.2 >>= fun q =>
        argument coordinate? q.2 >>= fun r => pure (Command.move p.1 q.1 r.1, r.2)) = _
      rw [argument_cons (byte?_eq_some_iff.mpr htile)]
      show (argument coordinate? (wX :: wY :: more) >>= fun q =>
        argument coordinate? q.2 >>= fun r => pure (Command.move tile q.1 r.1, r.2)) = _
      rw [argument_cons (coordinate?_eq_some_iff.mpr hx)]
      show (argument coordinate? (wY :: more) >>= fun r =>
        pure (Command.move tile x r.1, r.2)) = _
      rw [argument_cons (coordinate?_eq_some_iff.mpr hy)]
      rfl

/-- A name that is a whole command leaves the words after it. -/
theorem exists_names_of_name {name : List Char} {named : Command} (hnames : Names [name] named)
    {ws : List (List Char)}
    (h : (.ok (named, ws) : Except CommandError _) = .ok (command, more)) :
    ∃ taken, Names taken command ∧ name :: ws = taken ++ more := by
  cases h
  exact ⟨[name], hnames, rfl⟩

/-- A command is named by the words that are taken for it. -/
theorem exists_names {line : String} (h : Command.ofWords line ws = .ok (command, more)) :
    ∃ taken, Names taken command ∧ ws = taken ++ more := by
  cases ws with
  | nil => cases h
  | cons w ws =>
      rw [Command.ofWords] at h
      by_cases hturn : w = "turn".toList
      · rw [if_pos hturn] at h
        rw [hturn]
        exact exists_names_of_name .turn h
      rw [if_neg hturn] at h
      by_cases hshout : w = "shout".toList
      · rw [if_pos hshout] at h
        rw [hshout]
        exact exists_names_of_name .shout h
      rw [if_neg hshout] at h
      by_cases htiles : w = "tiles".toList
      · rw [if_pos htiles] at h
        obtain ⟨⟨n, rest⟩, hargument, hcommand⟩ := exists_of_bind_eq_ok h
        obtain ⟨wN, rfl, hn⟩ := exists_word_of_argument hargument
        cases hcommand
        exact ⟨_, .tiles (byte?_eq_some_iff.mp hn), by rw [htiles]; rfl⟩
      rw [if_neg htiles] at h
      by_cases hmove : w = "move".toList
      · rw [if_pos hmove] at h
        obtain ⟨⟨tile, afterTile⟩, hfirst, hafterTile⟩ := exists_of_bind_eq_ok h
        obtain ⟨wTile, rfl, htile⟩ := exists_word_of_argument hfirst
        obtain ⟨⟨x, afterX⟩, hsecond, hafterX⟩ := exists_of_bind_eq_ok hafterTile
        obtain ⟨wX, rfl, hx⟩ := exists_word_of_argument hsecond
        obtain ⟨⟨y, afterY⟩, hthird, hcommand⟩ := exists_of_bind_eq_ok hafterX
        obtain ⟨wY, rfl, hy⟩ := exists_word_of_argument hthird
        cases hcommand
        exact ⟨_, .move (byte?_eq_some_iff.mp htile) (coordinate?_eq_some_iff.mp hx)
          (coordinate?_eq_some_iff.mp hy), by rw [hmove]; rfl⟩
      rw [if_neg hmove] at h
      by_cases hstate : w = "state".toList
      · rw [if_pos hstate] at h
        rw [hstate]
        exact exists_names_of_name .state h
      rw [if_neg hstate] at h
      by_cases hquit : w = "quit".toList
      · rw [if_pos hquit] at h
        rw [hquit]
        exact exists_names_of_name .quit h
      rw [if_neg hquit] at h
      cases h

/-! ## Lines -/

theorem toList_slash (rest : String) : ("/" ++ rest).toList = '/' :: rest.toList :=
  String.toList_append

theorem parse_of_not_slash {line : String} (h : ∀ rest, line ≠ "/" ++ rest) :
    Command.parse line = .ok (.chat line) := by
  unfold Command.parse
  split
  case h_1 cs hline =>
      refine absurd ?_ (h (String.ofList cs))
      rw [← String.toList_inj, hline, toList_slash, String.toList_ofList]
  case h_2 => rfl

theorem parse_slash (rest : String) : Command.parse ("/" ++ rest) =
    match Command.ofWords ("/" ++ rest) (words rest.toList) with
    | .error e => .error e
    | .ok (command, []) => .ok command
    | .ok (_, w :: _) => .error (.unexpectedArgument (String.ofList w)) := by
  unfold Command.parse
  rw [toList_slash]
  rfl

/-- After a slash the words have to name a command, all of them. -/
theorem parse_slash_eq_ok_iff (rest : String) (command : Command) :
    Command.parse ("/" ++ rest) = .ok command ↔ Names (words rest.toList) command := by
  rw [parse_slash]
  constructor
  · intro h
    split at h
    case h_1 => cases h
    case h_2 hwords =>
        cases h
        obtain ⟨named, hnames, heq⟩ := exists_names hwords
        rw [heq, List.append_nil]
        exact hnames
    case h_3 => cases h
  · intro h
    have hwords := h.ofWords_append ("/" ++ rest) []
    rw [List.append_nil] at hwords
    rw [hwords]

/-! ## Plain forms -/

/-- The plain form of a command in words. A chat has none. -/
def Command.spelled? : Command → Option (List (List Char))
  | .chat _ => none
  | .turn => some ["turn".toList]
  | .shout => some ["shout".toList]
  | .state => some ["state".toList]
  | .quit => some ["quit".toList]
  | .tiles n => some ["tiles".toList, (toString n.toNat).toList]
  | .move tile x y => some ["move".toList, (toString tile.toNat).toList,
      (toString x.toInt).toList, (toString y.toInt).toList]

theorem names_of_spelled? (h : command.spelled? = some ws) : Names ws command := by
  cases command with
  | chat text => cases h
  | turn => cases h; exact .turn
  | shout => cases h; exact .shout
  | state => cases h; exact .state
  | quit => cases h; exact .quit
  | tiles n => cases h; exact .tiles (.inl (isDigits_repr n.toNat))
  | move tile x y =>
      cases h
      exact .move (.inl (isDigits_repr tile.toNat)) (isSigned_repr x.toInt) (isSigned_repr y.toInt)

theorem isBlank_of_isDigit {c : Char} (h : c.isDigit = true) : isBlank c = false := by
  have hall : ∀ n ≤ '9'.toNat, '0'.toNat ≤ n → isBlank (Char.ofNat n) = false := by decide
  obtain ⟨hlow, hhigh⟩ := Char.isDigit_iff_toNat.mp h
  have hc := hall c.toNat hhigh hlow
  rwa [Char.ofNat_toNat] at hc

theorem IsDigits.isWord {n : Nat} (h : IsDigits cs n) : IsWord cs :=
  ⟨h.ne_nil, fun c hc => isBlank_of_isDigit (h.digit c hc)⟩

theorem isWord_cons {c : Char} (hc : isBlank c = false) (h : IsWord cs) : IsWord (c :: cs) :=
  ⟨by simp, List.forall_mem_cons.mpr ⟨hc, h.2⟩⟩

theorem IsUnsigned.isWord {n : Nat} (h : IsUnsigned cs n) : IsWord cs := by
  rcases h with h | ⟨ds, rfl, h⟩
  · exact h.isWord
  · exact isWord_cons (by decide) h.isWord

theorem IsSigned.isWord {n : Int} (h : IsSigned cs n) : IsWord cs := by
  rcases h with ⟨k, -, h⟩ | ⟨ds, k, -, rfl, h⟩
  · exact h.isWord
  · exact isWord_cons (by decide) h.isWord

/-- What names a command are words, so they can be set between blanks. -/
theorem Names.isWord (h : Names ws command) : ∀ w ∈ ws, IsWord w := by
  cases h with
  | turn => decide
  | shout => decide
  | state => decide
  | quit => decide
  | tiles hn =>
      have htiles : IsWord "tiles".toList := by decide
      simp only [List.forall_mem_cons, htiles, hn.isWord, List.not_mem_nil, false_imp_iff,
        implies_true, and_self]
  | move htile hx hy =>
      have hmove : IsWord "move".toList := by decide
      simp only [List.forall_mem_cons, hmove, htile.isWord, hx.isWord, hy.isWord,
        List.not_mem_nil, false_imp_iff, implies_true, and_self]

/-- A line that begins with a slash is a command just if its words, which are the parts between
blanks that are not empty, are those of the command: its name and as many numerals as it has
arguments, for numbers that fit. If they are not, it is an error. Any other line is a chat, which is
the whole line. So a command in its plain form, with its numbers in decimal, is read back whatever
blanks there are around its words. -/
theorem lines_exact :
    (∀ line, (∀ rest, line ≠ "/" ++ rest) → Command.parse line = .ok (.chat line)) ∧
    (∀ rest command, Command.parse ("/" ++ rest) = .ok command ↔
      Names ((rest.toList.splitOnP isBlank).filter fun w => !w.isEmpty) command) ∧
    (∀ rest, (∃ e, Command.parse ("/" ++ rest) = .error e) ↔
      ∀ command, ¬Names ((rest.toList.splitOnP isBlank).filter fun w => !w.isEmpty) command) ∧
    ∀ command ws rest, command.spelled? = some ws → Spaced ws rest.toList →
      Command.parse ("/" ++ rest) = .ok command := by
  simp only [← words_eq_splitOnP]
  refine ⟨fun line => parse_of_not_slash, parse_slash_eq_ok_iff, fun rest => ?_, ?_⟩
  · simp only [← parse_slash_eq_ok_iff]
    cases Command.parse ("/" ++ rest) with
    | error e => simp
    | ok command => simp
  · intro command ws rest hspelled hspaced
    have hnames := names_of_spelled? hspelled
    rw [parse_slash_eq_ok_iff, hspaced.words_eq hnames.isWord]
    exact hnames

example : Command.parse "/move 3\t-12  +040 " = .ok (.move 3 (-12) 40) := by rfl

example : Command.parse "/tiles 256" = .error (.notANumber "256") := by rfl

end TileRoom.Console

import TileRoom.Client.Basic
import TileRoom.Proofs.Session.Budget
import TileRoom.Proofs.Wire.Size

/-!
# Usable settings

A client does not run on the settings that it is given but on the nearest ones that can be used.
`NormalForm c v` says which those are, setting by setting: it says of a name what is left of it, not
how it is cut. It leaves no choice, so it holds of `c.validated` and of nothing else
(`settings_exact`). Settings that can be used stay as they are, so it does not matter how often they
are made usable before a client starts.
-/

namespace TileRoom

theorem Text.withoutNul_eq_self {s : String} (h : '\x00' ∉ s.toList) : withoutNul s = s := by
  have hall : s.toList.filter (· ≠ '\x00') = s.toList := by
    rw [List.filter_eq_self]
    intro c hc
    simp only [decide_eq_true_eq]
    rintro rfl
    exact h hc
  rw [withoutNul, hall, String.ofList_toList]

namespace ClientConfig

/-! ## Once and for all -/

/-- A name that fits is left as it is. -/
theorem fitName_eq_self {s : String} (h : Text.Fits maxName s) : fitName s = s := by
  have hsize := h.size
  rw [Text.byteSize_toList] at hsize
  rw [fitName, Text.withoutNul_eq_self h.writable, Text.truncate_eq_self hsize]

theorem fitJoin_fitJoin (join : JoinRequest) : fitJoin (fitJoin join) = fitJoin join := by
  cases join with
  | room name => rw [fitJoin, fitJoin, fitName_eq_self (fitName_fits name)]
  | conversation id => rfl

theorem raise_eq_self {d : Duration} (h : d.isZero = false) : raise d = d := by
  rw [raise, h]
  rfl

theorem raise_isZero (d : Duration) : (raise d).isZero = false := by
  unfold raise
  cases h : d.isZero with
  | true =>
      rw [if_pos rfl]
      decide
  | false => exact h

theorem validated_validated (c : ClientConfig) : c.validated.validated = c.validated := by
  simp only [validated, fitName_eq_self (fitName_fits c.playerName), fitJoin_fitJoin,
    raise_eq_self (raise_isZero _), ReconnectPolicy.validated_validated]

/-! ## The normal form -/

/-- `kept` is left of the name `given`: the longest beginning of at most 256 bytes of what it is
without NUL characters. -/
def IsFitted (given kept : String) : Prop :=
  Text.IsLongestFitting 256 (String.ofList (given.toList.filter (· ≠ '\x00'))) kept

/-- Only the name of a room is a name. -/
inductive IsFittedJoin : JoinRequest → JoinRequest → Prop
  | room {given kept : String} (h : IsFitted given kept) : IsFittedJoin (.room given) (.room kept)
  | conversation (id : ConversationId) : IsFittedJoin (.conversation id) (.conversation id)

/-- An interval is kept, or a millisecond is taken for none. -/
def IsRaised (given kept : Duration) : Prop :=
  kept.nanos = if given.nanos = 0 then 1_000_000 else given.nanos

/-- The settings `v` are those nearest to `c` that can be used. -/
structure NormalForm (c v : ClientConfig) : Prop where
  playerName : IsFitted c.playerName v.playerName
  join : IsFittedJoin c.join v.join
  keepAliveInterval : IsRaised c.keepAliveInterval v.keepAliveInterval
  flushRetryInterval : IsRaised c.flushRetryInterval v.flushRetryInterval
  connectTimeout : IsRaised c.connectTimeout v.connectTimeout
  maxAttempts : v.session.maxAttempts.toNat = max 1 c.session.maxAttempts.toNat
  maxDelay : v.session.maxDelay.nanos = max c.session.maxDelay.nanos c.session.delay.nanos
  delay : v.session.delay = c.session.delay
  endpoint : v.endpoint = c.endpoint
  shoutDuration : v.shoutDuration = c.shoutDuration

theorem fitName_isFitted (s : String) : IsFitted s (fitName s) :=
  Text.truncate_isLongestFitting (Text.withoutNul s) maxName

theorem fitJoin_isFittedJoin (join : JoinRequest) : IsFittedJoin join (fitJoin join) := by
  cases join with
  | room name => exact .room (fitName_isFitted name)
  | conversation id => exact .conversation id

theorem IsFittedJoin.unique {join j k : JoinRequest} (hj : IsFittedJoin join j)
    (hk : IsFittedJoin join k) : j = k := by
  cases hj with
  | room hj =>
      cases hk with
      | room hk => rw [hj.unique hk]
  | conversation id =>
      cases hk with
      | conversation => rfl

theorem raise_isRaised (d : Duration) : IsRaised d (raise d) := by
  unfold IsRaised raise
  by_cases h : d.nanos = 0
  · rw [if_pos h, if_pos (by simpa [Duration.isZero] using h)]
    decide
  · rw [if_neg h, if_neg (by simpa [Duration.isZero] using h)]

theorem IsRaised.unique {given d e : Duration} (hd : IsRaised given d) (he : IsRaised given e) :
    d = e :=
  Duration.ext (hd.trans he.symm)

theorem validated_normalForm (c : ClientConfig) : NormalForm c c.validated where
  playerName := fitName_isFitted c.playerName
  join := fitJoin_isFittedJoin c.join
  keepAliveInterval := raise_isRaised c.keepAliveInterval
  flushRetryInterval := raise_isRaised c.flushRetryInterval
  connectTimeout := raise_isRaised c.connectTimeout
  maxAttempts := c.session.validated_maxAttempts
  maxDelay := Duration.longer_nanos _ _
  delay := rfl
  endpoint := rfl
  shoutDuration := rfl

theorem NormalForm.session {c v w : ClientConfig} (hv : NormalForm c v) (hw : NormalForm c w) :
    v.session = w.session := by
  apply ReconnectPolicy.ext
  · exact UInt32.toNat_inj.mp (hv.maxAttempts.trans hw.maxAttempts.symm)
  · exact hv.delay.trans hw.delay.symm
  · exact Duration.ext (hv.maxDelay.trans hw.maxDelay.symm)

/-- There is only one normal form. -/
theorem NormalForm.unique {c v w : ClientConfig} (hv : NormalForm c v) (hw : NormalForm c w) :
    v = w := by
  apply ClientConfig.ext
  case endpoint => exact hv.endpoint.trans hw.endpoint.symm
  case join => exact hv.join.unique hw.join
  case playerName => exact hv.playerName.unique hw.playerName
  case session => exact hv.session hw
  case keepAliveInterval => exact hv.keepAliveInterval.unique hw.keepAliveInterval
  case flushRetryInterval => exact hv.flushRetryInterval.unique hw.flushRetryInterval
  case shoutDuration => exact hv.shoutDuration.trans hw.shoutDuration.symm
  case connectTimeout => exact hv.connectTimeout.unique hw.connectTimeout

/-- A name that was cut has no NUL character left. -/
theorem IsFitted.writable {given kept : String} (h : IsFitted given kept) :
    '\x00' ∉ kept.toList := by
  intro hnul
  have hleft := h.beginning.subset hnul
  rw [String.toList_ofList, List.mem_filter] at hleft
  simp at hleft

/-- **The settings of a client are the normal form of the given ones.** They are made usable in one
way only: each name is cut as late as the limit of 256 bytes allows after its NUL characters are
gone, a millisecond is taken for an interval of none, there is at least one attempt and a ceiling not
below the first delay, and all else is as it was given. To do so again changes nothing, so a client
that is given usable settings runs on these, and starts as it would have from the original ones. -/
theorem settings_exact (c : ClientConfig) :
    (∀ v, NormalForm c v ↔ v = c.validated) ∧
      ('\x00' ∉ c.validated.playerName.toList ∧
        ∀ name, c.validated.join = .room name → '\x00' ∉ name.toList) ∧
      c.validated.validated = c.validated ∧
      (Client.new c.validated).config = c.validated ∧ Client.new c.validated = Client.new c := by
  have hnormal := validated_normalForm c
  refine ⟨?_, ⟨hnormal.playerName.writable, ?_⟩, validated_validated c, validated_validated c, ?_⟩
  · intro v
    constructor
    · exact fun hv => hv.unique hnormal
    · rintro rfl
      exact hnormal
  · intro name hroom
    have hjoin := hnormal.join
    rw [hroom] at hjoin
    generalize c.join = given at hjoin
    cases hjoin with
    | room h => exact h.writable
  · rw [Client.new, validated_validated]
    rfl

end ClientConfig

end TileRoom

import TileRoom.Proofs.Session.Identity

/-!
# Where a session is resumed

A hello that resumes a seat names the seat and how many chats were heard there. Both are read off
what the session has received: the last identity that came while it was connecting, and the number
of chats that came before it was over, modulo the range of the count. `Bookmark` is what a session
keeps of them, and `Bookmark.after` what messages make of it. No operation keeps anything else
(`bookmark_operate`), so what a whole history leaves is a matter of its messages alone
(`bookmark_operateAll`).
-/

namespace TileRoom

/-- A message with the state in which it found the session. -/
structure Receipt where
  state : SessionState
  msg : ServerMessage

namespace Receipt

/-- The identity that is assigned to a session that waits for one. -/
def identity? : Receipt → Option PersonId
  | ⟨.connecting, .playerId person _⟩ => some person
  | _ => none

/-- Whether a session that is not over hears a chat. -/
def isChat : Receipt → Bool
  | ⟨state, .message ..⟩ => !state.isFinished
  | _ => false

variable {r : Receipt}

theorem identity?_of_ne (h : r.state ≠ .connecting) : r.identity? = none := by
  obtain ⟨state, msg⟩ := r
  cases state with
  | connecting => exact absurd rfl h
  | _ => rfl

theorem isChat_of_isFinished (h : r.state.isFinished = true) : r.isChat = false := by
  obtain ⟨state, msg⟩ := r
  cases msg with
  | message player text => simp [isChat, show state.isFinished = true from h]
  | _ => rfl

end Receipt

/-- What a session keeps of the messages that it received. -/
structure Bookmark where
  person : Option PersonId
  sequence : UInt16

namespace Bookmark

/-- The bookmark after more messages. -/
def after (b : Bookmark) (rs : List Receipt) : Bookmark where
  person := (rs.filterMap Receipt.identity?).getLast?.or b.person
  sequence := b.sequence + .ofNat (rs.countP Receipt.isChat)

@[simp] theorem after_nil (b : Bookmark) : b.after [] = b := by
  simp [after]

theorem after_append (b : Bookmark) (rs rs' : List Receipt) :
    b.after (rs ++ rs') = (b.after rs).after rs' := by
  simp only [after, List.filterMap_append, List.getLast?_append, List.countP_append,
    UInt16.ofNat_add, UInt16.add_assoc, Option.or_assoc]

/-- A message that brings neither an identity nor a chat moves nothing. -/
theorem after_idle {b : Bookmark} {r : Receipt} (hidentity : r.identity? = none)
    (hchat : r.isChat = false) : b.after [r] = b := by
  simp [after, hidentity, hchat]

end Bookmark

namespace Machine

def bookmark (m : Machine) : Bookmark :=
  ⟨m.session.person, m.session.messageSequence⟩

/-- The message that an operation brings, if it brings one. -/
def receipt (m : Machine) : Operation → List Receipt
  | .handle msg => [⟨m.state, msg⟩]
  | _ => []

/-- The messages that operations bring, each with the state that it meets. -/
def receipts (m : Machine) : List Operation → List Receipt
  | [] => []
  | op :: ops => m.receipt op ++ (m.operate op).receipts ops

/-- The hello is made from the bookmark and the entry. -/
theorem hello_eq_of_bookmark {m m' : Machine} (hbookmark : m'.bookmark = m.bookmark)
    (hentry : m'.entry = m.entry) : m'.hello = m.hello := by
  have hperson : m'.session.person = m.session.person := congrArg Bookmark.person hbookmark
  have hsequence : m'.session.messageSequence = m.session.messageSequence :=
    congrArg Bookmark.sequence hbookmark
  rw [hello_eq, hello_eq, hperson, hsequence, hentry]

theorem bookmark_identify (m : Machine) (person : PersonId) (player : UInt8) :
    (m.identify person player).2.bookmark =
      m.bookmark.after [⟨m.state, .playerId person player⟩] := by
  unfold identify
  by_cases hstate : m.session.state = .connecting
  · rw [if_pos hstate, state, hstate]
    simp [bookmark, Bookmark.after, Receipt.identity?, Receipt.isChat]
  · rw [if_neg hstate]
    exact (Bookmark.after_idle (Receipt.identity?_of_ne hstate) rfl).symm

theorem bookmark_handle (m : Machine) (msg : ServerMessage) :
    (m.handle msg).2.bookmark = m.bookmark.after [⟨m.state, msg⟩] := by
  unfold handle
  cases hdone : m.isFinished with
  | true =>
      have hstate : m.state ≠ .connecting := by
        intro heq
        rw [isFinished, ← state, heq] at hdone
        cases hdone
      have hidentity : Receipt.identity? ⟨m.state, msg⟩ = none := Receipt.identity?_of_ne hstate
      exact (Bookmark.after_idle hidentity (Receipt.isChat_of_isFinished hdone)).symm
  | false =>
      have hgoing : m.state.isFinished = false := hdone
      cases msg with
      | playerId person player => exact m.bookmark_identify person player
      | message player text =>
          simp [bookmark, Bookmark.after, Receipt.identity?, Receipt.isChat, hgoing]
      | _ => exact (Bookmark.after_idle (by simp [Receipt.identity?]) rfl).symm

theorem bookmark_connectionLost (m : Machine) : m.connectionLost.2.bookmark = m.bookmark := by
  cases hdone : m.isFinished with
  | true => rw [connectionLost_of_isFinished hdone]; rfl
  | false =>
      rcases Nat.lt_or_ge (m.session.attempts + 1) m.policy.maxAttempts.toNat with hleft | hlast
      · rw [connectionLost_of_lt hdone hleft]; rfl
      · rw [connectionLost_of_le hdone hlast]; rfl

/-- Only messages move the bookmark. -/
theorem bookmark_operate (m : Machine) (op : Operation) :
    (m.operate op).bookmark = m.bookmark.after (m.receipt op) := by
  cases op with
  | handle msg => exact m.bookmark_handle msg
  | connectionLost => exact m.bookmark_connectionLost.trans (Bookmark.after_nil _).symm
  | helloRejected e =>
      have hsame : (m.helloRejected e).2.bookmark = m.bookmark := by
        unfold helloRejected
        split <;> rfl
      exact hsame.trans (Bookmark.after_nil _).symm
  | leave =>
      have hsame : m.leave.2.bookmark = m.bookmark := by
        unfold leave
        split <;> rfl
      exact hsame.trans (Bookmark.after_nil _).symm
  | _ => exact (Bookmark.after_nil _).symm

theorem bookmark_operateAll (m : Machine) (ops : List Operation) :
    (m.operateAll ops).bookmark = m.bookmark.after (m.receipts ops) := by
  induction ops generalizing m with
  | nil => exact (Bookmark.after_nil _).symm
  | cons op ops ih =>
      show ((m.operate op).operateAll ops).bookmark = _
      rw [ih, bookmark_operate, ← Bookmark.after_append, receipts]

/-- An operation that moves no bookmark leaves the hello as it is. -/
theorem hello_operate {m : Machine} {op : Operation}
    (h : ∀ r ∈ m.receipt op, r.identity? = none ∧ r.isChat = false) :
    (m.operate op).hello = m.hello := by
  refine hello_eq_of_bookmark ?_ (m.operate_keeps op).entry
  rw [bookmark_operate]
  cases op with
  | handle msg =>
      obtain ⟨hidentity, hchat⟩ := h ⟨m.state, msg⟩ (by simp [receipt])
      exact Bookmark.after_idle hidentity hchat
  | _ => exact Bookmark.after_nil _

/-- Whatever has happened to a session, the hello that it would send, and does send when it is
connected, is told by the messages that it received. If an identity came while it was connecting,
the hello resumes the seat of the last such identity after as many chats as came before the session
was over. Otherwise it is the entry that was asked for. Identities that come at another time, faults
and losses do not change it. -/
theorem hello_resumes (p : ReconnectPolicy) (join : JoinRequest) (playerName : String)
    (ops : List Operation) :
    let first := Machine.new p join playerName
    let m := first.operateAll ops
    let n := (first.receipts ops).countP Receipt.isChat
    let hello := match ((first.receipts ops).filterMap Receipt.identity?).getLast? with
      | some person => ClientMessage.reconnect person (.ofNat (n % 65536))
      | none => entering (join, playerName)
    m.hello = hello ∧ m.connected.hello = hello ∧
      (∀ person player, m.state ≠ .connecting →
        (m.operate (.handle (.playerId person player))).hello = hello) ∧
      (∀ e, (m.operate (.decodeError e)).hello = hello) ∧
      (m.operate .connectionLost).hello = hello := by
  intro first m n hello
  have hbookmark : m.bookmark = first.bookmark.after (first.receipts ops) :=
    first.bookmark_operateAll ops
  have hentry : m.entry = (join, playerName) := first.entry_operateAll ops
  have hsequence : m.session.messageSequence = .ofNat (n % 65536) := by
    calc m.session.messageSequence
        = 0 + .ofNat n := congrArg Bookmark.sequence hbookmark
      _ = .ofNat (n % 65536) := by rw [UInt16.zero_add, ← UInt16.ofNat_mod_size]
  have hperson :
      m.session.person = ((first.receipts ops).filterMap Receipt.identity?).getLast? := by
    calc m.session.person
        = ((first.receipts ops).filterMap Receipt.identity?).getLast?.or none :=
          congrArg Bookmark.person hbookmark
      _ = _ := Option.or_none
  have hhello : m.hello = hello := by
    have heq := m.hello_eq
    rw [hperson, hsequence, hentry] at heq
    exact heq
  refine ⟨hhello, hhello, ?_, ?_, ?_⟩
  · intro person player hstate
    rw [hello_operate, hhello]
    intro r hr
    obtain rfl := List.mem_singleton.mp hr
    exact ⟨Receipt.identity?_of_ne hstate, rfl⟩
  · intro e
    rw [hello_operate (by simp [receipt]), hhello]
  · rw [hello_operate (by simp [receipt]), hhello]

-- the second identity comes to a session that has one and is passed over
example : ((Machine.new {} default "Player").operateAll [.handle (.playerId ⟨42⟩ 0),
    .handle (.message 1 "a"), .handle (.playerId ⟨99⟩ 5), .connectionLost]).hello =
      .reconnect ⟨42⟩ 1 := by decide

end Machine

end TileRoom

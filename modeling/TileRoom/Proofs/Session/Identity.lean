import TileRoom.Proofs.Session.Budget

/-!
# Who the client is

A session keeps what it was asked to enter. It learns who it is from the identities that it accepts
and does not forget it. So the hello is a return to the seat once an identity was accepted, and the
entry before that (`hello_eq`, `hello_reconnect_iff`).
-/

namespace TileRoom.Machine

/-- What a session is to enter, and under which name. -/
def entry (m : Machine) : JoinRequest × String :=
  (m.join, m.playerName)

/-- The hello of a client that the server does not know. -/
def entering : JoinRequest × String → ClientMessage
  | (.room name, playerName) => .newPlayer name playerName
  | (.conversation id, playerName) => .joinConversation id playerName

theorem hello_eq (m : Machine) :
    m.hello = match m.session.person with
      | some person => .reconnect person m.session.messageSequence
      | none => entering m.entry := by
  unfold hello entry entering
  cases m.session.person with
  | some person => rfl
  | none => cases m.join <;> rfl

/-- Whether an operation brings an identity that the session accepts. -/
def recognizes (m : Machine) : Operation → Bool
  | .handle msg => m.accepts msg
  | _ => false

/-- Whether operations bring an identity that the session accepts. -/
def recognizesIn (m : Machine) : List Operation → Bool
  | [] => false
  | op :: ops => m.recognizes op || (m.operate op).recognizesIn ops

/-- What an operation does to who the client is: it leaves the entry alone, an identity is learnt
only if it is accepted, and the entry is blamed only if the hello was rejected. -/
structure Keeps (m : Machine) (op : Operation) (m' : Machine) : Prop where
  entry : m'.entry = m.entry
  person : m'.session.person.isSome = (m.session.person.isSome || m.recognizes op)
  failure : m'.failure = m.failure ∨
    ∃ reason, m'.failure = some reason ∧ ∀ e, reason = .invalidJoin e → op = .helloRejected e

section Operations

variable {m m' : Machine} {op : Operation}

theorem Keeps.of_eq (entry : m'.entry = m.entry) (person : m'.session.person = m.session.person)
    (failure : m'.failure = m.failure) (h : m.recognizes op = false) : m.Keeps op m' where
  entry := entry
  person := by rw [person, h, Bool.or_false]
  failure := .inl failure

theorem fail_keeps (reason : SessionFailure) (h : m.recognizes op = false)
    (hreason : ∀ e, reason = .invalidJoin e → op = .helloRejected e) :
    m.Keeps op (m.fail reason).2 where
  entry := rfl
  person := by rw [h, Bool.or_false]; rfl
  failure := .inr ⟨reason, rfl, hreason⟩

theorem handle_keeps (m : Machine) (msg : ServerMessage) :
    m.Keeps (.handle msg) (m.handle msg).2 := by
  unfold handle
  cases hdone : m.isFinished with
  | true =>
      have hstate : m.state ≠ .connecting := by
        intro heq
        rw [isFinished, ← state, heq] at hdone
        cases hdone
      refine .of_eq rfl rfl rfl ?_
      cases msg <;> simp [recognizes, accepts, hstate]
  | false =>
      simp only [Bool.false_eq_true, if_false]
      cases msg with
      | playerId person player =>
          show m.Keeps (.handle (.playerId person player)) (m.identify person player).2
          unfold identify
          by_cases hstate : m.session.state = .connecting
          · rw [if_pos hstate]
            exact ⟨rfl, by simp [recognizes, accepts, state, hstate], .inl rfl⟩
          · rw [if_neg hstate]
            exact .of_eq rfl rfl rfl (by simp [recognizes, accepts, state, hstate])
      | sessionEnd => exact fail_keeps _ rfl (by simp)
      | badPlayerId => exact fail_keeps _ rfl (by simp)
      | badConversationId => exact fail_keeps _ rfl (by simp)
      | conversationFull => exact fail_keeps _ rfl (by simp)
      | _ => exact .of_eq rfl rfl rfl rfl

theorem operate_keeps (m : Machine) (op : Operation) : m.Keeps op (m.operate op) := by
  cases op with
  | connecting => exact .of_eq rfl rfl rfl rfl
  | connected => exact .of_eq rfl rfl rfl rfl
  | decodeError e => exact .of_eq rfl rfl rfl rfl
  | handle msg => exact m.handle_keeps msg
  | connectionLost =>
      simp only [operate, connectionLost]
      split
      · exact .of_eq rfl rfl rfl rfl
      · split
        · -- giving up blames the connection
          exact ⟨rfl, by simp [fail, recognizes], .inr ⟨_, rfl, by simp⟩⟩
        · exact .of_eq rfl rfl rfl rfl
  | helloRejected e =>
      simp only [operate, helloRejected]
      split
      · exact .of_eq rfl rfl rfl rfl
      · refine fail_keeps _ rfl ?_
        rintro e' ⟨⟩
        rfl
  | leave =>
      simp only [operate, leave]
      split
      · exact .of_eq rfl rfl rfl rfl
      · exact .of_eq rfl rfl rfl rfl

end Operations

section Histories

variable {m : Machine} {ops : List Operation}

theorem entry_operateAll (m : Machine) (ops : List Operation) :
    (m.operateAll ops).entry = m.entry := by
  induction ops generalizing m with
  | nil => rfl
  | cons op ops ih =>
      show ((m.operate op).operateAll ops).entry = _
      rw [ih, (m.operate_keeps op).entry]

/-- An identity is known from the first that is accepted on. -/
theorem person_operateAll (m : Machine) (ops : List Operation) :
    (m.operateAll ops).session.person.isSome =
      (m.session.person.isSome || m.recognizesIn ops) := by
  induction ops generalizing m with
  | nil => exact (Bool.or_false _).symm
  | cons op ops ih =>
      show ((m.operate op).operateAll ops).session.person.isSome = _
      rw [ih, (m.operate_keeps op).person, Bool.or_assoc]
      rfl

/-- The entry is never blamed if no hello is rejected. -/
theorem failure_operateAll (h : ∀ e, m.failure ≠ some (.invalidJoin e))
    (hops : ∀ e, .helloRejected e ∉ ops) :
    ∀ e, (m.operateAll ops).failure ≠ some (.invalidJoin e) := by
  induction ops generalizing m with
  | nil => exact h
  | cons op ops ih =>
      refine ih (m := m.operate op) ?_ fun e he => hops e (List.mem_cons_of_mem _ he)
      intro e he
      rcases (m.operate_keeps op).failure with hsame | ⟨reason, hreason, hblame⟩
      · exact h e (hsame.symm.trans he)
      · have heq : reason = .invalidJoin e := Option.some.inj (hreason.symm.trans he)
        exact hops e (by rw [hblame e heq]; exact List.mem_cons_self)

end Histories

/-- The hello is a return to the seat if and only if an identity is known. -/
theorem hello_reconnect_iff (m : Machine) :
    (∃ person, m.hello = .reconnect person m.session.messageSequence) ↔
      m.session.person.isSome = true := by
  rw [hello_eq]
  cases m.session.person with
  | some person => simp
  | none =>
      simp only [Option.isSome_none, Bool.false_eq_true, iff_false]
      rintro ⟨person, heq⟩
      unfold entering at heq
      split at heq <;> cases heq

end TileRoom.Machine

import TileRoom.Client.Basic

/-!
# What a client does

`Run.start` is a client that has just begun to connect, `Run.react` is what it does about one
stimulus, and `Run.play` is its whole life so far. A stimulus that cannot reach the client as it
is (a frame without a connection, a deadline that is not due) changes nothing, so every list of
moments describes a possible life.

A message that does not go out because of the connection costs the connection. What follows is
decided by the session machine: another attempt after a delay, or the end. A client whose session
is finished releases everything it holds and does nothing more.
-/

namespace TileRoom.Run

/-! ### Effects -/

/-- Adds to the trace. -/
def log (r : Run) (e : Effect) : Run :=
  { r with trace := r.trace ++ [(r.now, e)] }

def report (r : Run) (e : ClientEvent) : Run :=
  r.log (.reported e)

def reportBoard (r : Run) (es : List BoardEvent) : Run :=
  es.foldl (fun r e => r.report (.board e)) r

def reportConnection (r : Run) : Run :=
  r.report (.connectionChanged r.machine.session.connection)

/-- Reports the state of the session if it is another than before, and why the session failed if
it did. -/
def reportState (r : Run) (before : SessionState) : Run :=
  if r.machine.state = before then r
  else
    let r := r.report (.stateChanged r.machine.state)
    match r.machine.state, r.machine.failure with
    | .error, some reason => r.report (.failed reason)
    | _, _ => r

def answer (r : Run) (a : Answer) : Run :=
  r.log (.answered a)

def armReconnect (r : Run) (after : Duration) : Run :=
  { r with reconnect := r.reconnect.arm r.now after }.log (.armed .reconnect (r.now + after.nanos))

def armShoutClear (r : Run) : Run :=
  let after := r.config.shoutDuration
  { r with shoutClear := r.shoutClear.arm r.now after }.log
    (.armed .shoutClear (r.now + after.nanos))

/-- An earlier flush may have set the deadline already. It is not put off then. -/
def armFlushRetry (r : Run) : Run :=
  if r.flushRetry.isArmed then r
  else
    let after := r.config.flushRetryInterval
    { r with flushRetry := r.flushRetry.arm r.now after }.log
      (.armed .flushRetry (r.now + after.nanos))

/-! ### Connections -/

/-- Lets go of the connection, if there is one. -/
def release (r : Run) : Run :=
  let after := { r with keeper := r.keeper.release }
  match r.keeper.connection with
  | none => after
  | some id => after.log (.dropped id)

/-- Closes the connection with a farewell, if there is one. -/
def close (r : Run) : Run :=
  match r.keeper.connection with
  | none => r.release
  | some id => (r.log (.closed id)).release

/-- Starts an attempt to connect. -/
def connect (r : Run) : Run :=
  let r := { r with machine := r.machine.connecting }.reportConnection.release
  { r with attempting := true }.log .attempted

/-- The connection is lost or could not be opened. -/
def connectionLost (r : Run) (before : SessionState) : Run :=
  let r := r.release
  let r := { r with flushRetry := r.flushRetry.cancel, typing := r.typing.connectionLost }
  let (retry, machine) := r.machine.connectionLost
  let r := { r with machine }
  let r := match retry with
    | .after delay => r.armReconnect delay
    | .giveUp => { r with reconnect := r.reconnect.cancel }
  r.reportConnection.reportState before

/-- Hands a message to the connection. -/
def post (r : Run) (m : ClientMessage) : Except ClientError Unit × Run :=
  match r.keeper.send r.now r.uplink.outcome m with
  | .error e => (.error e, r.log (.unsent m e))
  | .ok (id, frame, keeper) =>
    (.ok (), ({ r with keeper, uplink := r.uplink.spend }.log (.sent id m frame)).log
      (.armed .keepAlive (r.now + keeper.interval.nanos)))

/-- A message did not go out. If that is the connection's fault, the connection is lost. -/
def postFailed (r : Run) : ClientError → Run
  | .link _ => r.connectionLost r.machine.state
  | _ => r

/-- Sends a message. Tells whether it went out. -/
def send (r : Run) (m : ClientMessage) : Bool × Run :=
  match r.post m with
  | (.ok (), r) => (true, r)
  | (.error e, r) => (false, r.postFailed e)

/-- Sends messages up to the first that does not go out. Tells whether all did. -/
def sendAll (r : Run) : List ClientMessage → Bool × Run
  | [] => (true, r)
  | m :: ms =>
    match r.send m with
    | (true, r) => r.sendAll ms
    | (false, r) => (false, r)

/-- Sends the dragged tiles, or sees to it that they are sent later. Without a connection they
wait for the next one. -/
def flush (r : Run) : Run :=
  if r.keeper.isConnected then
    match r.outbox.flush r.uplink.buffered with
    | (.idle, _) => r
    | (.deferred, _) => r.armFlushRetry
    | (.sent moves, outbox) => ({ r with outbox }.sendAll moves).2
  else r

/-- Sends the held chats and then the dragged tiles. -/
def replay (r : Run) : Run :=
  let (held, outbox) := r.outbox.takeHeld
  match { r with outbox }.sendAll held with
  | (false, r) => r
  | (true, r) => r.flush

/-- Tells the server what it forgot with the last connection or could not be told without one:
whether the user is typing, the held chats, and the dragged tiles. -/
def resume (r : Run) : Run :=
  let (news, typing) := r.typing.sync
  match { r with typing }.sendAll news.toList with
  | (false, r) => r
  | (true, r) => r.replay

/-- Sends the hello and what follows it. -/
def greet (r : Run) (before : SessionState) : Run :=
  match r.post r.machine.hello with
  | (.ok (), r) => r.resume
  | (.error (.wire e), r) => { r with machine := (r.machine.helloRejected e).2 }.reportState before
  | (.error e, r) => r.postFailed e

/-- A new connection is taken into use and opened with the hello. -/
def onConnected (r : Run) : Run :=
  let before := r.machine.state
  let id : ConnectionId := ⟨r.opened + 1⟩
  let r := { r.release with opened := id.value }.log (.opened id)
  let r := { r with keeper := r.keeper.attach id, machine := r.machine.connected }.reportConnection
  r.greet before

/-! ### The server -/

/-- A message changes the board. -/
def applyMessage (r : Run) (m : ServerMessage) : Run :=
  let r := match m with
    | .conversationId id => r.report (.conversation id)
    | _ => r
  let (board, events) := r.board.apply m
  let r := { r with board }
  let r := if events.any BoardEvent.isShout then r.armShoutClear else r
  r.reportBoard events

def onFrame (r : Run) (frame : List UInt8) : Run :=
  let before := r.machine.state
  match Wire.decode ServerMessage frame with
  | .ok m =>
    let (dispatch, machine) := r.machine.handle m
    let r := { r with machine }
    (if dispatch = .forward then r.applyMessage m else r).reportState before
  | .error e =>
    match r.machine.onDecodeError e with
    | .reconnect _ => r.connectionLost before
    | _ => r

/-! ### The user -/

/-- The client leaves, and says so if it can. -/
def leave (r : Run) : Run :=
  let before := r.machine.state
  let (farewell, machine) := r.machine.leave
  let r := { r with machine }
  (if farewell then (r.post .leave).2 else r).reportState before

/-- Sends a message and answers with how that went. -/
def sendAndAnswer (r : Run) (m : ClientMessage) : Run :=
  match r.post m with
  | (.ok (), r) => r.answer .done
  | (.error e, r) => (r.postFailed e).answer (.refused e)

/-- Sends a message if the board allows it, and answers with how that went. -/
def sendIfAllowed (r : Run) (m : ClientMessage) : Except BoardError Unit → Run
  | .ok () => r.sendAndAnswer m
  | .error e => r.answer (.refused (.board e))

/-- Does what an admitted request asks for. -/
def onRequest (r : Run) : Request → Run
  | .sendMessage text =>
    let r := r.answer .done
    if r.keeper.isConnected then (r.send (.sendMessage text)).2
    else { r with outbox := r.outbox.hold (.sendMessage text) }
  | .setTyping value =>
    let r := r.answer .done
    let (news, typing) := r.typing.set value r.keeper.isConnected
    ({ r with typing }.sendAll news.toList).2
  | .moveTile tile x y =>
    { r.answer .done with outbox := r.outbox.markDirty tile x y }.flush
  | .takeTurn => r.sendIfAllowed .turn r.board.checkTurn
  | .shout => r.sendIfAllowed .shout r.board.checkShout
  | .setTileCapacity tiles => r.sendAndAnswer (.setTileCapacity tiles)
  | .snapshot => r.answer (.snapshot r.toClient.snapshot)
  | .leave => r.leave.answer .done

/-! ### Deadlines -/

def onDue (r : Run) : Timer → Run
  | .keepAlive => ({ r with keeper := r.keeper.heard }.send .keepAlive).2
  | .reconnect => { r with reconnect := r.reconnect.cancel }.connect
  | .flushRetry => { r with flushRetry := r.flushRetry.cancel }.flush
  | .shoutClear =>
    let (board, events) := r.board.clearShout
    { r with shoutClear := r.shoutClear.cancel, board }.reportBoard events

/-! ### All together -/

/-- Gives up all that a client waits for and all that waits to be sent. -/
def standDown (r : Run) : Run :=
  { r with
    attempting := false
    reconnect := r.reconnect.cancel
    flushRetry := r.flushRetry.cancel
    shoutClear := r.shoutClear.cancel
    outbox := r.outbox.clear }

/-- Releases all that a finished client holds. The deadline for a keep-alive is left to the
connection: it goes when the connection does. -/
def tearDown (r : Run) : Run :=
  let r := r.standDown
  if r.keeper.isConnected then r.close else r

/-- Whether a stimulus can reach a client that is not finished. -/
def isEnabled (r : Run) : Stimulus → Bool
  | .connected | .connectFailed => r.attempting
  | .received _ | .streamEnded | .receiveFailed => r.keeper.isConnected
  | .requested _ | .abandoned => true
  | .due t => (r.toClient.deadline t).isDue r.now

/-- What is done about a stimulus while the session goes on. -/
def handle (r : Run) : Stimulus → Run
  | .connected => { r with attempting := false }.onConnected
  | .connectFailed => { r with attempting := false }.connectionLost r.machine.state
  | .received frame => r.onFrame frame
  | .streamEnded | .receiveFailed => r.connectionLost r.machine.state
  | .requested request => r.onRequest request
  | .abandoned => r.leave
  | .due t => r.onDue t

/-- What an unfinished client does about a stimulus. If that finishes it, it releases all. -/
def advance (r : Run) (s : Stimulus) : Run :=
  if r.isEnabled s then
    let r := r.handle s
    if r.isFinished then r.tearDown else r
  else r

/-- What a client does about a stimulus. A request is looked at before the client hears of it. -/
def react (r : Run) : Stimulus → Run
  | .requested request =>
    match request.admit with
    | .error e => r.answer (.refused e)
    | .ok request =>
      if r.isFinished then r.answer (.refused .closed) else r.advance (.requested request)
  | s => if r.isFinished then r else r.advance s

/-- A client that has just begun to connect. -/
def start (config : ClientConfig) : Run :=
  connect { toClient := .new config }

/-- Goes on to another moment. -/
def meet (r : Run) (m : Moment) : Run :=
  { r with now := r.now + m.wait, uplink := m.uplink }.react m.stimulus

/-- A client's life from its start through the moments that follow. -/
def play (config : ClientConfig) (ms : List Moment) : Run :=
  ms.foldl meet (start config)

end TileRoom.Run

import TileRoom.Console.Command
import TileRoom.Link.Socket
import TileRoom.Main
import TileRoom.Rehearsal.ClientStage
import TileRoom.Rehearsal.DeadlineStage
import TileRoom.Rehearsal.KeeperStage
import TileRoom.Rehearsal.SocketStage
import TileRoom.Report.Client
import TileRoom.Proofs.Truncation
import TileRoom.Proofs.Time.Backoff
import TileRoom.Proofs.Board.Replay
import TileRoom.Proofs.Board.Latest
import TileRoom.Proofs.Board.Players
import TileRoom.Proofs.Wire.Field
import TileRoom.Proofs.Wire.Frame
import TileRoom.Proofs.Wire.Recognition
import TileRoom.Proofs.Wire.PrefixFree
import TileRoom.Proofs.Wire.InPlace
import TileRoom.Proofs.Invite.Token
import TileRoom.Proofs.Invite.Link
import TileRoom.Proofs.Link.Writer
import TileRoom.Proofs.Session.Budget
import TileRoom.Proofs.Session.Finality
import TileRoom.Proofs.Session.Resumption
import TileRoom.Proofs.Console.Numeral
import TileRoom.Proofs.Console.Grammar
import TileRoom.Proofs.Client.Settings
import TileRoom.Proofs.Client.Coalescing
import TileRoom.Proofs.Client.Dealings
import TileRoom.Proofs.Client.Sending
import TileRoom.Proofs.Client.Phase
import TileRoom.Proofs.Client.Saying
import TileRoom.Proofs.Client.Delivery
import TileRoom.Proofs.Client.Losses
import TileRoom.Proofs.Client.Course
import TileRoom.Proofs.Client.Reconnection
import TileRoom.Proofs.Client.Chats
import TileRoom.Proofs.Client.Writing
import TileRoom.Proofs.Client.Greeting
import TileRoom.Proofs.Client.Manners
import TileRoom.Proofs.Client.Account
import TileRoom.Proofs.Client.Mirror
import TileRoom.Proofs.Client.Stages
import TileRoom.Proofs.Client.Connections
import TileRoom.Proofs.Client.Looking
import TileRoom.Proofs.Client.Drags
import TileRoom.Proofs.Client.Talking
import TileRoom.Proofs.Client.KeepAlive
import TileRoom.Proofs.Client.Typing
import TileRoom.Proofs.Client.Shouts
import TileRoom.Proofs.Client.Requests
import TileRoom.Proofs.Client.Release
import TileRoom.Proofs.Client.Arming

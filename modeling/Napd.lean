import Napd.Ternary.WellFormed
import Napd.Command.Received
import Napd.Command.Malformed
import Napd.Command.Binary
import Napd.Command.Text
import Napd.Command.Grouping
import Napd.Command.Contents
import Napd.Client.Stream
import Napd.Client.Queue
import Napd.Client.Datagram
import Napd.Certificate.RoundTrip
import Napd.Certificate.Authentic
import Napd.CidClient.Response
import Napd.Server.Connections
import Napd.Channel.Views
import Napd.Ignore.Todo
import Napd.Search.Sound
import Napd.Share.Valid
import Napd.Search.Intersection
import Napd.Notify.TwoWay
import Napd.SearchQueue.Served
import Napd.Certificate.Extent
import Napd.Client.Closed
import Napd.Client.Reopen
import Napd.Tokens
import Napd.Ternary.Undo
import Napd.File.Verdict
import Napd.Channel.Failing
import Napd.Search.Termination
import Napd.Search.Candidates
import Napd.Search.Clauses
import Napd.PathBlock.Aligned
import Napd.Integrity
import Napd.Scheduler.Spacing
import Napd.Address
import Napd.Password
import Napd.Hex
import Napd.Remotes
import Napd.Client.Said
import Napd.Server.Rounds
import Napd.Napnet.Network
import Napd.Napnet.Options
import Napd.Socket.Descriptors
import Napd.Ignore.Handlers
import Napd.Notify.Refines
import Napd.Channel.Broadcast
import Napd.Server.Lifecycle
import Napd.Ignore.Sessions
import Napd.Search.Plain
import Napd.Client.Owners
import Napd.Napnet.Memory
import Napd.Command.Reservation

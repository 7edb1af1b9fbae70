import Neonet.Node.Reconnect
import Neonet.Node.Network
import Neonet.App.Inbox
import Neonet.Node.Mesh
import Neonet.Transport.Framing
import Neonet.Transport.Binding
import Neonet.Files.Complete
import Neonet.Files.Reconstruct
import Neonet.Storage.Isolation
import Neonet.Storage.Integrity
import Neonet.Storage.Repush
import Neonet.Storage.Crash
import Neonet.Storage.Replies
import Neonet.App.Transfers
import Neonet.App.Contained
import Neonet.App.Answered
import Neonet.App.Unreadable
import Neonet.App.Statements
import Neonet.App.Operators
import Neonet.App.PairCommand
import Neonet.Messaging.Offline
import Neonet.App.Registry
import Neonet.App.Posts
import Neonet.App.LobbyLogs
import Neonet.App.StoreFrames
import Neonet.App.Flasher
import Neonet.Files.Restore
import Neonet.Files.ShortReads
import Neonet.Files.Transfer
import Neonet.App.SendFile
import Neonet.App.Rejoin
import Neonet.App.LogFiles
import Neonet.App.Roster
import Neonet.Burrow.Confined
import Neonet.Transport.Negotiate
import Neonet.App.Adoptions
import Neonet.App.Devices
import Neonet.Messaging.Reachable
import Neonet.Storage.BlobStore
import Neonet.Storage.Batches
import Neonet.Core.Replication
import Neonet.Shell.Tokenize
import Neonet.Shell.VfsRuns
import Neonet.Shell.VfsMoves
import Neonet.App.Client
import Neonet.Files.Gathered
import Neonet.App.Delivery
import Neonet.Transport.Completes
import Neonet.Storage.Replicate
import Neonet.Lib.Kept
import Neonet.App.KeyFiles
import Neonet.Node.Gate
import Neonet.App.AllowFile
import Neonet.App.Scan
import Neonet.App.Talk
import Neonet.Shell.History
import Neonet.Shell.VfsSaved

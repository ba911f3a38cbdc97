import Distant.Lib.Rust
import Distant.Lib.BigEndian
import Distant.Lib.Text
import Distant.Lib.Async
import Distant.Lib.Fair
import Distant.Lib.Machine
import Distant.Lib.Owned
import Distant.Lib.Feed
import Distant.Lib.Dispatch
import Distant.Lib.Regex
import Distant.Lib.Sorted
import Distant.Lib.AutoWrap
import Distant.Protocol
import Distant.Net.Frame
import Distant.Net.Backup
import Distant.Net.Codec
import Distant.Net.FramedTransport
import Distant.Net.RoundTrip
import Distant.Net.Io
import Distant.Net.Synchronize
import Distant.Net.Link
import Distant.Net.Counters
import Distant.Net.Way
import Distant.Net.Delivery
import Distant.Net.Eviction
import Distant.Net.Stored
import Distant.Net.Resend
import Distant.Net.Requeue
import Distant.Net.SlowLink
import Distant.Lib.Utf8
import Distant.Lib.Msgpack
import Distant.Net.Packet
import Distant.Net.Untyped
import Distant.Net.Scanner
import Distant.Net.Map
import Distant.Net.Host
import Distant.Net.Parser
import Distant.Net.Destination
import Distant.Lib.Hex
import Distant.Net.Credentials
import Distant.Net.Inmemory
import Distant.Manager.Connection
import Distant.Manager.Routing
import Distant.Manager.Server
import Distant.Manager.Tunnels
import Distant.Manager.Channels
import Distant.Cli.Sanitizer
import Distant.Cli.Streaming
import Distant.Cli.Clean
import Distant.Cli.Pending
import Distant.Host.Tunnel
import Distant.Host.TunnelWrites
import Distant.Host.Watcher
import Distant.Host.Writing
import Distant.Host.Search
import Distant.Host.Registry
import Distant.Host.Output
import Distant.Host.Processes
import Distant.Server.Auth
import Distant.Server.Requests
import Distant.Server.Order
import Distant.Server.Sessions
import Distant.Server.Waiting
import Distant.Server.Ownership
import Distant.Server.Lonely
import Distant.Server.Batch
import Distant.Server.Channels
import Distant.Server.Replies
import Distant.Client.Outgoing
import Distant.Client.PostOffice
import Distant.Client.Process
import Distant.Client.Reconnect
import Distant.Client.Searcher
import Distant.Lib.Lines
import Distant.Lib.Replace
import Distant.Lib.Unicode
import Distant.Lib.Json
import Distant.Lib.JsonMap
import Distant.Lib.Drain
import Distant.Client.LspMsg
import Distant.Client.LspScheme
import Distant.Client.Authenticate
import Distant.Manager.Authenticator
import Distant.Client.Lsp
import Distant.Client.LspDamage
import Distant.Client.TunnelListener
import Distant.Search.Condition
import Distant.Search.Patterns
import Distant.Lib.Shell
import Distant.Lib.Words
import Distant.Search.Commands
import Distant.Search.Injection
import Distant.Search.Upward
import Distant.Search.Matches
import Distant.Search.Reporter
import Distant.Search.Grep
import Distant.Cli.Framebuffer
import Distant.Cli.Shell
import Distant.Cli.Terminal
import Distant.Cli.Concealment
import Distant.Cli.Transparency
import Distant.Cli.Positions
import Distant.Ssh.Pool
import Distant.Ssh.PoolLocks
import Distant.Ssh.Processes
import Distant.Cli.Download
import Distant.Cli.Upload
import Distant.Cli.Transfer
import Distant.Lib.FileTree
import Distant.Lib.Worklist
import Distant.Host.Remove
import Distant.Host.Directories
import Distant.Host.Copy
import Distant.Host.CopyEnds
import Distant.Host.CopyTwice
import Distant.Ssh.Sftp
import Distant.Ssh.SftpPath
import Distant.Ssh.Remove
import Distant.Ssh.CreateDir
import Distant.Ssh.Permissions
import Distant.Host.ReadDir
import Distant.Ssh.ReadDir
import Distant.Host.Reverse
import Distant.Host.Searches
import Distant.Host.SearchesEnd

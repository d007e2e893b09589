import KDESu.Library.OrderedMaps
import KDESu.Library.Histories
import KDESu.Library.Separators
import KDESu.Library.Framing
import KDESu.Library.Thinning
import KDESu.ByteArrays
import KDESu.Daemon.Lexing
import KDESu.Daemon.Repositories
import KDESu.Daemon.Handling
import KDESu.Daemon.Requests
import KDESu.Client.Requesting
import KDESu.Daemon.EventLoop
import KDESu.Library.Unwinding
import KDESu.Daemon.Strangers
import KDESu.Daemon.Sessions
import KDESu.Daemon.Receiving
import KDESu.Daemon.Entries
import KDESu.Daemon.VariableStore
import KDESu.Daemon.PasswordCache
import KDESu.Daemon.PasswordSecrecy
import KDESu.Daemon.ExitCodes
import KDESu.Daemon.Grammar
import KDESu.Daemon.Refusing
import KDESu.Daemon.Accounts
import KDESu.Daemon.Polling
import KDESu.Library.SelfPipe
import KDESu.Daemon.Reaping
import KDESu.Daemon.PasswordLifetime
import KDESu.Process.Reading
import KDESu.Process.Conversing
import KDESu.Process.Exiting
import KDESu.Process.Waiting
import KDESu.Stub.Reporting
import KDESu.Process.Executing
import KDESu.Daemon.Outcomes
import KDESu.Library.BoundedLines
import KDESu.Stub.Parameters
import KDESu.Client.Commanding
import KDESu.Daemon.Expiring
import KDESu.Client.Decoding
import KDESu.Stub.Environment
import KDESu.Process.Prompting
import KDESu.Library.LineStarts
import KDESu.Process.ExitString
import KDESu.Daemon.Bounds
import KDESu.Daemon.Deleting
import KDESu.Client.Listing
import KDESu.Process.Choosing
import KDESu.Process.Conserving
import KDESu.Daemon.Indexing
import KDESu.Daemon.Timeouts
import KDESu.Daemon.OwnPasswords
import KDESu.Daemon.Spacing
import KDESu.Library.CheckedMemory
import KDESu.Stub.Memory
import KDESu.Process.Remote
import KDESu.Process.Calling
import KDESu.Process.Erasing
import KDESu.Process.Checking
import KDESu.Stub.Splitting
import KDESu.Library.Environments
import KDESu.Stub.Running
import KDESu.Stub.Variables
import KDESu.Process.Preparing
import KDESu.Stub.Serving
import KDESu.Stub.Scheduling
import KDESu.Library.Words
import KDESu.Stub.Cookies
import KDESu.Client.Ordering
import KDESu.Process.Stopping
import KDESu.Client.Meeting
import KDESu.Process.Matching
import KDESu.Library.Typestates
import KDESu.Library.DescriptorTables
import KDESu.Process.Forking
import KDESu.Client.Connecting
import KDESu.Process.Silencing
import KDESu.Client.Passing
import KDESu.Daemon.Starting

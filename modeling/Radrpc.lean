import Radrpc.Data.CacheThreads
import Radrpc.WritePump
import Radrpc.Data.Waits
import Radrpc.Data.ReplyOrder
import Radrpc.Client.Written
import Radrpc.Client.Retry
import Radrpc.Client.Resolved
import Radrpc.Client.Lifecycle
import Radrpc.Client.Teardown
import Radrpc.Client.Bytes
import Radrpc.Client.Leftovers
import Radrpc.Correlation
import Radrpc.Server.Closing
import Radrpc.Server.StartStop
import Radrpc.Server.Posting
import Radrpc.Pings
import Radrpc.Server.KeepAlive
import Radrpc.Server.Accounting
import Radrpc.Server.Listener
import Radrpc.Server.Endings
import Radrpc.Broadcast
import Radrpc.Client.Validity
import Radrpc.Client.Overrides
import Radrpc.Limits
import Radrpc.Server.Cycles
import Radrpc.Decorators
import Radrpc.Effects
import Radrpc.Serving
import Radrpc.Client.Progress

import Broko.Theorems.Bodies
import Broko.Theorems.BufferReads
import Broko.Theorems.Bursts
import Broko.Theorems.Callbacks
import Broko.Theorems.ClosedChannels
import Broko.Theorems.Closing
import Broko.Theorems.Confirms
import Broko.Theorems.Connecting
import Broko.Theorems.Consistency
import Broko.Theorems.Crash
import Broko.Theorems.Damage
import Broko.Theorems.DeadLetters
import Broko.Theorems.Deletion
import Broko.Theorems.Disconnect
import Broko.Theorems.Erasures
import Broko.Theorems.Exclusive
import Broko.Theorems.Expiry
import Broko.Theorems.Failure
import Broko.Theorems.Fairness
import Broko.Theorems.FirstDeath
import Broko.Theorems.Framing
import Broko.Theorems.GateRuns
import Broko.Theorems.GeneratedNames
import Broko.Theorems.Handshake
import Broko.Theorems.Headers
import Broko.Theorems.Heartbeats
import Broko.Theorems.Lengths
import Broko.Theorems.Malformed
import Broko.Theorems.Mandatory
import Broko.Theorems.Multiple
import Broko.Theorems.PrefetchRuns
import Broko.Theorems.Priority
import Broko.Theorems.Readable
import Broko.Theorems.Redelivery
import Broko.Theorems.Refinement
import Broko.Theorems.Removal
import Broko.Theorems.Repeats
import Broko.Theorems.RequeueOrder
import Broko.Theorems.Responses
import Broko.Theorems.Rest
import Broko.Theorems.Routing
import Broko.Theorems.SdkFrames
import Broko.Theorems.SdkTables
import Broko.Theorems.SharingRuns
import Broko.Theorems.Snapshot
import Broko.Theorems.Sockets
import Broko.Theorems.StoreCalls
import Broko.Theorems.TopicMatch
import Broko.Theorems.Topology
import Broko.Theorems.Transparency
import Broko.Theorems.Unbinding
import Broko.Theorems.Users
import Broko.Theorems.WriteOrder

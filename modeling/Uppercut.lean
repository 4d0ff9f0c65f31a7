import Uppercut.Core.Admission
import Uppercut.Core.Conservation
import Uppercut.Core.Delays
import Uppercut.Core.Eager
import Uppercut.Core.Farewell
import Uppercut.Core.Isolation
import Uppercut.Core.Life
import Uppercut.Core.LogOrder
import Uppercut.Core.Lookups
import Uppercut.Core.Metering
import Uppercut.Core.MetricTags
import Uppercut.Core.Order
import Uppercut.Core.Shutdown
import Uppercut.Core.Stop
import Uppercut.Core.Survival
import Uppercut.Core.Termination
import Uppercut.Core.WakeUp
import Uppercut.Data.Tally
import Uppercut.Gossip.Reports
import Uppercut.Gossip.Rumours
import Uppercut.Machine.History
import Uppercut.Machine.Run
import Uppercut.Paxos.Running
import Uppercut.Pool.Jobs
import Uppercut.Remote.Decoding
import Uppercut.Remote.Delivery
import Uppercut.Remote.Detection
import Uppercut.Remote.Listening
import Uppercut.Remote.Poison
import Uppercut.Remote.Polling
import Uppercut.Remote.Readiness
import Uppercut.Remote.Wire

import CoralApi.Library.Transition
import CoralApi.Library.PageGuard
import CoralApi.Rpc
import CoralApi.Library.Program
import CoralApi.Frame
import CoralApi.CubeSpec
import CoralApi.BlockSpec
import CoralApi.Library.Keyed
import CoralApi.Names
import CoralApi.Host
import CoralApi.Layout
import CoralApi.Guard
import CoralApi.InFlight
import CoralApi.Progress
import CoralApi.Version
import CoralApi.SubmitSpec
import CoralApi.Locks
import CoralApi.Rollback
import CoralApi.Fork
import CoralApi.Waiters
import CoralApi.ResponseSpec
import CoralApi.Session
import CoralApi.Lifetime
import CoralApi.Synchrony
import CoralApi.Ledger
import CoralApi.Traffic
import CoralApi.Balance
import CoralApi.Library.Slots
import CoralApi.Message
import CoralApi.Library.Text
import CoralApi.Print
import CoralApi.Files
import CoralApi.Branch
import CoralApi.Lineage
import CoralApi.Kinship
import CoralApi.Isolation
import CoralApi.Registry
import CoralApi.Census
import CoralApi.Terrain
import CoralApi.Inventory
import CoralApi.Account
import CoralApi.Identity
import CoralApi.Watch
import CoralApi.Frozen
import CoralApi.Wakeup
import CoralApi.Fleet
import CoralApi.Library.Loop
import CoralApi.Padding
import CoralApi.Deadline
import CoralApi.Library.Formatted
import CoralApi.Output
import CoralApi.Containment
import CoralApi.Remains
import CoralApi.Verdict
import CoralApi.Resize
import CoralApi.Granted
import CoralApi.Intact
import CoralApi.Regrowth
import CoralApi.Cause
import CoralApi.Library.Threads
import CoralApi.Script
import CoralApi.Crew
import CoralApi.Grip
import CoralApi.Discipline
import CoralApi.Concord
import CoralApi.Deadlock
import CoralApi.Inheritance
import CoralApi.Alone
import CoralApi.Collection
import CoralApi.Cover
import CoralApi.Buffers
import CoralApi.Contents
import CoralApi.Service
import CoralApi.Heaps
import CoralApi.Delivery
import CoralApi.Client
import CoralApi.Estate
import CoralApi.Household
import CoralApi.Sweep
import CoralApi.Bell
import CoralApi.Tally
import CoralApi.Cargo
import CoralApi.Builder
import CoralApi.Consistency
import CoralApi.Shipment
import CoralApi.Answer

import TwoPhaseLocking.Engine.Run
import TwoPhaseLocking.Session
import TwoPhaseLocking.Stress.Workload
import TwoPhaseLocking.WaitGraph.Reach
import TwoPhaseLocking.Proofs.Move
import TwoPhaseLocking.Proofs.Paths
import TwoPhaseLocking.Proofs.Queue
import TwoPhaseLocking.Proofs.Grant
import TwoPhaseLocking.Proofs.Bookkeeping
import TwoPhaseLocking.Proofs.Consistency
import TwoPhaseLocking.Proofs.Coverage
import TwoPhaseLocking.Proofs.Cycle
import TwoPhaseLocking.Proofs.Deadlock
import TwoPhaseLocking.Proofs.Exclusion
import TwoPhaseLocking.Proofs.Stuck
import TwoPhaseLocking.Proofs.Upgrade
import TwoPhaseLocking.Proofs.Order
import TwoPhaseLocking.Proofs.Finish
import TwoPhaseLocking.Proofs.Phases
import TwoPhaseLocking.Proofs.Drain
import TwoPhaseLocking.Proofs.Lifecycle
import TwoPhaseLocking.Proofs.Effect
import TwoPhaseLocking.Proofs.Schedule
import TwoPhaseLocking.Proofs.Interrupt
import TwoPhaseLocking.Proofs.Failure
import TwoPhaseLocking.Proofs.Rivals
import TwoPhaseLocking.Proofs.Victims
import TwoPhaseLocking.Proofs.Counters
import TwoPhaseLocking.Proofs.Ascent
import TwoPhaseLocking.Proofs.Deeds
import TwoPhaseLocking.Proofs.Independent
import TwoPhaseLocking.Proofs.Served
import TwoPhaseLocking.Proofs.Workers
import TwoPhaseLocking.Proofs.Stress
import TwoPhaseLocking.Proofs.Edges
import TwoPhaseLocking.Proofs.Check
import TwoPhaseLocking.Proofs.Reach
import TwoPhaseLocking.Proofs.Neutral
import TwoPhaseLocking.Proofs.Ring
import TwoPhaseLocking.Proofs.LockMap
import TwoPhaseLocking.Proofs.Clocked

import Umcg.Attempt2.Calls
import Umcg.Attempt2.Conservation
import Umcg.Attempt2.Parked
import Umcg.Attempt2.Router
import Umcg.Attempt2.Routing
import Umcg.Attempt2.RunningQueue
import Umcg.Attempt2.Scheduling
import Umcg.Attempt2.Stdout
import Umcg.Attempt2.Stranded
import Umcg.Attempt2.Submission
import Umcg.Attempt2.UnexpectedEvents
import Umcg.Pool.Accounting
import Umcg.Pool.Cluster
import Umcg.Pool.Conservation
import Umcg.Pool.Idle
import Umcg.Pool.Registration
import Umcg.Pool.SelfLock
import Umcg.Pool.Sleep
import Umcg.WorkerIds
import Umcg.Klib.Events
import Umcg.Klib.Invariant
import Umcg.Attempt2.Consistent
import Umcg.Attempt2.Program
import Umcg.Attempt2.ProgramTasks
import Umcg.Klib.References
import Umcg.Attempt2.ProgramEvents
import Umcg.Attempt2.ProgramProgress
import Umcg.Attempt2.ProgramStranded

import ALCC.Verify.CellSim
import ALCC.Verify.Close
import ALCC.Verify.CopaCalls
import ALCC.Verify.CopaDelta
import ALCC.Verify.CopaExtreme
import ALCC.Verify.CopaLosses
import ALCC.Verify.CopaMinima
import ALCC.Verify.CopaPacing
import ALCC.Verify.CopaWindow
import ALCC.Verify.CtcpPacing
import ALCC.Verify.FragmentAssembly
import ALCC.Verify.Isolation
import ALCC.Verify.KernelText
import ALCC.Verify.LibalccList
import ALCC.Verify.Permits
import ALCC.Verify.Process
import ALCC.Verify.QueueRuns
import ALCC.Verify.QueueThreads
import ALCC.Verify.RestartLock
import ALCC.Verify.Settled
import ALCC.Verify.SproutBurst
import ALCC.Verify.SproutQueue
import ALCC.Verify.SproutRoundTrip
import ALCC.Verify.SproutStream
import ALCC.Verify.ThreadStart
import ALCC.Verify.TwinQueues
import ALCC.Verify.VerusCurve
import ALCC.Verify.VerusDelayCurve
import ALCC.Verify.VerusDelays
import ALCC.Verify.VerusIndices
import ALCC.Verify.VerusPermits
import ALCC.Verify.VerusSeqLast
import ALCC.Verify.VerusSetPoint
import ALCC.Verify.VerusSlowStart

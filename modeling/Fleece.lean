import Fleece.Compaction
import Fleece.Rounds
import Fleece.StartCap
import Fleece.DeltaAgreement
import Fleece.Diff
import Fleece.Caps
import Fleece.Holding
import Fleece.SharedAuction
import Fleece.Visibility
import Fleece.Pruning
import Fleece.StateKeys
import Fleece.PlanFormat
import Fleece.EditorRoundTrip
import Fleece.Allocations
import Fleece.CommitRoundTrip
import Fleece.Preconditions
import Fleece.EffectChain
import Fleece.Watchdog
import Fleece.BrainRuns
import Fleece.OpenList
import Fleece.HeadCodec
import Fleece.PacketCeiling
import Fleece.PlatformRegistry
import Fleece.TopGoals
import Fleece.Curves
import Fleece.SelfDiff
import Fleece.Prerequisite
import Fleece.Privacy
import Fleece.Quiescence
import Fleece.Causality
import Fleece.GoalPool
import Fleece.Fanout
import Fleece.PeerViews
import Fleece.Deferral
import Fleece.PlanRelay
import Fleece.Cooldown

import Orchestrator.Server.Archive
import Orchestrator.Sched.SlotOrder
import Orchestrator.Sched.Delivery
import Orchestrator.Server.Selection
import Orchestrator.Server.Recovery
import Orchestrator.Server.NodeBudget
import Orchestrator.Server.Config
import Orchestrator.Simstate.World
import Orchestrator.Server.Registry
import Orchestrator.Server.Progress
import Orchestrator.Server.Parking
import Orchestrator.Server.Scoring
import Orchestrator.Server.Fingerprint
import Orchestrator.Server.Takeover
import Orchestrator.Core.FeatureLayout
import Orchestrator.Server.Escalation
import Orchestrator.Core.FiniteSearch
import Orchestrator.Server.GoalList
import Orchestrator.Sched.Outcomes
import Orchestrator.Core.FrontierSet
import Orchestrator.Core.Rng
import Orchestrator.Sched.Schedule
import Orchestrator.Server.Events
import Orchestrator.Services.Metadata
import Orchestrator.Server.Creation
import Orchestrator.Server.VisitCounts
import Orchestrator.Driver.BurstWire
import Orchestrator.Fakes.SlotView
import Orchestrator.Driver.PackDocument

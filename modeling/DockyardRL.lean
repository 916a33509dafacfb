import DockyardRL.AsyncGrpo.Staleness
import DockyardRL.AsyncGrpo.Frontier
import DockyardRL.Packing.Knapsack
import DockyardRL.XToken.Verdicts
import DockyardRL.XToken.Merged
import DockyardRL.Cua.Pointer
import DockyardRL.Cua.Typing
import DockyardRL.DataPlane.Preshard
import DockyardRL.DataPlane.ColumnIo
import DockyardRL.Grpo.QuotaRule
import DockyardRL.Refit.Delivery
import DockyardRL.Rewards.Resolved
import DockyardRL.Generation.EveryRow
import DockyardRL.Refit.SyncRanks
import DockyardRL.Refit.HttpHandlers
import DockyardRL.Moe.JaxProbes
import DockyardRL.Refit.PingPongRuns
import DockyardRL.XToken.Transports
import DockyardRL.Opd.PanelMixture
import DockyardRL.Rollouts.Accounting
import DockyardRL.Rollouts.Realigned
import DockyardRL.Training.SameUpdates
import DockyardRL.Training.PairSizes
import DockyardRL.Training.Resume
import DockyardRL.XToken.GoldProbe
import DockyardRL.XToken.ChunkAverages
import DockyardRL.XToken.ExactTokenMap
import DockyardRL.Logprob.GathersDense
import DockyardRL.Cua.Leases
import DockyardRL.Loss.SameLoss
import DockyardRL.Moe.ReplayRollouts
import DockyardRL.Moe.RefitGivesBack
import DockyardRL.Logprob.EveryPath
import DockyardRL.ToolProtocol.Extraction
import DockyardRL.Cua.Keys
import DockyardRL.Checkpoint.Retention
import DockyardRL.Grpo.ValidBaseline
import DockyardRL.Training.RowPacking
import DockyardRL.Executor.BuildKey
import DockyardRL.Rewards.PatchExtraction
import DockyardRL.Distributed.BundleOrder
import DockyardRL.Distributed.ShardedDispatch
import DockyardRL.Data.StackedColumns
import DockyardRL.DataPlane.WireShape
import DockyardRL.Cua.DesktopTurn
import DockyardRL.Cua.ScreenshotRollout
import DockyardRL.Grpo.EffortReward
import DockyardRL.Moe.Router
import DockyardRL.Fp8.BlockCast
import DockyardRL.Fp8.IgnoredLayers
import DockyardRL.Moe.LoadBalance
import DockyardRL.Training.ReferencePass
import DockyardRL.Training.OnlineDpo
import DockyardRL.Distributed.FleetPlacement

import LakeKv.AffinityRouting
import LakeKv.ArenaRuns
import LakeKv.CheckpointRoundTrip
import LakeKv.DurablePuts
import LakeKv.FailedDiscards
import LakeKv.FailedRegister
import LakeKv.HardQuota
import LakeKv.IntentRuns
import LakeKv.KeepaliveSweep
import LakeKv.KeyPlans
import LakeKv.LayerPublish
import LakeKv.LeafEvictions
import LakeKv.MirrorLookups
import LakeKv.NodeAgreement
import LakeKv.OrphanMarks
import LakeKv.OverlapOutputs
import LakeKv.PipelineEvents
import LakeKv.PlacementMarks
import LakeKv.Preflight
import LakeKv.PresenceMarkers
import LakeKv.PromptHashes
import LakeKv.PutEndAgreement
import LakeKv.PutEndRefs
import LakeKv.QueueCancellation
import LakeKv.QueuePreemption
import LakeKv.RankSegments
import LakeKv.RefBatches
import LakeKv.RefLedgers
import LakeKv.ReleasedBlocks
import LakeKv.RestartVerdicts
import LakeKv.ShardMigrations
import LakeKv.SoftQuotas
import LakeKv.StepLimits
import LakeKv.UsageAccounting
import LakeKv.ViewSync
import LakeKv.WorkerAnswers

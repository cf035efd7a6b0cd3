import TorDaemon.Sendme.TagAgreement
import TorDaemon.Conflux.Delivery
import TorDaemon.Protover.Vote
import TorDaemon.Keypin.Replay
import TorDaemon.Relay.CgoAgreement
import TorDaemon.Relay.CircuitAgreement
import TorDaemon.Dirvote.CollationExact
import TorDaemon.SharedRandom.Recovery
import TorDaemon.Buffers.Queue
import TorDaemon.HiddenService.ResponsibleHsdirs
import TorDaemon.HiddenService.Rotation
import TorDaemon.HiddenService.ProofOfWork
import TorDaemon.Client.Registration
import TorDaemon.HiddenService.CacheAccounting
import TorDaemon.Client.GuardUpgrade
import TorDaemon.Padding.NegotiationAgreement
import TorDaemon.Padding.BudgetRun
import TorDaemon.Protover.Grammar
import TorDaemon.Congestion.MinRtt
import TorDaemon.Conflux.OooAccounting
import TorDaemon.ConsDiff.ApplyAccepts
import TorDaemon.Dos.ConcurrentCounts
import TorDaemon.CircuitList.CircidMapRuns
import TorDaemon.Dirvote.BandwidthWeightsLegal
import TorDaemon.Dirvote.ConsensusMethod
import TorDaemon.SharedRandom.MajoritySrv
import TorDaemon.Dirvote.DetachedSignaturesRuns
import TorDaemon.Dirvote.DescriptorChoice
import TorDaemon.Circuitmux.AttachmentRuns
import TorDaemon.Sendme.Packaging
import TorDaemon.Policies.Redundancy
import TorDaemon.Policies.Definite
import TorDaemon.Policies.GeneralExit
import TorDaemon.Padding.NearestBin
import TorDaemon.SharedRandom.Expiry
import TorDaemon.Evloop.TokenBucketRuns
import TorDaemon.Policies.SummaryMeaning
import TorDaemon.Policies.AddressOrder
import TorDaemon.HiddenService.RendService
import TorDaemon.HiddenService.ReplayCache
import TorDaemon.HiddenService.RevisionCounter
import TorDaemon.Client.Rewrite
import TorDaemon.Relay.OnionQueue
import TorDaemon.Edge.HalfStreams
import TorDaemon.Dos.CircuitBucket
import TorDaemon.CircuitStats.SaveLoad
import TorDaemon.Stats.BandwidthReport
import TorDaemon.Stats.BandwidthLoad
import TorDaemon.Nodelist.RoutersetUnion
import TorDaemon.Client.GuardStateFile
import TorDaemon.Encoding.Utf8
import TorDaemon.Encoding.Timegm
import TorDaemon.Encoding.Kvline
import TorDaemon.Encoding.Confline
import TorDaemon.Dirparse.Tokenizer
import TorDaemon.Nodelist.NodefamilyShared
import TorDaemon.Edge.Resolved
import TorDaemon.Padding.ChannelPadding
import TorDaemon.Relay.HandshakeCells

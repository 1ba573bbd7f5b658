import VllmAscend.Cache.PrefixHits
import VllmAscend.Pearl.Continuous
import VllmAscend.Rhythm.Runs
import VllmAscend.Rhythm.Lifecycle
import VllmAscend.Rhythm.Mailbox
import VllmAscend.Sched.DynamicBatchSound
import VllmAscend.Sched.HandBack
import VllmAscend.Eplb.UpdatorSound
import VllmAscend.Eplb.LoaderSound
import VllmAscend.Layerwise.SenderSound
import VllmAscend.Mooncake.DispatchSound
import VllmAscend.Store.LayerSendingSound
import VllmAscend.Layerwise.ReceiverSound
import VllmAscend.Offload.FinishAccounting
import VllmAscend.Offload.MappedSound
import VllmAscend.Offload.MappedGather
import VllmAscend.Store.PoolFullBlocks
import VllmAscend.Pearl.RemoteProposer
import VllmAscend.Pearl.ControllerSound
import VllmAscend.SimLlm.Holes
import VllmAscend.Layerwise.SendTable
import VllmAscend.Mooncake.ReleaseLayout
import VllmAscend.Mooncake.PullPlaced
import VllmAscend.Rhythm.ShaperOrder
import VllmAscend.Mooncake.RankChoice
import VllmAscend.Worker.MtpMask
import VllmAscend.Pearl.VerdictAgree
import VllmAscend.Worker.TreeVerification
import VllmAscend.Pearl.Transport
import VllmAscend.Pearl.GraphShapes
import VllmAscend.Eplb.Replicas
import VllmAscend.Eplb.Redeploy
import VllmAscend.Store.LayerAddresses
import VllmAscend.Store.LookupKeys
import VllmAscend.Store.SendingEvents
import VllmAscend.Pearl.GraphEntries
import VllmAscend.SimLlm.KvManager
import VllmAscend.Mooncake.RegisterRegions
import VllmAscend.SimLlm.Similarity
import VllmAscend.Offload.FsTier

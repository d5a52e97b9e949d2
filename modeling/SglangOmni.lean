import SglangOmni.Comm.StageIoProofs
import SglangOmni.Comm.KvReceiveProofs
import SglangOmni.Comm.KvSendProofs
import SglangOmni.Pipeline.Coordinator.Terminals
import SglangOmni.Pipeline.Stage.Bindings
import SglangOmni.Scheduling.Inbox
import SglangOmni.Scheduling.EvictHeap
import SglangOmni.Scheduling.Reference.Ends
import SglangOmni.Scheduling.PreLmEncoder.Proofs
import SglangOmni.Serve.Realtime.ResponseProofs
import SglangOmni.Scheduling.Lookahead
import SglangOmni.Proto.Codec
import SglangOmni.Router.Admission
import SglangOmni.Router.AdmissionTotals
import SglangOmni.Router.ContentTypeProofs
import SglangOmni.Router.CountersProofs
import SglangOmni.Pipeline.Expansion
import SglangOmni.Config.Visibility
import SglangOmni.Router.Health
import SglangOmni.Router.WeightUpdateProofs
import SglangOmni.Serve.SpeechWsProofs
import SglangOmni.Serve.Voices.StoreProofs
import SglangOmni.Models.Ming.SegmenterProofs
import SglangOmni.Models.Higgs.SamplerProofs
import SglangOmni.Models.MossTtsLocal.StatePoolAlone
import SglangOmni.Models.MossTts.StreamingOffline
import SglangOmni.Pipeline.Coordinator.FailedAdmission
import SglangOmni.Pipeline.Stage.AbortMemory
import SglangOmni.Pipeline.Stage.FaninOrder
import SglangOmni.Comm.RefusedSend
import SglangOmni.Relay.CudaIpcProofs
import SglangOmni.Comm.StreamChunkProofs
import SglangOmni.Comm.Packing
import SglangOmni.Comm.IpcMetadata
import SglangOmni.Pipeline.TpControlProofs
import SglangOmni.Scheduling.Scheduler.QueueLimit
import SglangOmni.Scheduling.StageCacheRuns
import SglangOmni.Router.WorkerUpdate
import SglangOmni.Router.RequestBody
import SglangOmni.Router.SlotCodec
import SglangOmni.Scheduling.StaleRows
import SglangOmni.Scheduling.Scheduler.AbortAll
import SglangOmni.Scheduling.Scheduler.RetractPause
import SglangOmni.Router.Proxy
import SglangOmni.Router.Profile
import SglangOmni.Scheduling.PreparedQueue
import SglangOmni.Serve.Realtime.TruncationProofs
import SglangOmni.Serve.Realtime.AudioLimit
import SglangOmni.Serve.TranscriptionChunking
import SglangOmni.Serve.ChunkedTranscriptionProofs
import SglangOmni.Serve.SubtitlesProofs
import SglangOmni.Scheduling.TokenTextStreaming
import SglangOmni.Models.Qwen3Omni.Code2WavProofs
import SglangOmni.Models.Higgs.StreamingVocoderProofs
import SglangOmni.Models.Dots.PoolRuns
import SglangOmni.Models.MiniMaxMusic3.Acoustic
import SglangOmni.Models.Ming.WordBreaks
import SglangOmni.Models.Qwen3Omni.DetokenizerProofs
import SglangOmni.Models.Higgs.DelayPattern
import SglangOmni.Router.AckOrder
import SglangOmni.Scheduling.PrefillEvents
import SglangOmni.Models.Qwen3Omni.PendingTextQueueProofs
import SglangOmni.Models.Ming.SegmentCutLetters

import Asys.Lib.Runs
import Asys.Lib.Words
import Asys.Lib.Channel
import Asys.Lib.Framing
import Asys.Lib.Noise
import Asys.Lib.Lines
import Asys.Lib.Memory
import Asys.Lib.TopK
import Asys.Lib.Serial
import Asys.Lib.Scan
import Asys.Lib.Returns
import Asys.Lib.Blocks
import Asys.Lib.Lucas
import Asys.Lib.Montgomery
import Asys.Core.TaskPool
import Asys.Core.ApduParser
import Asys.Core.Frames
import Asys.Core.Stream
import Asys.Core.StatusWord
import Asys.Core.Monocypher
import Asys.Core.LittleEndian
import Asys.Core.Verify
import Asys.Core.Fe
import Asys.Core.FeBytes
import Asys.Core.Field25519
import Asys.Core.X25519
import Asys.Core.Curve25519
import Asys.Core.Poly1305
import Asys.Core.Blake2b
import Asys.Core.Chacha20
import Asys.Core.Aead
import Asys.Core.NoiseIk
import Asys.Core.NoiseCalls
import Asys.Core.NoiseSpec
import Asys.Core.Tamper
import Asys.Core.Transport
import Asys.Core.AuthVerify
import Asys.Handlers.ProcThrottle
import Asys.Handlers.SvcRestart
import Asys.Handlers.TaskQuery
import Asys.Handlers.SysInfo
import Asys.Handlers.SysStatus
import Asys.Handlers.SysProcs
import Asys.Core.Dispatcher
import Asys.Handlers.Checked
import Asys.Handlers.InsertTop
import Asys.Handlers.ProcsReport
import Asys.Handlers.ProcStat
import Asys.Handlers.StatusReaders
import Asys.Handlers.CpuPct
import Asys.Daemon.PoolEvents
import Asys.Daemon.OnePending
import Asys.Daemon.Lifecycle
import Asys.Daemon.Isolation
import Asys.Daemon.Timeout
import Asys.Daemon.Handles
import Asys.Daemon.QueryRace
import Asys.Daemon.Restarts
import Asys.Daemon.Tracked
import Asys.Daemon.Reaping
import Asys.Daemon.Sessions
import Asys.Daemon.HandleClient
import Asys.Daemon.KeyAgreement
import Asys.Daemon.ClientPaths
import Asys.Daemon.Handshake
import Asys.Daemon.TagCoverage
import Asys.Daemon.Gates
import Asys.Daemon.Replay
import Asys.Daemon.FrameSync
import Asys.Daemon.WhitelistFile
import Asys.Daemon.KeyMaterial
import Asys.Daemon.SeqOperands
import Asys.Daemon.UnitName
import Asys.Daemon.Slots
import Asys.Daemon.ParserBounds
import Asys.Daemon.FaultPriority
import Asys.Daemon.MemoryBounds
import Asys.Daemon.ProcsRuns
import Asys.Daemon.ProcsRace
import Asys.Daemon.NoiseOrder
import Asys.Daemon.Agent
import Asys.Daemon.AgentServed

import FpgaEthash.Computation.Runs
import FpgaEthash.Arithmetic.HexDigits
import FpgaEthash.Arithmetic.Segments
import FpgaEthash.Devcore.CommonData
import FpgaEthash.Ethcore.WorkPackage
import FpgaEthash.Stratum.ResponsePleas
import FpgaEthash.Ethcore.Farm
import FpgaEthash.Ethcore.NoncePartition
import FpgaEthash.Ethcore.EpochFollows
import FpgaEthash.Stratum.Client
import FpgaEthash.Stratum.Extranonce
import FpgaEthash.Fpga.WorkLoop
import FpgaEthash.Arithmetic.LittleEndian
import FpgaEthash.Keccak.Lanes
import FpgaEthash.Host.KecHash
import FpgaEthash.Keccak.Probe
import FpgaEthash.Kernel.Sha3
import FpgaEthash.Keccak.Permutation
import FpgaEthash.Computation.Walk
import FpgaEthash.Host.Keccakf
import FpgaEthash.Kernel.Keccakf
import FpgaEthash.Computation.Checked
import FpgaEthash.Host.Dag
import FpgaEthash.Host.Hashimoto
import FpgaEthash.Computation.Throwing
import FpgaEthash.Jsoncpp.Value
import FpgaEthash.Pool.Uri
import FpgaEthash.Stratum.Exchange
import FpgaEthash.Stratum.ProcessResponse
import FpgaEthash.Stratum.MessageFrame
import FpgaEthash.Stratum.SessionPresent
import FpgaEthash.Computation.Framing
import FpgaEthash.Stratum.Receive
import FpgaEthash.Pool.Manager
import FpgaEthash.Stratum.ReadReturns
import FpgaEthash.Stratum.Notice
import FpgaEthash.Stratum.LatestJob
import FpgaEthash.Computation.TwoRuns
import FpgaEthash.Stratum.Traces
import FpgaEthash.Stratum.CoherentJob
import FpgaEthash.Stratum.Transmit
import FpgaEthash.Stratum.Connection
import FpgaEthash.Stratum.Watchdog
import FpgaEthash.Stratum.Autodetect
import FpgaEthash.Getwork.Response
import FpgaEthash.Getwork.Client
import FpgaEthash.Getwork.Polling
import FpgaEthash.Pool.EpochTracking
import FpgaEthash.Computation.Cursor
import FpgaEthash.Pool.Connections
import FpgaEthash.Pool.Failover
import FpgaEthash.Fpga.Buffers
import FpgaEthash.Fpga.Launches
import FpgaEthash.Fpga.DagEpoch
import FpgaEthash.Fpga.Results
import FpgaEthash.Ethcore.PauseFlag
import FpgaEthash.Ethcore.PausedWork
import FpgaEthash.Host.Incremental
import FpgaEthash.Host.FusedDag
import FpgaEthash.Devcore.HashOrder
import FpgaEthash.Ethcore.SolutionAccount
import FpgaEthash.Ethcore.SubmitProof
import FpgaEthash.Devcore.HexCodec
import FpgaEthash.Ethash.Hashimoto
import FpgaEthash.Host.HashimotoSpec
import FpgaEthash.Kernel.Search
import FpgaEthash.Ethcore.DagLoad
import FpgaEthash.Ethcore.TelemetryEntries
import FpgaEthash.Stratum.Solutions
import FpgaEthash.Pool.Rig
import FpgaEthash.Pool.Conservation
import FpgaEthash.Arithmetic.PrimeDescent
import FpgaEthash.Computation.Loops
import FpgaEthash.Host.Sizes
import FpgaEthash.Kernel.Sizes
import FpgaEthash.Ethash.Cache
import FpgaEthash.Host.Cache
import FpgaEthash.Host.SeedHash
import FpgaEthash.Host.SizeGuards
import FpgaEthash.Pool.UrlDecode
import FpgaEthash.Stratum.ExtranonceText
import FpgaEthash.Text.Regex
import FpgaEthash.Pool.UriConstruct
import FpgaEthash.Pool.Quoting
import FpgaEthash.Pool.Credentials
import FpgaEthash.Pool.QuotedSeparators
import FpgaEthash.Text.JsonTree
import FpgaEthash.Text.JsonLines
import FpgaEthash.Jsoncpp.Reader
import FpgaEthash.Getwork.Body
import FpgaEthash.Stratum.ShareTarget
import FpgaEthash.Devcore.ScaledSize
import FpgaEthash.Pool.Shown
import FpgaEthash.Arithmetic.Decimals
import FpgaEthash.Devcore.TargetFromDiff
import FpgaEthash.Devcore.Worker
import FpgaEthash.Host.SizeTables
import FpgaEthash.Host.Dataset
import FpgaEthash.Fpga.FarmLaunches
import FpgaEthash.Getwork.Requests
import FpgaEthash.Getwork.Answers
import FpgaEthash.Pool.Lifecycle
import FpgaEthash.Ethcore.HashRate
import FpgaEthash.Computation.Latch
import FpgaEthash.Ethcore.CollectData
import FpgaEthash.Computation.OrderedMap
import FpgaEthash.Ethminer.Devices
import FpgaEthash.Pool.Simulation

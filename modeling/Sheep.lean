import Sheep.Lib.System
import Sheep.Lib.Simulation
import Sheep.Lib.Response
import Sheep.Lib.Contexts
import Sheep.Lib.Process
import Sheep.Lib.LockProgram
import Sheep.Lib.Spans
import Sheep.Lib.Bytes
import Sheep.Lib.IntrusiveList
import Sheep.Util.IntrusiveListCalls
import Sheep.Lib.HttpFraming
import Sheep.Lib.OrderedMap
import Sheep.Net.Buffer
import Sheep.Net.BufferQueue
import Sheep.Net.TcpConnection
import Sheep.Net.TcpRun
import Sheep.Net.Stream
import Sheep.Net.ReadRun
import Sheep.Net.WriteRun
import Sheep.Net.FinishRace
import Sheep.Net.Epoller
import Sheep.Net.EpollerPoll
import Sheep.Net.TimerPoller
import Sheep.Net.TimerPollerLock
import Sheep.Net.AsyncerPoller
import Sheep.Net.AsyncerRun
import Sheep.Net.EventLoop
import Sheep.Net.AsyncLoop
import Sheep.Net.Server
import Sheep.Net.Timer
import Sheep.Net.TimerRun
import Sheep.Net.TimerLoop
import Sheep.Net.ClientPool
import Sheep.Net.ClientPoolLocks
import Sheep.Watcher.Etcd
import Sheep.Watcher.Ephemeral
import Sheep.Watcher.EphemeralPuts
import Sheep.Watcher.EtcdList
import Sheep.Watcher.WatcherResolver
import Sheep.Http.RespParser
import Sheep.Http.Delimited
import Sheep.Http.UrlCode
import Sheep.Http.ReqFormater
import Sheep.Http.FormatFraming
import Sheep.Http.FormatRun
import Sheep.Flow.FlowService
import Sheep.Coroutine.Waiter
import Sheep.Coroutine.CondVarRun
import Sheep.Coroutine.ThrowingWait
import Sheep.Coroutine.CoMutex
import Sheep.Coroutine.Mutex
import Sheep.Coroutine.SharedState
import Sheep.Coroutine.AsyncResult
import Sheep.Coroutine.Scheduler
import Sheep.Coroutine.LinkedScheduler
import Sheep.Coroutine.SlotReuse
import Sheep.Coroutine.Context
import Sheep.Coroutine.SchedulerRound
import Sheep.Coroutine.Fairness
import Sheep.Coroutine.Async
import Sheep.Coroutine.OneCoro
import Sheep.Net.CoTcpConnection
import Sheep.Net.CoClient
import Sheep.Net.FinishOnce
import Sheep.Net.ClientUse
import Sheep.Net.ClientReuse
import Sheep.Net.CoServer
import Sheep.Client.BaseClient
import Sheep.Client.HttpClient
import Sheep.Client.RequestSteps
import Sheep.Client.RequestLaw
import Sheep.Client.RequestTimer
import Sheep.Client.Exchange
import Sheep.Client.PooledReuse
import Sheep.Client.Served
import Sheep.Client.ResponseRun
import Sheep.Client.RedisClient
import Sheep.Client.RedisRun
import Sheep.Client.ClientChannel
import Sheep.Client.ClientManagerRun
import Sheep.Client.DnsResolver
import Sheep.Watcher.Discovery
import Sheep.Server.GrpcServer
import Sheep.Server.GrpcClient
import Sheep.Packages.BlockQueue
import Sheep.Config.SmallJson
import Sheep.Config.JsonFaults
import Sheep.Config.JsonReload
import Sheep.Config.SmallToml
import Sheep.Config.UnsignedDecode
import Sheep.Config.JsonToml

import Fishjoy.TimerHistory
import Fishjoy.TimerRollover
import Fishjoy.TimerExpiry
import Fishjoy.SchedulerShutdown
import Fishjoy.FiberHandoff
import Fishjoy.IOManagerEvents
import Fishjoy.IOManagerRegistered
import Fishjoy.Foundation.Registry
import Fishjoy.IOManagerResolution
import Fishjoy.IOManagerWakeup
import Fishjoy.IOManagerShutdown
import Fishjoy.ByteArrayFlat
import Fishjoy.ByteArrayCodec
import Fishjoy.HttpQuery
import Fishjoy.HttpCutting
import Fishjoy.HttpSession
import Fishjoy.ConfigVar
import Fishjoy.IOManagerResize
import Fishjoy.IOManagerInterest
import Fishjoy.HookNonblock
import Fishjoy.HookTimeout
import Fishjoy.Foundation.Segments
import Fishjoy.ByteArraySegments
import Fishjoy.StreamFixSize
import Fishjoy.ByteArrayStrings
import Fishjoy.ByteArrayStringF16
import Fishjoy.ByteArrayPositional
import Fishjoy.ByteArrayFile
import Fishjoy.Foundation.Groups
import Fishjoy.ByteArrayReaders
import Fishjoy.ByteArrayVarint
import Fishjoy.ByteArrayThrows
import Fishjoy.Foundation.Lines
import Fishjoy.HttpDump
import Fishjoy.HttpSplitting
import Fishjoy.HttpForm
import Fishjoy.HttpParams
import Fishjoy.HttpCookies
import Fishjoy.HttpConnectionPool
import Fishjoy.HttpConnectionPoolInvariant
import Fishjoy.HttpConnectionPoolPlaces
import Fishjoy.HttpConnectionPoolReuse
import Fishjoy.Foundation.RankedSet
import Fishjoy.Log
import Fishjoy.LogConfig
import Fishjoy.LogLexicalCast
import Fishjoy.Uri
import Fishjoy.UrlCopying
import Fishjoy.TimerTruth
import Fishjoy.Foundation.Conversion
import Fishjoy.IOManagerIdle
import Fishjoy.HookSleep
import Fishjoy.Foundation.ByteReverse
import Fishjoy.IPv4Address
import Fishjoy.IPv6Address
import Fishjoy.Foundation.Compressed
import Fishjoy.IPv6Text
import Fishjoy.AddressLookup
import Fishjoy.LogFormatter
import Fishjoy.LogPattern
import Fishjoy.LogAppenders
import Fishjoy.LogFile
import Fishjoy.ConfigYaml
import Fishjoy.ConfigFromString
import Fishjoy.FdManagerGet
import Fishjoy.ThreadPoolTasks
import Fishjoy.ThreadPoolIdle
import Fishjoy.ThreadPoolExit
import Fishjoy.Foundation.Recency
import Fishjoy.Servlet
import Fishjoy.Socket
import Fishjoy.TcpServer
import Fishjoy.FiberCurrent
import Fishjoy.HttpKeys
import Fishjoy.Foundation.Places
import Fishjoy.FileRm
import Fishjoy.ByteArrayZigzag
import Fishjoy.Foundation.Trimming
import Fishjoy.StringTrim
import Fishjoy.Env
import Fishjoy.ScopedLock
import Fishjoy.ThreadStart
import Fishjoy.TcpServerRun
import Fishjoy.HookIo
import Fishjoy.SocketTimeout
import Fishjoy.ThreadPoolWakeup
import Fishjoy.HttpBuffer
import Fishjoy.Lexical
import Fishjoy.FileMv
import Fishjoy.FilePath
import Fishjoy.FileList
import Fishjoy.ConfigDir
import Fishjoy.HttpRequesting
import Fishjoy.HttpServer
import Fishjoy.ByteArrayLoad
import Fishjoy.ConfigListeners
import Fishjoy.Foundation.LockPrograms
import Fishjoy.LogLocking
import Fishjoy.LogRestore

import SafeKiddo.Lib.ByteString
import SafeKiddo.UrlPattern
import SafeKiddo.BoostTime
import SafeKiddo.DbClient
import SafeKiddo.QueryDatabase
import SafeKiddo.Lib.RootedPath
import SafeKiddo.UrlDecode
import SafeKiddo.UrlNormalization
import SafeKiddo.ShortenUrl
import SafeKiddo.UrlParts
import SafeKiddo.IcapHandler
import SafeKiddo.Lib.CopyText
import SafeKiddo.TypedInteger
import SafeKiddo.LogRecord
import SafeKiddo.Worker
import SafeKiddo.Lib.Machine
import SafeKiddo.RequestsContainer
import SafeKiddo.LoggingLoop
import SafeKiddo.LoadBalancing
import SafeKiddo.Lib.Tokens
import SafeKiddo.SocketPool
import SafeKiddo.AdmissionControl
import SafeKiddo.Responses
import SafeKiddo.Httpd
import SafeKiddo.UnknownUsers
import SafeKiddo.RowOrder
import SafeKiddo.LoggerThread
import SafeKiddo.SafeSearch
import SafeKiddo.UrlReference
import SafeKiddo.OverridesUpdate
import SafeKiddo.AdmissionIndependence
import SafeKiddo.DbRetry
import SafeKiddo.BlockPageSession
import SafeKiddo.Lib.Framing
import SafeKiddo.Lib.Leases
import SafeKiddo.Lib.Mutex
import SafeKiddo.LoggingDevice
import SafeKiddo.WsConnections
import SafeKiddo.ForwardedFor
import SafeKiddo.LoggedUrl
import SafeKiddo.UrlPatternPositions
import SafeKiddo.ServerStatus
import SafeKiddo.TypedIntegerInput
import SafeKiddo.IcapRequest
import SafeKiddo.Lib.CharRegex
import SafeKiddo.NormalForm
import SafeKiddo.SettingsFile
import SafeKiddo.SettingsReload
import SafeKiddo.UrlDecodeBounds
import SafeKiddo.EscapedUrl
import SafeKiddo.LoggerWakeups
import SafeKiddo.Lib.Lockstep
import SafeKiddo.BackendService
import SafeKiddo.Lib.WireFormat
import SafeKiddo.MessageFormat
import SafeKiddo.BackendCalls
import SafeKiddo.BackendReplies
import SafeKiddo.Lib.Lines
import SafeKiddo.HttpdReplies
import SafeKiddo.EndToEnd
import SafeKiddo.HttpSender
import SafeKiddo.Statistics
import SafeKiddo.LoggerShutdown
import SafeKiddo.ServerRun

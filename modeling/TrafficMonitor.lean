import TrafficMonitor.Client.Connection
import TrafficMonitor.Client.Control
import TrafficMonitor.Client.CtrlBuffer
import TrafficMonitor.Client.FailedWrite
import TrafficMonitor.Client.FlushSize
import TrafficMonitor.Client.FrameStream
import TrafficMonitor.Client.NetChange
import TrafficMonitor.Client.PollCtrlLines
import TrafficMonitor.Client.SenderLoop
import TrafficMonitor.Client.UpdateCycle
import TrafficMonitor.Ios.FlowGenerations
import TrafficMonitor.Ios.TcpStream
import TrafficMonitor.Ios.WireClient
import TrafficMonitor.Server.Attribution
import TrafficMonitor.Server.CtrlWrites
import TrafficMonitor.Server.HandOver
import TrafficMonitor.Server.LogDownload
import TrafficMonitor.Server.ReceiveLoop
import TrafficMonitor.Server.Cbor
import TrafficMonitor.Server.DLineGrammar
import TrafficMonitor.Server.DemoSession
import TrafficMonitor.Server.Challenges
import TrafficMonitor.Server.ClientPushRuns
import TrafficMonitor.Server.CredentialStore
import TrafficMonitor.Server.OneSession
import TrafficMonitor.Server.UpdateStatus
import TrafficMonitor.Server.XLineLimit
import TrafficMonitor.Server.WsPayload
import TrafficMonitor.Server.SiwaPinning
import TrafficMonitor.Server.LogDelete
import TrafficMonitor.Server.LogList
import TrafficMonitor.Server.LoglevelAck
import TrafficMonitor.Stats.HourHistory
import TrafficMonitor.Stats.Ifaces
import TrafficMonitor.Stats.MinuteHistory
import TrafficMonitor.Stats.Overflow
import TrafficMonitor.Stats.Window
import TrafficMonitor.System.Announce
import TrafficMonitor.System.Handshake
import TrafficMonitor.System.HealthLine
import TrafficMonitor.Trust.Rollback
import TrafficMonitor.Server.UpdateDir
import TrafficMonitor.Server.UpgradeWrite
import TrafficMonitor.Trust.Canonical
import TrafficMonitor.Server.NonceStore
import TrafficMonitor.Server.SessionLife
import TrafficMonitor.Server.Jwt
import TrafficMonitor.Server.SiwaReplay
import TrafficMonitor.Server.JwtNumbers
import TrafficMonitor.Server.ConnectionLimiter
import TrafficMonitor.Server.AllowedKeys
import TrafficMonitor.Server.HiddenEntities
import TrafficMonitor.Server.CborItems
import TrafficMonitor.Server.CborReads
import TrafficMonitor.Server.CoseKeys
import TrafficMonitor.Server.Counters
import TrafficMonitor.Server.WebRateLimiter
import TrafficMonitor.Server.DropPercent
import TrafficMonitor.Server.IpLookup
import TrafficMonitor.Client.AdaptiveInterval
import TrafficMonitor.Client.Dissect
import TrafficMonitor.Client.FileLogCap
import TrafficMonitor.Client.Sniffers
import TrafficMonitor.Server.AdminGate
import TrafficMonitor.Server.Summary
import TrafficMonitor.Server.ConfigFile
import TrafficMonitor.Server.UpgradeBase64
import TrafficMonitor.Trust.Times
import TrafficMonitor.Server.JsonFields
import TrafficMonitor.Server.Alpn
import TrafficMonitor.System.LanAddresses
import TrafficMonitor.Ios.PacketSoundness
import TrafficMonitor.Ios.RelayReplies
import TrafficMonitor.Server.AppleSignIn
import TrafficMonitor.Server.AppleFlows
import TrafficMonitor.Basic.HttpHead
import TrafficMonitor.System.WsUpgrade
import TrafficMonitor.System.Ingest
import TrafficMonitor.Server.IpDataUpdater
import TrafficMonitor.Client.UpdateFetch
import TrafficMonitor.Server.UpdateEndpoints
import TrafficMonitor.System.UpdateDistribution

import FlowMQ.Election
import FlowMQ.Leaders
import FlowMQ.Failover
import FlowMQ.Tenure
import FlowMQ.CutOff
import FlowMQ.Integrity
import FlowMQ.Link
import FlowMQ.Numbers
import FlowMQ.StateMachine
import FlowMQ.LateReply
import FlowMQ.Recovery
import FlowMQ.QueueStatus
import FlowMQ.ClientSessions
import FlowMQ.Delivery
import FlowMQ.Server
import FlowMQ.Stale
import FlowMQ.AppendOnly
import FlowMQ.Window
import FlowMQ.Restarts
import FlowMQ.Session
import FlowMQ.LogFile
import FlowMQ.StorageThread
import FlowMQ.Replay
import FlowMQ.AppendOrder
import FlowMQ.FollowerCommit
import FlowMQ.LogRepair
import FlowMQ.Serialization
import FlowMQ.ReadLoop
import FlowMQ.FrameStream
import FlowMQ.Disconnect
import FlowMQ.RoundRobin
import FlowMQ.Configuration
import FlowMQ.ConfigFile
import FlowMQ.ClusterManager
import FlowMQ.Routing
import FlowMQ.FlowProto
import FlowMQ.Partitions
import FlowMQ.Isolation
import FlowMQ.Survival
import FlowMQ.Reconnect
import FlowMQ.Directory
import FlowMQ.SimpleClient
import FlowMQ.Openings

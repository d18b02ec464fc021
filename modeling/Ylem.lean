import Ylem.Lib.Prog
import Ylem.Lib.Windows
import Ylem.Lib.Table
import Ylem.Lib.Text
import Ylem.Util
import Ylem.Device
import Ylem.ReplicationPolicy.MultipleHosts
import Ylem.Store
import Ylem.Worker.Replicate
import Ylem.Worker.Rebalance
import Ylem.DevFid
import Ylem.Query.Reply
import Ylem.Query.CreateClose
import Ylem.Store.RegisterTempfile
import Ylem.Query.CreateOpen
import Ylem.Query.Keys
import Ylem.Worker.Delete
import Ylem.Worker.Reaper
import Ylem.Tracker.FreshFids
import Ylem.Tracker.LiveFiles
import Ylem.Tracker.Covers
import Ylem.Tracker.Orphans
import Ylem.Tracker.Reaping
import Ylem.Lib.FileSystem
import Ylem.Mogstored.FidSizes
import Ylem.Worker.SizeChecker
import Ylem.Lib.Pwrite
import Ylem.Worker.CopyPasses
import Ylem.Worker.Masks
import Ylem.Worker.MeetPolicy
import Ylem.Worker.Convergence
import Ylem.Network
import Ylem.ReplicationPolicy.MultipleNetworks
import Ylem.ReplicationPolicy.HostsPerNetwork
import Ylem.Worker.Runaway
import Ylem.Lib.Lines
import Ylem.LineReader
import Ylem.Lib.Base64
import Ylem.Client.CSLangue
import Ylem.Frontend.Token
import Ylem.Query.Binding
import Ylem.Frontend.Upload
import Ylem.Store.FsckStore
import Ylem.Query.Fsck
import Ylem.Worker.Fsck
import Ylem.Tracker.FsckCoverage
import Ylem.Storage.ModWebdav
import Ylem.Worker.CopyAttempts
import Ylem.Worker.Suggestions
import Ylem.Worker.CopyOrder
import Ylem.Worker.NetworkOverfilling
import Ylem.Worker.Overfilling
import Ylem.Query.ExplicitFid
import Ylem.Worker.TempfileCleanup
import Ylem.Worker.FixFid
import Ylem.Worker.SuccessfulCopies
import Ylem.Worker.ZoneConvergence
import Ylem.Lib.Like
import Ylem.Query.ListKeys
import Ylem.Query.GetPaths
import Ylem.Lib.Folds
import Ylem.Lib.Ranks
import Ylem.RebalancePolicy
import Ylem.RebalancePolicy.PercentFree
import Ylem.Query.FsckStatus
import Ylem.Tracker.FsckCounts
import Ylem.Client.TrackerInc
import Ylem.Frontend.Rm
import Ylem.Client.YlemTracker
import Ylem.RebalancePolicy.DrainDevices
import Ylem.Tracker.EmptyDevices
import Ylem.Query.Domains
import Ylem.Tracker.DomainIsolation
import Ylem.Tracker.ProcManager
import Ylem.Tracker.Connections
import Ylem.Monitor.VolumeRanking
import Ylem.Frontend.Placement
import Ylem.Client.YlemPutfile
import Ylem.Client.YlemFile
import Ylem.Store.ReplaceIntoFile
import Ylem.Lib.Split
import Ylem.ZoneSettings
import Ylem.Query.Hosts
import Ylem.Query.Devices
import Ylem.ReplicationPolicy.PolicyString
import Ylem.Query.Destinations
import Ylem.Lib.Lex
import Ylem.Mogstored.FidStatter
import Ylem.Mogstored.DeviceTree
import Ylem.Lib.OrderedListing
import Ylem.Mogstored.Walkers
import Ylem.Tracker.ChildAccounting
import Ylem.Tracker.QueryDispatch
import Ylem.Worker.HttpCopy
import Ylem.Worker.ChunkedCopy
import Ylem.Worker.CopyFailures
import Ylem.Query.EditFile
import Ylem.Worker.CheckFid
import Ylem.Tracker.DeviceCounts
import Ylem.Tracker.ForgottenReplicas
import Ylem.Tracker.CountedRuns
import Ylem.Worker.QueryWorker
import Ylem.Tracker.QueryReplies
import Ylem.Frontend.Xxtea
import Ylem.Store.ReplicationLocks
import Ylem.Client.StoredUpload
import Ylem.Query.Listings
import Ylem.Query.Maintenance
import Ylem.Query.Commands
import Ylem.Tracker.Answers
import Ylem.Tracker.OneResponse

import SqlAnywhere.Bottomless.Flush
import SqlAnywhere.Bottomless.Generation
import SqlAnywhere.Client.Answers
import SqlAnywhere.Client.Http
import SqlAnywhere.Client.Listen
import SqlAnywhere.Client.Synced
import SqlAnywhere.Client.Transaction
import SqlAnywhere.Compare.Reports
import SqlAnywhere.Contracts.Cache
import SqlAnywhere.Contracts.Effects
import SqlAnywhere.Contracts.PubSub
import SqlAnywhere.Contracts.Queue
import SqlAnywhere.DiskAnn.TopK
import SqlAnywhere.DiskAnn.Updates
import SqlAnywhere.Interests.Published
import SqlAnywhere.Live.Wait
import SqlAnywhere.Merge3.Again
import SqlAnywhere.Merge3.Session
import SqlAnywhere.Replication.Replicator.Prefix
import SqlAnywhere.Server.HttpStreams.Requests
import SqlAnywhere.Server.Linked
import SqlAnywhere.Server.LogCompactor.Crash
import SqlAnywhere.Server.LogFile.Checksum
import SqlAnywhere.Server.LogStream
import SqlAnywhere.Server.LoggerWal
import SqlAnywhere.Server.Migration.Restart
import SqlAnywhere.Server.Migration.Stranded
import SqlAnywhere.Server.Namespace.Available
import SqlAnywhere.Server.Namespace.Durable
import SqlAnywhere.Server.Namespace.Locks
import SqlAnywhere.Server.Namespace.Registered
import SqlAnywhere.Server.Namespace.Sweep
import SqlAnywhere.Server.NamespacePath
import SqlAnywhere.Server.Program
import SqlAnywhere.Server.Proxy
import SqlAnywhere.Server.SchemaConnection
import SqlAnywhere.Server.Streams
import SqlAnywhere.Server.WriteProxy.Finished
import SqlAnywhere.Server.WriteSlot.Step
import SqlAnywhere.Bottomless.Progress

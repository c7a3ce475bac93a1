import RocketmqProxy.Lib.Runs
import RocketmqProxy.Locker.LastAck
import RocketmqProxy.ConsumerUnit.Release
import RocketmqProxy.ConsumerUnit.Schedule
import RocketmqProxy.Proxy.Loss
import RocketmqProxy.Proxy.Delivery
import RocketmqProxy.Proxy.Answers
import RocketmqProxy.Proxy.Groups
import RocketmqProxy.Proxy.ForcedUnlock
import RocketmqProxy.Proxy.ClearRequests
import RocketmqProxy.Proxy.Topics
import RocketmqProxy.Proxy.AckTimer
import RocketmqProxy.Proxy.OneConsumer
import RocketmqProxy.Proxy.Coverage
import RocketmqProxy.Proxy.StaleTimer
import RocketmqProxy.Proxy.AckWindow
import RocketmqProxy.Proxy.Inactivity
import RocketmqProxy.Proxy.RejectedAck
import RocketmqProxy.Proxy.Index
import RocketmqProxy.Proxy.Sweep
import RocketmqProxy.Proxy.Keys
import RocketmqProxy.Server.Listeners
import RocketmqProxy.Server.ProduceCalls
import RocketmqProxy.Server.Messages
import RocketmqProxy.Server.FailedStart
import RocketmqProxy.Threads.Verdict
import RocketmqProxy.Threads.Alone
import RocketmqProxy.Threads.Deadlock
import RocketmqProxy.Threads.Notify
import RocketmqProxy.Logger.Batches
import RocketmqProxy.Logger.Answers
import RocketmqProxy.Logger.TimeStamp
import RocketmqProxy.QueueTS.Waiters
import RocketmqProxy.MapTS.Waiters
import RocketmqProxy.Proxy.Fairness
import RocketmqProxy.Audit
import RocketmqProxy.Logger.Text
import RocketmqProxy.Proxy.ShutdownEnds
import RocketmqProxy.Pb.RoundTrip
import RocketmqProxy.Threads.Races
import RocketmqProxy.MatcherLoop.Timeouts
import RocketmqProxy.Proxy.Response
import RocketmqProxy.Threads.Serial
import RocketmqProxy.Pb.Arrays
import RocketmqProxy.Proxy.Settled

import ArbitroKit.PanickedDrain
import ArbitroKit.MpscEndOfStream
import ArbitroKit.MpscStranded
import ArbitroKit.MpmcReentry
import ArbitroKit.MpmcDeadShard
import ArbitroKit.PanicWake
import ArbitroKit.MpmcShutdown
import ArbitroKit.SignalSetWake
import ArbitroKit.OneShotOwner
import ArbitroKit.MpscPoolLease
import ArbitroKit.MpmcParked
import ArbitroKit.ParkWaiterWake
import ArbitroKit.WakeGateWake
import ArbitroKit.ParkedRingDeadlock
import ArbitroKit.MpscAsMpmc
import ArbitroKit.RingClosed
import ArbitroKit.MpmcLateSend
import ArbitroKit.BatchReceive
import ArbitroKit.CapacityQueries
import ArbitroKit.ShardScan
import ArbitroKit.WaitPredicate
import ArbitroKit.MpscIsClosed
import ArbitroKit.MpscPoolExhausted
import ArbitroKit.MpscPoolBind
import ArbitroKit.SignalDrain
import ArbitroKit.MpscAsyncCancel
import ArbitroKit.SignalSetGates
import ArbitroKit.ParkDeadline
import ArbitroKit.MpmcUnwind
import ArbitroKit.BulkSend
import ArbitroKit.MpscWakeups
import ArbitroKit.MpmcWakeups
import ArbitroKit.OneShotWakeups
import ArbitroKit.RingAsyncRefines
import ArbitroKit.RingAsyncWakeups
import ArbitroKit.AsyncWatch
import ArbitroKit.MpmcAsync
import ArbitroKit.MpmcAsyncLinks
import ArbitroKit.MpmcAsyncOk
import ArbitroKit.MpmcAsyncSender
import ArbitroKit.MpmcAsyncReceiver
import ArbitroKit.MpmcAsyncRuns
import ArbitroKit.MpmcAsyncDelivery
import ArbitroKit.MpmcAsyncSteps
import ArbitroKit.MpmcAsyncWakeups
import ArbitroKit.MpmcAsyncFates

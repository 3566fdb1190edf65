import LibTasks.Foundation.Transition
import LibTasks.Foundation.Mailbox
import LibTasks.Foundation.Progress
import LibTasks.Foundation.Balance
import LibTasks.Foundation.Accounts
import LibTasks.Foundation.Bytes
import LibTasks.Foundation.CString
import LibTasks.Foundation.LineScan
import LibTasks.Foundation.LineMessages
import LibTasks.Foundation.LinkedList
import LibTasks.Foundation.Lock
import LibTasks.Tools.Buffer
import LibTasks.Tools.BufferStream
import LibTasks.Tools.Queue
import LibTasks.Tools.QueueFifo
import LibTasks.Dispatcher.Model
import LibTasks.Dispatcher.LeaderFollowers
import LibTasks.Dispatcher.FunctorQueue
import LibTasks.Dispatcher.TaskExclusivity
import LibTasks.Dispatcher.EventHandling
import LibTasks.Dispatcher.Progress
import LibTasks.Dispatcher.AsyncCallback
import LibTasks.Dispatcher.Shutdown
import LibTasks.Dispatcher.Rearming
import LibTasks.Exec.Model
import LibTasks.Exec.Assignment
import LibTasks.Exec.LostTasks
import LibTasks.Net.Socket
import LibTasks.Net.HttpBase
import LibTasks.Net.Sending
import LibTasks.Net.UwsgiRequest
import LibTasks.Net.UwsgiReader
import LibTasks.Net.UwsgiPacket
import LibTasks.Net.UwsgiDelivery
import LibTasks.Net.UwsgiEncoder
import LibTasks.Net.UwsgiRoundTrip
import LibTasks.Net.UwsgiReuse
import LibTasks.Net.HttpRequest
import LibTasks.Net.HttpResponse
import LibTasks.Net.ResumableWriting
import LibTasks.Net.HttpParsing
import LibTasks.Net.HttpReader
import LibTasks.Net.ResponseUses
import LibTasks.Net.HttpFraming
import LibTasks.Net.HttpSafety
import LibTasks.Net.HttpIncremental
import LibTasks.Net.HttpDelivery
import LibTasks.Net.HttpTrailing
import LibTasks.Net.ResponseReuse
import LibTasks.Net.HttpRoundTrip
import LibTasks.Net.RequestStream
import LibTasks.Net.ContentLength
import LibTasks.Net.HttpSender
import LibTasks.Net.SenderConnect
import LibTasks.Net.SenderWatcher
import LibTasks.Dispatcher.ShutdownOrder
import LibTasks.Net.ThriftProcessor
import LibTasks.Net.ThriftHandlers
import LibTasks.Net.ThriftDisposal
import LibTasks.Net.ThriftOutcomes
import LibTasks.Net.ThriftRequestData
import LibTasks.Net.UwsgiVars
import LibTasks.Net.UwsgiSizes
import LibTasks.Net.UwsgiRuns
import LibTasks.Net.UwsgiAccessors
import LibTasks.Net.UwsgiTask
import LibTasks.Net.InFlight
import LibTasks.Net.Exchange
import LibTasks.Net.ExchangeResponse
import LibTasks.Tools.Bitset
import LibTasks.Dispatcher.RoundRobin
import LibTasks.Lifecycle.Model
import LibTasks.Lifecycle.Conservation
import LibTasks.Lifecycle.Places
import LibTasks.Lifecycle.Disposal
import LibTasks.Lifecycle.Confinement
import LibTasks.Lifecycle.Safety

import XcWindows.Lib.Machine
import XcWindows.Lib.Word
import XcWindows.Lib.Circ
import XcWindows.Lib.Keyed
import XcWindows.Lib.Num
import XcWindows.Lib.Links
import XcWindows.Lib.SharedRing
import XcWindows.Lib.Prog
import XcWindows.Lib.Rotate
import XcWindows.Lib.Blocks
import XcWindows.Lib.ExchangeSort
import XcWindows.Lib.Base64
import XcWindows.Lib.Footprint
import XcWindows.Inc.Xsapi
import XcWindows.Xenbus.Transmit
import XcWindows.Xenbus.Transaction
import XcWindows.Xenbus.TransactionEnd
import XcWindows.Xenbus.Integers
import XcWindows.Xenbus.Strtoll
import XcWindows.Xenbus.Directory
import XcWindows.Xenbus.Reset
import XcWindows.Xenbus.Watch
import XcWindows.Xenbus.WatchRefs
import XcWindows.Xenbus.WatchRun
import XcWindows.Xenbus.SelfUnregister
import XcWindows.Xenbus.Receive
import XcWindows.Xenbus.ReceiveProgress
import XcWindows.Xenbus.ReplyBuffers
import XcWindows.Xenbus.Messages
import XcWindows.Gnttab.Table
import XcWindows.Gnttab.Lists
import XcWindows.Gnttab.Run
import XcWindows.Gnttab.Revoke
import XcWindows.Gnttab.Guarantee
import XcWindows.Gnttab.LockDiscipline
import XcWindows.Gnttab.Exhaustion
import XcWindows.Gnttab.AllocCache
import XcWindows.Gnttab.Gntmap
import XcWindows.Gnttab.Resume
import XcWindows.Balloon.Sort
import XcWindows.Balloon.SortWords
import XcWindows.Balloon.RangeSet
import XcWindows.Balloon.WholeRanges
import XcWindows.Balloon.AlignedBlock
import XcWindows.Balloon.Worker
import XcWindows.Balloon.PutBack
import XcWindows.Balloon.Run
import XcWindows.Balloon.TargetRace
import XcWindows.Suspend.Tokens
import XcWindows.Evtchn.DpcPort
import XcWindows.Evtchn.Interrupt
import XcWindows.Evtchn.Ports
import XcWindows.Suspend.Quiesce
import XcWindows.Suspend.Handlers
import XcWindows.Suspend.MrswLock
import XcWindows.V4v.Ring
import XcWindows.V4v.CopyOut
import XcWindows.V4v.RoundTrip
import XcWindows.V4v.Listener
import XcWindows.V4v.Bind
import XcWindows.V4v.Authentic
import XcWindows.V4v.Delivery
import XcWindows.V4v.Accepter
import XcWindows.V4v.Backlog
import XcWindows.V4v.Drain
import XcWindows.V4v.Connector
import XcWindows.V4v.ConnectTimer
import XcWindows.V4v.Writes
import XcWindows.V4v.Stopped
import XcWindows.V4v.Csq
import XcWindows.V4v.CancelAll
import XcWindows.V4v.DestReads
import XcWindows.V4v.OneWay
import XcWindows.V4v.Contexts
import XcWindows.V4v.References
import XcWindows.V2v.Ring
import XcWindows.V2v.Fifo
import XcWindows.V2v.Space
import XcWindows.V2v.Receive
import XcWindows.V2v.Connect
import XcWindows.V2v.Handshake
import XcWindows.V2v.Wakeup
import XcWindows.V2v.Stream
import XcWindows.V2v.StreamFifo
import XcWindows.Scsifilt.Datapath
import XcWindows.Scsifilt.Conservation
import XcWindows.Scsifilt.Progress
import XcWindows.Scsifilt.GrantCache
import XcWindows.Xenvbd.Srbs
import XcWindows.Xenvbd.SrbConservation
import XcWindows.Xenvbd.Targets
import XcWindows.Xenvbd.Lifecycle
import XcWindows.Xenvbd.TargetReferences
import XcWindows.Xenvbd.Requests
import XcWindows.Xenvbd.RequestLoops
import XcWindows.Xenvbd.SegmentSteps
import XcWindows.Xenvbd.Splitting
import XcWindows.Xenvbd.Rollback
import XcWindows.Xenvbd.Abort
import XcWindows.Xenvbd.BouncePool
import XcWindows.Xenvbd.PnpLookup
import XcWindows.Xenvbd.ClaimFrontend
import XcWindows.Xenvbd.DeviceSort
import XcWindows.Xenvbd.Base64Decode
import XcWindows.Xenvbd.Arguments
import XcWindows.Xenvbd.VpdPages
import XcWindows.Xenvbd.ScsiEmulation
import XcWindows.Xenvbd.Redirected
import XcWindows.Scsifilt.Requests
import XcWindows.Scsifilt.RequestSplit
import XcWindows.Scsifilt.ProcessIrp
import XcWindows.Scsifilt.CompleteIrp
import XcWindows.Scsifilt.Elevator
import XcWindows.Scsifilt.WakeupIoctl
import XcWindows.Xennet6.Transmitter
import XcWindows.Xennet6.Shadows
import XcWindows.Xennet6.ShadowConservation
import XcWindows.Xennet6.Receiver
import XcWindows.Xennet6.RfdConservation
import XcWindows.Xennet6.Fragmentation
import XcWindows.Xennet6.RxChecksum
import XcWindows.Xennet6.TagTreatment
import XcWindows.Xennet6.ReceiveFailure
import XcWindows.Xennet6.GsoPrefix
import XcWindows.Sockpipe.Circle
import XcWindows.Xenutil.LogRing
import XcWindows.Xenutil.IoHole
import XcWindows.Xengfx.Gart
import XcWindows.Xengfx.Blt

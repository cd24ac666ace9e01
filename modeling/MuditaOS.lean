import MuditaOS.Lib.Run
import MuditaOS.Cellular.MuxFrame
import MuditaOS.Proofs.MuxWire
import MuditaOS.Cellular.Mux
import MuditaOS.Proofs.MuxFraming
import MuditaOS.Proofs.MuxRoundTrip
import MuditaOS.Proofs.MuxDeclared
import MuditaOS.Cellular.UrcStream
import MuditaOS.Lib.Cut
import MuditaOS.Proofs.UrcScan
import MuditaOS.Proofs.UrcChunks
import MuditaOS.Cellular.AtStream
import MuditaOS.Proofs.AtLines
import MuditaOS.Proofs.AtChunks
import MuditaOS.Unicode.Utf8Char
import MuditaOS.Proofs.Utf8Char
import MuditaOS.Unicode.Utf8String
import MuditaOS.Proofs.Utf8Ops
import MuditaOS.Proofs.Utf8Runs
import MuditaOS.Unicode.Ucs2
import MuditaOS.Proofs.Ucs2Hex
import MuditaOS.Proofs.Ucs2RoundTrip
import MuditaOS.Audio.Stream
import MuditaOS.Proofs.StreamRing
import MuditaOS.Audio.ZeroCopy
import MuditaOS.Proofs.ZeroCopyFifo
import MuditaOS.Desktop.ParserFsm
import MuditaOS.Proofs.ParserText
import MuditaOS.Proofs.ParserRuns
import MuditaOS.Lib.Earliest
import MuditaOS.Proofs.AlarmCache
import MuditaOS.Lib.Coalesce
import MuditaOS.Memory.UserMem
import MuditaOS.Proofs.FreeList
import MuditaOS.Lib.Arena
import MuditaOS.Proofs.UserMemInvariant
import MuditaOS.Proofs.UserMemRuns
import MuditaOS.Proofs.UserMemSizes
import MuditaOS.Cellular.CallMachine
import MuditaOS.Cellular.CallSession
import MuditaOS.Proofs.CallEnds
import MuditaOS.Proofs.CallLedger
import MuditaOS.Cellular.SmsSendHandler
import MuditaOS.Cellular.SmsService
import MuditaOS.Proofs.SmsOnce
import MuditaOS.Proofs.SmsQueue
import MuditaOS.Cellular.SmsPartsHandler
import MuditaOS.Lib.Packing
import MuditaOS.Proofs.SmsParts
import MuditaOS.Cellular.SmsParser
import MuditaOS.Proofs.SmsAnswer
import MuditaOS.Proofs.SmsReassembly
import MuditaOS.Proofs.MuxSplit
import MuditaOS.Locks.PhoneLockHandler
import MuditaOS.Proofs.PhoneLockout
import MuditaOS.Proofs.HandleTable
import MuditaOS.Vfs.Descriptors
import MuditaOS.Proofs.Descriptors
import MuditaOS.Blkdev.DiskManager
import MuditaOS.Proofs.PartitionBounds
import MuditaOS.Vfs.Filesystem
import MuditaOS.Proofs.MountTable
import MuditaOS.Proofs.Umount
import MuditaOS.Proofs.PartitionNames
import MuditaOS.Proofs.TwoPaths
import MuditaOS.Blkdev.PartitionParser
import MuditaOS.Lib.Patience
import MuditaOS.Proofs.ExtendedChain
import MuditaOS.Proofs.ExtendedEnds
import MuditaOS.Proofs.PartitionScan
import MuditaOS.Proofs.ScanSound
import MuditaOS.Proofs.ScanComplete
import MuditaOS.Lib.InOrder
import MuditaOS.Proofs.SyncSend
import MuditaOS.Proofs.SyncTimeout
import MuditaOS.Proofs.TimerTicks
import MuditaOS.Proofs.SystemClose
import MuditaOS.Lib.PostOrder
import MuditaOS.Proofs.StartOrder
import MuditaOS.Sys.CpuGovernor
import MuditaOS.Proofs.LiveSentinels
import MuditaOS.Proofs.MinimumFrequency
import MuditaOS.Cellular.CallExceptions
import MuditaOS.Proofs.FailedAnswer
import MuditaOS.Appmgr.ActionsRegistry
import MuditaOS.Proofs.ActionQueue
import MuditaOS.Proofs.AlarmEntries
import MuditaOS.Proofs.SnoozedCount
import MuditaOS.Proofs.CsqModes
import MuditaOS.Lib.Ring
import MuditaOS.Log.Logger
import MuditaOS.Proofs.LogBuffer
import MuditaOS.Proofs.LogOrder
import MuditaOS.Proofs.CopyFifo
import MuditaOS.Vfs.Notifier
import MuditaOS.Proofs.NotifierPaths
import MuditaOS.Proofs.CloseNotices
import MuditaOS.Evtmgr.KeySequences
import MuditaOS.Proofs.KeyHolds
import MuditaOS.Desktop.FileOperations
import MuditaOS.Proofs.FileTransfers
import MuditaOS.Lib.Traced
import MuditaOS.Cellular.Pdu
import MuditaOS.Cellular.PduGrammar
import MuditaOS.Proofs.PduScan
import MuditaOS.Proofs.PduBlocks
import MuditaOS.Proofs.PduNotification
import MuditaOS.Gui.TextDocument
import MuditaOS.Gui.TextCursor
import MuditaOS.Gui.TextEditor
import MuditaOS.Proofs.TextMoves
import MuditaOS.Proofs.TextBlocks
import MuditaOS.Proofs.TextEdits
import MuditaOS.Proofs.TextTyping
import MuditaOS.Vfs.Path
import MuditaOS.Proofs.NormalPaths
import MuditaOS.Proofs.InnermostMount
import MuditaOS.Proofs.FailedRegistration
import MuditaOS.Lib.BoundedQueue
import MuditaOS.Proofs.LogQueue
import MuditaOS.Log.LineBuffer
import MuditaOS.Proofs.LineKept
import MuditaOS.Utils.Rotator
import MuditaOS.Lib.Row
import MuditaOS.Proofs.RotatedNames
import MuditaOS.Proofs.RotatedLogs
import MuditaOS.Lib.Moves
import MuditaOS.Lib.Numeral
import MuditaOS.Proofs.ShiftedDumps
import MuditaOS.Cellular.AtLists
import MuditaOS.Proofs.ListAnswers
import MuditaOS.Proofs.AllOrNothing
import MuditaOS.Cellular.UssdHandler
import MuditaOS.Proofs.UssdAborts
import MuditaOS.Proofs.PhoneMatch
import MuditaOS.Lib.Paging
import MuditaOS.Utils.PhoneNumber
import MuditaOS.Proofs.BestMatch
import MuditaOS.Proofs.RecurrenceArrays
import MuditaOS.Lib.Gregorian
import MuditaOS.Proofs.FollowingDay
import MuditaOS.Proofs.FirstWeekDay
import MuditaOS.Proofs.Utf8Canonical
import MuditaOS.Proofs.Utf8Search
import MuditaOS.Lib.Replace
import MuditaOS.Proofs.FindAndReplace
import MuditaOS.Proofs.TimedHold
import MuditaOS.Calculator.InputProcessorText
import MuditaOS.Proofs.HiddenOperand
import MuditaOS.Proofs.Uintvar
import MuditaOS.Proofs.Downloads
import MuditaOS.Proofs.UploadBytes
import MuditaOS.Audio.AudioMux
import MuditaOS.Proofs.InputChoice
import MuditaOS.Audio.ServiceAudio
import MuditaOS.Proofs.Vibration
import MuditaOS.Evtmgr.BrownoutDetector
import MuditaOS.Proofs.Brownout
import MuditaOS.Gui.ListViewEngine
import MuditaOS.Proofs.ListPaging
import MuditaOS.Audio.Transcode
import MuditaOS.Lib.Spread
import MuditaOS.Proofs.Transcoding
import MuditaOS.Gui.Context
import MuditaOS.Lib.Bands
import MuditaOS.Proofs.DrawingContext
import MuditaOS.Proofs.GuiSettles
import MuditaOS.Proofs.PopupOrder

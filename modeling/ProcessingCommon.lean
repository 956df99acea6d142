import ProcessingCommon.FileExecuting.Descriptors
import ProcessingCommon.LibFilesys.LockDir
import ProcessingCommon.LibFilesys.SysFlags
import ProcessingCommon.LibFilesys.FlagCalls
import ProcessingCommon.TextBox.ViewIndependence
import ProcessingCommon.FileExecuting.Sinks
import ProcessingCommon.FileExecuting.Ending
import ProcessingCommon.FileExecuting.Launch
import ProcessingCommon.FileExecuting.Container
import ProcessingCommon.FileExecuting.Chain
import ProcessingCommon.FileExecuting.ChainInvariant
import ProcessingCommon.FileExecuting.Lossless
import ProcessingCommon.HttpRequesting.Model
import ProcessingCommon.HttpRequesting.System
import ProcessingCommon.HttpRequesting.Invariant
import ProcessingCommon.HttpRequesting.Runs
import ProcessingCommon.HttpRequesting.Handles
import ProcessingCommon.HttpRequesting.Attribution
import ProcessingCommon.TextBox.Session
import ProcessingCommon.TextBox.Committed
import ProcessingCommon.TextBox.Numeric
import ProcessingCommon.TextBox.Password
import ProcessingCommon.TextBox.Dirty
import ProcessingCommon.ListIdxScroll
import ProcessingCommon.ListIdxResize
import ProcessingCommon.TextBox.Replace
import ProcessingCommon.TextBox.CursorCell
import ProcessingCommon.TextBox.Line
import ProcessingCommon.ThreadPooling.Model
import ProcessingCommon.ThreadPooling.Table
import ProcessingCommon.Lib.Share
import ProcessingCommon.ThreadPooling.Conservation
import ProcessingCommon.ThreadPooling.Ticks
import ProcessingCommon.EventListening.Model
import ProcessingCommon.Lib.Custody
import ProcessingCommon.EventListening.Store
import ProcessingCommon.EventListening.Reception
import ProcessingCommon.EventListening.Connections
import ProcessingCommon.EspLedPulsing
import ProcessingCommon.DnsResolving
import ProcessingCommon.DnsResolving.Channel
import ProcessingCommon.MailSending.Upload
import ProcessingCommon.MailSending.Invariant
import ProcessingCommon.MailSending.Runs
import ProcessingCommon.MailSending.Handles
import ProcessingCommon.MailSending.Results
import ProcessingCommon.MailSending.Runs
import ProcessingCommon.FileExecuting.FanOut
import ProcessingCommon.FileExecuting.FanOutStreams
import ProcessingCommon.Lib.BasicString
import ProcessingCommon.LibDspc.Url
import ProcessingCommon.LibDspc.UrlRoundTrip
import ProcessingCommon.Lib.Lines
import ProcessingCommon.LibDspc.Resources
import ProcessingCommon.LibDspc.TypeIp
import ProcessingCommon.TextBox.Tokens
import ProcessingCommon.TextBox.Highlight
import ProcessingCommon.TextBox.Indexes
import ProcessingCommon.TextBox.RenderedWidth
import ProcessingCommon.Lib.PlainEditor
import ProcessingCommon.TextBox.Editing
import ProcessingCommon.Lib.Nearest
import ProcessingCommon.TextBox.WordJump
import ProcessingCommon.TextBox.IgnoredKeys
import ProcessingCommon.TextBox.SelectionSet
import ProcessingCommon.Lib.Balance
import ProcessingCommon.TextBox.RejectedInput
import ProcessingCommon.ThreadPooling.Balance
import ProcessingCommon.LibDspc.HexCodec
import ProcessingCommon.LibDspc.Digest
import ProcessingCommon.LibDspc.Advance
import ProcessingCommon.LibFilesys.DirCreate
import ProcessingCommon.LibDspc.HexDump
import ProcessingCommon.MailSending.Headers
import ProcessingCommon.MailSending.Timeout
import ProcessingCommon.FileExecuting.ChildRecord
import ProcessingCommon.FileExecuting.ChildFrame
import ProcessingCommon.FileExecuting.Signals
import ProcessingCommon.FileExecuting.FdSource
import ProcessingCommon.ListIdxNavigation
import ProcessingCommon.Lib.PaddedDecimal
import ProcessingCommon.Lib.CivilCalendar
import ProcessingCommon.LibTime.Model
import ProcessingCommon.LibTime.LocalTime
import ProcessingCommon.LibTime.Stamps
import ProcessingCommon.LibTime.RoundTrip
import ProcessingCommon.TextBox.SelectionEditing
import ProcessingCommon.ThreadPooling.ShutdownSteps
import ProcessingCommon.ThreadPooling.Rounds
import ProcessingCommon.LibFilesys.FlagFiles
import ProcessingCommon.LibFilesys.FlagMutex
import ProcessingCommon.HttpRequesting.Transfers
import ProcessingCommon.EspLedPulsing.Punctual

import Tracepoints.Lib.ByteOrder
import Tracepoints.Lib.Exec
import Tracepoints.Enumerator.Types
import Tracepoints.Enumerator.Context
import Tracepoints.Enumerator.Moves
import Tracepoints.Enumerator.Event
import Tracepoints.Enumerator.FieldDef
import Tracepoints.Enumerator.Items
import Tracepoints.Enumerator.Steps
import Tracepoints.Enumerator.Grammar
import Tracepoints.Enumerator.Bounds
import Tracepoints.Enumerator.StructArray
import Tracepoints.Enumerator.Stale
import Tracepoints.Enumerator.Sibling
import Tracepoints.Lib.Record
import Tracepoints.Lib.Act
import Tracepoints.Perf.Text
import Tracepoints.Perf.FieldFormat
import Tracepoints.Perf.EventFormat
import Tracepoints.Perf.FormatRoundTrip
import Tracepoints.Perf.Abi
import Tracepoints.Perf.Session
import Tracepoints.Perf.ReaderState
import Tracepoints.Perf.Reader
import Tracepoints.Lib.Rounds
import Tracepoints.Perf.EventStream
import Tracepoints.Perf.TimeOrder
import Tracepoints.Enumerator.Fresh
import Tracepoints.Enumerator.JsonBulk
import Tracepoints.Enumerator.JsonTree
import Tracepoints.Native.Registration
import Tracepoints.Provider.CommandString
import Tracepoints.Builder.Bookmarks
import Tracepoints.Enumerator.FieldChecks
import Tracepoints.Enumerator.Reuse
import Tracepoints.Enumerator.SkipLanding
import Tracepoints.Lib.Checked
import Tracepoints.Lib.JsonScalar
import Tracepoints.Lib.Sha1
import Tracepoints.Lib.Utf16
import Tracepoints.Macros.Unescape
import Tracepoints.Native.DataFile
import Tracepoints.Perf.ArrivalOrder
import Tracepoints.Perf.AttrOffsets
import Tracepoints.Perf.AttrSwap
import Tracepoints.Perf.BufferRoom
import Tracepoints.Perf.Clock
import Tracepoints.Perf.Declarations
import Tracepoints.Perf.EventDescRoundTrip
import Tracepoints.Perf.EventInfo
import Tracepoints.Perf.FieldAgreement
import Tracepoints.Perf.FormatText
import Tracepoints.Perf.FormatTotal
import Tracepoints.Perf.NonSampleInfo
import Tracepoints.Perf.TimeKeys
import Tracepoints.Perf.RoundTimes
import Tracepoints.Provider.TracepointList
import Tracepoints.Text.Charconv
import Tracepoints.Text.FixedJson
import Tracepoints.Text.MetaDisplay
import Tracepoints.Types.Guid
import Tracepoints.Types.Sha1
import Tracepoints.Builder.RoundTrip
import Tracepoints.Macros.Accepted
import Tracepoints.Macros.MetadataSize
import Tracepoints.Perf.ContentRoundTrip
import Tracepoints.Perf.WrittenFileOpens
import Tracepoints.Perf.TracingRoundTrip

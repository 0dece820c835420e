import Cinst.Addr.FastPath
import Cinst.Addr.GcOrder
import Cinst.Addr.Identity
import Cinst.Addr.Ids
import Cinst.Agent.Exchange
import Cinst.Native.Lifetimes
import Cinst.Native.RawMode
import Cinst.Native.References
import Cinst.Native.Strings
import Cinst.Native.TagCaches
import Cinst.Record.Buffer
import Cinst.Script.Allocations
import Cinst.Script.Database
import Cinst.Script.Loops
import Cinst.Script.Misuse
import Cinst.Script.Ngc
import Cinst.Script.PreWaste
import Cinst.Script.Selector
import Cinst.Trace.OneIdSpace
import Cinst.Trace.RecordReader
import Cinst.Trace.NewIds
import Cinst.Trace.Rerun
import Cinst.Trace.TagMode
import Cinst.Trace.Timeline

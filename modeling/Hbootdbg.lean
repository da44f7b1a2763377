import Hbootdbg.Device.Base64
import Hbootdbg.Device.Handler
import Hbootdbg.Wire.Bounds
import Hbootdbg.Wire.Leftover
import Hbootdbg.Lib.Run
import Hbootdbg.Lib.SwapList
import Hbootdbg.Session.Orphans
import Hbootdbg.Session.Transparency
import Hbootdbg.Stop.Nested
import Hbootdbg.Stop.Stepping
import Hbootdbg.Table.Spec
import Hbootdbg.Table.Trampoline
import Hbootdbg.Table.Overlap
import Hbootdbg.Wire.RoundTrip
import Hbootdbg.Wire.Stop
import Hbootdbg.Wire.Fields
import Hbootdbg.Session.Replies
import Hbootdbg.Gdb.Write
import Hbootdbg.Gdb.Status
import Hbootdbg.Gdb.Step
import Hbootdbg.Gdb.Encodings
import Hbootdbg.Gdb.Stale
import Hbootdbg.Gdb.Transport
import Hbootdbg.Probe.Guards
import Hbootdbg.Table.Acceptance
import Hbootdbg.Stop.Detach
import Hbootdbg.Gdb.Validation
import Hbootdbg.Gdb.EndOfStream
import Hbootdbg.Gdb.Server
import Hbootdbg.Gdb.Agreement
import Hbootdbg.Gdb.Dispatch
import Hbootdbg.Gdb.Answers
import Hbootdbg.Device.Caches
import Hbootdbg.Table.Fetched
import Hbootdbg.Probe.CacheRange
import Hbootdbg.Session.Dump
import Hbootdbg.Host.Decoration
import Hbootdbg.Reloc.Relocate
import Hbootdbg.Stop.SavedContext
import Hbootdbg.Stop.Debugged
import Hbootdbg.Stop.Ideal
import Hbootdbg.Gdb.Outcome
import Hbootdbg.Gdb.Debuggee
import Hbootdbg.Upload.Install
import Hbootdbg.Stop.Attached

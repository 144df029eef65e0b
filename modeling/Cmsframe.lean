import Cmsframe.Library.Program
import Cmsframe.Library.Unicode
import Cmsframe.Library.Decimal
import Cmsframe.Engine.Value
import Cmsframe.Engine.Context
import Cmsframe.Engine.Lit
import Cmsframe.Engine.Realm
import Cmsframe.Json.Quote
import Cmsframe.Json.Serialize
import Cmsframe.Engine.Conventions
import Cmsframe.Json.Contract
import Cmsframe.Pp.Routines
import Cmsframe.Engine.Environment
import Cmsframe.Print.Text
import Cmsframe.Pp.Conversion
import Cmsframe.Pp.Output
import Cmsframe.Pp.Failure
import Cmsframe.Pp.Handler
import Cmsframe.Library.Simulation
import Cmsframe.Pp.Nesting
import Cmsframe.Json.Text
import Cmsframe.Library.Traversal
import Cmsframe.Plain.Heap
import Cmsframe.Plain.Reads
import Cmsframe.Plain.Serialize
import Cmsframe.Plain.Trees
import Cmsframe.Plain.Cycles
import Cmsframe.Json.Stringify
import Cmsframe.Pp.Agreement
import Cmsframe.Library.Trace
import Cmsframe.Main.Calls
import Cmsframe.Main.Driver
import Cmsframe.Main.Trace
import Cmsframe.Main.Phases
import Cmsframe.Main.RunPhase
import Cmsframe.Main.Reports
import Cmsframe.Json.Token
import Cmsframe.Json.Numeral
import Cmsframe.Json.Parse
import Cmsframe.Engine.Copy
import Cmsframe.Library.CString
import Cmsframe.Main.CommandLine
import Cmsframe.Main.Registration
import Cmsframe.Print.Buffer
import Cmsframe.Report.Scanner
import Cmsframe.Report.Reporter
import Cmsframe.Report.Location
import Cmsframe.Library.Lines
import Cmsframe.Report.Lexer
import Cmsframe.Report.Lines
import Cmsframe.Json.RoundTrip
import Cmsframe.Json.Printable
import Cmsframe.Plain.Data
import Cmsframe.Pp.ReadsBack
import Cmsframe.Library.ByteMemory
import Cmsframe.Library.Marking
import Cmsframe.Library.Tiling
import Cmsframe.Memory.Allocation
import Cmsframe.Memory.Collected
import Cmsframe.Memory.HeapRuns
import Cmsframe.Memory.Mutator
import Cmsframe.Promise.Machine
import Cmsframe.Promise.Runs
import Cmsframe.Json.Complete
import Cmsframe.Library.Radix
import Cmsframe.Log.Bounds
import Cmsframe.Report.Logging
import Cmsframe.Report.Rejection
import Cmsframe.Library.Quantity
import Cmsframe.LineInfo.Encoding
import Cmsframe.LineInfo.Emission
import Cmsframe.LineInfo.Positions

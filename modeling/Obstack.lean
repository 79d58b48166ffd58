import Obstack.Image
import Obstack.Modes
import Obstack.Aggregate
import Obstack.Signals
import Obstack.SymbolSearch
import Obstack.Groups
import Obstack.Transparency
import Obstack.Overrun
import Obstack.Store
import Obstack.Overrides
import Obstack.Paths
import Obstack.Sampling
import Obstack.Threads
import Obstack.Clock
import Obstack.Defer
import Obstack.Strings
import Obstack.Log
import Obstack.Options
import Obstack.Process
import Obstack.Dwarf
import Obstack.Report
import Obstack.Resolve
import Obstack.Handles
import Obstack.Independence
import Obstack.Main
import Obstack.Shadow
import Obstack.Status

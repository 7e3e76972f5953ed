import SysHelo.Lib.Loop
import SysHelo.Lib.Lines
import SysHelo.Lib.CString
import SysHelo.Lib.Stdio
import SysHelo.Lib.Numeral
import SysHelo.Lib.System
import SysHelo.Lib.Handles
import SysHelo.Lib.Bytes
import SysHelo.Lib.Sections
import SysHelo.MinIni.Strings
import SysHelo.MinIni.Format
import SysHelo.MinIni.Browse
import SysHelo.MinIni.Replace
import SysHelo.MinIni.Putsection
import SysHelo.MinIni.WriterProofs
import SysHelo.MinIni.CacheProofs
import SysHelo.MinIni.RewriteProofs
import SysHelo.MinIni.PutsectionProofs
import SysHelo.MinIni.Reread
import SysHelo.MinIni.Resave
import SysHelo.MinIni.Lookup
import SysHelo.MinIni.Document
import SysHelo.MinIni.LookupProofs
import SysHelo.MinIni.Getters
import SysHelo.MinIni.Quoting
import SysHelo.MinIni.Puts
import SysHelo.MinIni.PutsProofs
import SysHelo.MinIni.PutsFile
import SysHelo.MinIni.PutsDocument
import SysHelo.MinIni.Requests
import SysHelo.MinIni.PutsectionDocument
import SysHelo.MinIni.Numbers
import SysHelo.Config
import SysHelo.ConfigLoad
import SysHelo.ConfigSave
import SysHelo.ConfigSaveFailure
import SysHelo.ConfigReread
import SysHelo.SavedTwice
import SysHelo.HeloManager
import SysHelo.IpcServer
import SysHelo.IpcServerProofs
import SysHelo.SessionTable
import SysHelo.IpcService
import SysHelo.IpcMessage
import SysHelo.IpcStubs
import SysHelo.Isolation
import SysHelo.SharedBuffer
import SysHelo.IsolatedRuns
import SysHelo.Card
import SysHelo.Acknowledged
import SysHelo.Coherence
import SysHelo.TickInterval
import SysHelo.FailedLoad
import SysHelo.LifecycleProofs
import SysHelo.LifecycleRuns
import SysHelo.Registration
import SysHelo.RegistrationProofs
import SysHelo.IpcClient
import SysHelo.Threads
import SysHelo.Snapshots
import SysHelo.Uninterrupted
import SysHelo.NetworkProofs
import SysHelo.FileUtils

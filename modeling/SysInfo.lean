import SysInfo.Sockets
import SysInfo.TcpAddress
import SysInfo.Declaration
import SysInfo.VmFlags
import SysInfo.Smaps
import SysInfo.Refresh
import SysInfo.EnvironFile
import SysInfo.CgroupFile
import SysInfo.StatusFile
import SysInfo.FailedCall
import SysInfo.CpuBlocks
import SysInfo.Topology
import SysInfo.IoRates
import SysInfo.CpuScale
import SysInfo.Reuse
import SysInfo.Snapshot
import SysInfo.Isolation
import SysInfo.CpuRecords
import SysInfo.UnixNumbers
import SysInfo.IoClock
import SysInfo.UserName
import SysInfo.StatAtomic
import SysInfo.CpuTicks
import SysInfo.ProcEvents
import SysInfo.LimitsFile
import SysInfo.StackFile
import SysInfo.MapRows
import SysInfo.CpuTexts
import SysInfo.Processes
import SysInfo.Listeners
import SysInfo.Rounds
import SysInfo.Sources
import SysInfo.StatusRows
import SysInfo.IoLoop
import SysInfo.History
import SysInfo.Report
import SysInfo.LimitsRows

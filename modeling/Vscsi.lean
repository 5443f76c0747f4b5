import Vscsi.Kernel.Ledger
import Vscsi.Kernel.Numbers
import Vscsi.Kernel.Evolve
import Vscsi.Lib.File
import Vscsi.Kernel.ScatterGather
import Vscsi.Target.Sharing
import Vscsi.Target.MainLoop
import Vscsi.Target.Transparency
import Vscsi.Scsi.Attach
import Vscsi.Scsi.Disk
import Vscsi.Target.Configure
import Vscsi.Kernel.Driver
import Vscsi.Kernel.Freed
import Vscsi.Kernel.Lifecycle
import Vscsi.Kernel.Orphans
import Vscsi.Kernel.Protection
import Vscsi.Kernel.Readiness
import Vscsi.Kernel.Reuse
import Vscsi.Kernel.Scan
import Vscsi.Kernel.Unload
import Vscsi.Scsi.Answers
import Vscsi.Scsi.Confined
import Vscsi.Scsi.NewImage
import Vscsi.Target.Client
import Vscsi.Target.Independence
import Vscsi.Target.Order
import Vscsi.Target.Provenance
import Vscsi.Kernel.Faults
import Vscsi.Kernel.Locks
import Vscsi.Kernel.UserAccess
import Vscsi.Lib.CString
import Vscsi.Lib.Faulty
import Vscsi.Scsi.Dispatch
import Vscsi.Scsi.ReportLuns
import Vscsi.Scsi.Termination
import Vscsi.Target.Images
import Vscsi.Target.Options
import Vscsi.Target.Sense
import Vscsi.Target.FileList
import Vscsi.Target.Listing
import Vscsi.Target.RomSizes
import Vscsi.Kernel.Segments
import Vscsi.Lib.Cursor
import Vscsi.Scsi.Configuration
import Vscsi.Target.Discs
import Vscsi.Lib.Passing
import Vscsi.Lib.Rely
import Vscsi.Scsi.Interleaved
import Vscsi.Target.Durability
import Vscsi.Kernel.Buffers
import Vscsi.Lib.Admitted
import Vscsi.Lib.Simulation
import Vscsi.Scsi.Contents
import Vscsi.Scsi.Origins
import Vscsi.Target.Backlog
import Vscsi.Target.Belonging
import Vscsi.Target.Origins
import Vscsi.Target.Standby
import Vscsi.Target.Startup
import Vscsi.Kernel.Deadlock
import Vscsi.Kernel.Wakeup
import Vscsi.Lib.Parts
import Vscsi.Target.Isolation
import Vscsi.Kernel.Registry
import Vscsi.Lib.Moments
import Vscsi.Lib.Once
import Vscsi.Lib.Register
import Vscsi.Scsi.Single
import Vscsi.Target.Registers

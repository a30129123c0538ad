import Riverix.Block.Partition
import Riverix.Drivers.Ahci
import Riverix.Drivers.Input
import Riverix.Drivers.Trace
import Riverix.Fs.Faults
import Riverix.Hyperv.Vmbus
import Riverix.Memory.Confinement
import Riverix.Memory.HeapSizes
import Riverix.Memory.Kstack
import Riverix.Memory.Mmio
import Riverix.Memory.Views
import Riverix.Net.Attempts
import Riverix.Net.Bounds
import Riverix.Net.Ping
import Riverix.Proc.Fairness
import Riverix.Proc.Waiting
import Riverix.Sys.CopyOut
import Riverix.Sys.Opening
import Riverix.Sys.RefCounts
import Riverix.User.Command
import Riverix.User.Ipv4
import Riverix.User.Pipeline

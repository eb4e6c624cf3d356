import OpenRFS.PackageService.FloorHistory
import OpenRFS.BootLedger.Receipts
import OpenRFS.Arp.Answers
import OpenRFS.Tcp.Accounting
import OpenRFS.Tcp.Terminal
import OpenRFS.PackageBuilder.Relations
import OpenRFS.Timer.Clock
import OpenRFS.NativeScheduler.Deadlines
import OpenRFS.PciResource.Overlap
import OpenRFS.PciResource.Transactions
import OpenRFS.DmaArena.Runs
import OpenRFS.Surfaces.Present
import OpenRFS.NativeProcess.Replace
import OpenRFS.PackageUpload.Lifetime
import OpenRFS.Threads.Runs
import OpenRFS.NativeProcess.Guards
import OpenRFS.NativeProcess.PageOwnership
import OpenRFS.NativeProcess.WindowCreate
import OpenRFS.Sdk.Exit
import OpenRFS.Account.Create
import OpenRFS.PackageTrust.Table
import OpenRFS.Heap.Refused
import OpenRFS.Frames.Search
import OpenRFS.Download.Finalize
import OpenRFS.NativeProcess.FileIo
import OpenRFS.Surfaces.Copy
import OpenRFS.NativeProcess.Events

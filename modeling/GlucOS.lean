import GlucOS.Gfs.BitmapLaws
import GlucOS.Gfs.CacheLaws
import GlucOS.Gfs.CountLaws
import GlucOS.Gfs.LruLaws
import GlucOS.Gfs.OpenLaws
import GlucOS.Gfs.ParentLaws
import GlucOS.Gfs.SqueezeLaws
import GlucOS.Gfs.TruthLaws
import GlucOS.Loader.KernelLaws
import GlucOS.Loader.TaskLaws
import GlucOS.Locking.BarrierLaws
import GlucOS.Locking.CoverLaws
import GlucOS.Locking.MboxWakeLaws
import GlucOS.Locking.MutexLaws
import GlucOS.Mm.IdentLaws
import GlucOS.Mm.MallocFit
import GlucOS.Mm.ReverseLaws
import GlucOS.Mm.SegmentLaws
import GlucOS.Mm.Teardown
import GlucOS.Mm.Translate
import GlucOS.Net.E1000Laws
import GlucOS.Net.RecvLaws
import GlucOS.Sched.PcbTableLaws
import GlucOS.Sched.SleepLaws
import GlucOS.Sched.WaitpidLaws
import GlucOS.Syscall.ArgsLaws
import GlucOS.Syscall.BirthLaws
import GlucOS.Syscall.CopyLaws
import GlucOS.Syscall.DispatchLaws
import GlucOS.Terminal.ScreenLaws
import GlucOS.TinyLibc.AtoiLaws
import GlucOS.TinyLibc.InverseLaws
import GlucOS.Volume.Init
import GlucOS.Volume.SharedLaws
import GlucOS.Volume.CostLaws
import GlucOS.Volume.DropLaws
import GlucOS.Volume.Init

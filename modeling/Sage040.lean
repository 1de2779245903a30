import Sage040.Fs.Journal.Crash
import Sage040.Kernel.Threads
import Sage040.Kernel.Ptrace
import Sage040.Kernel.Exec.Identity
import Sage040.Kernel.Signal.Handler
import Sage040.Kernel.Signal.Forged
import Sage040.Kernel.Vm.Rights
import Sage040.Vfs.Getdents
import Sage040.Kernel.Reclock.Deadlock
import Sage040.Kernel.Pipe.Counted
import Sage040.Vfs.Readonly
import Sage040.Vfs.Search
import Sage040.Fs.Ext2.Counts
import Sage040.Net.Tcp.Window
import Sage040.Net.Owned
import Sage040.Kernel.Epoll
import Sage040.Kernel.Inotify
import Sage040.Kernel.FileKey
import Sage040.Kernel.Pmm
import Sage040.Kernel.Pty
import Sage040.Kernel.PtyInput
import Sage040.Kernel.PtyPair
import Sage040.Kernel.Reclock.Flock
import Sage040.Kernel.Pipe.Recv
import Sage040.Fs.Ext2.Bitmap
import Sage040.Kernel.Sched
import Sage040.Kernel.Mqueue
import Sage040.Net.Tcp.Options

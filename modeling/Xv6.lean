import Xv6.Param
import Xv6.Framework.Reach
import Xv6.Framework.Paged
import Xv6.Framework.LittleEndian
import Xv6.Framework.Bits
import Xv6.Framework.Writes
import Xv6.Framework.Ring
import Xv6.Proc.Defs
import Xv6.Proc.Signal
import Xv6.Proc.SignalFrame
import Xv6.Proc.Table
import Xv6.Proc.SignalSafety
import Xv6.Proc.Syscall
import Xv6.Proc.SigretRoundTrip
import Xv6.Proc.IgnoredSignals
import Xv6.Fs.Log
import Xv6.Fs.LogCrash
import Xv6.Fs.LogTxn
import Xv6.Fs.Inode
import Xv6.Fs.InodeData
import Xv6.File.Pipe
import Xv6.File.FileWrite
import Xv6.Dev.Console
import Xv6.Dev.LineEditor
import Xv6.Dev.LineDiscipline
import Xv6.Framework.DList
import Xv6.Fs.Bio
import Xv6.User.Sh
import Xv6.User.ShRoundTrip
import Xv6.Framework.CopyStr
import Xv6.Proc.Delivery
import Xv6.Proc.Inherit
import Xv6.Proc.Kill
import Xv6.Vm.Copy
import Xv6.User.Umalloc
import Xv6.Vm.Grow
import Xv6.Vm.Exec
import Xv6.Lib.String
import Xv6.Fs.Dir
import Xv6.Fs.Itable
import Xv6.User.Grep
import Xv6.User.Printf
import Xv6.Fs.Path
import Xv6.Dev.Virtio
import Xv6.Fs.LogPin
import Xv6.Vm.Tables
import Xv6.Vm.Uvmcopy
import Xv6.Proc.Alloc
import Xv6.Proc.Fork
import Xv6.Proc.Spinlock
import Xv6.Framework.Owners
import Xv6.Proc.Exit
import Xv6.Vm.Resize
import Xv6.Proc.Sbrk
import Xv6.Proc.Exec
import Xv6.Proc.Life
import Xv6.Proc.Boot
import Xv6.Proc.Isolation

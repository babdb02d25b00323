import Frankenlibc.Lib.Run
import Frankenlibc.Lib.Simulation
import Frankenlibc.Lib.Seccomp
import Frankenlibc.Lib.Words
import Frankenlibc.Lib.Bytes
import Frankenlibc.Lib.Shelves
import Frankenlibc.Lib.Line
import Frankenlibc.Lib.Desk
import Frankenlibc.Lib.Holdings
import Frankenlibc.Lib.Arena
import Frankenlibc.Threads.State
import Frankenlibc.Threads.Sched
import Frankenlibc.Threads.Sync
import Frankenlibc.Threads.Machine
import Frankenlibc.Threads.Frame
import Frankenlibc.Threads.Lists
import Frankenlibc.Threads.WaitQueue
import Frankenlibc.Threads.Join
import Frankenlibc.Threads.Locks
import Frankenlibc.Threads.Mutex
import Frankenlibc.Threads.Rwlock
import Frankenlibc.Threads.Convert
import Frankenlibc.Threads.Cv
import Frankenlibc.Threads.RoundRobin
import Frankenlibc.Threads.RwRelay
import Frankenlibc.Threads.Nameless
import Frankenlibc.Threads.Poll
import Frankenlibc.Threads.Timeout
import Frankenlibc.Threads.Pass
import Frankenlibc.Threads.Deadline
import Frankenlibc.Threads.Deterministic
import Frankenlibc.Virtif.User
import Frankenlibc.Virtif.Lifecycle
import Frankenlibc.Virtif.Mbuf
import Frankenlibc.Virtif.Interface
import Frankenlibc.Malloc.Code
import Frankenlibc.Malloc.Pool
import Frankenlibc.Malloc.Bucket
import Frankenlibc.Malloc.Rep
import Frankenlibc.Malloc.Morecore
import Frankenlibc.Malloc.Calls
import Frankenlibc.Malloc.Heap
import Frankenlibc.Malloc.Sizes
import Frankenlibc.Malloc.Realloc
import Frankenlibc.Malloc.Store
import Frankenlibc.Malloc.DoubleFree
import Frankenlibc.Lib.Roster
import Frankenlibc.Lib.Environ
import Frankenlibc.Sysproxy.Wire
import Frankenlibc.Sysproxy.Server
import Frankenlibc.Sysproxy.Dispatch
import Frankenlibc.Sysproxy.Framing
import Frankenlibc.Sysproxy.Lwps
import Frankenlibc.Sysproxy.Tokens
import Frankenlibc.Sysproxy.Preforks
import Frankenlibc.Sysproxy.Hall
import Frankenlibc.Sysproxy.Slots
import Frankenlibc.Sysproxy.Tenancy
import Frankenlibc.Sysproxy.Lifecycle
import Frankenlibc.Sysproxy.Accounts
import Frankenlibc.Sysproxy.Shutdown
import Frankenlibc.Sysproxy.Workers
import Frankenlibc.Sysproxy.Retries
import Frankenlibc.Sysproxy.Gate
import Frankenlibc.Sysproxy.Copyin
import Frankenlibc.Sysproxy.Remote
import Frankenlibc.Sysproxy.RemoteWire
import Frankenlibc.Sysproxy.RemoteSim
import Frankenlibc.Sysproxy.RemoteCall
import Frankenlibc.Sysproxy.RemoteProgress
import Frankenlibc.Sysproxy.Conn
import Frankenlibc.Sysproxy.Moves
import Frankenlibc.Sysproxy.Sendlock
import Frankenlibc.Sysproxy.Disconnect
import Frankenlibc.Sysproxy.Respwait
import Frankenlibc.Sysproxy.References
import Frankenlibc.Sysproxy.Buffers
import Frankenlibc.Sysproxy.Ownership
import Frankenlibc.Sysproxy.Messages
import Frankenlibc.Sysproxy.Errors
import Frankenlibc.Sysproxy.Names
import Frankenlibc.Sysproxy.Url
import Frankenlibc.Init.Fdinit
import Frankenlibc.Init.Scan
import Frankenlibc.Init.Devices
import Frankenlibc.Init.Marks
import Frankenlibc.Init.Rootfs
import Frankenlibc.Tools.Rexec
import Frankenlibc.Tools.Commandline
import Frankenlibc.Tools.Privileges
import Frankenlibc.Tools.Handover
import Frankenlibc.Tools.Gateway
import Frankenlibc.Tools.Sandbox
import Frankenlibc.Tools.Confinement
import Frankenlibc.Rumpuser.File
import Frankenlibc.Rumpuser.Bio
import Frankenlibc.Platform.Baremetal
import Frankenlibc.Platform.LinuxMmap
import Frankenlibc.Platform.LinuxPoll
import Frankenlibc.Platform.LinuxStart
import Frankenlibc.Rumpuser.Memory
import Frankenlibc.Clock.Timecounter

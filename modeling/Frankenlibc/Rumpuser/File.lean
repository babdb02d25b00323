import Frankenlibc.Init.Fdinit
import Frankenlibc.Lib.Run
import Frankenlibc.Lib.Words

/-!
# File I/O of the rump kernel (`rumpuser_file.c`, on Linux)

The hypercalls read and write descriptors of the host through the platform's
wrappers, which keep one global `errno`. A call is run on the `errno` it finds
and on an empty list of actions, and leaves the `errno` and the actions it has
made: system calls with their outcomes, and completions reported to the kernel.

The table `__franken_fd` is a function of every number; outside of it stands
whatever the memory there holds. Buffers and their contents are left out.
-/
namespace Frankenlibc.Rumpuser

open Frankenlibc.Lib Frankenlibc.Init

abbrev EBADF : Int := 9
abbrev ESPIPE : Int := 29
abbrev EAGAIN : Int := 35
abbrev LINUX_EAGAIN : Int := 11
abbrev LINUX_ESPIPE : Int := 29

def O_RDONLY : Int := 0
def O_ACCMODE : Int := 3

def RUMPUSER_BIO_READ : BitVec 32 := 1
def RUMPUSER_BIO_SYNC : BitVec 32 := 4

def RUMPUSER_IOV_NOSEEK : Int := -1

/-! ## The host -/

/-- An error number of the host. -/
structure Errno where
  val : Nat
  pos : 0 < val
  lt : val < 4096
deriving DecidableEq, Repr

/-- A system call of the host succeeds with a number of bytes, or fails. -/
inductive Outcome
  | done (n : Fin 9223372036854775808)
  | failed (e : Errno)
deriving DecidableEq, Repr

/-- The register a system call returns in. -/
def Outcome.raw : Outcome → Nat
  | .done n => n
  | .failed e => 18446744073709551616 - e.val

inductive Sys
  | pread (fd : Int) (count : Nat) (offset : Int)
  | pwrite (fd : Int) (count : Nat) (offset : Int)
  | fsync (fd : Int)
  | readv (fd : Int) (iovcnt : Nat)
  | writev (fd : Int) (iovcnt : Nat)
  | preadv (fd : Int) (iovcnt : Nat) (off : Int)
  | pwritev (fd : Int) (iovcnt : Nat) (off : Int)
deriving DecidableEq, Repr

/-- What the host answers to the system calls of one hypercall. -/
abbrev Host := Sys → Outcome

inductive Action
  | sys (c : Sys) (o : Outcome)
  | biodone (n : Nat) (err : Int)
deriving DecidableEq, Repr

structure World where
  errno : Int
  acts : List Action
deriving DecidableEq, Repr

/-! ## The wrappers of the platform -/

/-- `__syscall_ret`. -/
def syscallRet (r : Nat) (w : World) : Int × World :=
  if 18446744073709551616 - 4096 < r then
    (-1, { w with errno := ((18446744073709551616 - r : Nat) : Int) })
  else (i64 r, w)

def syscall (h : Host) (c : Sys) (w : World) : Int × World :=
  syscallRet (h c).raw { w with acts := w.acts ++ [.sys c (h c)] }

def pread (h : Host) (fd : Int) (count : Nat) (offset : Int) (w : World) : Int × World :=
  syscall h (.pread fd count offset) w

/-- `flags & O_ACCMODE` is `O_RDONLY`. -/
def isRdonly (e : Fdtable) : Bool := e.flags % (O_ACCMODE + 1) = O_RDONLY

/-- `pwrite`. A descriptor opened for reading is refused with a positive number. -/
def pwrite (t : Int → Fdtable) (h : Host) (fd : Int) (count : Nat) (offset : Int) (w : World) :
    Int × World :=
  if isRdonly (t fd) then (EBADF, w) else syscall h (.pwrite fd count offset) w

def fsync (h : Host) (fd : Int) (w : World) : Int × World := syscall h (.fsync fd) w

/-- A vectored call. The result is cut to an `int`, and a failure is told apart
from `EBADF` only for the numbers in `known`. -/
def vectored (known : List (Int × Int)) (h : Host) (c : Sys) (w : World) : Int × World :=
  let (r, w) := syscall h c w
  let ret := i32 r
  if ret = -1 then (ret, { w with errno := (known.lookup w.errno).getD EBADF }) else (ret, w)

def readv (h : Host) (fd : Int) (iovcnt : Nat) (w : World) : Int × World :=
  vectored [(LINUX_EAGAIN, EAGAIN)] h (.readv fd iovcnt) w

def writev (h : Host) (fd : Int) (iovcnt : Nat) (w : World) : Int × World :=
  vectored [(LINUX_EAGAIN, EAGAIN)] h (.writev fd iovcnt) w

def preadv (h : Host) (fd : Int) (iovcnt : Nat) (off : Int) (w : World) : Int × World :=
  vectored [(LINUX_EAGAIN, EAGAIN), (LINUX_ESPIPE, ESPIPE)] h (.preadv fd iovcnt off) w

def pwritev (h : Host) (fd : Int) (iovcnt : Nat) (off : Int) (w : World) : Int × World :=
  vectored [(LINUX_EAGAIN, EAGAIN), (LINUX_ESPIPE, ESPIPE)] h (.pwritev fd iovcnt off) w

/-! ## The hypercalls -/

/-- The end of `rumpuser_iovread`, `rumpuser_iovwrite` and `rumpuser_syncfd`:
what is returned, and what is stored through `retp`. -/
def result (p : Int × World) : Int × Option Nat × World :=
  if p.1 = -1 then (p.2.errno, none, p.2) else (0, some (toSize p.1), p.2)

def rumpuserIovread (t : Int → Fdtable) (h : Host) (fd : Int) (iovlen : Nat) (roff : Int)
    (w : World) : Int × Option Nat × World :=
  if roff = RUMPUSER_IOV_NOSEEK ∨ (t fd).seek = false then result (readv h fd iovlen w)
  else result (preadv h fd iovlen roff w)

def rumpuserIovwrite (t : Int → Fdtable) (h : Host) (fd : Int) (iovlen : Nat) (roff : Int)
    (w : World) : Int × Option Nat × World :=
  if roff = RUMPUSER_IOV_NOSEEK ∨ (t fd).seek = false then result (writev h fd iovlen w)
  else result (pwritev h fd iovlen roff w)

/-- `rumpuser_syncfd` reads neither its flags nor its range. -/
def rumpuserSyncfd (h : Host) (fd : Int) (w : World) : Int × World :=
  let (rv, _, w) := result (fsync h fd w)
  (rv, w)

/-- The arguments of `rumpuser_bio` but for the buffer and the callback. -/
structure Bio where
  fd : Int
  op : BitVec 32
  dlen : Nat
  doff : Int
deriving DecidableEq, Repr

/-- `op & RUMPUSER_BIO_READ`. -/
def Bio.read (b : Bio) : Bool := b.op &&& RUMPUSER_BIO_READ ≠ 0

/-- `op & RUMPUSER_BIO_SYNC`. -/
def Bio.sync (b : Bio) : Bool := b.op &&& RUMPUSER_BIO_SYNC ≠ 0

/-- The descriptor is in use and is a block device. -/
def usable (e : Fdtable) : Bool := e.valid && e.st.ifmt = .blk

def World.biodone (w : World) (n err : Int) : World :=
  { w with acts := w.acts ++ [.biodone (toSize n) err] }

/-- The first test of `rumpuser_bio`, which does not return. -/
def bioCheck (t : Int → Fdtable) (b : Bio) (w : World) : World :=
  if usable (t b.fd) then w else w.biodone 0 EBADF

/-- `n`, `err` and the world behind a call that may have failed; the local
variables were `n₀` and `err₀`. -/
def caught (p : Int × World) (n₀ err₀ : Int) : Int × Int × World :=
  if p.1 = -1 then (0, p.2.errno, p.2) else (n₀, err₀, p.2)

/-- The two branches that transfer data. -/
def bioTransfer (t : Int → Fdtable) (h : Host) (b : Bio) (w : World) : Int × Int × World :=
  let p := if b.read then pread h b.fd b.dlen b.doff w else pwrite t h b.fd b.dlen b.doff w
  caught p p.1 0

/-- The branch that syncs: it looks at `errno`, not at `err`. -/
def bioSync (h : Host) (b : Bio) (n err : Int) (w : World) : Int × Int × World :=
  if w.errno = 0 ∧ b.sync then caught (fsync h b.fd w) n err else (n, err, w)

def rumpuserBio (t : Int → Fdtable) (h : Host) (b : Bio) (w : World) : World :=
  let (n, err, w) := bioTransfer t h b (bioCheck t b w)
  let (n, err, w) := bioSync h b n err w
  w.biodone n err

/-! ## Histories -/

inductive Hypercall
  | iovread (fd : Int) (iovlen : Nat) (roff : Int)
  | iovwrite (fd : Int) (iovlen : Nat) (roff : Int)
  | syncfd (fd : Int)
  | bio (b : Bio)

/-- One hypercall, from the `errno` it finds. -/
def perform (t : Int → Fdtable) (h : Host) (errno : Int) : Hypercall → World
  | .iovread fd iovlen roff => (rumpuserIovread t h fd iovlen roff ⟨errno, []⟩).2.2
  | .iovwrite fd iovlen roff => (rumpuserIovwrite t h fd iovlen roff ⟨errno, []⟩).2.2
  | .syncfd fd => (rumpuserSyncfd h fd ⟨errno, []⟩).2
  | .bio b => rumpuserBio t h b ⟨errno, []⟩

/-- What is left of a hypercall for the next one is `errno`. -/
def step (t : Int → Fdtable) (errno : Int) (e : Hypercall × Host) : Option Int :=
  some (perform t e.2 errno e.1).errno

end Frankenlibc.Rumpuser

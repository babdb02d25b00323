import Frankenlibc.Lib.Environ

/-!
# The descriptors a program is started with

`__franken_fdinit` reads from the environment which descriptors the program was
started with, marks them in a table and tells the kernel library about disks,
network devices, a configuration and a 9p socket. `__franken_fdinit_create`
then mounts the root file system and the rest. This is the build for the Linux
kernel library, the only one that has all of these branches.

What the host and the kernel library return is left to `Host`. A store outside
of the table, and a number read from a variable that is not there, are
undefined: the functions have no result then.
-/
namespace Frankenlibc.Init

open Frankenlibc.Lib

def MAXFD : Nat := 64

/-- `st_mode & S_IFMT`, as far as it is told apart. -/
inductive Ifmt
  | reg
  | blk
  | sock
  | other
deriving DecidableEq, Repr

structure Stat where
  ifmt : Ifmt
  size : Nat
deriving DecidableEq, Repr

/-- `struct __fdtable`. -/
structure Fdtable where
  valid : Bool
  flags : Int
  seek : Bool
  st : Stat
  mounted : Bool
deriving DecidableEq, Repr

inductive Fstype
  | ext4
  | iso9660
deriving DecidableEq, Repr

/-- What `__franken_fdinit` tells the kernel library. -/
inductive Call
  | disk (fd : Int)
  | net (fd : Int)
  | config (fd : Int)
  | ninep (fd : Int)
deriving DecidableEq, Repr

structure Host where
  /-- `fcntl(fd, F_GETFL, 0)`. -/
  getfl : Int → Int
  fstat : Int → Option Stat
  /-- What the `n`-th `lkl_disk_add` returns. -/
  diskAdd : Nat → Int
  mountDev : Int → Fstype → Int
  /-- The `lkl_sys_mknod` of `/dev/urandom`. -/
  mknod : Int
  /-- `rump___sysimpl_open` of `/dev/console`. -/
  console : Int

structure Fdinit where
  fd : Nat → Fdtable
  diskId : Int
  calls : List Call

def Stat.zero : Stat := ⟨.other, 0⟩

def Fdinit.zero : Fdinit where
  fd _ := ⟨false, 0, false, .zero, false⟩
  diskId := 0
  calls := []

/-! ## `__franken_fdinit` -/

def Fdinit.modify (s : Fdinit) (n : Nat) (f : Fdtable → Fdtable) : Fdinit :=
  { s with fd := Function.update s.fd n (f (s.fd n)) }

/-- A store into an entry of the table. -/
def Fdinit.store (s : Fdinit) (fd : Int) (f : Fdtable → Fdtable) : Option Fdinit :=
  if 0 ≤ fd ∧ fd < MAXFD then some (s.modify fd.toNat f) else none

def Fdinit.call (s : Fdinit) (c : Call) : Fdinit := { s with calls := s.calls ++ [c] }

def Call.isDisk : Call → Bool
  | .disk _ => true
  | _ => false

/-- `disk_id = lkl_disk_add(&disk)`. -/
def Fdinit.diskAdd (s : Fdinit) (h : Host) (fd : Int) : Fdinit :=
  { s.call (.disk fd) with diskId := h.diskAdd (s.calls.countP Call.isDisk) }

/-- Descriptors 0, 1 and 2. -/
def stdio (h : Host) (s : Fdinit) (n : Nat) : Fdinit :=
  match h.fstat n with
  | none => s.modify n fun e => { e with valid := false }
  | some st => s.modify n fun e => { e with valid := true, flags := h.getfl n, st := st, seek := false }

/-- The entry of a descriptor that is passed. A failure of `fstat` is noted
under the number of the environment entry, as the source has it. -/
def mark (h : Host) (n : Nat) (fd : Int) (s : Fdinit) : Option Fdinit := do
  let s ← s.store fd fun e => { e with valid := true, flags := h.getfl fd }
  match h.fstat fd with
  | none => do
      let s ← s.store n fun e => { e with valid := false }
      s.store fd fun e => { e with st := .zero }
  | some st => s.store fd fun e => { e with st := st }

def isPassed (env : CStr) : Bool :=
  strncmp env "__RUMP_FDINFO_".toList 14 || strncmp env "9PFS_FD".toList 7

def isConfig (env : CStr) : Bool := strncmp env "__RUMP_FDINFO_CONFIGJSON".toList 24

def isDisk (env : CStr) : Bool :=
  strncmp env "__RUMP_FDINFO_ROOT".toList 18 || strncmp env "__RUMP_FDINFO_DISK_".toList 18

def isNet (env : CStr) : Bool := strncmp env "__RUMP_FDINFO_NET_".toList 18

def isNinep (env : CStr) : Bool := strncmp env "9PFS_FD".toList 7

def addPassed (h : Host) (n : Nat) (env : CStr) (fd : Int) (s : Fdinit) : Option Fdinit :=
  if isPassed env then mark h n fd s else some s

def addConfig (env : CStr) (fd : Int) (s : Fdinit) : Fdinit :=
  if isConfig env then s.call (.config fd) else s

def addDisk (h : Host) (env : CStr) (fd : Int) (s : Fdinit) : Option Fdinit :=
  if isDisk env then (s.store fd fun e => { e with seek := true }).map fun s => s.diskAdd h fd
  else some s

def addNet (env : CStr) (fd : Int) (s : Fdinit) : Option Fdinit :=
  if isNet env then (s.store fd fun e => { e with seek := false }).map fun s => s.call (.net fd)
  else some s

/-- The descriptor is read once more, from the variable. -/
def addNinep (environ : List CStr) (env : CStr) (fd : Int) (s : Fdinit) : Option Fdinit :=
  if isNinep env then do
    let s ← s.store fd fun e => { e with seek := false }
    let tmpfd ← getenv environ "9PFS_FD".toList
    some (s.call (.ninep (atoi tmpfd)))
  else some s

/-- The body of the loop over the environment, in round `n`. -/
def scan (h : Host) (environ : List CStr) (n : Nat) (env : CStr) (s : Fdinit) : Option Fdinit :=
  match valueOf env with
  | none => some s
  | some var => do
      let fd := atoi var
      let s ← addPassed h n env fd s
      let s ← addDisk h env fd (addConfig env fd s)
      let s ← addNet env fd s
      addNinep environ env fd s

def scanFrom (h : Host) (environ : List CStr) : Nat → List CStr → Fdinit → Option Fdinit
  | _, [], s => some s
  | n, env :: rest, s => (scan h environ n env s).bind (scanFrom h environ (n + 1) rest)

/-- `env = *(environ + n++)` takes the first entry once more in round 1. -/
def rounds : List CStr → List CStr
  | [] => []
  | env :: rest => env :: env :: rest

/-- `__franken_fdinit`. -/
def frankenFdinit (h : Host) (environ : List CStr) : Option Fdinit :=
  scanFrom h environ 0 (rounds environ) (stdio h (stdio h (stdio h .zero 0) 1) 2)

/-! ## `__franken_fdinit_create` -/

/-- A call of `register_block`: the descriptor, whether it is the root, and
what was mounted, in the order of the attempts. The last one is where the
program is moved to by `chroot`. -/
structure Mount where
  fd : Nat
  root : Bool
  tries : List (Int × Fstype)
  ret : Int
deriving DecidableEq, Repr

inductive Effect
  /-- A descriptor of the program is opened on the console. -/
  | console (fd : Nat)
  | dup2 (fd : Int) (dst : Nat)
  | block (m : Mount)
  | net (fd : Nat)
  | ninep (mnt : CStr)
  | tmpfs
  | proc
  | sysfs
deriving DecidableEq, Repr

/-- `register_reg`: a regular file stays what it is. -/
def registerReg (h : Host) (s : Fdinit) (fd : Nat) : Int × List Effect :=
  if (s.fd fd).st.ifmt = .reg then (fd, []) else (h.console, [.console fd])

/-- `register_block`. -/
def registerBlock (h : Host) (s : Fdinit) (fd : Nat) (root : Bool) : Mount :=
  let tries :=
    if h.mountDev s.diskId .ext4 < 0 then [(s.diskId, .ext4), (s.diskId, .iso9660)]
    else [(s.diskId, .ext4)]
  ⟨fd, root, tries, h.mknod⟩

/-- One of the descriptors 0, 1 and 2. -/
def createStdio (h : Host) (s : Fdinit) (n : Nat) : List Effect :=
  if (s.fd n).valid then
    let (fd, es) := registerReg h s n
    if fd ≠ -1 then es ++ [.dup2 fd n] else es
  else []

/-- The root file system. -/
def createRoot (h : Host) (environ : List CStr) (s : Fdinit) : Option (Fdinit × List Effect) :=
  match getenv environ "__RUMP_FDINFO_ROOT".toList with
  | none => some (s, [])
  | some env =>
    let fd := atoi env
    if 0 ≤ fd ∧ fd < MAXFD then
      if (s.fd fd.toNat).valid then
        let m := registerBlock h s fd.toNat true
        some (if m.ret = 0 then s.modify fd.toNat fun e => { e with mounted := true } else s,
          [.block m])
      else some (s, [])
    else none

/-- The loop over the descriptors from 5 on, of which `n` are left. A regular
file is left alone, and `register_reg` returns its number. -/
def createRest (h : Host) (s : Fdinit) : Nat → Nat → List Effect
  | 0, _ => []
  | n + 1, fd =>
    if (s.fd fd).valid then
      match (s.fd fd).st.ifmt with
      | .reg => createRest h s n (fd + 1)
      | .blk => .block (registerBlock h s fd false) :: createRest h s n (fd + 1)
      | .sock => .net fd :: createRest h s n (fd + 1)
      | .other => createRest h s n (fd + 1)
    else []

/-- `__franken_fdinit_create`. -/
def frankenFdinitCreate (h : Host) (environ : List CStr) (s : Fdinit) :
    Option (Fdinit × List Effect) := do
  let std := createStdio h s 0 ++ createStdio h s 1 ++ createStdio h s 2
  let (s, root) ← createRoot h environ s
  let rest := createRest h s (MAXFD - 5) 5
  let ninep := match getenv environ "9PFS_MNT".toList with
    | none => []
    | some mnt => [.ninep mnt]
  some (s, std ++ root ++ rest ++ ninep ++ [.tmpfs, .proc, .sysfs])

end Frankenlibc.Init

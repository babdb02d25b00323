import Frankenlibc.Lib.Environ
import Frankenlibc.Lib.Run

/-!
# `rexec`

The wrapper opens what it is told to on its command line, notes each descriptor
with a name, gives up its privileges and starts the program with the notes in
the environment. What the host returns is left to `Host`; a descriptor that is
kept open is new when it is opened, which `Host` carries as a proof.

`main` ends in a call of `exit`, in a store outside of `fdinfo_list` or of one
of its names, in a crash (`open_9pfs` on a specification without a colon), or
reaches `filter_load_exec`. The modes of the files, messages, and how the
sandbox is set up are left out.
-/
namespace Frankenlibc.Tools

open Frankenlibc.Lib

inductive Stop
  | exit
  | overflow
  | crash
deriving DecidableEq, Repr

inductive Os
  | linux
  | freebsd
  | netbsd
  | darwin
deriving DecidableEq, Repr

/-- The user ids of a process, and whether it has `CAP_SETUID`. -/
structure Creds where
  ruid : Nat
  euid : Nat
  suid : Nat
  cap : Bool
deriving DecidableEq, Repr

structure Host where
  os : Os
  atoi : CStr → Int
  /-- The descriptor that was opened for the argument at a position and is kept,
  unless one of the calls for it failed. -/
  opened : Nat → Option Nat
  /-- The calls for a `console:` argument succeed. -/
  console : Nat → Bool
  /-- Address, mask and gateway for a `docker:` argument. -/
  docker : CStr × CStr × CStr
  uuid : Option CStr
  access : CStr → Bool
  /-- `stat`, and whether it is a regular file. -/
  stat : CStr → Option Bool
  osInit : Bool → Bool
  setgid : Nat → Bool
  capset : Bool
  /-- The socket of `open_9pfs`, connected. -/
  sock9p : Option Nat
  /-- `os_extrafiles`, and what is asked of every descriptor before the exec,
  succeed. -/
  files : Bool
  fresh : ∀ i j fd, opened i = some fd → opened j = some fd → i = j
  fresh9p : ∀ i fd, opened i = some fd → sock9p ≠ some fd

/-! ## Privileges -/

/-- `uid_t` and `gid_t`. -/
def toId (x : Int) : Nat := (x % 4294967296).toNat

/-- Linux asks for a capability, the others for the effective user id. -/
def Os.privileged : Os → Creds → Bool
  | .linux, c => c.cap
  | _, c => c.euid = 0

/-- The ids that `setuid` takes from everybody. -/
def Os.allows : Os → Nat → Creds → Bool
  | .freebsd, uid, c => uid = c.ruid || uid = c.euid
  | .netbsd, uid, c => uid = c.ruid
  | _, uid, c => uid = c.ruid || uid = c.suid

/-- Whether `setuid` sets all three ids: on FreeBSD and NetBSD always. -/
def Os.setsAll : Os → Creds → Bool
  | .freebsd, _ => true
  | .netbsd, _ => true
  | os, c => os.privileged c

/-- `setuid`. A process that stops being root loses its capabilities. -/
def setuid (os : Os) (uid : Nat) (c : Creds) : Option Creds :=
  if os = .linux ∧ uid = 4294967295 then none
  else if os.privileged c || os.allows uid c then
    if os.setsAll c then some ⟨uid, uid, uid, c.cap && !(c.euid = 0 && uid ≠ 0)⟩
    else some { c with euid := uid }
  else none

/-- `os_dropcaps`. -/
def osDropcaps (h : Host) (c : Creds) : Except Stop Creds :=
  if h.os = .linux then if h.capset then .ok { c with cap := false } else .error .exit
  else .ok c

/-- The user to run as, if one was named or can be found. -/
def target (h : Host) (user : Nat) (c : Creds) (environ : List CStr) : Nat :=
  let user := if user = 0 ∧ c.euid = 0 ∧ c.ruid ≠ 0 then c.ruid else user
  match getenv environ "SUDO_UID".toList with
  | some v => if user = 0 then toId (h.atoi v) else user
  | none => user

def changeUser (h : Host) (user : Nat) (c : Creds) : Except Stop Creds :=
  if user ≠ 0 then
    match setuid h.os user c with
    | some c => .ok c
    | none => .error .exit
  else .ok c

/-- The attempt to become root: whether it failed, and what is left. -/
def tryRoot (os : Os) (c : Creds) : Bool × Creds :=
  match setuid os 0 c with
  | some c => (false, c)
  | none => (true, c)

/-! ## The command line -/

/-- `struct fdinfo`. -/
structure Fdinfo where
  fd : Nat
  name : CStr
deriving DecidableEq, Repr

structure Rexec where
  nx : Bool
  user : Nat
  group : Nat
  spec9pfs : Option CStr
  fdinfo : List Fdinfo
  pargs : List CStr
  environ : List CStr

/-- The next entry of `fdinfo_list`, of 64 with room for 63 characters. -/
def Rexec.note (s : Rexec) (name : CStr) (fd : Nat) : Except Stop Rexec :=
  if s.fdinfo.length < 64 ∧ name.length < 64 then .ok { s with fdinfo := s.fdinfo ++ [⟨fd, name⟩] }
  else .error .overflow

/-- What stands before and after the first colon. -/
def colon (arg : CStr) : Option (CStr × CStr) :=
  (arg.dropWhile (· ≠ ':')).tail?.map fun post => (arg.takeWhile (· ≠ ':'), post)

/-- What `os_open` can open. -/
def Os.opens : Os → CStr → Bool
  | .linux, pre =>
    pre = "tun".toList || pre = "tap".toList || pre = "packet".toList || pre = "docker".toList
  | .freebsd, pre => pre = "tap".toList
  | .darwin, pre => pre = "tap".toList
  | .netbsd, _ => false

def Host.openArg (h : Host) (i : Nat) : Except Stop Nat :=
  match h.opened i with
  | some fd => .ok fd
  | none => .error .exit

/-- The variables `os_open` sets for `docker:`. -/
def setFixed (h : Host) (environ : List CStr) : List CStr :=
  setenv "FIXED_GATEWAY".toList h.docker.2.2 true
    (setenv "FIXED_MASK".toList h.docker.2.1 true
      (setenv "FIXED_ADDRESS".toList h.docker.1 true environ))

/-- `os_open`. -/
def osOpen (h : Host) (i : Nat) (pre : CStr) (s : Rexec) : Except Stop (Nat × Rexec) :=
  if h.os.opens pre then
    (h.openArg i).map fun fd =>
      (fd, if pre = "docker".toList then { s with environ := setFixed h s.environ } else s)
  else .error .exit

/-- `colon_open`; there is no descriptor for the console. -/
def colonOpen (h : Host) (i : Nat) (pre : CStr) (s : Rexec) : Except Stop (Option Nat × Rexec) :=
  if pre = "console".toList then if h.console i then .ok (none, s) else .error .exit
  else if pre = "config".toList then (h.openArg i).map fun fd => (some fd, s)
  else if pre = "rootfs".toList then do
    let fd ← h.openArg i
    let s ← s.note "__RUMP_FDINFO_ROOT".toList fd
    .ok (some fd, s)
  else (osOpen h i pre s).map fun r => (some r.1, r.2)

def isNetPre (pre : CStr) : Bool :=
  pre = "tun".toList || pre = "tap".toList || pre = "packet".toList || pre = "docker".toList

/-- The note `main` takes of a descriptor from `colon_open`. -/
def noteColon (pre post : CStr) (fd : Nat) (s : Rexec) : Except Stop Rexec :=
  if pre = "config".toList then s.note "__RUMP_FDINFO_CONFIGJSON".toList fd
  else if isNetPre pre then s.note ("__RUMP_FDINFO_NET_".toList ++ post) fd
  else .ok s

/-- An argument with a colon, or a file. -/
def openFile (h : Host) (i : Nat) (arg : CStr) (s : Rexec) : Except Stop Rexec :=
  match colon arg with
  | some (pre, post) => do
      let (fd, s) ← colonOpen h i pre s
      match fd with
      | some fd => noteColon pre post fd s
      | none => .ok s
  | none => do
      let fd ← h.openArg i
      s.note ("__RUMP_FDINFO_DISK_".toList ++ arg) fd

/-- What an argument can be. -/
inductive Opt
  | help
  | mode
  | nx
  | user
  | group
  | noroot
  | args
  | spec
  | file
deriving DecidableEq, Repr

def Opt.of (arg : CStr) : Opt :=
  if arg = "-h".toList then .help
  else if arg = "-ro".toList then .mode
  else if arg = "-rw".toList then .mode
  else if arg = "-nx".toList then .nx
  else if arg = "-u".toList then .user
  else if arg = "-g".toList then .group
  else if arg = "-noroot".toList then .noroot
  else if arg = "--".toList then .args
  else if arg = "-v".toList then .spec
  else .file

/-- The loop over the arguments, from position `i` on. -/
def parse (h : Host) : Nat → List CStr → Rexec → Except Stop Rexec
  | _, [], s => .ok s
  | i, arg :: rest, s =>
    match Opt.of arg, rest with
    | .help, _ => .error .exit
    | .mode, rest => parse h (i + 1) rest s
    | .nx, rest => parse h (i + 1) rest { s with nx := true }
    | .user, [] => .error .exit
    | .user, a :: rest =>
      if toId (h.atoi a) = 0 then .error .exit
      else parse h (i + 2) rest { s with user := toId (h.atoi a) }
    | .group, [] => .error .exit
    | .group, a :: rest =>
      if toId (h.atoi a) = 0 then .error .exit
      else parse h (i + 2) rest { s with group := toId (h.atoi a) }
    | .noroot, rest => if h.opened i = some 3 then parse h (i + 1) rest s else .error .exit
    | .args, rest => .ok { s with pargs := s.pargs ++ rest }
    | .spec, [] => .error .exit
    | .spec, a :: rest => parse h (i + 2) rest { s with spec9pfs := some a }
    | .file, rest => do
        let s ← openFile h i arg s
        parse h (i + 1) rest s

/-! ## The rest of `main` -/

def uuid (h : Host) (environ : List CStr) : Except Stop (List CStr) :=
  match getenv environ "UUID".toList with
  | some _ => .ok environ
  | none =>
    match h.uuid with
    | some u => .ok (setenv "UUID".toList u false environ)
    | none => .error .exit

/-- The parts of `PATH`, as `strtok` has them. -/
def strtok (path : CStr) : List CStr := (path.splitOn ':').filter (· ≠ [])

/-- The program, looked up in `PATH` if it is only a name. -/
def locate (h : Host) (program : CStr) (environ : List CStr) : Except Stop CStr :=
  if '/' ∈ program then .ok program
  else
    match getenv environ "PATH".toList with
    | none => .error .exit
    | some path =>
      match (strtok path).find? fun part => part.length + 1 + program.length < 4096 ∧
          h.access (part ++ '/' :: program) with
      | some part => .ok (part ++ '/' :: program)
      | none => .error .exit

/-- `open_9pfs`. -/
def open9pfs (h : Host) (spec : Option CStr) (environ : List CStr) : Except Stop (List CStr) :=
  match spec, h.sock9p with
  | none, _ => .ok environ
  | some _, none => .error .exit
  | some spec, some sock =>
    match colon spec with
    | none => .error .crash
    | some (_, guest) =>
      .ok (setenv "9PFS_FD".toList (showDec sock) false
        (setenv "9PFS_MNT".toList guest false environ))

/-- `fdinfo_setenv`. -/
def fdinfoSetenv (l : List Fdinfo) (environ : List CStr) : List CStr :=
  l.foldl (fun environ r => setenv r.name (showDec r.fd) true environ) environ

/-- A call whose failure ends in `exit`. -/
def require (ok : Bool) : Except Stop Unit := if ok then .ok () else .error .exit

/-- What `filter_load_exec` is called with, and the state of the process. -/
structure Exec where
  program : CStr
  pargs : List CStr
  environ : List CStr
  creds : Creds
  /-- The attempt to become root has failed. -/
  refused : Bool
  fdinfo : List Fdinfo

/-- `main`, for a process with these ids; the saved user id is the effective one
after an exec. -/
def main (h : Host) (argv : List CStr) (ruid euid : Nat) (cap : Bool) (environ : List CStr) :
    Except Stop Exec :=
  match argv with
  | _ :: program :: args => do
      let environ ← uuid h environ
      require (program ≠ "-h".toList)
      let s ← parse h 2 args ⟨false, 0, 0, none, [], [program], environ⟩
      let program ← locate h program s.environ
      require (h.stat program = some true)
      require (h.osInit s.nx)
      require (s.group = 0 || h.setgid s.group)
      let c := ⟨ruid, euid, euid, cap⟩
      let c ← changeUser h (target h s.user c s.environ) c
      let c ← osDropcaps h c
      let environ ← open9pfs h s.spec9pfs s.environ
      require h.files
      let r := tryRoot h.os c
      .ok ⟨program, s.pargs, fdinfoSetenv s.fdinfo environ, r.2, r.1, s.fdinfo⟩
  | _ => .error .exit

end Frankenlibc.Tools

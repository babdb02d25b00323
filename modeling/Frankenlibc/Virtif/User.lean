import Frankenlibc.Threads.Poll

/-!
# The virtual network interface

`virtif_user.c` gives each interface of the kernel a receive thread. The
thread reads packets from a descriptor of the host and hands them to the
kernel; with nothing to read it sleeps, and `clock_nanosleep` wakes it through
the `wake` entry of its descriptor.

`Net` puts the interfaces and their receive threads beside the thread library.
Where a receive thread stands inside `rcvthread` is its `RcvPc`. At some of
these places it runs code of the kernel (`rumpuser_component_kthread`,
`_schedule`, `_unschedule`, `VIF_DELIVERPKT`, `_kthread_release`), which may
call the thread library like any other thread but does not end the thread that
runs it.

`create_ctx` sets `uc_link` to NULL and pushes no return address, so a thread
whose function returns has nowhere to go: the process ends. The kernel's soft
context, the receive buffer and the contents of packets are left out.
-/
namespace Frankenlibc.Virtif

open Frankenlibc.Lib Frankenlibc.Threads

abbrev Vid := Nat

/-- `struct virtif_user`. -/
structure VirtifUser where
  rcvthr : Tid
  fd : Nat
  dying : Bool
  deriving DecidableEq, Repr

/-- The places of `rcvthread`: `rumpuser_component_kthread`, the test of its
loop, `read`, the sleep and what stands before and behind it, the delivery of a
packet, and `rumpuser_component_kthread_release`. -/
inductive RcvPc where
  | kthread
  | test
  | read
  | nap
  | napped
  | deliver
  | release
  deriving DecidableEq, Repr

/-- The places where the receive thread runs code of the kernel. -/
def RcvPc.inKernel : RcvPc → Bool
  | .test | .read => false
  | _ => true

/-- What `read` brings: nothing (0, or -1 with `EAGAIN`), a packet, or another
error. -/
inductive Read where
  | empty
  | packet
  | error
  deriving DecidableEq, Repr

/-- How the process ends inside `rcvthread`: the assertion fails, the function
returns, or a freed `virtif_user` is read. -/
inductive Fault where
  | assertion
  | returned
  | useAfterFree
  deriving DecidableEq, Repr

/-- The interfaces and the library below them. `destroy` holds the threads that
stand inside `VIFHYPER_DESTROY`. -/
structure Net where
  host : Host
  viu : Vid → Option VirtifUser
  rcv : Tid → Option (Vid × RcvPc)
  destroy : Tid → Option Vid
  fault : Option Fault
  -- history: the names `calloc` has handed out, the thread each interface was
  -- given, and the receive threads that have left their loop
  used : List Vid
  rcvthr : Vid → Option Tid
  gone : List Tid

inductive NetEvent where
  | host (e : HostEvent)
  | create (mem : Option Vid) (thr : Option Tid) (mmapOk : Bool) (devnum : Nat)
  | dying (v : Vid)
  | destroy (v : Vid)
  | destroyed
  | rcv (rd : Read) (tm : Int)
  deriving DecidableEq, Repr

namespace Net

/-- `get_current()`. -/
def current (n : Net) : Tid := n.host.lib.current

/-- The thread on the processor runs the code of the kernel or of the program. -/
def inKernel (n : Net) : Bool :=
  n.host.lib.mode = .user && n.destroy n.current = none &&
    (n.rcv n.current).all fun p => p.2.inKernel

def lib (e : HostEvent) (n : Net) : Option Net :=
  (n.host.step e).map fun h => { n with host := h }

/-- The steps of the library that are not made by the code below. -/
def permits (n : Net) : HostEvent → Bool
  | .lib (.call c) => n.inKernel && (c ≠ .exitThread || n.rcv n.current = none)
  | .recvThread _ _ => n.inKernel
  | _ => true

/-- `VIFHYPER_CREATE`. `mem` is what `calloc` returns; `thr` and `mmapOk` are
what `create_thread` gets from its `calloc` and its `mmap`. -/
def create (mem : Option Vid) (thr : Option Tid) (mmapOk : Bool) (devnum : Nat) (n : Net) :
    Option Net :=
  match mem with
  | none => some n
  | some v =>
    if v ∈ n.used then none
    else
      (n.lib (.lib (.call (.createThread thr true false mmapOk)))).map fun n' =>
        match thr, mmapOk with
        | some t, true =>
          { n' with
            viu := Function.update n'.viu v (some { rcvthr := t, fd := devnum, dying := false })
            rcv := Function.update n'.rcv t (some (v, .kthread))
            used := v :: n'.used
            rcvthr := Function.update n'.rcvthr v (some t) }
        | _, _ => { n' with used := v :: n'.used }

/-- `VIFHYPER_DYING`. -/
def dying (v : Vid) (n : Net) : Option Net :=
  (n.viu v).map fun x => { n with viu := Function.update n.viu v (some { x with dying := true }) }

/-- `VIFHYPER_DESTROY`, up to the return of `join_thread` or its wait. -/
def destroyBegin (v : Vid) (n : Net) : Option Net := do
  let x ← n.viu v
  let n' ← n.lib (.lib (.call (.joinThread x.rcvthr)))
  some { n' with destroy := Function.update n'.destroy n.current (some v) }

/-- `VIFHYPER_DESTROY`, behind `join_thread`. -/
def destroyEnd (n : Net) : Option Net :=
  (n.destroy n.current).map fun v =>
    { n with
      viu := Function.update n.viu v none
      destroy := Function.update n.destroy n.current none }

/-- The receive thread goes to `p`. -/
def goto (v : Vid) (p : RcvPc) (n : Net) : Net :=
  { n with rcv := Function.update n.rcv n.current (some (v, p)) }

/-- The code behind the loop of `rcvthread`, up to
`rumpuser_component_kthread_release`. -/
def leave (v : Vid) (x : VirtifUser) (n : Net) : Net :=
  let n' := { n with gone := n.current :: n.gone }
  if x.dying then n'.goto v .release else { n' with fault := some .assertion }

/-- The `virtif_user` that `rcvthread` was handed is read. -/
def withViu (v : Vid) (n : Net) (k : VirtifUser → Net) : Net :=
  match n.viu v with
  | some x => k x
  | none => { n with fault := some .useAfterFree }

/-- One step of `rcvthread`. -/
def rcvthread (v : Vid) (rd : Read) (tm : Int) (n : Net) : RcvPc → Option Net
  | .kthread => some (n.withViu v fun x =>
    { n with host := n.host.recvThread x.fd (some x.rcvthr) }.goto v .test)
  | .test => some (n.withViu v fun x => if x.dying then n.leave v x else n.goto v .read)
  | .read => some (n.withViu v fun x =>
    match rd with
    | .empty => n.goto v .nap
    | .packet => n.goto v .deliver
    | .error => n.leave v x)
  | .nap => (n.goto v .napped).lib (.lib (.call (.clockSleep .realtime 10 0 tm)))
  | .napped => some (n.goto v .test)
  | .deliver => some (n.withViu v fun _ => n.goto v .test)
  | .release => some { n with fault := some .returned }

/-- The receive thread on the processor takes a step. -/
def rcvStep (rd : Read) (tm : Int) (n : Net) : Option Net := do
  let (v, p) ← n.rcv n.current
  n.rcvthread v rd tm p

def step (n : Net) (e : NetEvent) : Option Net :=
  if n.fault ≠ none then none
  else
    match e with
    | .host e => if n.permits e then n.lib e else none
    | .create mem thr mmapOk devnum =>
      if n.inKernel then n.create mem thr mmapOk devnum else none
    | .dying v => if n.inKernel then n.dying v else none
    | .destroy v => if n.inKernel then n.destroyBegin v else none
    | .destroyed => if n.host.lib.mode = .user then n.destroyEnd else none
    | .rcv rd tm =>
      if n.host.lib.mode = .user ∧ n.destroy n.current = none then n.rcvStep rd tm else none

/-- Before the first interface is created. -/
def boot (t : Tid) (fds : List Nat) : Net where
  host := Host.boot t fds
  viu _ := none
  rcv _ := none
  destroy _ := none
  fault := none
  used := []
  rcvthr _ := none
  gone := []

end Net

end Frankenlibc.Virtif

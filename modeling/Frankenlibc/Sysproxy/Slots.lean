import Frankenlibc.Sysproxy.Server

/-!
# The client table and the threads that share it

`spserver` and any number of threads in `serv_workbouncer`, as one machine. A
step is a critical section together with the unlocked code that leads to the
next one; the tear-down at the end of `spcrelease`, which is all unlocked,
takes a step for each of its effects.

What a frame does to its client is `dispatch`; the rest of the server thread's
state, which the table does not hold, comes with the event. Only the reference
that `schedulework` takes and the insertion into the work list are left to
steps of their own. An exec waits until `spc_refcnt` is small enough; how it
sleeps is not modelled here, nor are `kickall` and the lock for sending.

The connections are numbered. `conn` in a slot, a work item or a tear-down is
the connection it belongs to; `ended` lists the connections whose disconnect
has been handled, and `torn` what has been done of which tear-down. They are
records that no step reads.
-/
namespace Frankenlibc.Sysproxy

/-- An entry of `pfdlist` and of `spclist`; `none` is the descriptor -1. -/
structure Slot where
  pfd : Option Nat
  revents : Bool
  fd : Option Nat
  refcnt : Int
  state : SpcState
  mainlwp : Option Lwp
  inexec : Bool
  conn : Nat

/-- The effects of the tear-down, in the order of the code. -/
inductive TearPhase
  | mainlwp
  | close
  | renew
  | signal
deriving DecidableEq, Repr

def TearPhase.next : TearPhase → Option TearPhase
  | .mainlwp => some .close
  | .close => some .renew
  | .renew => some .signal
  | .signal => none

/-- A thread past the `ref > 0` of `spcrelease`. -/
structure Tear where
  slot : Nat
  conn : Nat
  phase : TearPhase
deriving DecidableEq, Repr

def Tear.next (t : Tear) : Option Tear := t.phase.next.map fun p => { t with phase := p }

/-- `struct servbouncearg`, with its `sba_spc`. -/
structure Work where
  spc : Nat
  conn : Nat
  sba : Sba

/-- Where `spserver` stands. The calls that take several steps carry the place
they return to. -/
inductive Pc
  | top
  | poll
  | each
  | next
  | scan (newfd i : Nat)
  | ref (w : Work)
  | queue (w : Work)
  | wipe (i : Nat) (k : Pc)
  | release (i : Nat) (k : Pc)
  | tear (t : Tear) (k : Pc)
  | shutdown (i : Nat)
  | exited
  | aborted

/-- Where a thread of `serv_workbouncer` stands. -/
inductive Worker
  | start
  | waiting (kicked : Bool)
  | syscall (w : Work)
  | exec (w : Work)
  | notify (w : Work)
  | release (w : Work)
  | tear (t : Tear)
  | gone

def Worker.asleep : Worker → Bool
  | .waiting kicked => !kicked
  | _ => false

/-- `MAXCLI`, `rumpsp_maxworker`, `rumpsp_idleworker`. -/
structure Config where
  maxcli : Nat
  maxworker : Int
  idleworker : Int

structure System where
  slot : Nat → Slot
  nfds : Nat
  maxidx : Nat
  disco : Nat
  spfini : Bool
  pc : Pc
  idx : Nat
  seen : Nat
  rv : Nat
  wrklist : List Work
  nwork : Int
  idleworker : Int
  nworker : Int
  workers : List Worker
  conns : Nat
  ended : List Nat
  torn : List (TearPhase × Nat)

/-- `spserver` before its first round, listening on `sock`. -/
def System.init (sock : Nat) : System where
  slot i := ⟨if i = 0 then some sock else none, false, if i = 0 then some sock else none, 0, .new,
    none, false, 0⟩
  nfds := 1
  maxidx := 0
  disco := 0
  spfini := false
  pc := .top
  idx := 0
  seen := 0
  rv := 0
  wrklist := []
  nwork := 0
  idleworker := 0
  nworker := 0
  workers := []
  conns := 0
  ended := []
  torn := []

/-- What the threads are given from outside. -/
inductive Event
  /-- `spserver` goes on with what it has. -/
  | go
  /-- `poll` returns `rv > 0` and finds input where `ready` says. -/
  | poll (ready : Nat → Bool) (rv : Nat)
  | pollIntr
  | pollFail
  /-- A connection, or a failure before a slot is looked for. -/
  | accept (newfd : Option Nat)
  /-- `readframe` returns 0, -1 or 1. -/
  | part
  | eof
  | frame (w : Server)
  /-- The waiter that `sbacv` wakes, and whether a thread can be created. -/
  | enqueue (kick : Nat) (created : Bool)
  | worker (k : Nat)
  /-- `spfini` is set. -/
  | fini

namespace System

/-- An update of one slot. -/
def onSlot (i : Nat) (f : Slot → Slot) (s : System) : System :=
  { s with slot := Function.update s.slot i (f (s.slot i)) }

/-! ## References -/

def spcref (i : Nat) : System → System :=
  onSlot i fun x => { x with refcnt := x.refcnt + 1 }

/-- The critical section of `spcrelease`, and whether a tear-down follows. -/
def spcrelease (i : Nat) (s : System) : System × Option Tear :=
  let s := onSlot i (fun x => { x with refcnt := x.refcnt - 1 }) s
  if (s.slot i).refcnt > 0 then (s, none) else (s, some ⟨i, (s.slot i).conn, .mainlwp⟩)

/-- One effect of the tear-down. -/
def tearDown (t : Tear) (s : System) : System :=
  match t.phase with
  | .mainlwp => { onSlot t.slot (fun x => { x with mainlwp := none }) s with
      torn := s.torn ++ [(.mainlwp, (s.slot t.slot).conn)] }
  | .close => { onSlot t.slot (fun x => { x with fd := none }) s with
      torn := s.torn ++ [(.close, (s.slot t.slot).conn)] }
  | .renew => { onSlot t.slot (fun x => { x with state := .new }) s with
      torn := s.torn ++ [(.renew, (s.slot t.slot).conn)] }
  | .signal => { s with disco := s.disco + 1, torn := s.torn ++ [(.signal, t.conn)] }

/-! ## `serv_handledisco` -/

/-- Up to the end of its critical section. -/
def discoLock (i : Nat) (s : System) : System :=
  { onSlot i (fun x => { x with pfd := none, revents := false, state := .dying }) s with
    ended := s.ended ++ [(s.slot i).conn] }

/-- The `memset`. -/
def discoWipe (i : Nat) : System → System := onSlot i fun x => { x with inexec := false }

/-! ## `serv_handleconn` -/

/-- The test for an empty slot. -/
def isFree (x : Slot) : Bool := x.pfd.isNone && x.state = .new

/-- Slot `i` is given to a new connection and its index returned. -/
def occupy (newfd i : Nat) (s : System) : System :=
  { onSlot i (fun x => { x with
      pfd := some newfd
      fd := some newfd
      refcnt := 1
      conn := s.conns + 1 }) s with
    conns := s.conns + 1
    idx := i
    nfds := if i ≠ 0 then s.nfds + 1 else s.nfds
    maxidx := max s.maxidx i
    pc := .next }

/-- One round of the search. -/
def scan (cfg : Config) (newfd i : Nat) (s : System) : System :=
  if i = cfg.maxcli then { s with pc := .aborted }
  else if isFree (s.slot i) then occupy newfd i s
  else { s with pc := .scan newfd (i + 1) }

/-- What follows `accept`. -/
def handleconn (cfg : Config) (newfd : Option Nat) (s : System) : System :=
  match newfd with
  | none => { s with pc := .next }
  | some fd => if s.nfds = cfg.maxcli then { s with pc := .next } else { s with pc := .scan fd 0 }

/-! ## The work list -/

/-- `pthread_cond_signal(&sbacv)`: one sleeper, if there is any. -/
def sbaSignal (kick : Nat) (ws : List Worker) : Option (List Worker) :=
  if ws.any Worker.asleep then
    if (ws[kick]?).any Worker.asleep then some (ws.set kick (.waiting true)) else none
  else some ws

/-- The critical section of `schedulework`. -/
def enqueue (cfg : Config) (w : Work) (kick : Nat) (created : Bool) (s : System) :
    Option System :=
  let s := { s with wrklist := s.wrklist ++ [w], nwork := s.nwork + 1, pc := .next }
  if s.nwork ≤ s.idleworker then
    (sbaSignal kick s.workers).map fun ws => { s with workers := ws }
  else if s.nworker < cfg.maxworker ∧ created then
    some { s with workers := s.workers ++ [.start], nworker := s.nworker + 1 }
  else some s

/-- Worker `k` moves on to `x`. -/
def setWorker (k : Nat) (x : Worker) (s : System) : System :=
  { s with workers := s.workers.set k x }

/-- Inside the wait loop of `serv_workbouncer`: sleep, or take the first item. -/
def fetch (k : Nat) (s : System) : System :=
  match s.wrklist with
  | [] => setWorker k (.waiting false) s
  | w :: ws =>
    let s := { s with wrklist := ws, idleworker := s.idleworker - 1, nwork := s.nwork - 1 }
    setWorker k (match w.sba.type with | .syscall => .syscall w | .exec => .exec w) s

/-- A step of worker `k`. -/
def workerStep (cfg : Config) (k : Nat) (s : System) : Option System :=
  match s.workers[k]? with
  | some .start =>
    if s.idleworker - s.nwork ≥ cfg.idleworker then
      some (setWorker k .gone { s with nworker := s.nworker - 1 })
    else some (fetch k { s with idleworker := s.idleworker + 1 })
  | some (.waiting _) => some (fetch k s)
  | some (.syscall w) => some (setWorker k (.release w) s)
  | some (.exec w) =>
    if (s.slot w.spc).refcnt > 2 then none else some (setWorker k (.notify w) s)
  | some (.notify w) =>
    some (setWorker k (.release w) (onSlot w.spc (fun x => { x with inexec := false }) s))
  | some (.release w) =>
    match spcrelease w.spc s with
    | (s, none) => some (setWorker k .start s)
    | (s, some t) => some (setWorker k (.tear t) s)
  | some (.tear t) =>
    some (setWorker k (match t.next with | some t => .tear t | none => .start)
      (tearDown t s))
  | some .gone => none
  | none => none

/-! ## The main loop -/

/-- The search for the last slot with a descriptor, downwards from `idx`. -/
def lastOpen (slot : Nat → Slot) (maxidx : Nat) : Nat → Nat
  | 0 => maxidx
  | idx + 1 => if (slot (idx + 1)).pfd.isSome then idx + 1 else lastOpen slot maxidx idx

/-- The loop over the connections that are gone; `nfds` is unsigned. -/
def collect : Nat → System → System
  | 0, s => s
  | n + 1, s => collect n { s with
      nfds := if s.nfds = 0 then 4294967295 else s.nfds - 1
      maxidx := lastOpen s.slot s.maxidx s.maxidx }

/-- What `poll` writes. -/
def polled (ready : Nat → Bool) (s : System) : Nat → Slot := fun i =>
  if i ≤ s.maxidx then { s.slot i with revents := ready i && (s.slot i).pfd.isSome } else s.slot i

/-- The server thread's view of the client at `idx`. -/
def view (w : Server) (s : System) : Server :=
  { w with
    spc := { w.spc with
      state := (s.slot s.idx).state
      refcnt := (s.slot s.idx).refcnt
      mainlwp := (s.slot s.idx).mainlwp
      inexec := (s.slot s.idx).inexec }
    wrklist := []
    nworker := s.nworker.toNat }

/-- A complete frame. An item that `schedulework` has made is still in the
hands of the server thread. -/
def frame (w : Server) (s : System) : Option System :=
  match dispatch (view w s) with
  | .error _ => none
  | .ok w =>
    let s := onSlot s.idx (fun x => { x with
      state := w.spc.state
      mainlwp := w.spc.mainlwp
      inexec := w.spc.inexec }) s
    match w.wrklist with
    | [] => some { s with pc := .next }
    | sba :: _ => some { s with pc := .ref ⟨s.idx, (s.slot s.idx).conn, sba⟩ }

/-- A round of the loop over `pfdlist`. -/
def eachStep (cfg : Config) (e : Event) (s : System) : Option System :=
  if ¬ (s.seen < s.rv ∧ s.idx < cfg.maxcli) then
    match e with
    | .go => some { s with pc := .top }
    | _ => none
  else if (s.slot s.idx).revents = false then
    match e with
    | .go => some { s with pc := .next }
    | _ => none
  else
    let s := { s with seen := s.seen + 1 }
    if s.idx > 0 then
      match e with
      | .part => some { s with pc := .next }
      | .eof => some { discoLock s.idx s with pc := .wipe s.idx .next }
      | .frame w => frame w s
      | _ => none
    else
      match e with
      | .accept newfd =>
        if s.spfini then some { s with pc := .shutdown 1 } else some (handleconn cfg newfd s)
      | _ => none

/-- A round of `serv_shutdown`, which drops a second reference. -/
def shutdownStep (cfg : Config) (i : Nat) (s : System) : System :=
  if i ≥ cfg.maxcli then { s with pc := .exited }
  else if (s.slot i).fd = none then { s with pc := .shutdown (i + 1) }
  else { discoLock i s with pc := .wipe i (.release i (.shutdown (i + 1))) }

/-- A step of `spserver`. -/
def mainStep (cfg : Config) (e : Event) (s : System) : Option System :=
  match s.pc, e with
  | .top, .go => some { collect s.disco { s with disco := 0 } with pc := .poll }
  | .poll, .poll ready rv =>
    if rv = 0 then none
    else some { s with slot := polled ready s, rv := rv, seen := 0, idx := 0, pc := .each }
  | .poll, .pollIntr => some { s with pc := .top }
  | .poll, .pollFail => some { s with pc := .exited }
  | .each, e => eachStep cfg e s
  | .next, .go => some { s with idx := s.idx + 1, pc := .each }
  | .scan newfd i, .go => some (scan cfg newfd i s)
  | .ref w, .go => some { spcref w.spc s with pc := .queue w }
  | .queue w, .enqueue kick created => enqueue cfg w kick created s
  | .wipe i k, .go => some { discoWipe i s with pc := .release i k }
  | .release i k, .go =>
    match spcrelease i s with
    | (s, none) => some { s with pc := k }
    | (s, some t) => some { s with pc := .tear t k }
  | .tear t k, .go =>
    some { tearDown t s with pc := match t.next with | some t => .tear t k | none => k }
  | .shutdown i, .go => some (shutdownStep cfg i s)
  | _, _ => none

/-- A step of the whole system. -/
def step (cfg : Config) (s : System) (e : Event) : Option System :=
  match e with
  | .worker k => workerStep cfg k s
  | .fini => some { s with spfini := true }
  | e => mainStep cfg e s

end System

end Frankenlibc.Sysproxy

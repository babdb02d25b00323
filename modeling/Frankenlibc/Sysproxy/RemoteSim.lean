import Mathlib.Data.List.Nodup
import Frankenlibc.Sysproxy.RemoteWire

/-!
# The process with its requests served

A request counts as served when it is sent: the process that makes its own
system calls is the process of the client once the requests on their way have
been served, in the order they were sent in. What a worker will be told is then
settled too, long before the reply has been sent.

The other direction of the connection orders the rest: the response to a system
call lies behind all the requests sent for it, so when a thread has its result
the process has what the system call did to it.
-/
namespace Frankenlibc.Sysproxy.Remote

open Frankenlibc.Lib

variable {κ : Type} {K : Kernel κ} {os : Os}

/-! ## Requests on their way -/

/-- The replies to the requests on their way. -/
def due (os : Os) : Proc → List Downward → List (Nat × Answer)
  | _, [] => []
  | p, .ask _ reqno _ a :: ms =>
    let r := p.serve os a
    if a.waits then (reqno, r.2) :: due os r.1 ms else due os r.1 ms
  | p, .ret _ _ _ _ :: ms => due os p ms

/-- A reply, with the number it is for. -/
def Upward.answer : Upward → Option (Nat × Answer)
  | .request _ _ _ _ => none
  | .bytes reqno bs _ => some (reqno, .bytes bs)
  | .addr reqno a => some (reqno, .addr a)

/-- A system call that has been sent. -/
def Upward.call : Upward → Option (Nat × Nat × List UInt8)
  | .request reqno sysnum data _ => some (reqno, sysnum.toNat, data)
  | .bytes _ _ _ => none
  | .addr _ _ => none

/-- The replies that have been sent, and those that will be. -/
def Net.replies (os : Os) (n : Net κ) : List (Nat × Answer) :=
  n.up.filterMap Upward.answer ++ due os n.proc n.down

/-- The system calls no worker has taken. -/
def Net.calls (n : Net κ) : List (Nat × Nat × List UInt8) :=
  n.queue ++ n.up.filterMap Upward.call

theorem serveAll_append (p : Proc) (l₁ l₂ : List (Nat × Ask)) :
    p.serveAll os (l₁ ++ l₂) = (p.serveAll os l₁).serveAll os l₂ :=
  List.foldl_append

theorem due_append (p : Proc) (l₁ l₂ : List Downward) :
    due os p (l₁ ++ l₂) = due os p l₁ ++ due os (p.serveAll os (asksOf l₁)) l₂ := by
  induction l₁ generalizing p with
  | nil => rfl
  | cons m ms ih =>
    cases m with
    | ret c error pad retval => exact ih p
    | ask c reqno junk a =>
      simp only [List.cons_append, due, ih]
      split
      · rfl
      · rfl

/-- The replies to a request are those that were due. -/
theorem replies_due (p : Proc) (c reqno junk : Nat) (a : Ask) (ms : List Downward) :
    due os p (.ask c reqno junk a :: ms) =
      (p.replies os reqno a).filterMap Upward.answer ++ due os (p.serve os a).1 ms := by
  cases a <;> rfl

theorem replies_calls (p : Proc) (reqno : Nat) (a : Ask) :
    (p.replies os reqno a).filterMap Upward.call = [] := by
  cases a <;> rfl

/-- A request is answered with what it asks for. -/
theorem serve_fits (p : Proc) {a : Ask} (h : a.waits = true) : a.Fits (p.serve os a).2 := by
  cases a with
  | copyin raddr len hlen => exact ⟨_, rfl, Bytes.length_slice ..⟩
  | copyinstr raddr len hlen => exact ⟨_, rfl⟩
  | anonmmap howmuch => exact ⟨_, rfl⟩
  | copyout raddr data hdata => cases h
  | raise signo => cases h

/-- The others are answered with nothing. -/
theorem serve_done (p : Proc) {a : Ask} (h : ¬ a.waits = true) : (p.serve os a).2 = .done := by
  cases a with
  | copyout raddr data hdata => rfl
  | raise signo => rfl
  | copyin raddr len hlen => exact absurd rfl h
  | copyinstr raddr len hlen => exact absurd rfl h
  | anonmmap howmuch => exact absurd rfl h

/-! ## Writes of the process itself -/

/-- A thread writes to the memory. -/
def Proc.poke (p : Proc) (x : Nat) (bs : List UInt8) : Proc := { p with mem := p.mem.blit x bs }

theorem strSpan_congr {m m' : Bytes} {a n : Nat} (h : ∀ x, a ≤ x → x < a + n → m' x = m x) :
    strSpan m' a n = strSpan m a n := by
  induction n generalizing a with
  | zero => rfl
  | succ n ih =>
    rw [strSpan, strSpan, h a (Nat.le_refl a) (by omega), ih fun x hl hr => h x (by omega) (by omega)]

/-- A write elsewhere may as well come after the request. -/
theorem serve_poke (p : Proc) {a : Ask} {x : Nat} {bs : List UInt8} (h : a.apart x bs.length) :
    (p.poke x bs).serve os a = ((p.serve os a).1.poke x bs, (p.serve os a).2) := by
  have hsame {b n : Nat} (hd : x + bs.length ≤ b ∨ b + n ≤ x) :
      ∀ y, b ≤ y → y < b + n → p.mem.blit x bs y = p.mem y :=
    fun y hl hr => Bytes.blit_outside (by omega)
  cases a with
  | copyin raddr len hlen =>
    simp only [Proc.serve, Proc.poke, Bytes.slice_congr (hsame h)]
  | copyinstr raddr len hlen =>
    have hle := strSpan_le p.mem raddr.toNat len
    have hspan := strSpan_congr (hsame h)
    have hslice : (p.mem.blit x bs).slice raddr.toNat (strSpan p.mem raddr.toNat len) =
        p.mem.slice raddr.toNat (strSpan p.mem raddr.toNat len) :=
      Bytes.slice_congr fun y hl hr => hsame h y hl (by omega)
    simp only [Proc.serve, Proc.poke, hspan, hslice]
  | copyout raddr data hdata => simp only [Proc.serve, Proc.poke, Bytes.blit_comm h]
  | anonmmap howmuch => rfl
  | raise signo => rfl

/-- A write away from all requests may as well come after them. -/
theorem drain_poke {x : Nat} {bs : List UInt8} (p : Proc) (ms : List Downward)
    (h : ∀ q ∈ asksOf ms, q.2.apart x bs.length) :
    (p.poke x bs).serveAll os (asksOf ms) = (p.serveAll os (asksOf ms)).poke x bs ∧
      due os (p.poke x bs) ms = due os p ms := by
  induction ms generalizing p with
  | nil => exact ⟨rfl, rfl⟩
  | cons m ms ih =>
    cases m with
    | ret c error pad retval => exact ih p h
    | ask c reqno junk a =>
      have ha := @serve_poke os p a x bs (h (c, a) List.mem_cons_self)
      have hrest := ih (p.serve os a).1 fun q hq => h q (List.mem_cons_of_mem _ hq)
      constructor
      · show (((p.poke x bs).serve os a).1).serveAll os (asksOf ms) = _
        rw [ha]
        exact hrest.1
      · simp only [due, ha, hrest.2]

/-! ## The relation -/

/-- The response to a system call is not followed by a request for it. -/
def Downward.Behind : Downward → Downward → Prop
  | .ret c _ _ _, .ask c' _ _ _ => c ≠ c'
  | _, _ => True

structure Sim (os : Os) (n : Net κ) (a : Local κ) : Prop where
  kern : a.kern = n.kern
  proc : a.proc = n.proc.serveAll os (asksOf n.down)
  next : a.next = n.cnext
  thread : a.thread = n.thread
  results : a.results = n.results
  unborn : ∀ c, n.cnext ≤ c → a.job c = .absent
  called : ∀ q ∈ n.calls, a.job q.1 = .queued q.2.1 q.2.2
  distinct : (n.calls.map Prod.fst).Nodup
  running : ∀ c, n.job c = .running → a.job c = .running
  waiting : ∀ c reqno ask, n.job c = .waiting reqno ask → reqno < n.snext ∧
    ∃ x, a.job c = .answered x ∧ ask.Fits x ∧ (∀ y, (reqno, y) ∈ n.replies os → y = x) ∧
      ∀ y, (reqno, some y) ∈ n.swait → y = x
  issued : (∀ r ∈ n.replies os, r.1 < n.snext) ∧ ∀ w ∈ n.swait, w.1 < n.snext
  ended : ∀ c error pad retval, .ret c error pad retval ∈ n.down → a.job c = .ended error retval
  woken : ∀ c r, (c, some r) ∈ n.cwait → a.job c = .ended r.1 r.2
  returned : ∀ r ∈ n.results, a.job r.call = .ended r.error r.retval
  behind : n.down.Pairwise Downward.Behind
  after : ∀ p ∈ asksOf n.down, (∀ r, (p.1, some r) ∉ n.cwait) ∧ ∀ r ∈ n.results, p.1 ≠ r.call

theorem mem_give {α : Type} {reqno : Nat} {x : α} {ws : List (Nat × Option α)}
    {w : Nat × Option α} (h : w ∈ give reqno x ws) : w = (reqno, some x) ∨ w ∈ ws := by
  induction ws with
  | nil => cases h
  | cons v vs ih =>
    rw [give] at h
    split at h
    · rename_i hv
      rcases List.mem_cons.mp h with h | h
      · exact .inl (by rw [h, hv])
      · exact .inr (List.mem_cons_of_mem _ h)
    · rcases List.mem_cons.mp h with h | h
      · exact .inr (by rw [h]; exact List.mem_cons_self)
      · exact (ih h).imp_right (List.mem_cons_of_mem _)

theorem mem_of_given {α : Type} {reqno : Nat} {x : α} {ws : List (Nat × Option α)}
    (h : given reqno ws = some x) : (reqno, some x) ∈ ws := by
  obtain ⟨w, hw, hx⟩ := Option.bind_eq_some_iff.mp h
  have hkey : w.1 = reqno := by simpa using List.find?_some hw
  rw [← hkey, ← hx]
  exact List.mem_of_find?_eq_some hw

/-- A step of one system call leaves what is said of the others. -/
theorem update_other {job : Nat → LocalJob} {c c' : Nat} {v v' : LocalJob} (w : LocalJob)
    (h : job c' = v') (hc : job c = v) (hne : v' ≠ v) : Function.update job c w c' = v' := by
  have hcc : c' ≠ c := by
    intro heq
    rw [heq, hc] at h
    exact hne h.symm
  rw [Function.update_of_ne hcc, h]

theorem job_of_update {job : Nat → Job} {c c' : Nat} {v w : Job}
    (h : Function.update job c w c' = v) (hne : w ≠ v) : c' ≠ c ∧ job c' = v := by
  have hcc : c' ≠ c := by
    intro heq
    rw [heq, Function.update_self] at h
    exact hne h
  rw [Function.update_of_ne hcc] at h
  exact ⟨hcc, h⟩

variable {n n' : Net κ} {a : Local κ}

/-! ## The client -/

theorem calls_call (n : Net κ) (t : Nat) (sysnum : UInt32) (data : List UInt8)
    (hd : HDRSZ + data.length < 18446744073709551616) :
    (n.call t sysnum data hd).calls = n.calls ++ [(n.cnext, sysnum.toNat, data)] := by
  simp [Net.call, Net.calls, Upward.call]

theorem replies_call (n : Net κ) (t : Nat) (sysnum : UInt32) (data : List UInt8)
    (hd : HDRSZ + data.length < 18446744073709551616) :
    (n.call t sysnum data hd).replies os = n.replies os := by
  simp [Net.call, Net.replies, Upward.answer]

/-- A new system call has a new number. -/
theorem Sim.fresh (h : Sim os n a) : n.cnext ∉ n.calls.map Prod.fst := by
  intro hc
  obtain ⟨q, hq, hkey⟩ := List.mem_map.mp hc
  have hjob := h.called q hq
  rw [hkey, h.unborn _ (Nat.le_refl _)] at hjob
  cases hjob

theorem sim_call (h : Sim os n a) {t : Nat} {sysnum : UInt32} {data : List UInt8}
    {hd : HDRSZ + data.length < 18446744073709551616}
    (hs : Net.step K os n (.call t sysnum data hd) = some n') :
    ∃ a', localStep K os a (.call t sysnum data) = some a' ∧ Sim os n' a' := by
  simp only [Net.step] at hs
  split at hs
  swap
  · cases hs
  rename_i ht
  cases hs
  have hnew : a.job n.cnext = .absent := h.unborn _ (Nat.le_refl _)
  have hold {c : Nat} {v : LocalJob} (hc : a.job c = v) (hv : v ≠ .absent) :
      Function.update a.job n.cnext (.queued sysnum.toNat data) c = v :=
    update_other _ hc hnew hv
  have hcwait : ∀ c r, (c, some r) ∈ n.cwait ++ [(n.cnext, none)] → (c, some r) ∈ n.cwait := by
    intro c r hr
    simpa using hr
  refine ⟨_, by rw [localStep, if_pos (by rw [h.thread]; exact ht)], ?_⟩
  rw [h.next, h.thread]
  refine { h with
    next := rfl
    thread := rfl
    unborn := ?_
    called := ?_
    distinct := ?_
    running := fun c hc => hold (h.running c hc) (by simp)
    waiting := ?_
    issued := by rw [replies_call]; exact h.issued
    ended := fun c e pad rv hc => hold (h.ended c e pad rv hc) (by simp)
    woken := fun c r hc => hold (h.woken c r (hcwait c r hc)) (by simp)
    returned := fun r hr => hold (h.returned r hr) (by simp)
    after := fun p hp => ⟨fun r hr => (h.after p hp).1 r (hcwait _ r hr), (h.after p hp).2⟩ }
  · intro c hc
    have hlt : n.cnext < c := hc
    show Function.update a.job n.cnext _ c = _
    rw [Function.update_of_ne (Nat.ne_of_gt hlt)]
    exact h.unborn c (Nat.le_of_lt hlt)
  · rw [calls_call]
    intro q hq
    rcases List.mem_append.mp hq with hq | hq
    · exact hold (h.called q hq) (by simp)
    · rw [List.mem_singleton] at hq
      subst hq
      exact Function.update_self ..
  · rw [calls_call, List.map_append, List.map_singleton, ← List.concat_eq_append]
    exact List.Nodup.concat h.fresh h.distinct
  · intro c reqno ask hc
    obtain ⟨hlt, x, hx, hf, hr⟩ := h.waiting c reqno ask hc
    exact ⟨hlt, x, hold hx (by simp), hf, by rw [replies_call]; exact hr⟩

theorem calls_take (n : Net κ) (m : Downward) (ms : List Downward) :
    (n.take os m ms).calls = n.calls := by
  cases m with
  | ask c reqno junk b => simp [Net.take, Net.calls, replies_calls]
  | ret c error pad retval => rfl

theorem replies_take {m : Downward} {ms : List Downward} (hm : n.down = m :: ms) :
    (n.take os m ms).replies os = n.replies os := by
  cases m with
  | ask c reqno junk b => simp [Net.take, Net.replies, hm, replies_due]
  | ret c error pad retval => simp [Net.take, Net.replies, hm, due]

/-- The client takes a message: nothing that the process alone would notice. -/
theorem sim_take (h : Sim os n a) {m : Downward} {ms : List Downward} (hm : n.down = m :: ms) :
    Sim os (n.take os m ms) a := by
  have hcalls := @calls_take κ os n m ms
  have hreplies := @replies_take κ os n m ms hm
  have hbehind := h.behind
  rw [hm, List.pairwise_cons] at hbehind
  cases m with
  | ask c reqno junk b =>
    have hproc := h.proc
    rw [hm] at hproc
    refine { h with
      proc := hproc
      called := by rw [hcalls]; exact h.called
      distinct := by rw [hcalls]; exact h.distinct
      waiting := by rw [hreplies]; exact h.waiting
      issued := by rw [hreplies]; exact h.issued
      ended := ?_
      behind := hbehind.2
      after := ?_ }
    · intro c' e pad rv hc
      exact h.ended c' e pad rv (by rw [hm]; exact List.mem_cons_of_mem _ hc)
    · intro p hp
      exact h.after p (by rw [hm]; exact List.mem_cons_of_mem _ hp)
  | ret c error pad retval =>
    have hproc := h.proc
    have hafter := h.after
    have hover := h.ended c error pad retval (by rw [hm]; exact List.mem_cons_self)
    rw [hm] at hproc hafter
    refine { h with
      proc := hproc
      waiting := by rw [hreplies]; exact h.waiting
      issued := by rw [hreplies]; exact h.issued
      ended := ?_
      woken := ?_
      behind := hbehind.2
      after := ?_ }
    · intro c' e pad' rv hc
      exact h.ended c' e pad' rv (by rw [hm]; exact List.mem_cons_of_mem _ hc)
    · intro c' r hr
      rcases mem_give hr with heq | hr
      · cases heq
        exact hover
      · exact h.woken c' r hr
    · -- the requests for `c` were in front of its response
      intro p hp
      refine ⟨fun r hr => ?_, (hafter p hp).2⟩
      rcases mem_give hr with heq | hr
      · obtain ⟨m, hmem, hpm⟩ := List.mem_filterMap.mp hp
        cases m with
        | ret c' e' pad' rv' => cases hpm
        | ask c' reqno junk b =>
          cases hpm
          cases heq
          exact hbehind.1 _ hmem rfl
      · exact (hafter p hp).1 r hr

/-! ## The server -/

theorem Sim.gives (h : Sim os n a) {m : Upward} {ms : List Upward} (hm : n.up = m :: ms)
    {reqno : Nat} {x : Answer} (hx : m.answer = some (reqno, x)) (hc : m.call = none) :
    Sim os { n with up := ms, swait := give reqno x n.swait } a := by
  have hreplies : n.replies os =
      (reqno, x) :: ({ n with up := ms, swait := give reqno x n.swait } : Net κ).replies os := by
    simp [Net.replies, hm, hx]
  have hcalls : ({ n with up := ms, swait := give reqno x n.swait } : Net κ).calls = n.calls := by
    simp [Net.calls, hm, hc]
  have hhead : (reqno, x) ∈ n.replies os := by
    rw [hreplies]
    exact List.mem_cons_self
  refine { h with
    called := by rw [hcalls]; exact h.called
    distinct := by rw [hcalls]; exact h.distinct
    waiting := ?_
    issued := ⟨?_, ?_⟩ }
  · intro c reqno' ask hj
    obtain ⟨hlt, x', hx', hf, hr, hw⟩ := h.waiting c reqno' ask hj
    refine ⟨hlt, x', hx', hf, fun y hy => ?_, fun y hy => ?_⟩
    · exact hr y (by rw [hreplies]; exact List.mem_cons_of_mem _ hy)
    · rcases mem_give hy with heq | hy
      · cases heq
        exact hr x hhead
      · exact hw y hy
  · intro r hr
    exact h.issued.1 r (by rw [hreplies]; exact List.mem_cons_of_mem _ hr)
  · intro w hw
    rcases mem_give hw with rfl | hw
    · exact h.issued.1 _ hhead
    · exact h.issued.2 w hw

theorem calls_accept {reqno : Nat} {sysnum : UInt32} {data : List UInt8}
    {hd : HDRSZ + data.length < 18446744073709551616} {ms : List Upward}
    (hm : n.up = .request reqno sysnum data hd :: ms) :
    (n.accept (.request reqno sysnum data hd) ms).calls = n.calls := by
  simp [Net.accept, Net.calls, hm, Upward.call]

theorem replies_accept {reqno : Nat} {sysnum : UInt32} {data : List UInt8}
    {hd : HDRSZ + data.length < 18446744073709551616} {ms : List Upward}
    (hm : n.up = .request reqno sysnum data hd :: ms) :
    (n.accept (.request reqno sysnum data hd) ms).replies os = n.replies os := by
  simp [Net.accept, Net.replies, hm, List.filterMap_cons, Upward.answer]

theorem sim_accept (h : Sim os n a) {m : Upward} {ms : List Upward} (hm : n.up = m :: ms) :
    Sim os (n.accept m ms) a := by
  cases m with
  | bytes reqno bs hbs => exact h.gives hm rfl rfl
  | addr reqno b => exact h.gives hm rfl rfl
  | request reqno sysnum data hd =>
    have hcalls := calls_accept hm
    have hreplies := @replies_accept κ os n reqno sysnum data hd ms hm
    exact { h with
      called := by rw [hcalls]; exact h.called
      distinct := by rw [hcalls]; exact h.distinct
      waiting := by rw [hreplies]; exact h.waiting
      issued := by rw [hreplies]; exact h.issued }

/-- The system call `c` leaves a phase that only it is in. -/
theorem Sim.dequeue (h : Sim os n a) {q : Nat × Nat × List UInt8} {qs : List (Nat × Nat × List UInt8)}
    (hq : n.queue = q :: qs) : Sim os { n with queue := qs } a ∧
      a.job q.1 = .queued q.2.1 q.2.2 ∧ q.1 ∉ ({ n with queue := qs } : Net κ).calls.map Prod.fst := by
  have hcalls : n.calls = q :: ({ n with queue := qs } : Net κ).calls := by
    simp [Net.calls, hq]
  have hd := h.distinct
  rw [hcalls, List.map_cons, List.nodup_cons] at hd
  refine ⟨{ h with called := ?_, distinct := hd.2 }, ?_, hd.1⟩
  · intro q' hq'
    exact h.called q' (by rw [hcalls]; exact List.mem_cons_of_mem _ hq')
  · exact h.called q (by rw [hcalls]; exact List.mem_cons_self)

theorem Sim.called_update (h : Sim os n a) {c : Nat} (hc : c ∉ n.calls.map Prod.fst) (v : LocalJob) :
    ∀ q ∈ n.calls, Function.update a.job c v q.1 = .queued q.2.1 q.2.2 := by
  intro q hq
  rw [Function.update_of_ne]
  · exact h.called q hq
  · intro heq
    exact hc (heq ▸ List.mem_map_of_mem hq)

theorem Sim.unborn_update (h : Sim os n a) {c : Nat} {v : LocalJob} (hc : a.job c = v)
    (hv : v ≠ .absent) (w : LocalJob) : ∀ c', n.cnext ≤ c' → Function.update a.job c w c' = .absent :=
  fun c' hc' => update_other w (h.unborn c' hc') hc hv.symm

theorem replies_respond (n : Net κ) (c error pad : Nat) (retval : Nat × Nat) :
    (n.respond c error pad retval).replies os = n.replies os := by
  simp [Net.respond, Net.replies, due_append, due]

theorem sim_respond (h : Sim os n a) {c error pad : Nat} {retval : Nat × Nat} {v : LocalJob}
    (hv : a.job c = v) (hopen : v ≠ .absent ∧ ∀ e rv, .ended e rv ≠ v)
    (hc : c ∉ n.calls.map Prod.fst) :
    Sim os (n.respond c error pad retval)
      { a with job := Function.update a.job c (.ended error retval) } := by
  have hasks : asksOf (n.down ++ [Downward.ret c error pad retval]) = asksOf n.down := by
    simp [asksOf]
  have hreplies := @replies_respond κ os n c error pad retval
  have hover {c' e : Nat} {rv : Nat × Nat} (hj : a.job c' = .ended e rv) :
      Function.update a.job c (.ended error retval) c' = .ended e rv :=
    update_other _ hj hv (hopen.2 e rv)
  have hother {c' : Nat} (hne : c' ≠ c) :
      Function.update a.job c (.ended error retval) c' = a.job c' := Function.update_of_ne hne _ _
  refine { h with
    proc := by rw [Net.respond, hasks]; exact h.proc
    unborn := h.unborn_update hv hopen.1 _
    called := h.called_update hc _
    running := ?_
    waiting := ?_
    issued := by rw [hreplies]; exact h.issued
    ended := ?_
    woken := fun c' r hr => hover (h.woken c' r hr)
    returned := fun r hr => hover (h.returned r hr)
    behind := ?_
    after := by rw [Net.respond, hasks]; exact h.after }
  · intro c' hj
    obtain ⟨hne, hj⟩ := job_of_update hj (by simp)
    exact (hother hne).trans (h.running c' hj)
  · intro c' reqno ask hj
    obtain ⟨hne, hj⟩ := job_of_update hj (by simp)
    obtain ⟨hlt, x, hx, hf, hr⟩ := h.waiting c' reqno ask hj
    exact ⟨hlt, x, (hother hne).trans hx, hf, by rw [hreplies]; exact hr⟩
  · intro c' e pad' rv hm
    rcases List.mem_append.mp hm with hm | hm
    · exact hover (h.ended c' e pad' rv hm)
    · rw [List.mem_singleton] at hm
      cases hm
      exact Function.update_self ..
  · show (n.down ++ [Downward.ret c error pad retval]).Pairwise Downward.Behind
    rw [List.pairwise_append]
    refine ⟨h.behind, List.pairwise_singleton _ _, ?_⟩
    intro m _ m' hm'
    rw [List.mem_singleton] at hm'
    subst hm'
    cases m <;> exact trivial

/-- A system call whose job is not over moves to a phase of the kernel. -/
theorem Sim.enters (h : Sim os n a) {c : Nat} {v : LocalJob} (hv : a.job c = v)
    (hopen : v ≠ .absent ∧ ∀ e rv, .ended e rv ≠ v) (hc : c ∉ n.calls.map Prod.fst) (k : κ) :
    Sim os { n with kern := k, job := Function.update n.job c .running }
      { a with kern := k, job := Function.update a.job c .running } := by
  have hover {c' e : Nat} {rv : Nat × Nat} (hj : a.job c' = .ended e rv) :
      Function.update a.job c .running c' = .ended e rv :=
    update_other _ hj hv (hopen.2 e rv)
  refine { h with
    kern := rfl
    unborn := h.unborn_update hv hopen.1 _
    called := h.called_update hc _
    running := ?_
    waiting := ?_
    ended := fun c' e pad rv hm => hover (h.ended c' e pad rv hm)
    woken := fun c' r hr => hover (h.woken c' r hr)
    returned := fun r hr => hover (h.returned r hr) }
  · intro c' hj
    by_cases hcc : c' = c
    · rw [hcc]
      exact Function.update_self ..
    · replace hj : Function.update n.job c .running c' = .running := hj
      rw [Function.update_of_ne hcc] at hj
      exact (Function.update_of_ne hcc _ _).trans (h.running c' hj)
  · intro c' reqno ask hj
    obtain ⟨hne, hj⟩ := job_of_update hj (by simp)
    obtain ⟨hlt, x, hx, hrest⟩ := h.waiting c' reqno ask hj
    exact ⟨hlt, x, (Function.update_of_ne hne _ _).trans hx, hrest⟩

theorem local_enter {c sysnum : Nat} {data : List UInt8} (h : a.job c = .queued sysnum data) :
    localStep K os a (.enter c none) = some { a with
      kern := K.enter a.kern c sysnum data
      job := Function.update a.job c .running } := by
  simp only [localStep, h]

theorem local_refuse {c sysnum : Nat} {data : List UInt8} (h : a.job c = .queued sysnum data)
    (rv : UInt32) : localStep K os a (.enter c (some rv)) = some { a with
      job := Function.update a.job c (.ended rv.toNat noLwp) } := by
  simp only [localStep, h]

theorem local_resume {c : Nat} {x : Answer} (h : a.job c = .answered x) :
    localStep K os a (.resume c) = some { a with
      kern := K.answer a.kern c x
      job := Function.update a.job c .running } := by
  simp only [localStep, h]

theorem local_ask {c : Nat} {b : Ask} (h : a.job c = .running) (hk : K.next a.kern c = .ask b) :
    localStep K os a (.work c) = some { a with
      proc := (a.proc.serve os b).1
      job := Function.update a.job c (.answered (a.proc.serve os b).2) } := by
  simp only [localStep, h, hk]

theorem sim_start (h : Sim os n a) {lwp : Option UInt32} {pad : Nat}
    (hs : Net.step K os n (.start lwp pad) = some n') :
    ∃ e a', localStep K os a e = some a' ∧ Sim os n' a' ∧ e.seen = none := by
  cases hq : n.queue with
  | nil =>
    simp only [Net.step, hq] at hs
    cases hs
  | cons q qs =>
    obtain ⟨c, sysnum, data⟩ := q
    obtain ⟨hsim, hjob, hfree⟩ := h.dequeue hq
    simp only [Net.step, hq] at hs
    cases lwp with
    | some rv =>
      cases hs
      exact ⟨.enter c (some rv), _, local_refuse hjob rv,
        sim_respond hsim hjob ⟨by simp, by simp⟩ hfree, rfl⟩
    | none =>
      cases hs
      refine ⟨.enter c none, _, local_enter hjob, ?_, rfl⟩
      rw [h.kern]
      exact hsim.enters hjob ⟨by simp, by simp⟩ hfree _

/-- No system call is both with the client and in the kernel. -/
theorem Sim.free (h : Sim os n a) {c : Nat} {v : LocalJob} (hv : a.job c = v)
    (hne : ∀ num d, v ≠ .queued num d) : c ∉ n.calls.map Prod.fst := by
  intro hc
  obtain ⟨q, hq, rfl⟩ := List.mem_map.mp hc
  exact hne _ _ (hv.symm.trans (h.called q hq))

/-- What a request adds to those on their way: nothing behind the response to
its system call. -/
theorem Sim.snoc_ask (h : Sim os n a) {c junk : Nat} (hj : a.job c = .running) (b : Ask) :
    (n.down ++ [Downward.ask c n.snext junk b]).Pairwise Downward.Behind ∧
      (∀ c' error pad retval, Downward.ret c' error pad retval ∈
        n.down ++ [Downward.ask c n.snext junk b] → a.job c' = .ended error retval) ∧
      ∀ p ∈ asksOf (n.down ++ [Downward.ask c n.snext junk b]),
        (∀ r, (p.1, some r) ∉ n.cwait) ∧ ∀ r ∈ n.results, p.1 ≠ r.call := by
  have hopen {e : Nat} {rv : Nat × Nat} : a.job c ≠ .ended e rv := by
    rw [hj]
    simp
  refine ⟨?_, ?_, ?_⟩
  · rw [List.pairwise_append]
    refine ⟨h.behind, List.pairwise_singleton _ _, ?_⟩
    intro m hm m' hm'
    rw [List.mem_singleton] at hm'
    subst hm'
    cases m with
    | ask => exact trivial
    | ret c' e pad rv =>
      intro heq
      subst heq
      exact hopen (h.ended c' e pad rv hm)
  · intro c' e pad rv hm
    rcases List.mem_append.mp hm with hm | hm
    · exact h.ended c' e pad rv hm
    · rw [List.mem_singleton] at hm
      cases hm
  · intro p hp
    rw [asksOf_append] at hp
    rcases List.mem_append.mp hp with hp | hp
    · exact h.after p hp
    · have hpc : p = (c, b) := by simpa [asksOf] using hp
      subst hpc
      refine ⟨fun r hr => hopen (h.woken c r hr), fun r hr heq => ?_⟩
      subst heq
      exact hopen (h.returned r hr)

theorem serveAll_snoc (p : Proc) (ms : List Downward) (c reqno junk : Nat) (b : Ask) :
    p.serveAll os (asksOf (ms ++ [Downward.ask c reqno junk b])) =
      ((p.serveAll os (asksOf ms)).serve os b).1 := by
  rw [asksOf_append, serveAll_append]
  rfl

theorem replies_ask_waits (n : Net κ) (c junk : Nat) {b : Ask} (hb : b.waits = true) :
    (n.ask K c junk b).replies os = n.replies os ++
      [(n.snext, ((n.proc.serveAll os (asksOf n.down)).serve os b).2)] := by
  simp [Net.ask, Net.replies, due_append, due, hb]

theorem replies_ask_done (n : Net κ) (c junk : Nat) {b : Ask} (hb : ¬ b.waits = true) :
    (n.ask K c junk b).replies os = n.replies os := by
  simp [Net.ask, Net.replies, due_append, due, hb]

theorem numbered_of_waits {b : Ask} (hb : b.waits = true) : b.numbered = true := by
  cases b with
  | raise signo => cases hb
  | _ => rfl

/-- A request whose sender waits: the process alone has the answer at once. -/
theorem sim_ask_waits (h : Sim os n a) {c : Nat} (junk : Nat) {b : Ask} (hb : b.waits = true)
    (hj : a.job c = .running) :
    Sim os (n.ask K c junk b) { a with
      proc := (a.proc.serve os b).1
      job := Function.update a.job c (.answered (a.proc.serve os b).2) } := by
  obtain ⟨hbehind, hret, hafter⟩ := @Sim.snoc_ask _ _ _ _ h c junk hj b
  have hreplies : (n.ask K c junk b).replies os =
      n.replies os ++ [(n.snext, (a.proc.serve os b).2)] := by
    rw [h.proc]
    exact replies_ask_waits n c junk hb
  have hover {c' e : Nat} {rv : Nat × Nat} (hc : a.job c' = .ended e rv) :
      Function.update a.job c (.answered (a.proc.serve os b).2) c' = .ended e rv :=
    update_other _ hc hj (by simp)
  have hsnext : (n.ask K c junk b).snext = n.snext + 1 := if_pos (numbered_of_waits hb)
  have hswait : (n.ask K c junk b).swait = n.swait ++ [(n.snext, none)] := if_pos hb
  have hjob : (n.ask K c junk b).job = Function.update n.job c (.waiting n.snext b) := if_pos hb
  refine {
    kern := by rw [h.kern]; exact (if_pos hb).symm
    proc := by rw [h.proc]; exact (serveAll_snoc ..).symm
    next := h.next
    thread := h.thread
    results := h.results
    unborn := h.unborn_update hj (by simp) _
    called := h.called_update (h.free hj (by simp)) _
    distinct := h.distinct
    running := ?_
    waiting := ?_
    issued := ?_
    ended := fun c' e pad rv hm => hover (hret c' e pad rv hm)
    woken := fun c' r hr => hover (h.woken c' r hr)
    returned := fun r hr => hover (h.returned r hr)
    behind := hbehind
    after := hafter }
  · rw [hjob]
    intro c' hc'
    obtain ⟨hne, hc'⟩ := job_of_update hc' (by simp)
    exact (Function.update_of_ne hne _ _).trans (h.running c' hc')
  · rw [hjob, hsnext, hswait, hreplies]
    intro c' reqno b' hc'
    by_cases hcc : c' = c
    · subst hcc
      rw [Function.update_self] at hc'
      cases hc'
      refine ⟨Nat.lt_succ_self _, _, Function.update_self .., serve_fits _ hb, ?_, ?_⟩
      · intro y hy
        rcases List.mem_append.mp hy with hy | hy
        · exact absurd (h.issued.1 _ hy) (Nat.lt_irrefl _)
        · simpa using hy
      · intro y hy
        rcases List.mem_append.mp hy with hy | hy
        · exact absurd (h.issued.2 _ hy) (Nat.lt_irrefl _)
        · simp at hy
    · rw [Function.update_of_ne hcc] at hc'
      obtain ⟨hlt, x, hx, hf, hr, hw⟩ := h.waiting c' reqno b' hc'
      refine ⟨Nat.lt_succ_of_lt hlt, x, (Function.update_of_ne hcc _ _).trans hx, hf, ?_, ?_⟩
      · intro y hy
        rcases List.mem_append.mp hy with hy | hy
        · exact hr y hy
        · simp only [List.mem_singleton, Prod.mk.injEq] at hy
          omega
      · intro y hy
        rcases List.mem_append.mp hy with hy | hy
        · exact hw y hy
        · simp at hy
  · rw [hsnext, hswait, hreplies]
    refine ⟨fun r hr => ?_, fun w hw => ?_⟩
    · rcases List.mem_append.mp hr with hr | hr
      · exact Nat.lt_succ_of_lt (h.issued.1 r hr)
      · rw [List.mem_singleton] at hr
        subst hr
        exact Nat.lt_succ_self _
    · rcases List.mem_append.mp hw with hw | hw
      · exact Nat.lt_succ_of_lt (h.issued.2 w hw)
      · rw [List.mem_singleton] at hw
        subst hw
        exact Nat.lt_succ_self _

/-- The others: their sender goes on. -/
theorem sim_ask_done (h : Sim os n a) {c : Nat} (junk : Nat) {b : Ask} (hb : ¬ b.waits = true)
    (hj : a.job c = .running) :
    Sim os (n.ask K c junk b) { a with
      kern := K.answer a.kern c (a.proc.serve os b).2
      proc := (a.proc.serve os b).1 } := by
  obtain ⟨hbehind, hret, hafter⟩ := @Sim.snoc_ask _ _ _ _ h c junk hj b
  have hreplies := @replies_ask_done κ K os n c junk b hb
  have hsnext : n.snext ≤ (n.ask K c junk b).snext := by
    simp only [Net.ask]
    split <;> omega
  have hswait : (n.ask K c junk b).swait = n.swait := if_neg hb
  have hjob : (n.ask K c junk b).job = n.job := if_neg hb
  refine {
    kern := by rw [h.kern, serve_done _ hb]; exact (if_neg hb).symm
    proc := by rw [h.proc]; exact (serveAll_snoc ..).symm
    next := h.next
    thread := h.thread
    results := h.results
    unborn := h.unborn
    called := h.called
    distinct := h.distinct
    running := by rw [hjob]; exact h.running
    waiting := ?_
    issued := ?_
    ended := hret
    woken := h.woken
    returned := h.returned
    behind := hbehind
    after := hafter }
  · rw [hjob, hswait, hreplies]
    intro c' reqno b' hc'
    obtain ⟨hlt, hrest⟩ := h.waiting c' reqno b' hc'
    exact ⟨Nat.lt_of_lt_of_le hlt hsnext, hrest⟩
  · rw [hswait, hreplies]
    exact ⟨fun r hr => Nat.lt_of_lt_of_le (h.issued.1 r hr) hsnext,
      fun w hw => Nat.lt_of_lt_of_le (h.issued.2 w hw) hsnext⟩

theorem sim_work (h : Sim os n a) {c junk : Nat} (hs : Net.step K os n (.work c junk) = some n') :
    ∃ tr a', Run (localStep K os) a tr a' ∧ Sim os n' a' ∧
      observed LocalEvent.seen tr = [] := by
  simp only [Net.step] at hs
  split at hs
  swap
  · cases hs
  rename_i hj
  have hja := h.running c hj
  have hfree := h.free hja (by simp)
  cases hk : K.next n.kern c with
  | inner k =>
    rw [hk] at hs
    cases hs
    have hstep : localStep K os a (.work c) = some { a with kern := k } := by
      simp only [localStep, hja, h.kern, hk]
    exact ⟨_, _, Run.single hstep, { h with kern := rfl }, rfl⟩
  | ask b =>
    rw [hk] at hs
    cases hs
    have hstep := @local_ask κ K os a c b hja (by rw [h.kern]; exact hk)
    by_cases hb : b.waits = true
    · exact ⟨_, _, Run.single hstep, sim_ask_waits h junk hb hja, rfl⟩
    · refine ⟨_, _, Run.pair hstep (local_resume (Function.update_self ..)), ?_, rfl⟩
      have hsame : Function.update (Function.update a.job c
          (.answered (a.proc.serve os b).2)) c .running = a.job := by
        rw [Function.update_idem, ← hja, Function.update_eq_self]
      rw [hsame]
      exact sim_ask_done h junk hb hja
  | ret error retval =>
    rw [hk] at hs
    cases hs
    have hstep : localStep K os a (.work c) = some { a with
        job := Function.update a.job c
          (.ended error.toNat (retval.1.toNat, retval.2.toNat)) } := by
      simp only [localStep, hja, h.kern, hk]
    exact ⟨_, _, Run.single hstep, sim_respond h hja ⟨by simp, by simp⟩ hfree, rfl⟩

theorem sim_resume (h : Sim os n a) {c : Nat} (hs : Net.step K os n (.resume c) = some n') :
    ∃ a', localStep K os a (.resume c) = some a' ∧ Sim os n' a' := by
  simp only [Net.step] at hs
  split at hs
  swap
  · cases hs
  rename_i reqno b hj
  split at hs
  · cases hs
  rename_i x hx
  cases hs
  obtain ⟨_, x', hx', _, _, hw⟩ := h.waiting c reqno b hj
  have heq : x = x' := hw x (mem_of_given hx)
  subst heq
  refine ⟨_, local_resume hx', ?_⟩
  rw [h.kern]
  have hsim := h.enters hx' ⟨by simp, by simp⟩ (h.free hx' (by simp)) (K.answer n.kern c x)
  have hsub := List.eraseP_sublist (l := n.swait) (p := fun w => decide (w.1 = reqno))
  refine { hsim with waiting := ?_, issued := ⟨hsim.issued.1, ?_⟩ }
  · intro c' reqno' b' hc'
    obtain ⟨hlt, y, hy, hf, hr, hw'⟩ := hsim.waiting c' reqno' b' hc'
    exact ⟨hlt, y, hy, hf, hr, fun z hz => hw' z (hsub.subset hz)⟩
  · intro w hw'
    exact hsim.issued.2 w (hsub.subset hw')

theorem sim_ret (h : Sim os n a) {t : Nat} (hs : Net.step K os n (.ret t) = some n') :
    ∃ a', localStep K os a (.ret t) = some a' ∧ Sim os n' a' := by
  simp only [Net.step] at hs
  split at hs
  · cases hs
  rename_i c ht
  split at hs
  · cases hs
  rename_i r hr
  cases hs
  have hmem := mem_of_given hr
  have hjob := h.woken c r hmem
  have hta : a.thread t = some c := by rw [h.thread, ht]
  refine ⟨_, by simp only [localStep, hta, hjob]; rfl, ?_⟩
  rw [h.thread, h.results]
  have hsub := List.eraseP_sublist (l := n.cwait) (p := fun w => decide (w.1 = c))
  refine { h with thread := rfl, results := rfl, woken := ?_, returned := ?_, after := ?_ }
  · intro c' r' hr'
    exact h.woken c' r' (hsub.subset hr')
  · intro r' hr'
    rcases List.mem_append.mp hr' with hr' | hr'
    · exact h.returned r' hr'
    · rw [List.mem_singleton] at hr'
      subst hr'
      exact hjob
  · intro p hp
    obtain ⟨hw, hres⟩ := h.after p hp
    refine ⟨fun r' hr' => hw r' (hsub.subset hr'), fun r' hr' => ?_⟩
    rcases List.mem_append.mp hr' with hr' | hr'
    · exact hres r' hr'
    · rw [List.mem_singleton] at hr'
      subst hr'
      intro heq
      exact hw r (heq ▸ hmem)

theorem replies_poke {x : Nat} {bs : List UInt8} (ho : n.orderly (.poke x bs)) :
    ({ n with proc := n.proc.poke x bs } : Net κ).replies os = n.replies os := by
  simp only [Net.replies, (drain_poke n.proc n.down ho).2]

theorem sim_poke (h : Sim os n a) {x : Nat} {bs : List UInt8} (ho : n.orderly (.poke x bs)) :
    Sim os { n with proc := n.proc.poke x bs } { a with proc := a.proc.poke x bs } := by
  have hall := (@drain_poke os x bs n.proc n.down ho).1
  have hreplies := @replies_poke κ os n x bs ho
  exact { h with
    proc := by rw [h.proc]; exact hall.symm
    waiting := by rw [hreplies]; exact h.waiting
    issued := by rw [hreplies]; exact h.issued }

theorem sim_step (h : Sim os n a) {e : NetEvent} (ho : n.orderly e)
    (hs : Net.step K os n e = some n') :
    ∃ tr a', Run (localStep K os) a tr a' ∧ Sim os n' a' ∧
      observed LocalEvent.seen tr = e.seen.toList := by
  cases e with
  | call t sysnum data hd =>
    obtain ⟨a', hstep, hsim⟩ := sim_call h hs
    exact ⟨_, a', Run.single hstep, hsim, rfl⟩
  | cread =>
    simp only [Net.step] at hs
    split at hs
    · cases hs
    · rename_i m ms hm
      cases hs
      exact ⟨[], a, .nil, sim_take h hm, rfl⟩
  | sread =>
    simp only [Net.step] at hs
    split at hs
    · cases hs
    · rename_i m ms hm
      cases hs
      exact ⟨[], a, .nil, sim_accept h hm, rfl⟩
  | start lwp pad =>
    obtain ⟨e, a', hstep, hsim, hsee⟩ := sim_start h hs
    refine ⟨_, a', Run.single hstep, hsim, ?_⟩
    rw [observed_single, hsee]
    rfl
  | work c junk => exact sim_work h hs
  | resume c =>
    obtain ⟨a', hstep, hsim⟩ := sim_resume h hs
    exact ⟨_, a', Run.single hstep, hsim, rfl⟩
  | ret t =>
    obtain ⟨a', hstep, hsim⟩ := sim_ret h hs
    exact ⟨_, a', Run.single hstep, hsim, rfl⟩
  | poke x bs =>
    cases hs
    exact ⟨_, _, Run.single (e := .poke x bs) rfl, sim_poke h ho, rfl⟩

end Frankenlibc.Sysproxy.Remote

import Frankenlibc.Sysproxy.RemoteCall

/-!
# The connection is never stuck

As long as a thread waits for its system call there is a step: bytes to read, an
item of work, a worker that can go on, or a result for the thread itself. Only
when the call is inside the kernel is there nothing for the protocol to do.

Three things that could hold it up are left out: that of the client's threads only
one reads at a time (`spc_istatus`), the limit on the workers (`rumpsp_maxworker`),
and sends that block because the peer does not read.
-/
namespace Frankenlibc.Sysproxy.Remote

open Frankenlibc.Lib

variable {κ : Type} {K : Kernel κ} {os : Os} {s : Sys κ} {n : Net κ}

/-! ## Reading takes bytes -/

theorem hostRead_last (left : Nat) (pending : List UInt8) (d : Cut) :
    (hostRead left ⟨pending, [d]⟩).2.cuts = [] := by
  cases d with
  | upto k =>
    simp only [hostRead]
    split <;> rfl
  | again => rfl
  | eof => rfl
  | error => rfl

theorem readbody_last (framelen : Nat) (c : Client) (pending : List UInt8) :
    (readbody framelen c ⟨pending, []⟩).2.2.cuts = [] := by
  unfold readbody
  simp only [hostRead]
  split
  · rfl
  · split <;> rfl

/-- A read is made. -/
theorem readframe_last {c : Client} {pending : List UInt8} {rest : List Frame}
    (hr : Recv c pending rest) (d : Cut) : (readframe true c ⟨pending, [d]⟩).2.2.cuts = [] := by
  cases hr with
  | @body f b k rest' hh ho hk hb hs hd hp =>
    have hleft : sub64 (HDRSZ + f.body.length) c.off ≠ 0 := by
      rw [ho, sub64_of_le (Nat.add_le_add_left hk.le _) (frame_len_lt f)]
      omega
    unfold readframe
    rw [if_neg (by rw [ho]; exact Nat.not_lt.mpr (Nat.le_add_right _ _)), frame_len hh]
    unfold readbody
    simp only [if_neg hleft, hb]
    have hc := hostRead_last (sub64 (HDRSZ + f.body.length) c.off) pending d
    generalize hostRead _ _ = r at hc
    obtain ⟨r, h'⟩ := r
    cases r <;> exact hc
  | @head pre _ hlt ho hb hs hp =>
    unfold readframe
    rw [if_pos (ho ▸ hlt)]
    have hc := hostRead_last (HDRSZ - c.off) pending d
    generalize hostRead _ _ = r at hc
    obtain ⟨r, pending', cuts'⟩ := r
    cases hc
    cases r with
    | data bs =>
      simp only
      split
      · rfl
      split
      · rfl
      split
      · rfl
      · exact readbody_last ..
    | again => rfl
    | eof => rfl
    | error => rfl

theorem recv_nonempty {c : Client} {pending : List UInt8} {f : Frame} {rest : List Frame}
    (hr : Recv c pending (f :: rest)) : pending ≠ [] := by
  rintro rfl
  cases hr with
  | head hlt _ _ _ hp =>
    have hl := congrArg List.length hp
    rw [List.append_nil, stream_cons, List.length_append, f.headLen] at hl
    omega
  | body _ _ hk _ _ _ hp =>
    have hl := congrArg List.length hp
    rw [List.length_append, List.length_drop, List.length_nil] at hl
    omega

/-- Without bytes there is no message on its way. -/
theorem recv_drained {α : Type} {f : α → Frame} {c : Client} {ms : List α}
    (hr : Recv c [] (ms.map f)) : ms = [] := by
  cases ms with
  | nil => rfl
  | cons m ms => exact absurd rfl (recv_nonempty hr)

/-- With bytes there, a read of one takes it. -/
theorem readframe_takes {c : Client} {pending : List UInt8} {rest : List Frame}
    (hr : Recv c pending rest) (hne : pending ≠ []) :
    Step c ⟨pending, [.upto 0]⟩ rest (readframe true c ⟨pending, [.upto 0]⟩) ∧
      (readframe true c ⟨pending, [.upto 0]⟩).2.2.pending.length < pending.length := by
  have hpos : 0 < pending.length := List.length_pos_iff.mpr hne
  have hflows : ∀ d ∈ [Cut.upto 0], d.flows := by decide
  have hstep := @readframe_step c ⟨pending, [.upto 0]⟩ rest hr hflows
  have hcuts := readframe_last hr (.upto 0)
  refine ⟨hstep, ?_⟩
  have hless {h' : Host} (hfl : Flowed ⟨pending, [.upto 0]⟩ h') (hc : h'.cuts = []) :
      h'.pending.length < pending.length := by
    rcases hfl.work with hnil | hle
    · rw [hnil]
      exact hpos
    · rw [hc] at hle
      have hone : [Cut.upto 0].countP Cut.isData = 1 := rfl
      rw [hone, List.countP_nil] at hle
      exact hle
  generalize readframe true c ⟨pending, [.upto 0]⟩ = r at hstep hcuts
  cases hstep with
  | again _ _ hfl => exact hless hfl hcuts
  | frame _ _ _ hfl => exact hless hfl hcuts

/-! ## Both sides can read -/

/-- The client has a use for every message. -/
theorem cliFrame_some (h : Wire s n) {m : Downward} {ms : List Downward} (hd : n.down = m :: ms)
    {cli : Client} {pending : List UInt8} (hs : SameOther s.cli cli)
    (hc : Complete cli pending m.frame (ms.map Downward.frame)) :
    ∃ s', cliFrame os { s with cli := cli, down := pending } = some s' ∧ s'.down = pending := by
  have hsm := h.downSmall m (by rw [hd]; exact List.mem_cons_self)
  have hcw : List.Forall₂ (Waiter Returned) cli.respwait n.cwait := by
    rw [hs]
    exact h.cwait
  unfold cliFrame
  cases m with
  | ret c error pad retval =>
    have hcls := (cli_returns hc hsm hcw).1
    rw [if_pos (.inl hcls)]
    exact ⟨_, rfl, rfl⟩
  | ask c reqno junk a =>
    obtain ⟨hcls, hserve⟩ := cli_serves os hc hsm s.proc
    rw [if_neg (by rw [hcls]; decide), if_pos hcls, hserve]
    exact ⟨_, rfl, rfl⟩

theorem cread_advances (h : Wire s n) {t c : Nat} (ht : s.thread t = some c)
    (hg : given c n.cwait = none) (hne : s.down ≠ []) :
    ∃ s', cread os t [.upto 0] s = some s' ∧ s'.down.length < s.down.length := by
  have hnot : (doneWaiter c s.cli.respwait).isSome = false := by
    rcases waiters_done h.cwait c with ⟨hnone, _⟩ | ⟨rw, x, _, hx, _⟩
    · rw [hnone]
      rfl
    · rw [hg] at hx
      cases hx
  obtain ⟨hstep, hlt⟩ := readframe_takes h.down hne
  unfold cread
  simp only [ht, hnot]
  generalize readframe true s.cli ⟨s.down, [.upto 0]⟩ = r at hstep hlt ⊢
  cases hstep with
  | again _ _ _ => exact ⟨_, rfl, hlt⟩
  | frame he hc hso _ =>
    obtain ⟨m, ms, hd, rfl, rfl⟩ := messages_head he
    obtain ⟨s', hs', hdown⟩ := @cliFrame_some κ os s n h m ms hd _ _ hso hc
    refine ⟨s', hs', ?_⟩
    rw [hdown]
    exact hlt

/-- The server has a use for every message. -/
theorem dispatch_some (h : Wire s n) {m : Upward} {ms : List Upward} {spc : Client}
    {pending : List UInt8} (hs : SameOther s.srv.spc spc)
    (hc : Complete spc pending m.frame (ms.map Upward.frame)) :
    ∃ w, dispatch { s.srv with spc := spc, script := [.malloc true] } = .ok w := by
  cases m with
  | bytes reqno bs hbs =>
    have hcls : rspClass spc.hdr = RUMPSP_RESP := (header_fields hc.hdr).2.1
    rw [dispatch, if_pos hcls]
    exact ⟨_, rfl⟩
  | addr reqno a =>
    have hcls : rspClass spc.hdr = RUMPSP_RESP := (header_fields hc.hdr).2.1
    rw [dispatch, if_pos hcls]
    exact ⟨_, rfl⟩
  | request reqno sysnum data hdata =>
    obtain ⟨_, hcls, htype, _⟩ := header_fields hc.hdr
    have hrun : spc.state = .running := by
      rw [hs]
      exact h.running
    exact ⟨_, dispatch_syscall { s.srv with spc := spc } hcls htype hrun⟩

theorem sread_advances (h : Wire s n) (hne : s.up ≠ []) :
    ∃ s', sread [.upto 0] s = some s' ∧ s'.up.length < s.up.length := by
  obtain ⟨hstep, hlt⟩ := readframe_takes h.up hne
  unfold sread
  generalize readframe true s.srv.spc ⟨s.up, [.upto 0]⟩ = r at hstep hlt ⊢
  cases hstep with
  | again _ _ _ => exact ⟨_, rfl, hlt⟩
  | frame he hc hso _ =>
    obtain ⟨m, ms, _, rfl, rfl⟩ := messages_head he
    obtain ⟨w, hw⟩ := dispatch_some h hso hc
    simp only [hw]
    exact ⟨_, rfl, hlt⟩

/-! ## Somebody can move -/

/-- What a step has to do to bring the calls on: bytes are taken in, an item of
work is taken, a worker sends a message or gets its reply, or a call has its
result. -/
def Event.Advances (s s' : Sys κ) : Event → Prop
  | .cread _ _ => s'.down.length < s.down.length
  | .sread _ => s'.up.length < s.up.length
  | .start _ _ => s'.srv.wrklist.length < s.srv.wrklist.length
  | .work _ _ => s.down.length < s'.down.length
  | .resume _ => s'.srv.spc.respwait.length < s.srv.spc.respwait.length
  | .ret _ => s.results.length < s'.results.length
  | .call _ _ _ => False
  | .poke _ _ => False

theorem iov_pos (m : Message) : 0 < m.iov.flatten.length := by
  have hhdr (len reqno cls type word : Nat) : 0 < (rspHdr len reqno cls type word).length := by
    rw [rspHdr_length]
    decide
  cases m <;> simp only [Message.iov, List.flatten_cons, List.length_append] <;>
    exact Nat.add_pos_left (hhdr ..) _

theorem doneWaiter_mem {reqno : Nat} {rws : List RespWait} {rw : RespWait}
    (h : doneWaiter reqno rws = some rw) : rw ∈ rws ∧ rw.reqno = reqno := by
  have hfind := (Option.filter_eq_some_iff.mp h).1
  exact ⟨List.mem_of_find?_eq_some hfind, by simpa using List.find?_some hfind⟩

/-- A worker whose call is not inside the kernel sends something. -/
theorem work_advances {c : Nat} (hj : s.job c = .running) (hk : ∀ k, K.next s.kern c ≠ .inner k) :
    ∃ s', work K c 0 s = some s' ∧ s.down.length < s'.down.length := by
  unfold work
  rw [if_pos hj]
  cases hn : K.next s.kern c with
  | inner k => exact absurd hn (hk k)
  | ask a =>
    refine ⟨_, rfl, ?_⟩
    have hpos := iov_pos (a.message s.snext 0)
    simp only [ask, List.length_append]
    omega
  | ret error retval =>
    refine ⟨_, rfl, ?_⟩
    have hpos := iov_pos (.syscallResp c error.toNat 0 (retval.1.toNat, retval.2.toNat))
    simp only [respond, List.length_append]
    omega

/-- Without bytes or items of work, the workers have what they need. -/
theorem worker_advances {a : Local κ} (h : Wire s n) (hsim : Sim os n a) (hlive : Live os n)
    {t c : Nat} (ht : n.thread t = some c) (hg : given c n.cwait = none) (hup : n.up = [])
    (hdown : n.down = []) (hq : n.queue = []) :
    (∃ e s', step K os s e = some s' ∧ e.Advances s s') ∨
      s.job c = .running ∧ ∃ k, K.next s.kern c = .inner k := by
  cases hlive.cared t c ht with
  | told hne => exact absurd hg hne
  | sent hc => simp [Net.calls, hq, hup] at hc
  | back hm =>
    rw [hdown] at hm
    cases hm
  | running hj =>
    have hjs : s.job c = .running := by rw [← h.job, hj]
    by_cases hk : ∃ k, K.next s.kern c = .inner k
    · exact .inr ⟨hjs, hk⟩
    · obtain ⟨s', hs', hlt⟩ := work_advances hjs (not_exists.mp hk)
      exact .inl ⟨.work c 0, s', hs', hlt⟩
  | @waiting reqno b hj =>
    have hjs : s.job c = .waiting reqno b := by rw [← h.job, hj]
    obtain ⟨_, _, hdue⟩ := hlive.expecting c reqno b hj
    have hnone : n.replies os = [] := by simp [Net.replies, hup, hdown, due]
    have htold : given reqno n.swait ≠ none := by
      rcases hdue with hne | ⟨y, hy⟩
      · exact hne
      · rw [hnone] at hy
        cases hy
    rcases waiters_done h.swait reqno with ⟨_, hx⟩ | ⟨rw, x, hdone, hx, herr, hrep⟩
    · exact absurd hx htold
    · have hreply := reply_fits herr hrep (hsim.fits hj hx)
      obtain ⟨hmem, hno⟩ := doneWaiter_mem hdone
      refine .inl ⟨.resume c, _, by simp only [step, resume, hjs, hdone, h.running, hreply]; rfl, ?_⟩
      show (s.srv.spc.respwait.eraseP fun rw => rw.reqno = reqno).length < s.srv.spc.respwait.length
      rw [List.length_eraseP_of_mem hmem (by simpa using hno)]
      exact Nat.sub_lt (List.length_pos_of_mem hmem) Nat.one_pos

/-- While a thread waits for its system call, somebody can bring it on: the thread
has its result or can read, the server can read, there is work for a worker, or a
worker can go on; unless the call is inside the kernel. -/
theorem remote_never_stuck (K : Kernel κ) (os : Os) {s₀ s : Sys κ} (h₀ : Fresh s₀)
    {tr : List (Sys κ × Event)} (hr : Run (step K os) s₀ tr s) (hg : Guarded orderly tr) {t c : Nat}
    (ht : s.thread t = some c) :
    (∃ e s', step K os s e = some s' ∧ e.Advances s s') ∨
      s.job c = .running ∧ ∃ k, K.next s.kern c = .inner k := by
  obtain ⟨_, a, _, ⟨n, hw, hsim, hlive⟩, _⟩ :=
    (mirrors_step K os).run (mirrors_fresh h₀ os) hr hg
  rcases waiters_done hw.cwait c with ⟨_, hgiven⟩ | ⟨rw, r, hdone, _, _, b, hb, _, _⟩
  swap
  · refine .inl ⟨.ret t, _, by simp only [step, ret, ht, hdone, hb]; rfl, ?_⟩
    simp [Event.Advances]
  by_cases hdown : s.down = []
  swap
  · obtain ⟨s', hs', hlt⟩ := @cread_advances κ os s n hw t c ht hgiven hdown
    exact .inl ⟨.cread t [.upto 0], s', hs', hlt⟩
  by_cases hup : s.up = []
  swap
  · obtain ⟨s', hs', hlt⟩ := sread_advances hw hup
    exact .inl ⟨.sread [.upto 0], s', hs', hlt⟩
  cases hq : n.queue with
  | cons q qs =>
    have hqueue := hw.queue
    rw [hq] at hqueue
    cases hwl : s.srv.wrklist with
    | nil =>
      rw [hwl] at hqueue
      cases hqueue
    | cons sba rest =>
      refine .inl ⟨.start none 0, _, by simp only [step, start, hwl]; rfl, ?_⟩
      simp [Event.Advances, hwl]
  | nil =>
    have hnd : n.down = [] := recv_drained (hdown ▸ hw.down)
    have hnu : n.up = [] := recv_drained (hup ▸ hw.up)
    exact worker_advances hw hsim hlive (by rw [hw.thread]; exact ht) hgiven hnu hnd hq

/-- A worker has sent its `copyin`, and the only thread of the client reads. -/
theorem copySys_never_stuck : ∃ tr s, Run (step copyKernel quietHost) copySys tr s ∧
    s.thread 5 = some 0 ∧ s.job 0 = .waiting 0 (.copyin 16 1 (by decide)) ∧
    ∃ e s', step copyKernel quietHost s e = some s' ∧ e.Advances s s' := by
  obtain ⟨tr, s, hr, hp⟩ := exists_run (f := step copyKernel quietHost) (s := copySys)
    [.call 5 3 [7], .sread [.upto 30, .upto 0], .start none 0, .work 0 0]
    (p := fun tr s => decide (Guarded orderly tr ∧ s.thread 5 = some 0 ∧
      s.job 0 = .waiting 0 (.copyin 16 1 (by decide)))) (by decide +kernel)
  obtain ⟨hg, ht, hj⟩ := of_decide_eq_true hp
  refine ⟨tr, s, hr, ht, hj, ?_⟩
  rcases remote_never_stuck copyKernel quietHost copySys_fresh hr hg ht with hmove | ⟨hrun, _⟩
  · exact hmove
  · rw [hj] at hrun
    cases hrun

end Frankenlibc.Sysproxy.Remote

import Frankenlibc.Threads.Locks
import Frankenlibc.Virtif.User

/-!
# The life of a virtual interface

`VIFHYPER_DESTROY` joins the receive thread before it frees the interface, and
`join_thread` returns once its target has announced itself in `exit_thread`.
`rcvthread` never calls `exit_thread`: a receive thread that leaves its loop
returns from its function instead, where no context follows. So the join never
returns, the interface is never freed, and as long as no receive thread leaves
its loop nothing goes wrong.
-/
namespace Frankenlibc.Virtif

open Frankenlibc.Lib Frankenlibc.Threads
open Frankenlibc.Threads.Locks (exec_pc resume_pc joinLoop_pc)

/-! ## Threads that do not exit -/

/-- The thread has called `exit_thread`. -/
def leaving : Pc → Bool
  | .exitGate | .exited => true
  | _ => false

theorem leaving_of_plain {p : Pc} (h : p.plain = true) : leaving p = false := by
  cases p with
  | running | yield | sleep | wait => rfl
  | fresh | join | exitGate | exited => cases h

/-- The thread exists and has neither called `exit_thread` nor announced itself
to a joiner. -/
structure Stays (s : State) (t : Tid) : Prop where
  created : t ∈ s.created
  listed : t ∈ s.threadList
  joined : (s.thread t).joined = false
  stays : leaving (s.pc t) = false

section Stays

variable {s s' : State} {t : Tid}

theorem Stays.calm (h : Stays s t) (hc : Calm s s') : Stays s' t where
  created := by rw [hc.created]; exact h.created
  listed := by rw [hc.threadList]; exact h.listed
  joined := by rw [hc.joined]; exact h.joined
  stays := by
    by_cases ht : t = s.current
    · subst ht
      rcases hc.plain with hp | hp
      · rw [hp]
        exact h.stays
      · exact leaving_of_plain hp
    · rw [hc.pc t ht]
      exact h.stays

/-- `exit_thread` of another thread. -/
theorem Stays.exitThread (h : Stays s t) (ht : t ≠ s.current) : Stays (Threads.exitThread s) t := by
  cases hm : (s.thread s.current).mustjoin with
  | true =>
    obtain ⟨th, he, _, _, hj, _⟩ := exitThread_gate hm
    rw [he]
    exact ⟨h.created, h.listed, by rw [hj t ht]; exact h.joined, by simpa [ht] using h.stays⟩
  | false =>
    rw [exitThread_leave hm]
    exact ⟨h.created, (List.mem_erase_of_ne ht).mpr h.listed, by simpa [ht] using h.joined,
      by simpa [ht] using h.stays⟩

theorem Stays.joinLoop {u : Tid} (h : Stays s t) (hj : Threads.joinLoop u s = .ok s') :
    Stays s' t := by
  have hpc : leaving (s'.pc t) = false := by
    by_cases ht : t = s.current
    · subst ht
      obtain ⟨_, ⟨_, rfl⟩ | ⟨_, rfl⟩⟩ := joinLoop_ok hj
      · simp [State.toUser, wake, State.setThread, leaving]
      · simp [State.suspend, block, State.setThread, leaving]
    · rw [joinLoop_pc hj ht]
      exact h.stays
  obtain ⟨_, ⟨_, rfl⟩ | ⟨_, rfl⟩⟩ := joinLoop_ok hj
  · refine ⟨h.created, h.listed, ?_, hpc⟩
    by_cases hu : t = u
    · subst hu
      simpa [State.toUser, wake, State.setThread] using h.joined
    · simpa [State.toUser, wake, State.setThread, hu] using h.joined
  · refine ⟨h.created, h.listed, ?_, hpc⟩
    by_cases hu : t = s.current
    · subst hu
      simpa [State.suspend, block, State.setThread] using h.joined
    · simpa [State.suspend, block, State.setThread, hu] using h.joined

theorem Stays.exec {c : Call} (h : Stays s t) (ha : c.allowed s = true)
    (hx : c = .exitThread → t ≠ s.current) (he : exec s c = .ok s') : Stays s' t := by
  cases exec_inv he with
  | calm hc => exact h.calm hc
  | @create u =>
    have hu : t ≠ u := by
      rintro rfl
      simp [Call.allowed, h.created] at ha
    exact ⟨List.mem_append_left _ h.created, List.mem_append_left _ h.listed,
      by simpa [threadMade, State.setThread, hu] using h.joined,
      by simpa [threadMade, hu] using h.stays⟩
  | exit => exact h.exitThread (hx rfl)
  | @join u _ _ hj =>
    have hrec : Stays { s with joiner := Function.update s.joiner u (some s.current) } t :=
      ⟨h.created, h.listed, h.joined, h.stays⟩
    exact hrec.joinLoop hj
  | setCurlwp =>
    refine ⟨h.created, h.listed, ?_, h.stays⟩
    by_cases hu : t = s.current
    · subst hu
      simpa [State.setThread] using h.joined
    · simpa [State.setThread, hu] using h.joined

theorem Stays.resume (h : Stays s t) (he : resume s (s.pc s.current) = .ok s') : Stays s' t := by
  have hreap : Stays (reap s) t := ⟨h.created, h.listed, h.joined, h.stays⟩
  have hother : leaving (s.pc s.current) = true → t ≠ s.current := by
    rintro hl rfl
    rw [h.stays] at hl
    cases hl
  generalize s.pc s.current = p at he hother
  cases resume_inv he with
  | running | fresh => exact h.calm (toUser_calm s)
  | yield | sleep => exact hreap.calm (toUser_calm (reap s))
  | wait ht => exact hreap.calm (waited_calm ht)
  | @join u _ hj =>
    have hleft : Stays { reap s with
        joinwq := s.joinwq.erase { thread := s.current, wanted := u } } t :=
      ⟨h.created, h.listed, h.joined, h.stays⟩
    exact hleft.joinLoop hj
  | gate => exact hreap.exitThread (hother rfl)
  | exited =>
    exact ⟨h.created, h.listed, h.joined, by simpa [State.suspend, reap, hother rfl] using h.stays⟩

/-- A thread stays unless its own step is `exit_thread`. -/
theorem Stays.step {e : Event} (h : Stays s t) (hx : e = .call .exitThread → t ≠ s.current)
    (hs : step s e = some s') : Stays s' t := by
  cases step_inv hs with
  | call _ ha he => exact h.exec ha (fun hc => hx (by rw [hc])) he
  | callAbort => exact ⟨h.created, h.listed, h.joined, h.stays⟩
  | @switch _ n _ _ hth =>
    refine ⟨h.created, ?_, (expire_frame (hth t)).2.2.trans h.joined, h.stays⟩
    by_cases hn : t = n
    · simp [hn]
    · exact List.mem_append_left _ ((List.mem_erase_of_ne hn).mpr h.listed)
  | idle hth => exact ⟨h.created, h.listed, (expire_frame (hth t)).2.2.trans h.joined, h.stays⟩
  | extWake => exact h.calm (wake_calm _ s)
  | resume _ he => exact h.resume he
  | resumeAbort => exact ⟨h.created, h.listed, h.joined, h.stays⟩

theorem stays_createThread
    (hs : Threads.step s (.call (.createThread (some t) true false true)) = some s') :
    Stays s' t := by
  cases step_inv hs with
  | call _ _ he =>
    cases he
    exact ⟨by simp [Threads.createThread], by simp [Threads.createThread],
      by simp [Threads.createThread, State.setThread, newThread], by simp [Threads.createThread, leaving]⟩
  | callAbort _ he => cases he

end Stays

/-! ## Threads that wait for them -/

/-- The thread `d` stands in `join_thread` and waits for `t`. -/
structure Joining (s : State) (d t : Tid) : Prop where
  created : d ∈ s.created
  pc : s.pc d = .join t
  away : ¬ (s.mode = .user ∧ s.current = d)

def Dead (s : State) : Prop := ∃ why, s.mode = .dead why

section Joining

variable {s s' : State} {d t : Tid}

theorem step_alive {e : Event} (hs : step s e = some s') : ¬ Dead s := by
  rintro ⟨why, hdead⟩
  cases step_inv hs with
  | call hu => simp [hdead] at hu
  | callAbort hu => simp [hdead] at hu
  | switch _ _ _ hq => simp [hdead, Mode.isIdle] at hq
  | idle _ hq => simp [hdead, Mode.isIdle] at hq
  | extWake hq => simp [hdead, Mode.isIdle] at hq
  | resume hb => simp [hdead] at hb
  | resumeAbort hb => simp [hdead] at hb

theorem joining_joinLoop (he : joinLoop t s = .ok s') (hd : s.current ∈ s.created)
    (hj : (s.thread t).joined = false) : Joining s' s.current t := by
  obtain ⟨_, ⟨hjoined, _⟩ | ⟨_, rfl⟩⟩ := joinLoop_ok he
  · rw [hj] at hjoined
    cases hjoined
  · exact ⟨hd, by simp [State.suspend, block, State.setThread], by simp [State.suspend]⟩

theorem joining_joinThread (hs : step s (.call (.joinThread t)) = some s')
    (hd : s.current ∈ s.created) (hj : (s.thread t).joined = false) :
    Joining s' s.current t ∨ Dead s' := by
  cases step_inv hs with
  | call _ _ he =>
    obtain ⟨_, _, hloop⟩ := joinThread_ok he
    have hnext := joining_joinLoop hloop hd hj
    exact .inl hnext
  | callAbort => exact .inr ⟨_, rfl⟩

/-- As long as its target has not announced itself, a joiner stays where it
is. -/
theorem Joining.step {e : Event} (h : Joining s d t) (hj : (s.thread t).joined = false)
    (hs : step s e = some s') : Joining s' d t ∨ Dead s' := by
  cases step_inv hs with
  | call hu ha he =>
    have hne : d ≠ s.current := fun hd => h.away ⟨hu, hd.symm⟩
    have ho := onward_exec he
    rcases exec_pc ha he hne with hsame | ⟨hnew, _⟩
    · exact .inl ⟨ho.created h.created, hsame.trans h.pc, fun hx =>
        hne (hx.2.symm.trans ho.current)⟩
    · exact absurd h.created hnew
  | callAbort => exact .inr ⟨_, rfl⟩
  | switch => exact .inl ⟨h.created, h.pc, by simp⟩
  | idle => exact .inl ⟨h.created, h.pc, by simp⟩
  | extWake hi =>
    refine .inl ⟨h.created, h.pc, fun hx => ?_⟩
    have hu : s.mode = .user := hx.1
    rw [hu] at hi
    cases hi
  | resume hb he =>
    by_cases hd : d = s.current
    · -- the loop of `join_thread` goes round once more
      subst hd
      rw [h.pc] at he
      have hloop : joinLoop t { reap s with
          joinwq := s.joinwq.erase { thread := s.current, wanted := t } } = .ok s' := he
      have hnext := joining_joinLoop hloop h.created hj
      exact .inl hnext
    · have ho := onward_resume he
      exact .inl ⟨ho.created h.created, (resume_pc he hd).trans h.pc, fun hx =>
        hd (hx.2.symm.trans ho.current)⟩
  | resumeAbort => exact .inr ⟨_, rfl⟩

end Joining

/-! ## The interfaces -/

/-- Every interface still has its receive thread, which has not exited, and
whoever destroys one waits for that thread. -/
structure Inv (n : Net) : Prop where
  lists : Lists.Inv n.host.lib
  rcv : ∀ t, n.rcv t ≠ none → Stays n.host.lib t
  thr : ∀ v t, n.rcvthr v = some t → n.rcv t ≠ none ∧ n.viu v ≠ none
  viu : ∀ v x, n.viu v = some x → v ∈ n.used ∧ n.rcvthr v = some x.rcvthr
  destroy : ∀ d v, n.destroy d = some v →
    (∃ t, n.rcvthr v = some t ∧ Joining n.host.lib d t) ∨ Dead n.host.lib
  gone : ∀ t ∈ n.gone, n.rcv t ≠ none

theorem inv_boot (t : Tid) (fds : List Nat) : Inv (Net.boot t fds) where
  lists := Lists.inv_boot t [] _ (List.nodup_singleton t)
  rcv _ h := absurd rfl h
  thr _ _ h := by cases h
  viu _ _ h := by cases h
  destroy _ _ h := by cases h
  gone _ h := by cases h

section Steps

variable {n n' : Net}

/-- A step of the library, `exit_thread` of a receive thread apart. -/
theorem inv_lib {e : HostEvent} {h : Host} (hi : Inv n)
    (hx : e = .lib (.call .exitThread) → n.rcv n.current = none) (hs : n.host.step e = some h) :
    Inv { n with host := h } := by
  obtain ⟨le, rfl, hl, _⟩ | ⟨fd, thrid, rfl, rfl⟩ | ⟨th, mode, hidle, rfl, hmode, hj⟩ :=
    Host.step_lib hs
  · have hstays : ∀ t, n.rcv t ≠ none → Stays h.lib t := by
      intro t ht
      refine (hi.rcv t ht).step (fun he hcur => ?_) hl
      subst hcur
      exact ht (hx (by rw [he]))
    refine ⟨Lists.inv_step hi.lists hl, hstays, hi.thr, hi.viu, fun d v hd => ?_, hi.gone⟩
    rcases hi.destroy d v hd with ⟨t, ht, hjoin⟩ | ⟨why, hdead⟩
    · rcases hjoin.step (hi.rcv t (hi.thr v t ht).1).joined hl with hjoin | hdead
      · exact .inl ⟨t, ht, hjoin⟩
      · exact .inr hdead
    · exact absurd ⟨why, hdead⟩ (step_alive hl)
  · exact ⟨hi.lists, hi.rcv, hi.thr, hi.viu, hi.destroy, hi.gone⟩
  · have hnot : mode ≠ .user ∧ mode ≠ .back := by
      rcases hmode with rfl | rfl
      · exact ⟨fun hm => by simp [hm, Mode.isIdle] at hidle,
          fun hm => by simp [hm, Mode.isIdle] at hidle⟩
      · exact ⟨by simp, by simp⟩
    refine ⟨⟨hi.lists.nodup, hi.lists.perm, fun hm => ?_⟩, fun t ht => ?_, hi.thr, hi.viu,
      fun d v hd => ?_, hi.gone⟩
    · exact absurd hm (by simp [hnot.1, hnot.2])
    · have hst := hi.rcv t ht
      exact ⟨hst.created, hst.listed, (hj t).trans hst.joined, hst.stays⟩
    · rcases hi.destroy d v hd with ⟨t, ht, hjoin⟩ | ⟨why, hdead⟩
      · exact .inl ⟨t, ht, hjoin.created, hjoin.pc, fun hm => hnot.1 hm.1⟩
      · simp [hdead, Mode.isIdle] at hidle

theorem user_of_inKernel (h : n.inKernel = true) : n.host.lib.mode = .user := by
  simp only [Net.inKernel, Bool.and_eq_true, decide_eq_true_eq] at h
  exact h.1.1

theorem lib_ok {e : HostEvent} (h : n.lib e = some n') :
    ∃ hst, n.host.step e = some hst ∧ n' = { n with host := hst } := by
  obtain ⟨hst, hs, rfl⟩ := Option.map_eq_some_iff.mp h
  exact ⟨hst, hs, rfl⟩

theorem call_ok {c : Call} {h h' : Host} (hs : h.step (.lib (.call c)) = some h') :
    Threads.step h.lib (.call c) = some h'.lib := by
  simp only [Host.step, Host.ownEvent, if_true] at hs
  obtain ⟨s', hl, rfl⟩ := Option.map_eq_some_iff.mp hs
  exact hl

theorem inv_create {mem : Option Vid} {thr : Option Tid} {mmapOk : Bool} {devnum : Nat}
    (hi : Inv n) (h : n.create mem thr mmapOk devnum = some n') : Inv n' := by
  unfold Net.create at h
  cases mem with
  | none =>
    cases h
    exact hi
  | some v =>
    dsimp only at h
    split at h
    · cases h
    next hv =>
      obtain ⟨n₁, hlib, hn⟩ := Option.map_eq_some_iff.mp h
      obtain ⟨hst, hs, rfl⟩ := lib_ok hlib
      have hi₁ := inv_lib hi (fun he => by cases he) hs
      have hfresh : n.rcvthr v = none := by
        by_contra hne
        obtain ⟨t, ht⟩ := Option.ne_none_iff_exists'.mp hne
        obtain ⟨x, hx⟩ := Option.ne_none_iff_exists'.mp (hi.thr v t ht).2
        exact hv (hi.viu v x hx).1
      have hfail : Inv { n with host := hst, used := v :: n.used } :=
        ⟨hi₁.lists, hi₁.rcv, hi₁.thr,
          fun w x hw => ⟨List.mem_cons_of_mem _ (hi.viu w x hw).1, (hi.viu w x hw).2⟩,
          hi₁.destroy, hi₁.gone⟩
      cases thr with
      | none =>
        subst hn
        exact hfail
      | some t =>
        cases mmapOk with
        | false =>
          subst hn
          exact hfail
        | true =>
          subst hn
          have hstays := stays_createThread (call_ok hs)
          refine ⟨hi₁.lists, fun u hu => ?_, fun w u hw => ?_, fun w x hw => ?_,
            fun d w hd => ?_, fun u hu => ?_⟩
          · by_cases hut : u = t
            · exact hut ▸ hstays
            · exact hi₁.rcv u (by simpa [hut] using hu)
          · by_cases hwv : w = v
            · subst hwv
              simp only [Function.update_self, Option.some.injEq] at hw
              subst hw
              simp
            · have hold := hi.thr w u (by simpa [hwv] using hw)
              by_cases hut : u = t
              · subst hut
                exact ⟨by simp, by simpa [hwv] using hold.2⟩
              · exact ⟨by simpa [hut] using hold.1, by simpa [hwv] using hold.2⟩
          · by_cases hwv : w = v
            · subst hwv
              simp only [Function.update_self, Option.some.injEq] at hw
              subst hw
              simp
            · obtain ⟨hused, hthr⟩ := hi.viu w x (by simpa [hwv] using hw)
              exact ⟨List.mem_cons_of_mem _ hused, by simpa [hwv] using hthr⟩
          · rcases hi₁.destroy d w hd with ⟨u, hu, hjoin⟩ | hdead
            · have hwv : w ≠ v := by
                rintro rfl
                rw [hfresh] at hu
                cases hu
              exact .inl ⟨u, by simpa [hwv] using hu, hjoin⟩
            · exact .inr hdead
          · by_cases hut : u = t
            · simp [hut]
            · simpa [hut] using hi.gone u hu

theorem inv_dying {v : Vid} (hi : Inv n) (h : n.dying v = some n') : Inv n' := by
  obtain ⟨x, hx, rfl⟩ := Option.map_eq_some_iff.mp h
  refine ⟨hi.lists, hi.rcv, fun w t hw => ⟨(hi.thr w t hw).1, ?_⟩, fun w y hw => ?_, hi.destroy,
    hi.gone⟩
  · by_cases hwv : w = v
    · simp [hwv]
    · simpa [hwv] using (hi.thr w t hw).2
  · by_cases hwv : w = v
    · subst hwv
      simp only [Function.update_self, Option.some.injEq] at hw
      subst hw
      exact hi.viu w x hx
    · exact hi.viu w y (by simpa [hwv] using hw)

theorem current_created (hi : Inv n) (hu : n.host.lib.mode = .user) :
    n.host.lib.current ∈ n.host.lib.created :=
  hi.lists.perm.mem_iff.mp
    (List.mem_append_left _ (List.mem_append_left _ (hi.lists.running (.inl hu))))

/-- `VIFHYPER_DESTROY` finds a receive thread that has not exited, and waits. -/
theorem inv_destroyBegin {v : Vid} (hi : Inv n) (hu : n.host.lib.mode = .user)
    (h : n.destroyBegin v = some n') : Inv n' := by
  simp only [Net.destroyBegin, Option.bind_eq_bind, Option.bind_eq_some_iff] at h
  obtain ⟨x, hx, n₁, hlib, hn⟩ := h
  obtain ⟨hst, hs, rfl⟩ := lib_ok hlib
  cases hn
  have hi₁ := inv_lib hi (fun he => by cases he) hs
  have hthr := (hi.viu v x hx).2
  have hjoined := (hi.rcv x.rcvthr (hi.thr v _ hthr).1).joined
  refine ⟨hi₁.lists, hi₁.rcv, hi₁.thr, hi₁.viu, fun d w hd => ?_, hi₁.gone⟩
  by_cases hcur : d = n.current
  · subst hcur
    simp only [Function.update_self, Option.some.injEq] at hd
    subst hd
    rcases joining_joinThread (call_ok hs) (current_created hi hu) hjoined with hjoin | hdead
    · exact .inl ⟨_, hthr, hjoin⟩
    · exact .inr hdead
  · exact hi₁.destroy d w (by simpa [hcur] using hd)

/-- So the code behind its `join_thread` is never reached. -/
theorem destroyEnd_unreachable (hi : Inv n) (hu : n.host.lib.mode = .user) :
    n.destroyEnd = none := by
  cases hd : n.destroy n.current with
  | none => simp [Net.destroyEnd, hd]
  | some v =>
    rcases hi.destroy _ v hd with ⟨t, _, hjoin⟩ | ⟨why, hdead⟩
    · exact absurd ⟨hu, rfl⟩ hjoin.away
    · simp [hu] at hdead

theorem inv_goto {v : Vid} {p : RcvPc} (hi : Inv n) (hr : n.rcv n.current ≠ none) :
    Inv (n.goto v p) := by
  have hmore : ∀ t, n.rcv t ≠ none → (n.goto v p).rcv t ≠ none := by
    intro t ht
    by_cases hcur : t = n.current
    · simp [Net.goto, hcur]
    · simpa [Net.goto, hcur] using ht
  have hless : ∀ t, (n.goto v p).rcv t ≠ none → n.rcv t ≠ none := by
    intro t ht
    by_cases hcur : t = n.current
    · exact hcur ▸ hr
    · simpa [Net.goto, hcur] using ht
  exact ⟨hi.lists, fun t ht => hi.rcv t (hless t ht),
    fun w t hw => ⟨hmore t (hi.thr w t hw).1, (hi.thr w t hw).2⟩, hi.viu, hi.destroy,
    fun t ht => hmore t (hi.gone t ht)⟩

theorem inv_fault {f : Fault} (hi : Inv n) : Inv { n with fault := some f } :=
  ⟨hi.lists, hi.rcv, hi.thr, hi.viu, hi.destroy, hi.gone⟩

theorem inv_leave {v : Vid} {x : VirtifUser} (hi : Inv n) (hr : n.rcv n.current ≠ none) :
    Inv (n.leave v x) := by
  have hgone : Inv { n with gone := n.current :: n.gone } := by
    refine ⟨hi.lists, hi.rcv, hi.thr, hi.viu, hi.destroy, fun t ht => ?_⟩
    rcases List.mem_cons.mp ht with rfl | ht
    · exact hr
    · exact hi.gone t ht
  unfold Net.leave
  split
  · exact inv_goto hgone hr
  · exact inv_fault hgone

theorem inv_withViu {v : Vid} {k : VirtifUser → Net} (hi : Inv n) (hk : ∀ x, Inv (k x)) :
    Inv (n.withViu v k) := by
  unfold Net.withViu
  split
  · exact hk _
  · exact inv_fault hi

theorem inv_rcvStep {rd : Read} {tm : Int} (hi : Inv n) (h : n.rcvStep rd tm = some n') :
    Inv n' := by
  simp only [Net.rcvStep, Option.bind_eq_bind, Option.bind_eq_some_iff] at h
  obtain ⟨⟨v, p⟩, hrcv, h⟩ := h
  have hr : n.rcv n.current ≠ none := by simp [hrcv]
  cases p with
  | kthread =>
    cases h
    have hwake : ∀ x : VirtifUser,
        Inv { n with host := n.host.recvThread x.fd (some x.rcvthr) } := fun x =>
      ⟨hi.lists, hi.rcv, hi.thr, hi.viu, hi.destroy, hi.gone⟩
    exact inv_withViu hi fun x => inv_goto (hwake x) hr
  | test =>
    cases h
    refine inv_withViu hi fun x => ?_
    split
    · exact inv_leave hi hr
    · exact inv_goto hi hr
  | read =>
    cases h
    refine inv_withViu hi fun x => ?_
    cases rd with
    | empty => exact inv_goto hi hr
    | packet => exact inv_goto hi hr
    | error => exact inv_leave hi hr
  | nap =>
    obtain ⟨hst, hs, rfl⟩ := lib_ok h
    exact inv_lib (inv_goto hi hr) (fun he => by cases he) hs
  | napped =>
    cases h
    exact inv_goto hi hr
  | deliver =>
    cases h
    exact inv_withViu hi fun _ => inv_goto hi hr
  | release =>
    cases h
    exact inv_fault hi

/-- No step lets a receive thread exit or frees an interface. -/
theorem inv_step {e : NetEvent} (hi : Inv n) (hs : n.step e = some n') : Inv n' := by
  unfold Net.step at hs
  split at hs
  · cases hs
  cases e with
  | host e =>
    simp only at hs
    split at hs
    next hp =>
      obtain ⟨hst, hstep, rfl⟩ := lib_ok hs
      refine inv_lib hi (fun he => ?_) hstep
      subst he
      simp only [Net.permits, Bool.and_eq_true, Bool.or_eq_true, decide_eq_true_eq, ne_eq,
        not_true_eq_false, false_or] at hp
      exact hp.2
    next => cases hs
  | create mem thr mmapOk devnum =>
    simp only at hs
    split at hs
    · exact inv_create hi hs
    · cases hs
  | dying v =>
    simp only at hs
    split at hs
    · exact inv_dying hi hs
    · cases hs
  | destroy v =>
    simp only at hs
    split at hs
    next hk => exact inv_destroyBegin hi (user_of_inKernel hk) hs
    next => cases hs
  | destroyed =>
    simp only at hs
    split at hs
    next hu =>
      rw [destroyEnd_unreachable hi hu] at hs
      cases hs
    next => cases hs
  | rcv rd tm =>
    simp only at hs
    split at hs
    · exact inv_rcvStep hi hs
    · cases hs

/-! ## Leaving the loop -/

/-- The receive thread on the processor leaves its loop: the test finds
`viu_dying` set, or `read` fails. -/
def leaves (n : Net) : NetEvent → Bool
  | .rcv rd _ =>
    match n.rcv n.current with
    | some (v, .test) => (n.viu v).any (·.dying)
    | some (v, .read) => (n.viu v).isSome && rd = .error
    | _ => false
  | _ => false

theorem gone_leave {v : Vid} {x : VirtifUser} : (n.leave v x).gone = n.current :: n.gone := by
  unfold Net.leave
  split <;> rfl

theorem gone_rcvStep {rd : Read} {tm : Int} (h : n.rcvStep rd tm = some n') :
    n'.gone = if leaves n (.rcv rd tm) then n.current :: n.gone else n.gone := by
  simp only [Net.rcvStep, Option.bind_eq_bind, Option.bind_eq_some_iff] at h
  obtain ⟨⟨v, p⟩, hrcv, h⟩ := h
  simp only [leaves, hrcv]
  cases p with
  | kthread =>
    cases h
    unfold Net.withViu
    split <;> simp [Net.goto]
  | test =>
    cases h
    unfold Net.withViu
    split
    next x hx =>
      cases hd : x.dying with
      | true => simp [hx, hd, gone_leave]
      | false => simp [hx, hd, Net.goto]
    next hx => simp [hx]
  | read =>
    cases h
    unfold Net.withViu
    split
    next x hx =>
      cases rd with
      | empty => simp [Net.goto]
      | packet => simp [Net.goto]
      | error => simp [hx, gone_leave]
    next hx => simp [hx]
  | nap =>
    obtain ⟨hst, _, rfl⟩ := lib_ok h
    simp [Net.goto]
  | napped =>
    cases h
    simp [Net.goto]
  | deliver =>
    cases h
    unfold Net.withViu
    split <;> simp [Net.goto]
  | release =>
    cases h
    simp

/-- The history of the receive threads that have left their loop. -/
theorem gone_step {e : NetEvent} (hs : n.step e = some n') :
    n'.gone = if leaves n e then n.current :: n.gone else n.gone := by
  unfold Net.step at hs
  split at hs
  · cases hs
  cases e with
  | host e =>
    simp only at hs
    split at hs
    · obtain ⟨hst, _, rfl⟩ := lib_ok hs
      simp [leaves]
    · cases hs
  | create mem thr mmapOk devnum =>
    simp only at hs
    split at hs
    next =>
      unfold Net.create at hs
      cases mem with
      | none =>
        cases hs
        simp [leaves]
      | some v =>
        dsimp only at hs
        split at hs
        · cases hs
        · obtain ⟨n₁, hlib, rfl⟩ := Option.map_eq_some_iff.mp hs
          obtain ⟨hst, _, rfl⟩ := lib_ok hlib
          split <;> simp [leaves]
    next => cases hs
  | dying v =>
    simp only at hs
    split at hs
    · obtain ⟨x, _, rfl⟩ := Option.map_eq_some_iff.mp hs
      simp [leaves]
    · cases hs
  | destroy v =>
    simp only at hs
    split at hs
    · simp only [Net.destroyBegin, Option.bind_eq_bind, Option.bind_eq_some_iff] at hs
      obtain ⟨x, _, n₁, hlib, hn⟩ := hs
      obtain ⟨hst, _, rfl⟩ := lib_ok hlib
      cases hn
      simp [leaves]
    · cases hs
  | destroyed =>
    simp only at hs
    split at hs
    · obtain ⟨v, _, rfl⟩ := Option.map_eq_some_iff.mp hs
      simp [leaves]
    · cases hs
  | rcv rd tm =>
    simp only at hs
    split at hs
    · exact gone_rcvStep hs
    · cases hs

end Steps

theorem inv_run {n n' : Net} {tr : List (Net × NetEvent)} (hi : Inv n)
    (hr : Run Net.step n tr n') : Inv n' :=
  Run.always hi (fun _ _ _ h hs => inv_step h hs) hr

theorem gone_run {n₀ n : Net} {tr : List (Net × NetEvent)} (h₀ : n₀.gone = [])
    (hr : Run Net.step n₀ tr n) :
    n.gone = [] ↔ Guarded (fun n e => leaves n e = false) tr := by
  induction hr with
  | nil => exact ⟨fun _ => Guarded.nil _, fun _ => h₀⟩
  | @snoc tr n n' e _ hs ih =>
    rw [guarded_snoc, ← ih, gone_step hs]
    cases leaves n e with
    | true => simp
    | false => simp

/-! ## The lifecycle -/

/-- The thread can still come to announce itself in `exit_thread`. -/
def Exits (n : Net) (t : Tid) : Prop :=
  ∃ tr n', Run Net.step n tr n' ∧ (n'.host.lib.thread t).joined = true

/-- What the parts of the lifecycle owe each other: a receive thread that has
left its loop goes on to exit; an interface is freed only when its thread has
announced its exit, and no `wake` entry then refers to that thread; and no
entry ever refers to a receive thread that has been freed. -/
structure Proper (n : Net) : Prop where
  exits : ∀ t ∈ n.gone, Exits n t
  freed : ∀ v t, n.rcvthr v = some t → n.viu v = none →
    (n.host.lib.thread t).joined = true ∧ ∀ fd, n.host.wake fd ≠ some t
  wake : ∀ v t fd, n.rcvthr v = some t → n.host.wake fd = some t → t ∉ n.host.lib.freed

theorem Stays.not_freed {s : State} {t : Tid} (hl : Lists.Inv s) (h : Stays s t) : t ∉ s.freed := by
  have hnd := hl.perm.nodup_iff.mpr hl.nodup
  intro hf
  exact (List.nodup_append.mp hnd).2.2 t (List.mem_append_left _ h.listed) t hf rfl

/-- A receive thread that has left its loop never announces its exit. -/
theorem not_exits {n : Net} {t : Tid} (hi : Inv n) (ht : t ∈ n.gone) : ¬ Exits n t := by
  rintro ⟨tr, n', hr, hj⟩
  have hgone : Inv n' ∧ t ∈ n'.gone := by
    refine Run.always (I := fun m => Inv m ∧ t ∈ m.gone) ⟨hi, ht⟩ (fun m e m' h hs => ?_) hr
    refine ⟨inv_step h.1 hs, ?_⟩
    rw [gone_step hs]
    split
    · exact List.mem_cons_of_mem _ h.2
    · exact h.2
  rw [(hgone.1.rcv t (hgone.1.gone t hgone.2)).joined] at hj
  cases hj

theorem proper_iff {n : Net} (hi : Inv n) : Proper n ↔ n.gone = [] := by
  constructor
  · intro h
    by_contra hne
    obtain ⟨t, l, hg⟩ := List.exists_cons_of_ne_nil hne
    have ht : t ∈ n.gone := by simp [hg]
    exact not_exits hi ht (h.exits t ht)
  · intro hg
    refine ⟨fun t ht => by simp [hg] at ht, fun v t hv hfree => ?_, fun v t fd hv _ => ?_⟩
    · exact absurd hfree (hi.thr v t hv).2
    · exact (hi.rcv t (hi.thr v t hv).1).not_freed hi.lists

/-- The lifecycle holds in every state of a run if and only if no receive
thread leaves its loop. -/
theorem virtif_lifecycle_iff {t₀ : Tid} {fds : List Nat} {tr : List (Net × NetEvent)} {n : Net}
    (hr : Run Net.step (Net.boot t₀ fds) tr n) :
    ((∀ p ∈ tr, Proper p.1) ∧ Proper n) ↔ Guarded (fun n e => leaves n e = false) tr := by
  have hproper : ∀ {l : List (Net × NetEvent)} {m : Net}, Run Net.step (Net.boot t₀ fds) l m →
      (Proper m ↔ Guarded (fun n e => leaves n e = false) l) := fun hl =>
    (proper_iff (inv_run (inv_boot t₀ fds) hl)).trans (gone_run rfl hl)
  constructor
  · rintro ⟨_, hn⟩
    exact (hproper hr).mp hn
  · intro hg
    refine ⟨fun p hp => ?_, (hproper hr).mpr hg⟩
    obtain ⟨l, hl, hpre⟩ := hr.reaches_mem hp
    exact (hproper hl).mpr (hg.prefix_of hpre)

/-- Thread 0 creates an interface on descriptor 3; its receive thread 1 finds
nothing to read and sleeps, is woken by a packet and delivers it. -/
theorem virtif_lifecycle_iff_packet : ∃ tr n, Run Net.step (Net.boot 0 [3]) tr n ∧
    tr.length = 16 ∧ n.rcv 1 = some (0, .test) ∧ n.host.wake 3 = some 1 ∧
    (∀ p ∈ tr, Proper p.1) ∧ Proper n := by
  obtain ⟨tr, n, hr, hp⟩ := exists_run (f := Net.step) (s := Net.boot 0 [3])
    [.create (some 0) (some 1) true 3, .host (.lib (.call (.clockSleep .monotonic 100 0 0))),
      .host (.lib (.pass 0)), .host (.lib .resume), .rcv .empty 0, .rcv .empty 0, .rcv .empty 0,
      .rcv .empty 0, .host (.lib (.pass 1)), .host (.poll [true]), .host (.lib (.pass 2)),
      .host (.lib .resume), .rcv .empty 0, .rcv .empty 0, .rcv .packet 0, .rcv .empty 0]
    (p := fun tr n => decide (tr.length = 16 ∧ n.rcv 1 = some (0, .test) ∧
      n.host.wake 3 = some 1 ∧ Guarded (fun n e => leaves n e = false) tr)) (by decide +kernel)
  rw [decide_eq_true_eq] at hp
  obtain ⟨hlen, hat, hwake, hg⟩ := hp
  exact ⟨tr, n, hr, hlen, hat, hwake, (virtif_lifecycle_iff hr).mpr hg⟩

/-- The interface is destroyed: thread 0 waits in `join_thread` for the receive
thread 1. A packet wakes it, it finds the interface dying, leaves its loop and
returns from `rcvthread`. The process ends; nobody has been joined, and the
`wake` entry of descriptor 3 is still set. -/
theorem virtif_lifecycle_fails : ∃ tr n, Run Net.step (Net.boot 0 [3]) tr n ∧
    n.gone = [1] ∧ n.fault = some .returned ∧ n.host.lib.pc 0 = .join 1 ∧
    n.host.wake 3 = some 1 ∧ ¬ Exits n 1 ∧ ¬ Proper n := by
  obtain ⟨tr, n, hr, hp⟩ := exists_run (f := Net.step) (s := Net.boot 0 [3])
    [.create (some 0) (some 1) true 3, .host (.lib (.call (.clockSleep .monotonic 0 100 0))),
      .host (.lib (.pass 0)), .host (.lib .resume), .rcv .empty 0, .rcv .empty 0, .rcv .empty 0,
      .rcv .empty 0, .host (.lib (.pass 200)), .host (.lib .resume), .dying 0, .destroy 0,
      .host (.lib (.pass 300)), .host (.poll [true]), .host (.lib (.pass 301)),
      .host (.lib .resume), .rcv .empty 0, .rcv .empty 0, .rcv .empty 0]
    (p := fun _ n => decide (n.gone = [1] ∧ n.fault = some .returned ∧
      n.host.lib.pc 0 = .join 1 ∧ n.host.wake 3 = some 1)) (by decide +kernel)
  rw [decide_eq_true_eq] at hp
  obtain ⟨hgone, hfault, hpc, hwake⟩ := hp
  have hi := inv_run (inv_boot 0 [3]) hr
  refine ⟨tr, n, hr, hgone, hfault, hpc, hwake, not_exits hi (by simp [hgone]), fun hproper => ?_⟩
  rw [proper_iff hi, hgone] at hproper
  cases hproper

end Frankenlibc.Virtif

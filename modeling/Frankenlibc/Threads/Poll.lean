import Frankenlibc.Threads.Lists

/-!
# The library on Linux

While the scheduler idles it calls the platform's `clock_nanosleep`. If there
are descriptors to watch, that is a `ppoll`, and for each descriptor that has
become ready the thread in its `wake` entry of `__franken_fd` is woken,
whatever it is waiting for. `Host` puts the entries and the list of watched
descriptors beside the thread library.
-/
namespace Frankenlibc.Threads

open Frankenlibc.Lib

structure Host where
  lib : State
  wake : Nat → Option Tid
  pollfd : List Nat

inductive HostEvent where
  | lib (e : Event)
  | recvThread (fd : Nat) (thrid : Option Tid)
  | poll (revents : List Bool)
  deriving DecidableEq, Repr

/-- The loop of `clock_nanosleep` over `__platform_pollfd`. The `wake` of a
thread that has been freed writes to freed memory. -/
def nanosleepLoop (entry : Nat → Option Tid) : List (Nat × Bool) → State → State
  | [], s => s
  | (fd, revents) :: l, s =>
    if revents then
      match entry fd with
      | some t =>
        if t ∈ s.freed then { s with mode := .dead .useAfterFree }
        else nanosleepLoop entry l (wake t s)
      | none => nanosleepLoop entry l s
    else nanosleepLoop entry l s

namespace Host

/-- `clock_nanosleep` with something to poll, where `ppoll` has returned
`revents`. -/
def nanosleep (revents : List Bool) (h : Host) : Host :=
  { h with lib := nanosleepLoop h.wake (h.pollfd.zip revents) h.lib }

/-- `franken_recv_thread`. -/
def recvThread (fd : Nat) (thrid : Option Tid) (h : Host) : Host :=
  { h with wake := Function.update h.wake fd thrid }

/-- The wakes from outside are those of `clock_nanosleep`. -/
def ownEvent : Event → Bool
  | .extWake _ => false
  | _ => true

def step (h : Host) : HostEvent → Option Host
  | .lib e => if ownEvent e then (Threads.step h.lib e).map fun s => { h with lib := s } else none
  | .recvThread fd thrid =>
    if h.lib.mode = .user ∧ (∀ t ∈ thrid, t ∈ h.lib.created) then some (h.recvThread fd thrid)
    else none
  | .poll revents =>
    if h.lib.mode.isIdle ∧ h.pollfd ≠ [] ∧ revents.length = h.pollfd.length then
      some (h.nanosleep revents)
    else none

/-- The library as `init_sched` leaves it, with no entry set and the network
descriptors among those the process was started with. -/
def boot (t : Tid) (fds : List Nat) : Host :=
  { lib := initSched t, wake := fun _ => none, pollfd := fds }

/-- The threads that a `ppoll` with these results wakes. -/
def woken (h : Host) (revents : List Bool) : List Tid :=
  (h.pollfd.zip revents).filterMap fun p => if p.2 then h.wake p.1 else none

end Host

/-- The loop wakes the threads of the ready descriptors one after the other,
until it comes to one that has been freed. Each wake is a step of the library. -/
theorem nanosleepLoop_run {entry : Nat → Option Tid} {l : List (Nat × Bool)} {s : State}
    (hl : Lists.Inv s) (hi : s.mode.isIdle = true)
    (hc : ∀ fd t, entry fd = some t → t ∈ s.created) :
    ∃ tr x, Run step s tr x ∧
      (∀ p ∈ tr, ∃ t, p.2 = .extWake t ∧
        t ∈ l.filterMap fun q => if q.2 then entry q.1 else none) ∧
      (nanosleepLoop entry l s = x ∨
        nanosleepLoop entry l s = { x with mode := .dead .useAfterFree }) := by
  induction l generalizing s with
  | nil => exact ⟨[], s, .nil, fun p hp => by simp at hp, .inl rfl⟩
  | cons q l ih =>
    obtain ⟨fd, revents⟩ := q
    have hskip : nanosleepLoop entry ((fd, revents) :: l) s = nanosleepLoop entry l s →
        ∃ tr x, Run step s tr x ∧ (∀ p ∈ tr, ∃ t, p.2 = .extWake t ∧
          t ∈ ((fd, revents) :: l).filterMap fun q => if q.2 then entry q.1 else none) ∧
          (nanosleepLoop entry ((fd, revents) :: l) s = x ∨
            nanosleepLoop entry ((fd, revents) :: l) s =
              { x with mode := .dead .useAfterFree }) := by
      intro hsame
      obtain ⟨tr, x, hr, hev, hx⟩ := ih hl hi hc
      refine ⟨tr, x, hr, fun p hp => ?_, by rw [hsame]; exact hx⟩
      obtain ⟨t, ht, hm⟩ := hev p hp
      refine ⟨t, ht, ?_⟩
      rw [List.filterMap_cons]
      split
      · exact hm
      · exact List.mem_cons_of_mem _ hm
    cases revents with
    | false => exact hskip (by simp [nanosleepLoop])
    | true =>
      cases hw : entry fd with
      | none => exact hskip (by simp [nanosleepLoop, hw])
      | some t =>
        by_cases hf : t ∈ s.freed
        · exact ⟨[], s, .nil, fun p hp => by simp at hp, .inr (by simp [nanosleepLoop, hw, hf])⟩
        · have hlisted : t ∈ s.threadList ∨ t ∈ s.exitedThreads := by
            have hmem := hl.perm.mem_iff.mpr (hc fd t hw)
            simpa [hf] using hmem
          have hs : step s (.extWake t) = some (wake t s) := by
            simp [step, hi, hlisted]
          obtain ⟨tr, x, hr, hev, hx⟩ := ih (s := wake t s) (Lists.inv_step hl hs) hi hc
          have hone : Run step s ([] ++ [(s, .extWake t)]) (wake t s) := .snoc .nil hs
          refine ⟨_, x, hone.trans hr, fun p hp => ?_, ?_⟩
          · rcases List.mem_append.mp hp with hp | hp
            · simp only [List.nil_append, List.mem_singleton] at hp
              subst hp
              exact ⟨t, rfl, by simp [hw]⟩
            · obtain ⟨u, hu, hm⟩ := hev p hp
              exact ⟨u, hu, by simp [hw, hm]⟩
          · simpa [nanosleepLoop, hw, hf] using hx

/-- The loop changes nothing but the threads it wakes, and stops the process if
one of them has been freed. -/
theorem nanosleepLoop_frame (entry : Nat → Option Tid) (l : List (Nat × Bool)) (s : State) :
    ∃ th mode, nanosleepLoop entry l s = { s with thread := th, mode := mode } ∧
      (mode = s.mode ∨ mode = .dead .useAfterFree) ∧
      (∀ t, (th t).joined = (s.thread t).joined) ∧
      ∀ t, t ∉ (l.filterMap fun q => if q.2 then entry q.1 else none) → th t = s.thread t := by
  induction l generalizing s with
  | nil => exact ⟨s.thread, s.mode, rfl, .inl rfl, fun _ => rfl, fun _ _ => rfl⟩
  | cons q l ih =>
    obtain ⟨fd, revents⟩ := q
    cases revents with
    | false => simpa [nanosleepLoop] using ih s
    | true =>
      cases hw : entry fd with
      | none => simpa [nanosleepLoop, hw] using ih s
      | some t =>
        by_cases hf : t ∈ s.freed
        · exact ⟨s.thread, .dead .useAfterFree, by simp [nanosleepLoop, hw, hf], .inr rfl,
            fun _ => rfl, fun _ _ => rfl⟩
        · obtain ⟨th, mode, hx, hm, hj, hth⟩ := ih (wake t s)
          refine ⟨th, mode, by simpa [nanosleepLoop, hw, hf, wake, State.setThread] using hx, hm,
            fun u => (hj u).trans ((wake_calm t s).joined u), fun u hu => ?_⟩
          simp only [List.filterMap_cons, if_true, hw, List.mem_cons, not_or] at hu
          rw [hth u hu.2]
          simp [wake, State.setThread, hu.1]

/-- What the thread on the processor does: it stays the current one, and no
thread that was created is forgotten. -/
structure Onward (s s' : State) : Prop where
  current : s'.current = s.current
  created : s.created ⊆ s'.created

section Onward

variable {s s' : State}

theorem Onward.of_eq (hc : s'.current = s.current) (hr : s'.created = s.created) : Onward s s' :=
  ⟨hc, hr ▸ fun _ hx => hx⟩

theorem onward_calm (h : Calm s s') : Onward s s' := .of_eq h.current h.created

theorem onward_exitThread (s : State) : Onward s (exitThread s) := by
  cases hm : (s.thread s.current).mustjoin with
  | true =>
    obtain ⟨th, he, _⟩ := exitThread_gate hm
    rw [he]
    exact .of_eq rfl rfl
  | false =>
    rw [exitThread_leave hm]
    exact .of_eq rfl rfl

theorem onward_joinLoop {t : Tid} (h : joinLoop t s = .ok s') : Onward s s' := by
  obtain ⟨_, ⟨_, rfl⟩ | ⟨_, rfl⟩⟩ := joinLoop_ok h
  · exact .of_eq rfl rfl
  · exact .of_eq rfl rfl

theorem onward_exec {c : Call} (he : exec s c = .ok s') : Onward s s' := by
  cases exec_inv he with
  | calm hc => exact onward_calm hc
  | create => exact ⟨rfl, List.subset_append_left _ _⟩
  | exit => exact onward_exitThread s
  | join _ hj =>
    have hon := onward_joinLoop hj
    exact ⟨hon.current, hon.created⟩
  | setCurlwp => exact .of_eq rfl rfl

theorem onward_resume {p : Pc} (he : resume s p = .ok s') : Onward s s' := by
  cases resume_inv he with
  | running | fresh => exact .of_eq rfl rfl
  | yield | sleep => exact .of_eq rfl rfl
  | wait ht => exact .of_eq (waited_calm ht).current (waited_calm ht).created
  | join hj =>
    have hon := onward_joinLoop hj
    exact ⟨hon.current, hon.created⟩
  | gate =>
    have hx := onward_exitThread (reap s)
    exact ⟨hx.current, hx.created⟩
  | exited => exact .of_eq rfl rfl

/-- No thread that was created is forgotten. -/
theorem step_created {e : Event} (h : step s e = some s') : s.created ⊆ s'.created := by
  cases step_inv h with
  | call _ _ he => exact (onward_exec he).created
  | resume _ he => exact (onward_resume he).created
  | callAbort => exact fun _ hx => hx
  | switch => exact fun _ hx => hx
  | idle => exact fun _ hx => hx
  | extWake => exact fun _ hx => hx
  | resumeAbort => exact fun _ hx => hx

end Onward

/-- A step of the host is one of the library, leaves the library alone, or is a
`ppoll`, which only wakes threads. -/
theorem Host.step_lib {h h' : Host} {e : HostEvent} (hs : h.step e = some h') :
    (∃ le, e = .lib le ∧ Threads.step h.lib le = some h'.lib ∧ h' = { h with lib := h'.lib }) ∨
      (∃ fd thrid, e = .recvThread fd thrid ∧ h' = h.recvThread fd thrid) ∨
      ∃ th mode, h.lib.mode.isIdle = true ∧ h' = { h with lib := { h.lib with
          thread := th, mode := mode } } ∧ (mode = h.lib.mode ∨ mode = .dead .useAfterFree) ∧
        ∀ t, (th t).joined = (h.lib.thread t).joined := by
  cases e with
  | lib e =>
    simp only [Host.step] at hs
    split at hs
    · obtain ⟨s', hstep, rfl⟩ := Option.map_eq_some_iff.mp hs
      exact .inl ⟨e, rfl, hstep, rfl⟩
    · cases hs
  | recvThread fd thrid =>
    simp only [Host.step] at hs
    split at hs
    · cases hs
      exact .inr (.inl ⟨fd, thrid, rfl, rfl⟩)
    · cases hs
  | poll revents =>
    simp only [Host.step] at hs
    split at hs
    next hc =>
      cases hs
      obtain ⟨th, mode, heq, hmode, hj, _⟩ :=
        nanosleepLoop_frame h.wake (h.pollfd.zip revents) h.lib
      exact .inr (.inr ⟨th, mode, hc.1, by rw [Host.nanosleep, heq], hmode, hj⟩)
    next => cases hs

end Frankenlibc.Threads

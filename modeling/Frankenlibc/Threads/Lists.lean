import Mathlib.Data.List.Perm.Basic
import Mathlib.Data.List.Count
import Mathlib.Data.List.Nodup
import Frankenlibc.Threads.Frame

/-!
# The thread lists

Every thread that was created is on `thread_list`, on `exited_threads` or has
been freed, and on only one of these, once. The proof carries one fact across
context switches: the three lists together are a rearrangement of the list of
all threads ever created, which has no repetition.
-/
namespace Frankenlibc.Threads.Lists

open Frankenlibc.Lib

/-! ## The invariant -/

structure Inv (s : State) : Prop where
  nodup : s.created.Nodup
  perm : (s.threadList ++ s.exitedThreads ++ s.freed).Perm s.created
  running : s.mode = .user ∨ s.mode = .back → s.current ∈ s.threadList

theorem inv_boot (t : Tid) (ts : List Tid) (lwp : Tid → Option Lwp) (hn : (t :: ts).Nodup) :
    Inv (boot t ts lwp) where
  nodup := hn
  perm := by simp [boot]
  running _ := by simp [boot]

theorem inv_calm {s s' : State} (h : Inv s) (hc : Calm s s') (hr : s.current ∈ s.threadList) :
    Inv s' where
  nodup := by rw [hc.created]; exact h.nodup
  perm := by rw [hc.threadList, hc.exitedThreads, hc.freed, hc.created]; exact h.perm
  running _ := by rw [hc.current, hc.threadList]; exact hr

/-- The lists and the history behind them are all that the invariant reads. -/
theorem inv_congr {s s' : State} (h : Inv s) (hr : s.current ∈ s.threadList)
    (hl : s'.threadList = s.threadList) (he : s'.exitedThreads = s.exitedThreads)
    (hf : s'.freed = s.freed) (hcr : s'.created = s.created) (hc : s'.current = s.current) :
    Inv s' where
  nodup := by rw [hcr]; exact h.nodup
  perm := by rw [hl, he, hf, hcr]; exact h.perm
  running _ := by rw [hc, hl]; exact hr

theorem inv_threadMade {s : State} (h : Inv s) (hr : s.current ∈ s.threadList) {t : Tid}
    (joinable extstack : Bool) (hn : t ∉ s.created) : Inv (threadMade t joinable extstack s) := by
  refine ⟨?_, ?_, ?_⟩
  · exact List.Nodup.append h.nodup (List.nodup_singleton t) (by simpa using hn)
  · have hp : (s.threadList ++ [t] ++ s.exitedThreads ++ s.freed).Perm
        (s.threadList ++ s.exitedThreads ++ s.freed ++ [t]) := by
      simp only [List.append_assoc]
      refine List.Perm.append_left _ ?_
      rw [← List.append_assoc s.exitedThreads]
      exact List.perm_append_comm
    exact hp.trans (h.perm.append_right [t])
  · exact fun _ => List.mem_append_left _ hr

theorem inv_exitThread {s : State} (h : Inv s) (hr : s.current ∈ s.threadList) :
    Inv (exitThread s) := by
  cases hm : (s.thread s.current).mustjoin with
  | true =>
    obtain ⟨th, he, _⟩ := exitThread_gate hm
    rw [he]
    exact inv_congr h hr rfl rfl rfl rfl rfl
  | false =>
    rw [exitThread_leave hm]
    refine ⟨h.nodup, ?_, by simp⟩
    have hp : (s.threadList.erase s.current ++ s.current :: s.exitedThreads ++ s.freed).Perm
        (s.threadList ++ s.exitedThreads ++ s.freed) := by
      refine List.Perm.append_right _ ?_
      refine List.perm_middle.trans ?_
      rw [← List.cons_append]
      exact (List.perm_cons_erase hr).symm.append_right _
    exact hp.trans h.perm

theorem inv_joinLoop {t : Tid} {s s' : State} (h : Inv s) (hr : s.current ∈ s.threadList)
    (hj : joinLoop t s = .ok s') : Inv s' := by
  obtain ⟨_, ⟨_, rfl⟩ | ⟨_, rfl⟩⟩ := joinLoop_ok hj
  · exact inv_congr h hr rfl rfl rfl rfl rfl
  · exact inv_congr h hr rfl rfl rfl rfl rfl

theorem inv_joinThread {t : Tid} {s s' : State} (h : Inv s) (hr : s.current ∈ s.threadList)
    (hj : joinThread t s = .ok s') : Inv s' := by
  obtain ⟨_, _, hj⟩ := joinThread_ok hj
  refine inv_joinLoop ?_ ?_ hj
  · exact inv_congr h hr rfl rfl rfl rfl rfl
  · exact hr

theorem inv_reap {s : State} (h : Inv s) : Inv (reap s) where
  nodup := h.nodup
  perm := by
    have hs : (s.exitedThreads.filter (fun t => decide (t = s.current)) ++
        s.exitedThreads.filter (fun t => decide (t ≠ s.current))).Perm s.exitedThreads := by
      have := List.filter_append_perm (fun t => decide (t = s.current)) s.exitedThreads
      simpa only [decide_not] using this
    have hp : (s.threadList ++ s.exitedThreads.filter (fun t => decide (t = s.current)) ++
        (s.freed ++ s.exitedThreads.filter (fun t => decide (t ≠ s.current)))).Perm
        (s.threadList ++ s.exitedThreads ++ s.freed) := by
      simp only [List.append_assoc]
      refine List.Perm.append_left _ ?_
      refine (List.Perm.append_left _ List.perm_append_comm).trans ?_
      rw [← List.append_assoc]
      exact hs.append_right _
    exact hp.trans h.perm
  running := h.running

theorem inv_exec {c : Call} {s s' : State} (h : Inv s) (hu : s.mode = .user)
    (ha : c.allowed s = true) (he : exec s c = .ok s') : Inv s' := by
  have hr := h.running (.inl hu)
  cases exec_inv he with
  | calm hc => exact inv_calm h hc hr
  | create => exact inv_threadMade h hr _ _ (by simpa [Call.allowed] using ha)
  | exit => exact inv_exitThread h hr
  | join => exact inv_joinThread h hr he
  | setCurlwp => exact inv_congr h hr rfl rfl rfl rfl rfl

theorem inv_resume {s s' : State} {p : Pc} (h : Inv s) (hr : s.current ∈ s.threadList)
    (he : resume s p = .ok s') : Inv s' := by
  have hreap := inv_reap h
  cases resume_inv he with
  | running | fresh => exact inv_calm h (toUser_calm s) hr
  | yield | sleep => exact inv_calm hreap (toUser_calm (reap s)) hr
  | wait ht => exact inv_calm hreap (waited_calm ht) hr
  | join hj =>
    refine inv_joinLoop ?_ ?_ hj
    · exact inv_congr hreap hr rfl rfl rfl rfl rfl
    · exact hr
  | gate => exact inv_exitThread hreap hr
  | exited => exact inv_congr hreap hr rfl rfl rfl rfl rfl

theorem inv_dead {s : State} (h : Inv s) (why : Abort) : Inv { s with mode := .dead why } where
  nodup := h.nodup
  perm := h.perm
  running hm := by simp at hm

/-- One step of the machine keeps the lists in order. -/
theorem inv_step {s s' : State} {e : Event} (h : Inv s) (hs : step s e = some s') : Inv s' := by
  cases step_inv hs with
  | call hu ha he => exact inv_exec h hu ha he
  | callAbort => exact inv_dead h _
  | @switch _ n th hm =>
    refine ⟨h.nodup, ?_, fun _ => by simp⟩
    have hp : (s.threadList.erase n ++ [n]).Perm s.threadList :=
      (List.perm_append_singleton n _).trans (List.perm_cons_erase hm).symm
    exact ((hp.append_right _).append_right _).trans h.perm
  | idle => exact ⟨h.nodup, h.perm, fun hm => by simp at hm⟩
  | extWake => exact ⟨h.nodup, h.perm, h.running⟩
  | resume hb he => exact inv_resume h (h.running (.inr hb)) he
  | resumeAbort => exact inv_dead h _

theorem inv_run {s₀ s : State} {tr : List (State × Event)} (h₀ : Inv s₀)
    (hr : Run step s₀ tr s) : Inv s :=
  Run.always h₀ (fun _ _ _ h hs => inv_step h hs) hr

/-! ## Consequences -/

/-- A live thread is on exactly one of the two lists, once. -/
theorem count_live {s : State} (h : Inv s) {t : Tid} (hc : t ∈ s.created) (hf : t ∉ s.freed) :
    s.threadList.count t + s.exitedThreads.count t = 1 := by
  have hp := h.perm.count_eq t
  rw [List.count_append, List.count_append, List.count_eq_one_of_mem h.nodup hc,
    List.count_eq_zero_of_not_mem hf] at hp
  omega

theorem lists_nodup {s : State} (h : Inv s) :
    (s.threadList ++ s.exitedThreads ++ s.freed).Nodup := h.perm.nodup_iff.mpr h.nodup

theorem threadList_nodup {s : State} (h : Inv s) : s.threadList.Nodup :=
  (List.nodup_append.mp (List.nodup_append.mp (lists_nodup h)).1).1

theorem freed_nodup {s : State} (h : Inv s) : s.freed.Nodup :=
  (List.nodup_append.mp (lists_nodup h)).2.1

theorem exited_not_listed {s : State} (h : Inv s) {t : Tid} (ht : t ∈ s.exitedThreads) :
    t ∉ s.threadList := by
  have hn := (List.nodup_append.mp (lists_nodup h)).1
  intro hl
  exact (List.nodup_append.mp hn).2.2 t hl t ht rfl

/-- A step frees nothing, or all exited threads but the one that executes it. -/
def Frees (s s' : State) : Prop :=
  s'.freed = s.freed ∨ s'.freed = s.freed ++ s.exitedThreads.filter (· ≠ s.current)

theorem joinLoop_frees {t : Tid} {s s' : State} (h : joinLoop t s = .ok s') :
    s'.freed = s.freed ∧ s'.current = s.current := by
  obtain ⟨_, ⟨_, rfl⟩ | ⟨_, rfl⟩⟩ := joinLoop_ok h
  · exact ⟨rfl, rfl⟩
  · exact ⟨rfl, rfl⟩

theorem exitThread_frees (s : State) :
    (exitThread s).freed = s.freed ∧ (exitThread s).current = s.current := by
  obtain ⟨th, tl, ex, p, he, -⟩ := exitThread_frame s
  rw [he]
  exact ⟨rfl, rfl⟩

theorem exec_frees {c : Call} {s s' : State} (h : exec s c = .ok s') :
    s'.freed = s.freed ∧ s'.current = s.current := by
  cases exec_inv h with
  | calm hc => exact ⟨hc.freed, hc.current⟩
  | create => exact ⟨rfl, rfl⟩
  | exit => exact exitThread_frees s
  | join _ hj =>
    have hf := joinLoop_frees hj
    exact hf
  | setCurlwp => exact ⟨rfl, rfl⟩

theorem resume_frees {p : Pc} {s s' : State} (h : resume s p = .ok s') :
    Frees s s' ∧ s'.current = s.current := by
  cases resume_inv h with
  | running | fresh => exact ⟨.inl rfl, rfl⟩
  | yield | sleep => exact ⟨.inr rfl, rfl⟩
  | wait ht => exact ⟨.inr (waited_calm ht).freed, (waited_calm ht).current⟩
  | join hj =>
    obtain ⟨hf, hc⟩ := joinLoop_frees hj
    exact ⟨.inr hf, hc⟩
  | gate =>
    obtain ⟨hf, hc⟩ := exitThread_frees (reap s)
    exact ⟨.inr hf, hc⟩
  | exited => exact ⟨.inr rfl, rfl⟩

/-- A pass hands the processor to a runnable thread of the list, or to none. -/
theorem pass_selects {s s' : State} {tm : Int} (h : step s (.pass tm) = some s') :
    s'.freed = s.freed ∧
      (s'.current ∈ s.threadList ∧ (s'.thread s'.current).runnable = true ∨
        s'.current = s.current ∧ s'.mode ≠ .back) := by
  cases step_inv h with
  | switch hm _ hr => exact ⟨rfl, .inl ⟨hm, hr⟩⟩
  | idle => exact ⟨rfl, .inr ⟨rfl, by simp⟩⟩

/-- No other step changes the current thread. -/
theorem step_frees {s s' : State} {e : Event} (h : step s e = some s') :
    Frees s s' ∧ (s'.current = s.current ∨ ∃ tm, e = .pass tm) := by
  cases step_inv h with
  | call _ _ he => exact ⟨.inl (exec_frees he).1, .inl (exec_frees he).2⟩
  | callAbort => exact ⟨.inl rfl, .inl rfl⟩
  | switch => exact ⟨.inl rfl, .inr ⟨_, rfl⟩⟩
  | idle => exact ⟨.inl rfl, .inr ⟨_, rfl⟩⟩
  | extWake => exact ⟨.inl rfl, .inl rfl⟩
  | resume _ he => exact ⟨(resume_frees he).1, .inl (resume_frees he).2⟩
  | resumeAbort => exact ⟨.inl rfl, .inl rfl⟩

/-- The scheduler's lists, in every state the library can reach from
`init_sched` through any calls and any interleaving. A thread that has been
created and not been freed is on exactly one list, once. The processor only
goes to a runnable thread of `thread_list`. What a step frees was on
`exited_threads`, is not the thread that executes it and is not on
`thread_list`. No thread is freed twice. -/
theorem lists_invariant {t₀ : Tid} {tr : List (State × Event)} {s : State}
    (hr : Run step (initSched t₀) tr s) :
    (∀ t ∈ s.created, t ∉ s.freed → s.threadList.count t + s.exitedThreads.count t = 1) ∧
    (∀ e s', step s e = some s' →
      s'.current ≠ s.current ∨ (∃ tm, e = .pass tm) ∧ s'.mode = .back →
      s'.current ∈ s.threadList ∧ (s'.thread s'.current).runnable = true) ∧
    (∀ e s' t, step s e = some s' → t ∈ s'.freed → t ∉ s.freed →
      t ∈ s.exitedThreads ∧ t ≠ s.current ∧ t ∉ s.threadList ∧ t ∉ s'.threadList) ∧
    s.freed.Nodup := by
  have hi : Inv s := inv_run (inv_boot _ _ _ (by simp)) hr
  refine ⟨fun t hc hf => count_live hi hc hf, ?_, ?_, freed_nodup hi⟩
  · intro e s' hs hsw
    obtain ⟨tm, rfl⟩ : ∃ tm, e = .pass tm := by
      rcases hsw with hne | ⟨hp, _⟩
      · exact (step_frees hs).2.resolve_left hne
      · exact hp
    rcases (pass_selects hs).2 with hsel | ⟨hsame, hnb⟩
    · exact hsel
    · rcases hsw with hne | ⟨_, hb⟩
      · exact absurd hsame hne
      · exact absurd hb hnb
  · intro e s' t hs hf hnf
    have hi' := inv_step hi hs
    have he : t ∈ s.exitedThreads ∧ t ≠ s.current := by
      rcases (step_frees hs).1 with hsame | happ
      · rw [hsame] at hf
        exact absurd hf hnf
      · rw [happ] at hf
        rcases List.mem_append.mp hf with hold | hnew
        · exact absurd hold hnf
        · simpa using hnew
    refine ⟨he.1, he.2, exited_not_listed hi he.1, ?_⟩
    intro hl
    have hd := (List.nodup_append.mp (lists_nodup hi')).2.2
    exact hd t (List.mem_append_left _ hl) t hf rfl

/-- The invariant at work on a run in which a joinable thread is created,
exits, is joined and is freed by the thread that joined it. -/
theorem lists_invariant_join : ∃ tr s, Run step (initSched 0) tr s ∧
    s.threadList = [0] ∧ s.freed = [1] ∧ s.freed.Nodup := by
  obtain ⟨tr, s, hr, hp⟩ := exists_run (f := step) (s := initSched 0)
    [.call (.createThread (some 1) true false true), .call (.joinThread 1), .pass 0, .resume,
      .call .exitThread, .pass 0, .resume, .call .schedule, .pass 0, .resume, .pass 0, .resume]
    (p := fun _ s => s.threadList = [0] ∧ s.freed = [1]) (by decide)
  rw [decide_eq_true_eq] at hp
  exact ⟨tr, s, hr, hp.1, hp.2, (lists_invariant hr).2.2.2⟩

end Frankenlibc.Threads.Lists

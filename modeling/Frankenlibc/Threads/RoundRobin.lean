import Frankenlibc.Lib.Line
import Frankenlibc.Threads.Lists

/-!
# Round-robin fairness

A pass of `schedule` takes the first runnable thread of `thread_list` and puts
it at the end. A thread that waits its turn there is passed by only by those
ahead of it: creation appends, exit removes, and whoever is selected steps back
behind it. So the number of threads ahead pays for the passes.
-/
namespace Frankenlibc.Threads.RoundRobin

open Frankenlibc.Lib

/-- The thread that a step hands the processor to: the one at which a pass of
`schedule` stops. -/
def selected (s : State) : Event → Option Tid
  | .pass tm => (scan tm s.threadList s.thread (i64 (tm + 1000 * 1000))).1
  | _ => none

def isPass : Event → Bool
  | .pass _ => true
  | _ => false

/-! ## What a step does to the list -/

/-- The ways in which a step changes `thread_list`. -/
inductive Relist (s : State) (e : Event) (s' : State) : Prop
  | same (hn : selected s e = none) (hl : s'.threadList = s.threadList)
  | join {t : Tid} (hn : selected s e = none) (hl : s'.threadList = s.threadList ++ [t])
  | leave (hn : selected s e = none) (hl : s'.threadList = s.threadList.erase s.current)
      (hr : (s'.thread s.current).runnable = false)
  | rotate {n : Tid} (hn : selected s e = some n) (hl : s'.threadList = s.threadList.erase n ++ [n])

theorem exitThread_list (s : State) :
    (exitThread s).threadList = s.threadList ∨
      (exitThread s).threadList = s.threadList.erase s.current ∧
        ((exitThread s).thread s.current).runnable = false := by
  cases hm : (s.thread s.current).mustjoin with
  | true =>
    obtain ⟨th, he, _⟩ := exitThread_gate hm
    rw [he]
    exact .inl rfl
  | false =>
    rw [exitThread_leave hm]
    exact .inr ⟨rfl, by simp⟩

theorem joinLoop_list {t : Tid} {s s' : State} (h : joinLoop t s = .ok s') :
    s'.threadList = s.threadList := by
  obtain ⟨_, ⟨_, rfl⟩ | ⟨_, rfl⟩⟩ := joinLoop_ok h <;> rfl

theorem exec_list {c : Call} {s s' : State} (he : exec s c = .ok s') :
    Relist s (.call c) s' := by
  cases exec_inv he with
  | calm hc => exact .same rfl hc.threadList
  | create => exact .join rfl rfl
  | exit =>
    rcases exitThread_list s with hl | ⟨hl, hr⟩
    · exact .same rfl hl
    · exact .leave rfl hl hr
  | join _ hj =>
    have hl := joinLoop_list hj
    exact .same rfl hl
  | setCurlwp => exact .same rfl rfl

theorem resume_list {p : Pc} {s s' : State} (he : resume s p = .ok s') :
    Relist s .resume s' := by
  cases resume_inv he with
  | running | fresh => exact .same rfl rfl
  | yield | sleep => exact .same rfl rfl
  | wait ht => exact .same rfl (waited_calm ht).threadList
  | join hj =>
    have hl := joinLoop_list hj
    exact .same rfl hl
  | gate =>
    rcases exitThread_list (reap s) with hl | ⟨hl, hr⟩
    · exact .same rfl hl
    · exact .leave rfl hl hr
  | exited => exact .same rfl rfl

theorem pass_list (tm : Int) (s : State) : Relist s (.pass tm) (pass tm s) := by
  rcases hs : scan tm s.threadList s.thread (i64 (tm + 1000 * 1000)) with ⟨n, th, wakeup⟩
  have hsel : selected s (.pass tm) = n := by rw [selected, hs]
  cases n with
  | none => exact .same hsel (by rw [pass, hs])
  | some n => exact .rotate hsel (by rw [pass, hs])

/-- The selected thread gets the processor. -/
theorem selected_current {s s' : State} {e : Event} {n : Tid} (h : step s e = some s')
    (hn : selected s e = some n) : s'.current = n ∧ s'.mode = .back := by
  cases e with
  | pass tm =>
    simp only [step] at h
    split at h
    · cases h
      rcases hs : scan tm s.threadList s.thread (i64 (tm + 1000 * 1000)) with ⟨m, th, wakeup⟩
      rw [selected, hs] at hn
      subst hn
      rw [pass, hs]
      exact ⟨rfl, rfl⟩
    · cases h
  | _ => cases hn

theorem step_list {s s' : State} {e : Event} (h : step s e = some s') : Relist s e s' := by
  cases e with
  | pass tm =>
    simp only [step] at h
    split at h
    · cases h
      exact pass_list tm s
    · cases h
  | call c =>
    cases step_inv h with
    | call _ _ he => exact exec_list he
    | callAbort => exact .same rfl rfl
  | extWake t =>
    cases step_inv h
    exact .same rfl rfl
  | resume =>
    cases step_inv h with
    | resume _ he => exact resume_list he
    | resumeAbort => exact .same rfl rfl

/-! ## The pass -/

/-- The loop over the list comes to a runnable thread or stops before it. -/
theorem scan_reaches {tm : Int} {ts : List Tid} {th : Tid → Thread} {wakeup : Int} {T : Tid}
    (hT : T ∈ ts) (hr : (th T).runnable = true) :
    ∃ n, (scan tm ts th wakeup).1 = some n ∧ (n = T ∨ n ∈ ahead T ts) := by
  induction ts generalizing th wakeup with
  | nil => cases hT
  | cons t ts ih =>
    have hx : (expire tm (th T)).runnable = true := expire_runnable (.inr rfl) hr
    simp only [scan]
    split
    next =>
      refine ⟨t, rfl, ?_⟩
      by_cases ht : t = T
      · exact .inl ht
      · exact .inr (by rw [ahead_cons_of_ne ht]; exact List.mem_cons_self)
    next hno =>
      have ht : t ≠ T := by
        rintro rfl
        exact hno hx
      have hT' : T ∈ ts := (List.mem_cons.mp hT).resolve_left (Ne.symm ht)
      have hr' : (Function.update th t (expire tm (th t)) T).runnable = true := by
        rw [Function.update_of_ne (Ne.symm ht)]
        exact hr
      obtain ⟨n, hn, hat⟩ := ih hT' hr'
      refine ⟨n, hn, hat.imp id fun hm => ?_⟩
      rw [ahead_cons_of_ne ht]
      exact List.mem_cons_of_mem _ hm

/-- While `T` is runnable and on the list every pass selects a thread: `T` or
one ahead of it. -/
theorem selected_reaches {s : State} {T : Tid} (hT : T ∈ s.threadList)
    (hr : (s.thread T).runnable = true) (tm : Int) :
    ∃ n, selected s (.pass tm) = some n ∧ (n = T ∨ n ∈ ahead T s.threadList) :=
  scan_reaches hT hr

/-- A thread that stays runnable stays on the list. -/
theorem stays_listed {s s' : State} {e : Event} {T : Tid} (h : step s e = some s')
    (hT : T ∈ s.threadList) (hr : (s'.thread T).runnable = true) : T ∈ s'.threadList := by
  cases step_list h with
  | same _ hl => rwa [hl]
  | join _ hl =>
    rw [hl]
    exact List.mem_append_left _ hT
  | leave _ hl hoff =>
    have hne : T ≠ s.current := by
      rintro rfl
      rw [hoff] at hr
      cases hr
    rw [hl]
    exact (List.mem_erase_of_ne hne).mpr hT
  | @rotate n _ hl =>
    rw [hl]
    by_cases hn : T = n
    · subst hn
      simp
    · exact List.mem_append_left _ ((List.mem_erase_of_ne hn).mpr hT)

/-- A step that does not select `T` puts nobody ahead of it, and whom it
selects goes behind it. -/
theorem ahead_step {s s' : State} {e : Event} {T : Tid} (h : step s e = some s')
    (hT : T ∈ s.threadList) (hr : (s'.thread T).runnable = true) (hsel : selected s e ≠ some T) :
    (selected s e = none ∧ (ahead T s'.threadList).Sublist (ahead T s.threadList)) ∨
      ∃ n, selected s e = some n ∧ ahead T s'.threadList = (ahead T s.threadList).erase n ∧
        n ∈ behind T s'.threadList := by
  cases step_list h with
  | same hn hl => exact .inl ⟨hn, by rw [hl]⟩
  | join hn hl => exact .inl ⟨hn, by rw [hl, ahead_append hT]⟩
  | leave hn hl hoff =>
    have hne : s.current ≠ T := by
      rintro rfl
      rw [hoff] at hr
      cases hr
    refine .inl ⟨hn, ?_⟩
    rw [hl, ahead_erase hne]
    exact List.erase_sublist
  | @rotate n hn hl =>
    have hne : n ≠ T := by
      rintro rfl
      exact hsel hn
    obtain ⟨hahead, hbehind⟩ := ahead_rotate hT hne
    rw [hl]
    exact .inr ⟨n, hn, hahead, hbehind⟩

/-! ## Whole runs -/

/-- The thread under watch is runnable throughout a run. -/
def StaysRunnable (T : Tid) (tr : List (State × Event)) (s : State) : Prop :=
  (∀ p ∈ tr, (p.1.thread T).runnable = true) ∧ (s.thread T).runnable = true

theorem listed_throughout {s s' : State} {tr : List (State × Event)} {T : Tid}
    (hr : Run step s tr s') (hT : T ∈ s.threadList) (hrun : StaysRunnable T tr s') :
    (∀ p ∈ tr, T ∈ p.1.threadList ∧ ∀ u, step p.1 p.2 = some u → (u.thread T).runnable = true) ∧
      T ∈ s'.threadList := by
  induction hr with
  | nil => exact ⟨fun p hp => absurd hp List.not_mem_nil, hT⟩
  | @snoc tr s₁ s₂ e hr hs ih =>
    have hmid : (s₁.thread T).runnable = true := hrun.1 (s₁, e) (by simp)
    obtain ⟨hall, hlast⟩ := ih ⟨fun p hp => hrun.1 p (List.mem_append_left _ hp), hmid⟩
    refine ⟨fun p hp => ?_, stays_listed hs hlast hrun.2⟩
    rcases List.mem_append.mp hp with hp | hp
    · exact hall p hp
    · rw [List.mem_singleton] at hp
      subst hp
      refine ⟨hlast, fun u hu => ?_⟩
      rw [hs] at hu
      cases hu
      exact hrun.2

/-- A pass that does not select `T` uses up one of the threads ahead of it. -/
theorem ahead_descends {s s' : State} {e : Event} {T : Tid} (h : step s e = some s')
    (hT : T ∈ s.threadList) (hr : (s.thread T).runnable = true)
    (hr' : (s'.thread T).runnable = true) (hsel : selected s e ≠ some T) :
    (ahead T s'.threadList).length + (isPass e).toNat ≤ (ahead T s.threadList).length := by
  rcases ahead_step h hT hr' hsel with ⟨hn, hsub⟩ | ⟨n, hn, heq, _⟩
  · have hp : isPass e = false := by
      cases e with
      | pass tm =>
        obtain ⟨n, hn', _⟩ := selected_reaches hT hr tm
        rw [hn] at hn'
        cases hn'
      | _ => rfl
    rw [hp]
    exact hsub.length_le
  · cases e with
    | pass tm =>
      obtain ⟨n', hn', hat⟩ := selected_reaches hT hr tm
      rw [hn] at hn'
      cases hn'
      have hne : n ≠ T := by
        rintro rfl
        exact hsel hn
      have hmem := hat.resolve_left hne
      rw [heq, List.length_erase_of_mem hmem]
      have hpos := List.length_pos_of_mem hmem
      simp only [isPass, Bool.toNat_true]
      omega
    | _ => cases hn

/-- Bounded bypass, from any state the library can reach and along any run in
which `T` is on `thread_list` and stays runnable. As long as a step does not
select `T`, the threads ahead of it only become fewer. Each pass selects a
thread, which gets the processor, so it is a whole call of `schedule`; if it is
not `T`, it was ahead of `T` and is now behind it. More passes than there were
threads ahead of `T` at the start have selected `T` among them. -/
theorem round_robin_bypass {t₀ T : Tid} {tr₀ tr : List (State × Event)} {s s' : State}
    (hr₀ : Run step (initSched t₀) tr₀ s) (hr : Run step s tr s') (hT : T ∈ s.threadList)
    (hrun : StaysRunnable T tr s') :
    (∀ p ∈ tr, ∀ u, step p.1 p.2 = some u →
      (selected p.1 p.2 ≠ some T → ahead T u.threadList ⊆ ahead T p.1.threadList) ∧
      (isPass p.2 = true → ∃ n, selected p.1 p.2 = some n ∧ u.current = n ∧
        (n ≠ T → n ∈ ahead T p.1.threadList ∧ n ∉ ahead T u.threadList ∧
          n ∈ behind T u.threadList ∧
          (ahead T u.threadList).length + 1 = (ahead T p.1.threadList).length))) ∧
    ((ahead T s.threadList).length < tr.countP (fun p => isPass p.2) →
      ∃ p ∈ tr, selected p.1 p.2 = some T) := by
  obtain ⟨hlisted, _⟩ := listed_throughout hr hT hrun
  refine ⟨fun p hp u hu => ⟨fun hsel => ?_, fun hpass => ?_⟩, fun hlt => ?_⟩
  · rcases ahead_step hu (hlisted p hp).1 ((hlisted p hp).2 u hu) hsel with
      ⟨_, hsub⟩ | ⟨n, _, heq, _⟩
    · exact hsub.subset
    · rw [heq]
      exact List.erase_subset
  · obtain ⟨q, e⟩ := p
    cases e with
    | pass tm =>
      obtain ⟨n, hn, hat⟩ := selected_reaches (hlisted _ hp).1 (hrun.1 _ hp) tm
      refine ⟨n, hn, (selected_current hu hn).1, fun hne => ?_⟩
      have hmem := hat.resolve_left hne
      have hsel : selected q (.pass tm) ≠ some T := by
        rw [hn]
        exact fun he => hne (Option.some.inj he)
      rcases ahead_step hu (hlisted _ hp).1 ((hlisted _ hp).2 u hu) hsel with
        ⟨hnone, _⟩ | ⟨n', hn', heq, hbehind⟩
      · rw [hn] at hnone
        cases hnone
      · rw [hn] at hn'
        cases hn'
        obtain ⟨l, hl, _⟩ := hr.reaches_mem hp
        have hnd : q.threadList.Nodup :=
          Lists.threadList_nodup (Lists.inv_run (Lists.inv_boot _ _ _ (by simp)) (hr₀.trans hl))
        have hnda : (ahead T q.threadList).Nodup := hnd.sublist (List.takeWhile_sublist _)
        refine ⟨hmem, ?_, hbehind, ?_⟩
        · rw [heq]
          exact hnda.not_mem_erase
        · rw [heq, List.length_erase_of_mem hmem]
          have hpos := List.length_pos_of_mem hmem
          omega
    | _ => cases hpass
  · -- if no pass selected `T`, the threads ahead of it would have paid for all of them
    by_contra hno
    push Not at hno
    have hpaid := hr.descent (fun s => (ahead T s.threadList).length)
      (fun _ e => isPass e) fun p hp u hu =>
        ahead_descends hu (hlisted p hp).1 (hrun.1 p hp) ((hlisted p hp).2 u hu) (hno p hp)
    omega

/-- Thread 1 is created behind thread 0, which keeps yielding: of two passes
the second selects it. -/
theorem round_robin_bypass_two : ∃ tr s s', Run step (initSched 0)
      [(initSched 0, .call (.createThread (some 1) false false true))] s ∧
    Run step s tr s' ∧ tr.map Prod.snd = [.call .schedule, .pass 0, .resume, .call .schedule, .pass 0] ∧
    ∃ p ∈ tr, selected p.1 p.2 = some 1 := by
  obtain ⟨tr, s', hr, hp⟩ := exists_run (f := step)
    (s := createThread (some 1) false false true (initSched 0))
    [.call .schedule, .pass 0, .resume, .call .schedule, .pass 0]
    (p := fun tr s' => ((∀ p ∈ tr, (p.1.thread 1).runnable = true) ∧
      (s'.thread 1).runnable = true) ∧
      tr.map Prod.snd = [.call .schedule, .pass 0, .resume, .call .schedule, .pass 0] ∧
      1 < tr.countP (fun p => isPass p.2)) (by decide)
  rw [decide_eq_true_eq] at hp
  obtain ⟨hrun, hev, hlt⟩ := hp
  have hr₀ : Run step (initSched 0)
      ([] ++ [(initSched 0, .call (.createThread (some 1) false false true))])
      (createThread (some 1) false false true (initSched 0)) := .snoc .nil rfl
  exact ⟨tr, _, s', hr₀, hr, hev, (round_robin_bypass hr₀ hr (by decide) hrun).2 hlt⟩

end Frankenlibc.Threads.RoundRobin

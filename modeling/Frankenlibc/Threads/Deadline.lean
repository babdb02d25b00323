import Frankenlibc.Threads.Sync

/-!
# The deadlines that sleeps and timed waits store

`clock_sleep` and `cv_timedwait` turn seconds and nanoseconds into one `int64_t`
of nanoseconds, and the relative ones add a reading of the clock. A negative
`wakeup_time` stands for no deadline. Every operation wraps, and the wrapped
results compose, so what is stored is the exact deadline modulo `2 ^ 64`: it is
as late as the exact one only where the exact one is an `int64_t` itself.
-/
namespace Frankenlibc.Threads

open Frankenlibc.Lib

/-- The exact number of nanoseconds. -/
def nanoseconds (sec nsec : Int) : Int := sec * 1000000000 + nsec

/-- The thread has a deadline, and not before the exact one. -/
def Thread.Timely (x : Thread) (exact : Int) : Prop := 0 ≤ x.wakeupTime ∧ exact ≤ x.wakeupTime

/-- The exact deadline can be stored. -/
def Storable (exact : Int) : Prop := 0 ≤ exact ∧ exact < 9223372036854775808

instance (x : Thread) (exact : Int) : Decidable (x.Timely exact) :=
  inferInstanceAs (Decidable (_ ∧ _))

instance (exact : Int) : Decidable (Storable exact) := inferInstanceAs (Decidable (_ ∧ _))

variable {s s' : State} {sec nsec tm : Int}

theorem i64_nanoseconds (sec nsec : Int) :
    i64 (sec * 1000 * 1000 * 1000 + nsec) = i64 (nanoseconds sec nsec) := by
  have h : sec * 1000 * 1000 * 1000 + nsec = nanoseconds sec nsec := by
    unfold nanoseconds
    omega
  rw [h]

/-- A wrapped number is not below the exact one only if it is the exact one. -/
theorem wrapped_timely_iff {x : Thread} {exact : Int} (hx : x.wakeupTime = i64 exact)
    (hlo : -9223372036854775808 ≤ exact) : x.Timely exact ↔ Storable exact := by
  unfold Thread.Timely Storable
  rw [hx]
  obtain ⟨_, hlt⟩ := i64_range exact
  constructor
  · rintro ⟨h0, hle⟩
    have hhi : exact < 9223372036854775808 := by omega
    rw [i64_of_range hlo hhi] at h0
    exact ⟨h0, hhi⟩
  · rintro ⟨h0, hhi⟩
    rw [i64_of_range hlo hhi]
    exact ⟨h0, le_rfl⟩

/-! ## What is stored -/

theorem clockSleep_realtime (sec nsec tm : Int) (s : State) :
    ((clockSleep .realtime sec nsec tm s).thread s.current).wakeupTime =
      i64 (tm + nanoseconds sec nsec) := by
  unfold clockSleep
  rw [i64_nanoseconds]
  dsimp only
  rw [i64_add_i64]
  simp [sleepUntil, clearRunnable, setDeadline, State.setThread, State.suspend]

theorem clockSleep_monotonic (sec nsec tm : Int) (s : State) :
    ((clockSleep .monotonic sec nsec tm s).thread s.current).wakeupTime =
      i64 (nanoseconds sec nsec) := by
  unfold clockSleep
  rw [i64_nanoseconds]
  simp [sleepUntil, clearRunnable, setDeadline, State.setThread, State.suspend]

/-- `wait` ends the process for a zero, and stores a deadline otherwise. -/
theorem waitOn_stored {k : Cont} (h : waitOn k nsec tm s = .ok s') :
    nsec ≠ 0 ∧ (s'.thread s.current).wakeupTime = deadline nsec tm := by
  unfold waitOn at h
  split at h
  · cases h
  · rename_i hne
    cases h
    refine ⟨hne, ?_⟩
    simp [block, enqueue, clearRunnable, setDeadline, State.setThread, State.suspend]

theorem waitOn_succeeds (k : Cont) (tm : Int) (s : State) (h : nsec ≠ 0) :
    ∃ s', waitOn k nsec tm s = .ok s' := by
  unfold waitOn
  rw [if_neg h]
  exact ⟨_, rfl⟩

theorem mutexExit_held {m : MtxId} (h : 0 < (s.mtx m).v) :
    ∃ s', mutexExit m s = .ok s' ∧ s'.current = s.current := by
  unfold mutexExit
  rw [if_neg (not_le.mpr h)]
  dsimp only
  split
  · refine ⟨_, rfl, ?_⟩
    unfold wakeupOne
    split <;> rfl
  · exact ⟨_, rfl, rfl⟩

/-- A timed wait with the mutex held is a `wait` for the wrapped time. -/
theorem cvTimedwait_eq (c : CvId) (sec nsec tm : Int) {m : MtxId} (h : 0 < (s.mtx m).v) :
    ∃ s₁, s₁.current = s.current ∧ cvTimedwait c m sec nsec tm s =
      waitOn (.cvWait .timed c m) (i64 (nanoseconds sec nsec)) tm s₁ := by
  obtain ⟨s₁, hs₁, hcur⟩ := mutexExit_held (s := { s with
    cv := Function.update s.cv c { nwaiters := (s.cv c).nwaiters + 1 } }) h
  refine ⟨s₁, hcur, ?_⟩
  unfold cvTimedwait cvBegin
  rw [hs₁, i64_nanoseconds]
  rfl

/-- The deadline of a timed wait: none at all for the reserved -1. -/
theorem deadline_eq (x tm : Int) :
    deadline (i64 x) tm = if i64 x = -1 then -1 else i64 (tm + x) := by
  unfold deadline waitNotimeout
  rw [i64_add_i64]

/-- With a reading of the clock and a time that an `int64_t` of seconds can
give, the wrapped time is 0 or the reserved -1 only where the sum wraps, or for
one time and the least of all readings. -/
theorem reserved {x tm : Int} (hlo : -9223372036854775808 ≤ tm) (hx : 0 < x)
    (hst : Storable (tm + x)) (hr : x ≠ 18446744073709551615) : i64 x ≠ 0 ∧ i64 x ≠ -1 := by
  obtain ⟨_, hhi⟩ := hst
  unfold i64
  rw [Int.bmod_def]
  constructor
  · split <;> omega
  · split <;> omega

theorem cvTimedwait_timely_iff {c : CvId} {m : MtxId} (hm : 0 < (s.mtx m).v)
    (hlo : -9223372036854775808 ≤ tm) (hx : 0 < nanoseconds sec nsec) :
    (∃ s', cvTimedwait c m sec nsec tm s = .ok s' ∧
      (s'.thread s.current).Timely (tm + nanoseconds sec nsec)) ↔
        Storable (tm + nanoseconds sec nsec) ∧ nanoseconds sec nsec ≠ 18446744073709551615 := by
  obtain ⟨s₁, hcur, he⟩ := cvTimedwait_eq c sec nsec tm hm
  have hexact : -9223372036854775808 ≤ tm + nanoseconds sec nsec := by omega
  rw [he, ← hcur]
  constructor
  · rintro ⟨s', hs', ht⟩
    obtain ⟨_, hw⟩ := waitOn_stored hs'
    rw [deadline_eq] at hw
    by_cases hres : i64 (nanoseconds sec nsec) = -1
    · rw [if_pos hres] at hw
      have h0 := ht.1
      rw [hw] at h0
      omega
    · rw [if_neg hres] at hw
      refine ⟨(wrapped_timely_iff hw hexact).mp ht, fun hx' => hres ?_⟩
      rw [hx']
      decide
  · rintro ⟨hst, hr⟩
    obtain ⟨hne, hres⟩ := reserved hlo hx hst hr
    obtain ⟨s', hs'⟩ := waitOn_succeeds (.cvWait .timed c m) tm s₁ hne
    obtain ⟨_, hw⟩ := waitOn_stored hs'
    rw [deadline_eq, if_neg hres] at hw
    exact ⟨s', hs', (wrapped_timely_iff hw hexact).mpr hst⟩

/-- Every reading of the clock, all seconds from 0 on and all nanoseconds below
a second, not both zero: the deadline that a relative sleep, an absolute sleep
and a timed wait store is there and is not early exactly if the exact deadline
is an `int64_t` that is not negative. A timed wait has one more time it cannot
tell from none. -/
theorem deadline_timely_iff (hlo : -9223372036854775808 ≤ tm) (hsec : 0 ≤ sec) (hnsec : 0 ≤ nsec)
    (hne : sec ≠ 0 ∨ nsec ≠ 0) :
    (((clockSleep .realtime sec nsec tm s).thread s.current).Timely
        (tm + nanoseconds sec nsec) ↔ Storable (tm + nanoseconds sec nsec)) ∧
      (((clockSleep .monotonic sec nsec tm s).thread s.current).Timely
        (nanoseconds sec nsec) ↔ Storable (nanoseconds sec nsec)) ∧
      ∀ c m, 0 < (s.mtx m).v →
        ((∃ s', cvTimedwait c m sec nsec tm s = .ok s' ∧
            (s'.thread s.current).Timely (tm + nanoseconds sec nsec)) ↔
          Storable (tm + nanoseconds sec nsec) ∧
            nanoseconds sec nsec ≠ 18446744073709551615) := by
  have hpos : 0 < nanoseconds sec nsec := by
    unfold nanoseconds
    omega
  refine ⟨?_, ?_, fun c m hm => cvTimedwait_timely_iff hm hlo hpos⟩
  · exact wrapped_timely_iff (clockSleep_realtime sec nsec tm s) (by omega)
  · exact wrapped_timely_iff (clockSleep_monotonic sec nsec tm s) (by omega)

/-- One thread, which holds a mutex. -/
def holder : State := { initSched 0 with mtx := fun _ => { v := 1, o := none } }

/-- Ten seconds, one second after the start. -/
theorem deadline_timely_ten :
    ((clockSleep .realtime 10 0 1000000000 holder).thread 0).Timely 11000000000 ∧
      ((clockSleep .monotonic 10 0 1000000000 holder).thread 0).Timely 10000000000 ∧
      ∃ s', cvTimedwait 0 0 10 0 1000000000 holder = .ok s' ∧
        (s'.thread 0).Timely 11000000000 := by
  obtain ⟨hreal, hmono, hcv⟩ := @deadline_timely_iff holder 10 0 1000000000
    (by decide) (by decide) (by decide) (.inl (by decide))
  exact ⟨hreal.mpr (by decide), hmono.mpr (by decide),
    (hcv 0 0 (by decide)).mpr ⟨by decide, by decide⟩⟩

/-- About 292 years are stored as no deadline at all, by each of the three;
about 584 years as less than a second, and 584 years and a little less end the
process in a timed wait. -/
theorem deadline_wraps :
    (∀ tm, 0 ≤ tm → tm < 9223372036854775808 →
      ¬ ((clockSleep .realtime 9223372037 0 tm holder).thread 0).Timely
        (tm + nanoseconds 9223372037 0)) ∧
      ((clockSleep .monotonic 9223372037 0 0 holder).thread 0).wakeupTime = -9223372036709551616 ∧
      (∃ s', cvTimedwait 0 0 9223372037 0 0 holder = .ok s' ∧
        (s'.thread 0).wakeupTime = -9223372036709551616) ∧
      ((clockSleep .realtime 18446744074 0 0 holder).thread 0).wakeupTime = 290448384 ∧
      cvTimedwait 0 0 18446744073 709551616 0 holder = .error .waitZero := by
  refine ⟨fun tm h0 hhi ht => ?_, by decide, ⟨_, rfl, by decide⟩, by decide, rfl⟩
  have hst := (wrapped_timely_iff (clockSleep_realtime 9223372037 0 tm holder)
    (by unfold nanoseconds; omega)).mp ht
  unfold Storable nanoseconds at hst
  omega

end Frankenlibc.Threads

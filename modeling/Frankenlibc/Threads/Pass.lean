import Mathlib.Order.Bounds.Defs
import Frankenlibc.Threads.Sched

/-!
# One turn of the loop in `schedule`

A turn visits the threads of `thread_list` up to the first that can run, or
whose deadline has passed and that is woken for it. It changes no other thread,
because whoever it passes by is neither. If it gets through the whole list it
sleeps, until the earliest deadline or for a millisecond.
-/
namespace Frankenlibc.Threads

open Frankenlibc.Lib

/-- The deadline of a thread has passed at time `tm`; a negative one never does. -/
def Thread.Due (tm : Int) (x : Thread) : Prop := 0 ≤ x.wakeupTime ∧ x.wakeupTime ≤ tm

instance (tm : Int) (x : Thread) : Decidable (x.Due tm) := inferInstanceAs (Decidable (_ ∧ _))

/-- A thread whose sleep is over. -/
def Thread.timeout (x : Thread) : Thread :=
  { x with timedout := true, wakeupTime := -1, runnable := true }

/-- The threads of a list that the loop visits. -/
def visited (tm : Int) (th : Tid → Thread) : List Tid → List Tid
  | [] => []
  | t :: ts => if (expire tm (th t)).runnable then [t] else t :: visited tm th ts

/-- Nanoseconds of a request. -/
def Timespec.total (sl : Timespec) : Int := 1000000000 * sl.sec + sl.nsec

/-- The times a sleep may last: a millisecond, and the time to each deadline. -/
def naps (tm : Int) (s : State) : Set Int :=
  {d | d = 1000000 ∨ ∃ t ∈ s.threadList, 0 ≤ (s.thread t).wakeupTime ∧
    d = (s.thread t).wakeupTime - tm}

/-! ## Visits -/

theorem expire_of_blocked {tm : Int} {x : Thread} (hr : x.runnable = false) :
    expire tm x = if x.Due tm then x.timeout else x := by
  by_cases hd : x.Due tm
  · rw [expire, if_pos ⟨hr, hd⟩, if_pos hd]
    rfl
  · rw [expire, if_neg (fun h => hd h.2), if_neg hd]

theorem expire_of_runnable {tm : Int} {x : Thread} (hr : x.runnable = true) :
    expire tm x = x := by
  unfold expire
  simp [hr]

/-- A thread the loop does not stop at can not run and has time left. -/
theorem expire_blocked {tm : Int} {x : Thread} (h : (expire tm x).runnable = false) :
    expire tm x = x ∧ x.runnable = false ∧ ¬ x.Due tm := by
  cases hr : x.runnable with
  | true =>
    rw [expire_of_runnable hr, hr] at h
    cases h
  | false =>
    rw [expire_of_blocked hr] at h ⊢
    by_cases hd : x.Due tm
    · rw [if_pos hd] at h
      cases h
    · exact ⟨if_neg hd, rfl, hd⟩

/-- A loop that stops nowhere has changed nothing. -/
theorem scan_through {tm : Int} {ts : List Tid} {th : Tid → Thread} {wakeup : Int}
    (h : ∀ t ∈ ts, (expire tm (th t)).runnable = false) :
    scan tm ts th wakeup = (none, th, ts.foldl (fun w t => earlier tm (th t) w) wakeup) ∧
      visited tm th ts = ts := by
  induction ts generalizing wakeup with
  | nil => exact ⟨rfl, rfl⟩
  | cons t ts ih =>
    have ht := h t List.mem_cons_self
    obtain ⟨hs, hv⟩ := @ih (earlier tm (th t) wakeup)
      (fun u hu => h u (List.mem_cons_of_mem _ hu))
    constructor
    · rw [scan, ht, if_neg Bool.false_ne_true, (expire_blocked ht).1,
        Function.update_eq_self, hs]
      rfl
    · rw [visited, ht, if_neg Bool.false_ne_true, hv]

/-- A loop that stops has changed the thread it stops at and no other. -/
theorem scan_stop {tm : Int} {pre post : List Tid} {n : Tid} {th : Tid → Thread} {wakeup : Int}
    (hpre : ∀ t ∈ pre, (expire tm (th t)).runnable = false)
    (hn : (expire tm (th n)).runnable = true) :
    (∃ wakeup', scan tm (pre ++ n :: post) th wakeup =
        (some n, Function.update th n (expire tm (th n)), wakeup')) ∧
      visited tm th (pre ++ n :: post) = pre ++ [n] := by
  induction pre generalizing wakeup with
  | nil =>
    rw [List.nil_append, scan, visited, hn, if_pos rfl, if_pos rfl]
    exact ⟨⟨_, rfl⟩, rfl⟩
  | cons t pre ih =>
    have ht := hpre t List.mem_cons_self
    obtain ⟨⟨w, hs⟩, hv⟩ := @ih (earlier tm (th t) wakeup)
      (fun u hu => hpre u (List.mem_cons_of_mem _ hu))
    rw [List.cons_append, scan, visited, ht, if_neg Bool.false_ne_true,
      if_neg Bool.false_ne_true, (expire_blocked ht).1, Function.update_eq_self, hs, hv]
    exact ⟨⟨w, rfl⟩, rfl⟩

/-- The loop runs through the list, or stops at the first thread it can. -/
theorem first_stop (tm : Int) (th : Tid → Thread) (ts : List Tid) :
    (∀ t ∈ ts, (expire tm (th t)).runnable = false) ∨
      ∃ pre n post, ts = pre ++ n :: post ∧
        (∀ t ∈ pre, (expire tm (th t)).runnable = false) ∧
        (expire tm (th n)).runnable = true := by
  cases hf : ts.find? (fun t => (expire tm (th t)).runnable) with
  | none =>
    left
    intro t ht
    simpa using List.find?_eq_none.mp hf t ht
  | some n =>
    right
    obtain ⟨hn, pre, post, rfl, hpre⟩ := List.find?_eq_some_iff_append.mp hf
    exact ⟨pre, n, post, rfl, fun t ht => by simpa using hpre t ht, hn⟩

/-! ## The earliest deadline -/

theorem earlier_le (tm : Int) (x : Thread) (wakeup : Int) : earlier tm x wakeup ≤ wakeup := by
  unfold earlier
  split <;> omega

/-- Over threads that are neither runnable nor due, the loop's `wakeup` ends as
the least of its start and their deadlines. -/
theorem earliest_isLeast {tm : Int} {ts : List Tid} {th : Tid → Thread}
    (h : ∀ t ∈ ts, (expire tm (th t)).runnable = false) (wakeup : Int) :
    IsLeast {w | w = wakeup ∨ ∃ t ∈ ts, 0 ≤ (th t).wakeupTime ∧ w = (th t).wakeupTime}
      (ts.foldl (fun w t => earlier tm (th t) w) wakeup) := by
  induction ts generalizing wakeup with
  | nil =>
    refine ⟨.inl rfl, ?_⟩
    rintro w (rfl | ⟨t, ht, _⟩)
    · exact le_rfl
    · cases ht
  | cons t ts ih =>
    obtain ⟨_, hr, hd⟩ := expire_blocked (h t List.mem_cons_self)
    obtain ⟨hmem, hlow⟩ := ih (fun u hu => h u (List.mem_cons_of_mem _ hu))
      (earlier tm (th t) wakeup)
    rw [List.foldl_cons]
    generalize ts.foldl (fun w t => earlier tm (th t) w) (earlier tm (th t) wakeup) = r
      at hmem hlow ⊢
    have hle : r ≤ earlier tm (th t) wakeup := hlow (.inl rfl)
    have hvisit : earlier tm (th t) wakeup = wakeup ∨
        0 ≤ (th t).wakeupTime ∧ earlier tm (th t) wakeup = (th t).wakeupTime := by
      unfold earlier
      split
      next hc => exact .inr ⟨hc.2.1, rfl⟩
      next => exact .inl rfl
    constructor
    · rcases hmem with hmem | ⟨u, hu, h0, hmem⟩
      · rcases hvisit with hv | ⟨h0, hv⟩
        · exact .inl (hmem.trans hv)
        · exact .inr ⟨t, List.mem_cons_self, h0, hmem.trans hv⟩
      · exact .inr ⟨u, List.mem_cons_of_mem _ hu, h0, hmem⟩
    · rintro w (rfl | ⟨u, hu, h0, rfl⟩)
      · exact hle.trans (earlier_le tm (th t) w)
      · rcases List.mem_cons.mp hu with rfl | hu
        · -- the deadline of a thread that is passed by lies ahead
          refine hle.trans ?_
          unfold Thread.Due at hd
          unfold earlier
          split
          · exact le_rfl
          next hc =>
            have hlate : ¬ (th u).wakeupTime < wakeup := fun hlt => hc ⟨hr, h0, by omega, hlt⟩
            omega
        · exact hlow (.inr ⟨u, hu, h0, rfl⟩)

/-! ## The whole turn -/

theorem pass_idle {tm : Int} {s : State}
    (h : ∀ t ∈ s.threadList, (expire tm (s.thread t)).runnable = false) :
    pass tm s = { s with mode := .idle (sleepRequest
      (s.threadList.foldl (fun w t => earlier tm (s.thread t) w) (i64 (tm + 1000 * 1000))) tm) } := by
  rw [pass, (scan_through h).1]

theorem pass_switch {tm : Int} {s : State} {pre post : List Tid} {n : Tid}
    (hl : s.threadList = pre ++ n :: post)
    (hpre : ∀ t ∈ pre, (expire tm (s.thread t)).runnable = false)
    (hn : (expire tm (s.thread n)).runnable = true) :
    (pass tm s).thread = Function.update s.thread n (expire tm (s.thread n)) ∧
      (pass tm s).mode = .back := by
  obtain ⟨⟨w, hs⟩, _⟩ := @scan_stop tm pre post n s.thread (i64 (tm + 1000 * 1000)) hpre hn
  rw [pass, hl, hs]
  exact ⟨rfl, rfl⟩

/-- What a request of `d` nanoseconds is split into. -/
theorem sleepRequest_spec {wakeup tm d : Int} (hd : i64 (wakeup - tm) = d) (hpos : 0 < d) :
    (sleepRequest wakeup tm).total = d ∧ 0 ≤ (sleepRequest wakeup tm).nsec ∧
      (sleepRequest wakeup tm).nsec < 1000000000 := by
  unfold sleepRequest Timespec.total
  dsimp only
  rw [hd, Int.tdiv_eq_ediv_of_nonneg hpos.le]
  omega

/-- Whoever the loop has passed by has a deadline that lies ahead, or none. -/
theorem deadline_ahead {tm : Int} {s : State}
    (h : ∀ t ∈ s.threadList, (expire tm (s.thread t)).runnable = false) :
    ∀ t ∈ s.threadList, 0 ≤ (s.thread t).wakeupTime → tm < (s.thread t).wakeupTime := by
  intro t ht h0
  obtain ⟨_, _, hd⟩ := expire_blocked (h t ht)
  unfold Thread.Due at hd
  omega

/-- A turn that finds no thread to run asks for a sleep of a millisecond at
most. A clock so late that `tm + 1ms` wraps has a `wakeup` before every
deadline, and the wrap is undone by the subtraction. -/
theorem idle_nap {tm : Int} {s : State} (hlo : -9223372036854775808 ≤ tm)
    (hhi : tm < 9223372036854775808)
    (h : ∀ t ∈ s.threadList, (expire tm (s.thread t)).runnable = false) :
    ∃ r d, s.threadList.foldl (fun w t => earlier tm (s.thread t) w) (i64 (tm + 1000 * 1000)) = r ∧
      i64 (r - tm) = d ∧ 0 < d ∧ d ≤ 1000000 ∧
        (tm + 1000000 < 9223372036854775808 → r = tm + d) ∧
        (9223372036854775808 ≤ tm + 1000000 → d = 1000000) := by
  obtain ⟨hmem, hlow⟩ := earliest_isLeast h (i64 (tm + 1000 * 1000))
  generalize s.threadList.foldl (fun w t => earlier tm (s.thread t) w) (i64 (tm + 1000 * 1000)) = r
    at hmem hlow ⊢
  have hle : r ≤ i64 (tm + 1000 * 1000) := hlow (.inl rfl)
  by_cases hwrap : tm + 1000000 < 9223372036854775808
  · have hstart : i64 (tm + 1000 * 1000) = tm + 1000000 := i64_of_range (by omega) hwrap
    rw [hstart] at hmem hle
    have hgt : tm < r := by
      rcases hmem with rfl | ⟨t, ht, h0, rfl⟩
      · omega
      · exact deadline_ahead h t ht h0
    exact ⟨r, r - tm, rfl, i64_of_range (by omega) (by omega), by omega, by omega,
      fun _ => by omega, fun hx => absurd hwrap (by omega)⟩
  · have hneg : i64 (tm + 1000 * 1000) < 0 := by
      unfold i64
      rw [Int.bmod_def]
      split <;> omega
    have hr : r = i64 (tm + 1000 * 1000) := by
      rcases hmem with hr | ⟨t, ht, h0, rfl⟩
      · exact hr
      · omega
    have hd : i64 (r - tm) = 1000000 := by
      rw [hr, i64, i64, Int.bmod_sub_bmod]
      have he : tm + 1000 * 1000 - tm = 1000000 := by omega
      rw [he]
      decide
    exact ⟨r, 1000000, rfl, hd, by decide, le_rfl, fun hx => absurd hx hwrap, fun _ => rfl⟩

/-- A turn that finds no thread to run sleeps until the earliest deadline, or
for a millisecond. -/
theorem idle_total {tm : Int} {s : State} (hlo : -9223372036854775808 ≤ tm)
    (hhi : tm < 9223372036854775808)
    (hw : ∀ t ∈ s.threadList, (s.thread t).wakeupTime < 4611686018427387904)
    (h : ∀ t ∈ s.threadList, (expire tm (s.thread t)).runnable = false) :
    ∃ d, i64 (s.threadList.foldl (fun w t => earlier tm (s.thread t) w) (i64 (tm + 1000 * 1000)) -
      tm) = d ∧ 0 < d ∧ IsLeast (naps tm s) d := by
  obtain ⟨r, d, hr, hd, hpos, hle, hfine, hlate⟩ := idle_nap hlo hhi h
  obtain ⟨hmem, hlow⟩ := earliest_isLeast h (i64 (tm + 1000 * 1000))
  rw [hr] at hmem hlow ⊢
  refine ⟨d, hd, hpos, ?_⟩
  by_cases hwrap : tm + 1000000 < 9223372036854775808
  · have hstart : i64 (tm + 1000 * 1000) = tm + 1000000 := i64_of_range (by omega) hwrap
    rw [hstart, hfine hwrap] at hmem hlow
    constructor
    · rcases hmem with hmem | ⟨t, ht, h0, hmem⟩
      · exact .inl (by omega)
      · exact .inr ⟨t, ht, h0, by omega⟩
    · rintro x (rfl | ⟨t, ht, h0, rfl⟩)
      · exact hle
      · have := hlow (.inr ⟨t, ht, h0, rfl⟩)
        omega
  · -- no deadline below `2 ^ 62` lies ahead of such a clock
    have hnone : ∀ t ∈ s.threadList, ¬ 0 ≤ (s.thread t).wakeupTime := by
      intro t ht h0
      have := deadline_ahead h t ht h0
      have := hw t ht
      omega
    rw [hlate (by omega)]
    constructor
    · exact .inl rfl
    · rintro x (rfl | ⟨t, ht, h0, _⟩)
      · exact le_rfl
      · exact absurd h0 (hnone t ht)

/-- One turn of `schedule`, for every list, all flags and deadlines and every
reading of the clock: which threads it wakes, that it changes no other, when it
sleeps and how long. -/
theorem pass_expiry_and_sleep {tm : Int} {s : State} (hlo : -9223372036854775808 ≤ tm)
    (hhi : tm < 9223372036854775808)
    (hw : ∀ t ∈ s.threadList, (s.thread t).wakeupTime < 4611686018427387904) :
    (∀ t ∈ visited tm s.thread s.threadList, (s.thread t).runnable = false →
        (pass tm s).thread t =
          if (s.thread t).Due tm then (s.thread t).timeout else s.thread t) ∧
      (∀ t, ¬ (t ∈ visited tm s.thread s.threadList ∧ (s.thread t).runnable = false) →
        (pass tm s).thread t = s.thread t) ∧
      ∀ sl, (pass tm s).mode = .idle sl →
        (∀ t ∈ s.threadList, ((pass tm s).thread t).runnable = false) ∧
          0 ≤ sl.nsec ∧ sl.nsec < 1000000000 ∧ 0 < sl.total ∧ IsLeast (naps tm s) sl.total := by
  rcases first_stop tm s.thread s.threadList with hall | ⟨pre, n, post, hl, hpre, hn⟩
  · -- nothing to run
    rw [pass_idle hall]
    refine ⟨fun t ht hr => ?_, fun _ _ => rfl, fun sl hsl => ?_⟩
    · rw [(@scan_through tm s.threadList s.thread 0 hall).2] at ht
      rw [if_neg (expire_blocked (hall t ht)).2.2]
    · cases hsl
      obtain ⟨d, hd, hpos, hleast⟩ := idle_total hlo hhi hw hall
      obtain ⟨ht, hn0, hn1⟩ := sleepRequest_spec hd hpos
      rw [ht]
      exact ⟨fun t ht => (expire_blocked (hall t ht)).2.1, hn0, hn1, hpos, hleast⟩
  · -- the loop stops at `n`
    obtain ⟨hth, hmode⟩ := pass_switch hl hpre hn
    have hv := (@scan_stop tm pre post n s.thread 0 hpre hn).2
    rw [hth, hmode, hl, hv]
    refine ⟨fun t ht hr => ?_, fun t ht => ?_, fun sl hsl => by cases hsl⟩
    · rw [← expire_of_blocked hr]
      by_cases he : t = n
      · rw [he, Function.update_self]
      · rw [Function.update_of_ne he]
        have hp : t ∈ pre := by simpa [he] using ht
        exact (expire_blocked (hpre t hp)).1.symm
    · by_cases he : t = n
      · subst he
        have hr : (s.thread t).runnable = true := by
          by_contra hf
          exact ht ⟨by simp, by simpa using hf⟩
        rw [Function.update_self, expire_of_runnable hr]
      · rw [Function.update_of_ne he]

/-- Two threads asleep. -/
def sleepers : State :=
  { boot 0 [1] (fun _ => none) with
    thread := fun t => { newThread false false with
      runnable := false, wakeupTime := if t = 0 then 5000 else 9000 } }

theorem pass_expiry_and_sleep_sleepers :
    (∀ t ∈ visited 2000 sleepers.thread sleepers.threadList, (sleepers.thread t).runnable = false →
        (pass 2000 sleepers).thread t =
          if (sleepers.thread t).Due 2000 then (sleepers.thread t).timeout
          else sleepers.thread t) ∧
      (∀ t, ¬ (t ∈ visited 2000 sleepers.thread sleepers.threadList ∧
          (sleepers.thread t).runnable = false) →
        (pass 2000 sleepers).thread t = sleepers.thread t) ∧
      ∀ sl, (pass 2000 sleepers).mode = .idle sl →
        (∀ t ∈ sleepers.threadList, ((pass 2000 sleepers).thread t).runnable = false) ∧
          0 ≤ sl.nsec ∧ sl.nsec < 1000000000 ∧ 0 < sl.total ∧
            IsLeast (naps 2000 sleepers) sl.total :=
  pass_expiry_and_sleep (by decide) (by decide) (by decide)

example : (pass 2000 sleepers).mode = .idle ⟨0, 3000⟩ := by decide

end Frankenlibc.Threads

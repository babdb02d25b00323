import Frankenlibc.Threads.Machine
import Frankenlibc.Threads.Pass

/-!
# The deterministic platform

Its clock is a variable, `__platform_now`. Reading it moves it on by a
millisecond, and a sleep moves it on by what was asked for; nothing else does.
So the idle loop of `schedule` is alone with itself: each turn brings the clock
more than a millisecond nearer to a deadline, until a turn finds it passed.

`Platform` puts the clock beside the thread library, with a record of the calls
made to it. Both functions are called with a `timespec` by everybody, and the
answer for `NULL` is left out.
-/
namespace Frankenlibc.Threads.Deterministic

open Frankenlibc.Lib

/-- `0 <= tv_nsec < 10^9`. -/
def Normal (ts : Timespec) : Prop := 0 ≤ ts.nsec ∧ ts.nsec < 1000000000

/-- `clock_gettime`: what it leaves in `__platform_now` and in `*tp`. -/
def clockGettime (now : Timespec) : Timespec :=
  let nsec := now.nsec + 1000000
  if nsec ≥ 1000000000 then ⟨i64 (now.sec + 1), nsec - 1000000000⟩ else ⟨now.sec, nsec⟩

/-- `clock_nanosleep`: what it leaves in `__platform_now`. -/
def clockNanosleep (request now : Timespec) : Timespec :=
  let nsec := now.nsec + request.nsec
  if nsec ≥ 1000000000 then ⟨i64 (i64 (now.sec + 1) + request.sec), nsec - 1000000000⟩
  else ⟨i64 (now.sec + request.sec), nsec⟩

/-- What `now()` makes of a reading. -/
def nanos (ts : Timespec) : Int := i64 (ts.sec * 1000 * 1000 * 1000 + ts.nsec)

/-- A call to the clock. -/
inductive Op where
  | gettime
  | nanosleep (request : Timespec)
  deriving DecidableEq, Repr

/-- A call with `__platform_now` before and after it. -/
structure Entry where
  op : Op
  before : Timespec
  after : Timespec
  deriving DecidableEq, Repr

structure Platform where
  lib : State
  now : Timespec
  -- history
  log : List Entry

def Op.run : Op → Timespec → Timespec
  | .gettime => clockGettime
  | .nanosleep request => clockNanosleep request

/-- A call to the clock is made. -/
def Platform.call (op : Op) (d : Platform) : Platform :=
  { d with now := op.run d.now, log := d.log ++ [⟨op, d.now, op.run d.now⟩] }

/-- One turn of the loop in `schedule`. -/
def turn (d : Platform) : Platform :=
  let d := d.call .gettime
  let d := { d with lib := pass (nanos d.now) d.lib }
  match d.lib.mode with
  | .idle sl => d.call (.nanosleep sl)
  | _ => d

/-- The loop in `schedule`, for at most as many turns. -/
def schedule : Nat → Platform → Option Platform
  | 0, _ => none
  | n + 1, d =>
    let d := turn d
    if d.lib.mode.isIdle then schedule n d else some d

/-- The reading that a call takes of the clock, if it takes one. -/
def reading : Call → Option Int
  | .clockSleep .realtime _ _ tm => some tm
  | .wait _ nsec tm => if nsec = 0 ∨ nsec = waitNotimeout then none else some tm
  | .cvTimedwait _ _ sec nsec tm =>
    let nsec := i64 (sec * 1000 * 1000 * 1000 + nsec)
    if nsec = 0 ∨ nsec = waitNotimeout then none else some tm
  | _ => none

/-- A call of the current thread, a turn of the loop, the code behind a
switch, or a reading of the clock by the rump kernel. -/
inductive Event where
  | call (c : Call)
  | turn
  | resume
  | gettime
  deriving DecidableEq, Repr

def step (d : Platform) : Event → Option Platform
  | .call c =>
    match Threads.step d.lib (.call c), reading c with
    | none, _ => none
    | some s, none => some { d with lib := s }
    | some s, some tm =>
      match s.mode with
      -- the mutex was not held, and the wait has not begun
      | .dead _ => some { d with lib := s }
      | _ =>
        let d := { d.call .gettime with lib := s }
        if tm = nanos d.now then some d else none
  | .turn => if d.lib.mode = .sched ∨ d.lib.mode.isIdle then some (turn d) else none
  | .resume => (Threads.step d.lib .resume).map fun s => { d with lib := s }
  | .gettime => if d.lib.mode = .user then some (d.call .gettime) else none

/-- The threads have not run, and `__platform_now` is zero. -/
def start (t : Tid) (ts : List Tid) (lwp : Tid → Option Lwp) : Platform :=
  ⟨Threads.boot t ts lwp, ⟨0, 0⟩, []⟩

/-! ## The clock -/

/-- `__platform_now` is normalised, and its seconds are an `int64_t`. -/
structure Sound (ts : Timespec) : Prop where
  normal : Normal ts
  low : -9223372036854775808 ≤ ts.sec
  high : ts.sec < 9223372036854775808

theorem gettime_sound {now : Timespec} (h : Sound now) : Sound (clockGettime now) := by
  obtain ⟨⟨h0, h1⟩, hlo, hhi⟩ := h
  have hr := i64_range (now.sec + 1)
  unfold clockGettime
  dsimp only
  split
  · exact ⟨⟨by dsimp only; omega, by dsimp only; omega⟩, hr.1, hr.2⟩
  · exact ⟨⟨by dsimp only; omega, by dsimp only; omega⟩, hlo, hhi⟩

theorem gettime_total {now : Timespec} (h : Sound now) (hf : now.sec + 1 < 9223372036854775808) :
    (clockGettime now).total = now.total + 1000000 := by
  have hlo := h.low
  have hs : i64 (now.sec + 1) = now.sec + 1 := i64_of_range (by omega) hf
  unfold clockGettime
  dsimp only
  split
  · rw [hs]
    unfold Timespec.total
    dsimp only
    omega
  · unfold Timespec.total
    dsimp only
    omega

theorem nanosleep_sound {now request : Timespec} (h : Sound now) (hr : Normal request) :
    Sound (clockNanosleep request now) := by
  obtain ⟨⟨h0, h1⟩, _, _⟩ := h
  obtain ⟨hr0, hr1⟩ := hr
  have hr := i64_range (i64 (now.sec + 1) + request.sec)
  have hr' := i64_range (now.sec + request.sec)
  unfold clockNanosleep
  dsimp only
  split
  · exact ⟨⟨by dsimp only; omega, by dsimp only; omega⟩, hr.1, hr.2⟩
  · exact ⟨⟨by dsimp only; omega, by dsimp only; omega⟩, hr'.1, hr'.2⟩

/-- A sleep of less than a second. -/
theorem nanosleep_total {now request : Timespec} (h : Sound now) (hr : request.sec = 0)
    (hf : now.sec + 1 < 9223372036854775808) :
    (clockNanosleep request now).total = now.total + request.total := by
  have hlo := h.low
  have hs : i64 (now.sec + 1) = now.sec + 1 := i64_of_range (by omega) hf
  have hs' : i64 now.sec = now.sec := i64_of_range hlo h.high
  unfold clockNanosleep
  rw [hr, Int.add_zero, Int.add_zero, hs, hs, hs']
  dsimp only
  split
  · unfold Timespec.total
    dsimp only
    omega
  · unfold Timespec.total
    dsimp only
    omega

/-- What `now()` returns, where it fits. -/
theorem nanos_eq {ts : Timespec} (h0 : -9223372036854775808 ≤ ts.total)
    (h : ts.total < 9223372036854775808) : nanos ts = ts.total := by
  have he : ts.sec * 1000 * 1000 * 1000 + ts.nsec = ts.total := by
    unfold Timespec.total
    omega
  rw [nanos, he]
  exact i64_of_range h0 h

theorem nanos_range (ts : Timespec) :
    -9223372036854775808 ≤ nanos ts ∧ nanos ts < 9223372036854775808 :=
  i64_range _

/-! ## One turn -/

/-- A turn that finds nothing to run changes no thread, and asks for a sleep of
a millisecond at most, which does not go beyond a deadline. -/
theorem pass_asleep {tm : Int} {s : State} {sl : Timespec} (hlo : -9223372036854775808 ≤ tm)
    (hhi : tm < 9223372036854775808) (h : (pass tm s).mode = .idle sl) :
    pass tm s = { s with mode := .idle sl } ∧ sl.sec = 0 ∧ 0 < sl.nsec ∧ sl.nsec ≤ 1000000 ∧
      ∀ t ∈ s.threadList, (s.thread t).runnable = false ∧ (0 ≤ (s.thread t).wakeupTime →
        tm < (s.thread t).wakeupTime ∧
          (tm + 1000000 < 9223372036854775808 → tm + sl.nsec ≤ (s.thread t).wakeupTime)) := by
  rcases first_stop tm s.thread s.threadList with hall | ⟨pre, n, post, hl, hpre, hn⟩
  · have hp := pass_idle hall
    obtain ⟨r, d, hr, hd, hpos, hle, hfine, _⟩ := idle_nap hlo hhi hall
    obtain ⟨_, hlow⟩ := earliest_isLeast hall (i64 (tm + 1000 * 1000))
    rw [hr] at hp hlow
    rw [hp] at h
    cases h
    have hsec : (sleepRequest r tm).sec = 0 := by
      show (i64 (r - tm)).tdiv (1000 * 1000 * 1000) = 0
      rw [hd, Int.tdiv_eq_ediv_of_nonneg hpos.le]
      omega
    have hnsec : (sleepRequest r tm).nsec = d := by
      have ht := (sleepRequest_spec hd hpos).1
      unfold Timespec.total at ht
      omega
    refine ⟨hp, hsec, by omega, by omega, fun t ht => ⟨(expire_blocked (hall t ht)).2.1, ?_⟩⟩
    intro h0
    refine ⟨deadline_ahead hall t ht h0, fun hf => ?_⟩
    have hrle := hlow (.inr ⟨t, ht, h0, rfl⟩)
    rw [hfine hf] at hrle
    omega
  · rw [(pass_switch hl hpre hn).2] at h
    cases h

/-- A turn that finds a thread has made it the current one. -/
theorem pass_selects {tm : Int} {s : State} (h : (pass tm s).mode.isIdle = false) :
    (pass tm s).mode = .back ∧ (pass tm s).current ∈ s.threadList ∧
      ((pass tm s).thread (pass tm s).current).runnable = true := by
  rcases first_stop tm s.thread s.threadList with hall | ⟨pre, n, post, hl, hpre, hn⟩
  · rw [pass_idle hall] at h
    cases h
  · obtain ⟨⟨w, hs⟩, _⟩ := @scan_stop tm pre post n s.thread (i64 (tm + 1000 * 1000)) hpre hn
    have hp : (pass tm s).mode = .back ∧ (pass tm s).current = n ∧
        (pass tm s).thread = Function.update s.thread n (expire tm (s.thread n)) := by
      rw [pass, hl, hs]
      exact ⟨rfl, rfl, rfl⟩
    obtain ⟨hmode, hcur, hth⟩ := hp
    rw [hmode, hcur, hth, Function.update_self, hl]
    exact ⟨rfl, by simp, hn⟩

theorem turn_asleep {d : Platform} {sl : Timespec}
    (h : (pass (nanos (clockGettime d.now)) d.lib).mode = .idle sl) :
    turn d = { d.call .gettime with lib := pass (nanos (clockGettime d.now)) d.lib }.call
      (.nanosleep sl) := by
  unfold turn
  dsimp only [Platform.call, Op.run]
  rw [h]

theorem turn_selects {d : Platform}
    (h : (pass (nanos (clockGettime d.now)) d.lib).mode = .back) :
    turn d = { d.call .gettime with lib := pass (nanos (clockGettime d.now)) d.lib } := by
  unfold turn
  dsimp only [Platform.call, Op.run]
  rw [h]

theorem mode_cases (tm : Int) (s : State) :
    (∃ sl, (pass tm s).mode = .idle sl) ∨ (pass tm s).mode = .back := by
  by_cases h : (pass tm s).mode.isIdle = true
  · left
    generalize (pass tm s).mode = m at h
    cases m with
    | idle sl => exact ⟨sl, rfl⟩
    | _ => cases h
  · right
    exact (pass_selects (by simpa using h)).1

/-! ## The loop ends -/

/-- A time that is an `int64_t`, and still one a millisecond later. -/
def Fits (x : Int) : Prop := -9223372036854775808 ≤ x ∧ x + 1000000 < 9223372036854775808

theorem Fits.sound {ts : Timespec} (hn : Normal ts) (hf : Fits ts.total) :
    Sound ts ∧ ts.sec + 1 < 9223372036854775808 := by
  obtain ⟨h0, h1⟩ := hn
  obtain ⟨hlo, hhi⟩ := hf
  unfold Timespec.total at hlo hhi
  exact ⟨⟨⟨h0, h1⟩, by omega, by omega⟩, by omega⟩

/-- The reading a turn starts with. -/
theorem reading_eq {now : Timespec} (hn : Normal now) (hf : Fits now.total) :
    nanos (clockGettime now) = now.total + 1000000 := by
  obtain ⟨hs, hsec⟩ := Fits.sound hn hf
  obtain ⟨hlo, hhi⟩ := hf
  have ht := gettime_total hs hsec
  rw [nanos_eq (by omega) (by omega), ht]

/-- A turn that sleeps leaves the clock more than a millisecond later, at the
deadline of a waiting thread at the latest. -/
theorem asleep_clock {d : Platform} {sl : Timespec} {t : Tid} (hn : Normal d.now)
    (hf : Fits d.now.total) (ht : t ∈ d.lib.threadList)
    (h0 : 0 ≤ (d.lib.thread t).wakeupTime) (hw : Fits (d.lib.thread t).wakeupTime)
    (h : (pass (nanos (clockGettime d.now)) d.lib).mode = .idle sl) :
    Normal (turn d).now ∧ d.now.total + 1000000 < (turn d).now.total ∧
      (turn d).now.total ≤ (d.lib.thread t).wakeupTime := by
  obtain ⟨hs, hsec⟩ := Fits.sound hn hf
  have htm := reading_eq hn hf
  have hr := nanos_range (clockGettime d.now)
  obtain ⟨_, hsl, hpos, hle, hall⟩ := pass_asleep hr.1 hr.2 h
  have hdue := (hall t ht).2 h0
  rw [htm] at hdue
  have hg := gettime_sound hs
  have hgt := gettime_total hs hsec
  obtain ⟨_, hwhi⟩ := hw
  have hgsec : (clockGettime d.now).sec + 1 < 9223372036854775808 := by
    have hgn := hg.normal.1
    unfold Timespec.total at hgt hdue
    omega
  have htot := nanosleep_total hg hsl hgsec
  have hslt : sl.total = sl.nsec := by
    unfold Timespec.total
    omega
  have hnow : (turn d).now = clockNanosleep sl (clockGettime d.now) := by
    rw [turn_asleep h]
    rfl
  rw [hnow]
  refine ⟨(nanosleep_sound hg ⟨by omega, by omega⟩).normal, by omega, ?_⟩
  have hlast := hdue.2 (by omega)
  omega

/-- `schedule` has left its loop with a thread of the list. -/
def Selected (d d' : Platform) : Prop :=
  d'.lib.mode = .back ∧ d'.lib.current ∈ d.lib.threadList ∧
    (d'.lib.thread d'.lib.current).runnable = true

/-- A turn that finds a thread is the last one. -/
theorem schedule_last {d : Platform} (n : Nat)
    (h : (pass (nanos (clockGettime d.now)) d.lib).mode = .back) :
    ∃ d', schedule (n + 1) d = some d' ∧ Selected d d' := by
  have hidle : (pass (nanos (clockGettime d.now)) d.lib).mode.isIdle = false := by
    rw [h]
    rfl
  refine ⟨turn d, ?_, ?_⟩
  · rw [schedule, turn_selects h, hidle]
    rfl
  · rw [turn_selects h]
    exact pass_selects hidle

/-- A turn that sleeps is followed by another one. -/
theorem schedule_again {d : Platform} {sl : Timespec} (n : Nat)
    (h : (pass (nanos (clockGettime d.now)) d.lib).mode = .idle sl) :
    schedule (n + 1) d = schedule n (turn d) ∧
      (turn d).lib = { d.lib with mode := .idle sl } := by
  have hr := nanos_range (clockGettime d.now)
  obtain ⟨hpass, _⟩ := pass_asleep hr.1 hr.2 h
  have hlib : (turn d).lib = { d.lib with mode := .idle sl } := by
    rw [turn_asleep h]
    exact hpass
  refine ⟨?_, hlib⟩
  rw [schedule, hlib]
  rfl

/-- While a thread can run or has a deadline, a turn is the last one, or the
deadline is still ahead when it has slept. -/
theorem turn_progress {d : Platform} {t : Tid} (hn : Normal d.now) (hf : Fits d.now.total)
    (ht : t ∈ d.lib.threadList)
    (h : (d.lib.thread t).runnable = true ∨
      0 ≤ (d.lib.thread t).wakeupTime ∧ Fits (d.lib.thread t).wakeupTime) :
    (∀ n, ∃ d', schedule (n + 1) d = some d' ∧ Selected d d') ∨
      (∃ sl, (turn d).lib = { d.lib with mode := .idle sl }) ∧
        (∀ n, schedule (n + 1) d = schedule n (turn d)) ∧ Normal (turn d).now ∧
        Fits (turn d).now.total ∧ 0 ≤ (d.lib.thread t).wakeupTime ∧
        d.now.total + 1000000 < (turn d).now.total ∧
        (turn d).now.total ≤ (d.lib.thread t).wakeupTime := by
  rcases mode_cases (nanos (clockGettime d.now)) d.lib with ⟨sl, hsl⟩ | hb
  · right
    have hr := nanos_range (clockGettime d.now)
    obtain ⟨_, _, _, _, hall⟩ := pass_asleep hr.1 hr.2 hsl
    rcases h with h | ⟨h0, hw⟩
    · rw [(hall t ht).1] at h
      cases h
    · obtain ⟨hnormal, hlater, hbefore⟩ := asleep_clock hn hf ht h0 hw hsl
      obtain ⟨hflo, _⟩ := hf
      obtain ⟨_, hwhi⟩ := hw
      exact ⟨⟨sl, (schedule_again 0 hsl).2⟩, fun n => (schedule_again n hsl).1, hnormal,
        ⟨by omega, by omega⟩, h0, hlater, hbefore⟩
  · left
    exact fun n => schedule_last n hb

/-- The fuel bounds the milliseconds that the deadline is ahead of the clock. -/
theorem schedule_selects {t : Tid} (n : Nat) (d : Platform) (hn : Normal d.now)
    (hf : Fits d.now.total) (ht : t ∈ d.lib.threadList)
    (h : (d.lib.thread t).runnable = true ∨
      0 ≤ (d.lib.thread t).wakeupTime ∧ Fits (d.lib.thread t).wakeupTime)
    (hle : (d.lib.thread t).wakeupTime ≤ d.now.total + 1000000 * n) :
    ∃ d', schedule (n + 1) d = some d' ∧ Selected d d' := by
  induction n generalizing d with
  | zero =>
    rcases turn_progress hn hf ht h with hlast | ⟨_, _, _, _, _, hlater, hbefore⟩
    · exact hlast 0
    · omega
  | succ n ih =>
    rcases turn_progress hn hf ht h with
      hlast | ⟨⟨sl, hlib⟩, hagain, hnormal, hfits, h0, hlater, hbefore⟩
    · exact hlast (n + 1)
    · push_cast at hle
      obtain ⟨d', hd', hsel⟩ := ih (turn d) hnormal hfits (by rw [hlib]; exact ht)
        (by rw [hlib]; exact h) (by rw [hlib]; dsimp only; omega)
      rw [hagain]
      unfold Selected at hsel ⊢
      rw [hlib] at hsel
      exact ⟨d', hd', hsel⟩

/-! ## The record of a run -/

/-- What a call does to the time. -/
def Entry.Advances (r : Entry) : Prop :=
  match r.op with
  | .gettime => r.before.total < r.after.total
  | .nanosleep request => r.after.total = r.before.total + request.total

/-- A request of less than a second. -/
def Op.Brief : Op → Prop
  | .gettime => True
  | .nanosleep request => request.sec = 0 ∧ Normal request

/-- The invariant of the clock and its record. -/
structure Kept (d : Platform) : Prop where
  clock : Sound d.now
  entry : ∀ r ∈ d.log, Normal r.after ∧ (r.before.sec + 1 < 9223372036854775808 → r.Advances)

theorem Op.run_sound {op : Op} {now : Timespec} (hop : op.Brief) (h : Sound now) :
    Sound (op.run now) := by
  cases op with
  | gettime => exact gettime_sound h
  | nanosleep request => exact nanosleep_sound h hop.2

theorem Op.run_advances {op : Op} {now : Timespec} (hop : op.Brief) (h : Sound now)
    (hf : now.sec + 1 < 9223372036854775808) : Entry.Advances ⟨op, now, op.run now⟩ := by
  cases op with
  | gettime =>
    show now.total < (clockGettime now).total
    rw [gettime_total h hf]
    omega
  | nanosleep request => exact nanosleep_total h hop.1 hf

theorem Kept.call {d : Platform} (h : Kept d) (op : Op) (hop : op.Brief) :
    Kept (d.call op) := by
  refine ⟨Op.run_sound hop h.clock, fun r hr => ?_⟩
  rcases List.mem_append.mp hr with hr | hr
  · exact h.entry r hr
  · rw [List.mem_singleton] at hr
    subst hr
    exact ⟨(Op.run_sound hop h.clock).normal, Op.run_advances hop h.clock⟩

/-- The clock does not depend on the threads. -/
theorem Kept.lib {d : Platform} (h : Kept d) (s : State) : Kept { d with lib := s } :=
  ⟨h.clock, h.entry⟩

theorem Kept.turn {d : Platform} (h : Kept d) : Kept (turn d) := by
  have hg : Kept { d.call .gettime with lib := pass (nanos (clockGettime d.now)) d.lib } :=
    (h.call .gettime trivial).lib _
  rcases mode_cases (nanos (clockGettime d.now)) d.lib with ⟨sl, hsl⟩ | hb
  · have hr := nanos_range (clockGettime d.now)
    obtain ⟨_, hsec, hpos, hle, _⟩ := pass_asleep hr.1 hr.2 hsl
    rw [turn_asleep hsl]
    exact hg.call (.nanosleep sl) ⟨hsec, by omega, by omega⟩
  · rw [turn_selects hb]
    exact hg

theorem Kept.step {d d' : Platform} {e : Event} (h : Kept d) (hs : step d e = some d') :
    Kept d' := by
  cases e with
  | call c =>
    simp only [Deterministic.step] at hs
    split at hs
    · cases hs
    · cases hs
      exact h.lib _
    · split at hs
      · cases hs
        exact h.lib _
      · split at hs
        · cases hs
          exact (h.call .gettime trivial).lib _
        · cases hs
  | turn =>
    simp only [Deterministic.step] at hs
    split at hs
    · cases hs
      exact h.turn
    · cases hs
  | resume =>
    obtain ⟨s, _, rfl⟩ := Option.map_eq_some_iff.mp hs
    exact h.lib s
  | gettime =>
    simp only [Deterministic.step] at hs
    split at hs
    · cases hs
      exact h.call .gettime trivial
    · cases hs

theorem kept_start (t : Tid) (ts : List Tid) (lwp : Tid → Option Lwp) :
    Kept (start t ts lwp) := by
  have hz : Sound ⟨0, 0⟩ := ⟨⟨by decide, by decide⟩, by decide, by decide⟩
  exact ⟨hz, fun _ hr => by cases hr⟩

/-- While some thread can run or has a deadline, the loop of `schedule` ends
with a thread, whatever else is in the list; and in every run the clock is
normalised, each reading moves it on, and each sleep of the loop moves it on by
what the loop asked for. -/
theorem deterministic_progress :
    (∀ (d : Platform) (t : Tid), Normal d.now → Fits d.now.total → t ∈ d.lib.threadList →
      ((d.lib.thread t).runnable = true ∨
        0 ≤ (d.lib.thread t).wakeupTime ∧ Fits (d.lib.thread t).wakeupTime) →
      ∃ n, ∀ m, n < m → ∃ d', schedule m d = some d' ∧ d'.lib.mode = .back ∧
        d'.lib.current ∈ d.lib.threadList ∧
          (d'.lib.thread d'.lib.current).runnable = true) ∧
      ∀ (t : Tid) (ts : List Tid) (lwp : Tid → Option Lwp) (tr : List (Platform × Event))
        (d : Platform), Run step (start t ts lwp) tr d → Normal d.now ∧
          ∀ r ∈ d.log, Normal r.after ∧
            (r.before.sec + 1 < 9223372036854775808 → r.Advances) := by
  constructor
  · intro d t hn hf ht h
    refine ⟨((d.lib.thread t).wakeupTime - d.now.total).toNat, fun m hm => ?_⟩
    obtain ⟨n, rfl⟩ := Nat.exists_eq_add_one_of_ne_zero (Nat.ne_of_gt (Nat.zero_lt_of_lt hm))
    exact schedule_selects n d hn hf ht h (by omega)
  · intro t ts lwp tr d hr
    have hk := Run.always (I := Kept) (kept_start t ts lwp) (fun _ _ _ h hs => h.step hs) hr
    exact ⟨hk.clock.normal, hk.entry⟩

/-- Two threads that sleep, and a run whose only thread sleeps for 3 ms. -/
theorem deterministic_progress_sleepers :
    (∃ n, ∀ m, n < m → ∃ d', schedule m ⟨sleepers, ⟨0, 0⟩, []⟩ = some d' ∧ d'.lib.mode = .back ∧
        d'.lib.current ∈ sleepers.threadList ∧
          (d'.lib.thread d'.lib.current).runnable = true) ∧
      ∃ tr d, Run step (start 0 [] fun _ => none) tr d ∧ d.log.length = 4 ∧ Normal d.now ∧
        ∀ r ∈ d.log, Normal r.after ∧
          (r.before.sec + 1 < 9223372036854775808 → r.Advances) := by
  have hz : Normal ⟨0, 0⟩ := ⟨by decide, by decide⟩
  refine ⟨deterministic_progress.1 ⟨sleepers, ⟨0, 0⟩, []⟩ 0 hz ⟨by decide, by decide⟩ (by decide)
    (.inr ⟨by decide, by decide, by decide⟩), ?_⟩
  obtain ⟨tr, d, hr, hp⟩ := exists_run [.call (.clockSleep .realtime 0 3000000 1000000), .turn,
    .turn] (f := step) (s := start 0 [] fun _ => none) (p := fun _ d => d.log.length = 4) (by decide)
  rw [decide_eq_true_eq] at hp
  exact ⟨tr, d, hr, hp, deterministic_progress.2 0 [] (fun _ => none) tr d hr⟩

end Frankenlibc.Threads.Deterministic

import Mathlib.Data.List.Induction
import Frankenlibc.Threads.Lists

/-!
# The wait queues

A waiter is a call of `wait`. The record `hist` lists what happened to each
of them: its arrival on a queue, its removal by a wakeup or by itself, and
the value its `wait` returned. The invariant says which of four lives a waiter
can have had so far and where its thread stands; what a queue holds, how often
a waiter leaves it and what `wait` returns all follow from that.
-/
namespace Frankenlibc.Threads.WaitQueue

open Frankenlibc.Lib

/-! ## Reading the record -/

def wid : WaitEv → Wid
  | .arrive w _ => w
  | .dequeue w _ => w
  | .remove w _ => w
  | .ret w _ => w

def isArrival (q : Queue) : WaitEv → Bool
  | .arrive _ q' => q' = q
  | _ => false

def isDequeue : WaitEv → Bool
  | .dequeue _ _ => true
  | _ => false

def isRemove : WaitEv → Bool
  | .remove _ _ => true
  | _ => false

def isRet : WaitEv → Bool
  | .ret _ _ => true
  | _ => false

/-- What happened to the waiter `w`, oldest first. -/
def life (w : Wid) (h : List WaitEv) : List WaitEv := h.filter (fun e => wid e = w)

/-- The waiters that were put on `q`, in the order of their arrival. -/
def arrivals (q : Queue) (h : List WaitEv) : List Wid := (h.filter (isArrival q)).map wid

/-- `w` was taken from a queue by `wakeup_one` or `wakeup_all`. -/
def dequeued (w : Wid) (h : List WaitEv) : Bool := (life w h).any isDequeue

/-- The `wait` of `w` has returned. -/
def returned (w : Wid) (h : List WaitEv) : Bool := (life w h).any isRet

/-- How often `w` was taken from a queue, by a wakeup or by itself. -/
def removals (w : Wid) (h : List WaitEv) : Nat :=
  (life w h).countP fun e => isDequeue e || isRemove e

/-- The waiters of `q` that have neither been dequeued nor returned. -/
def pending (q : Queue) (h : List WaitEv) : List Wid :=
  (arrivals q h).filter fun w => !dequeued w h && !returned w h

theorem life_snoc (w : Wid) (h : List WaitEv) (e : WaitEv) :
    life w (h ++ [e]) = if wid e = w then life w h ++ [e] else life w h := by
  unfold life
  rw [List.filter_append]
  split
  · next he => simp [he]
  · next he => simp [he]

theorem life_self {w : Wid} {e : WaitEv} (he : wid e = w) (h : List WaitEv) :
    life w (h ++ [e]) = life w h ++ [e] := by rw [life_snoc, if_pos he]

theorem life_other {w : Wid} {e : WaitEv} (he : w ≠ wid e) (h : List WaitEv) :
    life w (h ++ [e]) = life w h := by rw [life_snoc, if_neg he.symm]

theorem mem_life {w : Wid} {h : List WaitEv} {e : WaitEv} (he : wid e = w) :
    e ∈ life w h ↔ e ∈ h := by
  simp [life, he]

theorem arrivals_snoc (q : Queue) (h : List WaitEv) (e : WaitEv) :
    arrivals q (h ++ [e]) = if isArrival q e then arrivals q h ++ [wid e] else arrivals q h := by
  unfold arrivals
  rw [List.filter_append]
  split
  · next he => simp [he]
  · next he => simp [he]

/-- An arrival extends the queue it goes to and no other. -/
theorem pending_arrive {w : Wid} {h : List WaitEv} (hw : life w h = []) (q q' : Queue) :
    pending q' (h ++ [.arrive w q]) = if q = q' then pending q' h ++ [w] else pending q' h := by
  have hkeep : ∀ u, (!dequeued u (h ++ [.arrive w q]) && !returned u (h ++ [.arrive w q])) =
      (!dequeued u h && !returned u h) := by
    intro u
    unfold dequeued returned
    rw [life_snoc]
    split
    · simp [isDequeue, isRet]
    · rfl
  unfold pending
  simp only [hkeep, arrivals_snoc, isArrival, decide_eq_true_eq]
  split
  · rw [List.filter_append]
    simp [wid, dequeued, returned, hw]
  · rfl

/-- A removal or a return takes its waiter out of whatever it waits on. -/
theorem pending_leave {e : WaitEv} (ha : ∀ q, isArrival q e = false)
    (hl : (isDequeue e || isRet e) = true) (q : Queue) (h : List WaitEv) :
    pending q (h ++ [e]) = (pending q h).filter (fun w => w ≠ wid e) := by
  unfold pending
  rw [arrivals_snoc, if_neg (by simp [ha]), List.filter_filter]
  congr 1
  funext u
  unfold dequeued returned
  rw [life_snoc]
  by_cases hu : wid e = u
  · have hu' : u = wid e := hu.symm
    rw [if_pos hu]
    simp only [List.any_append, List.any_cons, List.any_nil, Bool.or_false]
    cases hd : isDequeue e with
    | true => simp [hu']
    | false =>
      have hr : isRet e = true := by simpa [hd] using hl
      simp [hu', hr]
  · have hu' : u ≠ wid e := fun h => hu h.symm
    rw [if_neg hu]
    simp [hu']

/-- What a waiter does between its removal and its return changes no queue. -/
theorem pending_remove (w : Wid) (q q' : Queue) (h : List WaitEv) :
    pending q' (h ++ [.remove w q]) = pending q' h := by
  unfold pending
  rw [arrivals_snoc, if_neg (by simp [isArrival])]
  congr 1
  funext u
  unfold dequeued returned
  rw [life_snoc]
  split
  · simp [isDequeue, isRet]
  · rfl

/-- Every wakeup took the waiter that had waited longest on its queue. -/
def Fifo (h : List WaitEv) : Prop :=
  ∀ h₁ w q h₂, h = h₁ ++ .dequeue w q :: h₂ → (pending q h₁).head? = some w

theorem fifo_snoc {h : List WaitEv} {e : WaitEv} (hf : Fifo h)
    (he : ∀ w q, e = .dequeue w q → (pending q h).head? = some w) : Fifo (h ++ [e]) := by
  intro h₁ w q h₂ heq
  rcases List.eq_nil_or_concat h₂ with rfl | ⟨h₃, e', rfl⟩
  · obtain ⟨rfl, hlast⟩ := List.append_inj' heq rfl
    cases hlast
    exact he w q rfl
  · rw [List.concat_eq_append, ← List.cons_append, ← List.append_assoc] at heq
    obtain ⟨heq, _⟩ := List.append_inj' heq rfl
    exact hf h₁ w q h₃ heq

/-! ## The four lives of a waiter -/

inductive Stage (s : State) (w : Wid) : Prop
  | waiting (k : Cont) (hl : life w s.hist = [.arrive w k.queue])
      (ho : (s.waiter w).onlist = true) (hp : s.pc (s.waiter w).who = .wait w k)
  | signalled (k : Cont) (hl : life w s.hist = [.arrive w k.queue, .dequeue w k.queue])
      (ho : (s.waiter w).onlist = false) (hp : s.pc (s.waiter w).who = .wait w k)
      (hr : (s.thread (s.waiter w).who).runnable = true)
  | succeeded (q : Queue) (hl : life w s.hist = [.arrive w q, .dequeue w q, .ret w .ok])
  | expired (q : Queue) (hl : life w s.hist = [.arrive w q, .remove w q, .ret w .ETIMEDOUT])

structure Inv (s : State) : Prop where
  fresh : ∀ w, s.nextWid ≤ w → life w s.hist = []
  stage : ∀ w, w < s.nextWid → Stage s w
  order : ∀ q, s.waiters q = pending q s.hist
  fifo : Fifo s.hist
  place : ∀ t w k, s.pc t = .wait w k →
    w < s.nextWid ∧ (s.waiter w).who = t ∧ returned w s.hist = false ∧ t ∈ s.created

theorem inv_boot (t : Tid) (ts : List Tid) (lwp : Tid → Option Lwp) : Inv (boot t ts lwp) where
  fresh _ _ := rfl
  stage w hw := absurd hw (Nat.not_lt_zero w)
  order _ := rfl
  fifo h₁ w q h₂ he := by simp [boot] at he
  place u w k hp := by
    simp only [boot] at hp
    split at hp <;> cases hp

/-- The part of a waiter's life that is independent of the state. -/
theorem life_cases {s : State} (h : Inv s) (w : Wid) :
    life w s.hist = [] ∨ ∃ q, life w s.hist = [.arrive w q] ∨
      life w s.hist = [.arrive w q, .dequeue w q] ∨
      life w s.hist = [.arrive w q, .dequeue w q, .ret w .ok] ∨
      life w s.hist = [.arrive w q, .remove w q, .ret w .ETIMEDOUT] := by
  rcases Nat.lt_or_ge w s.nextWid with hw | hw
  · cases h.stage w hw with
    | waiting k hl => exact .inr ⟨_, .inl hl⟩
    | signalled k hl => exact .inr ⟨_, .inr (.inl hl)⟩
    | succeeded q hl => exact .inr ⟨q, .inr (.inr (.inl hl))⟩
    | expired q hl => exact .inr ⟨q, .inr (.inr (.inr hl))⟩
  · exact .inl (h.fresh w hw)

theorem mem_arrivals {q : Queue} {w : Wid} {h : List WaitEv} :
    w ∈ arrivals q h ↔ .arrive w q ∈ life w h := by
  simp only [arrivals, List.mem_map, List.mem_filter, life, wid, decide_true, and_true]
  constructor
  · rintro ⟨e, ⟨he, ha⟩, rfl⟩
    cases e <;> simp_all [isArrival]
  · intro he
    exact ⟨_, ⟨he, by simp [isArrival]⟩, rfl⟩

/-- A queue holds the waiters of which nothing but their arrival is recorded. -/
theorem Inv.mem {s : State} (h : Inv s) (q : Queue) (w : Wid) :
    w ∈ s.waiters q ↔ life w s.hist = [.arrive w q] := by
  rw [h.order q, pending, List.mem_filter, mem_arrivals]
  unfold dequeued returned
  rcases life_cases h w with hl | ⟨q', hl | hl | hl | hl⟩
  · simp [hl]
  · simp [hl, isDequeue, isRet, eq_comm]
  · simp [hl, isDequeue]
  · simp [hl, isDequeue]
  · simp [hl, isRet]

theorem count_arrivals (q : Queue) (w : Wid) (h : List WaitEv) :
    (arrivals q h).count w = (life w h).countP (isArrival q) := by
  induction h using List.reverseRecOn with
  | nil => rfl
  | append_singleton h e ih =>
    rw [arrivals_snoc, life_snoc]
    by_cases ha : isArrival q e = true
    · rw [if_pos ha, List.count_append, ih]
      by_cases hw : wid e = w
      · rw [if_pos hw, List.countP_append]
        simp [ha, hw]
      · rw [if_neg hw]
        simp [hw]
    · rw [if_neg ha, ih]
      split
      · rw [List.countP_append]
        simp [ha]
      · rfl

theorem Inv.nodup {s : State} (h : Inv s) (q : Queue) : (s.waiters q).Nodup := by
  rw [h.order q]
  refine List.Nodup.filter _ (List.nodup_iff_count_le_one.mpr fun w => ?_)
  rw [count_arrivals]
  rcases life_cases h w with hl | ⟨q', hl | hl | hl | hl⟩ <;> rw [hl] <;>
    simp [List.countP_cons, isArrival] <;> split <;> omega

/-- The waiter of a waiting thread is in one of the two open stages. -/
theorem open_stage {s : State} (h : Inv s) {t : Tid} {w : Wid} {k : Cont}
    (hp : s.pc t = .wait w k) :
    (life w s.hist = [.arrive w k.queue] ∧ (s.waiter w).onlist = true) ∨
    (life w s.hist = [.arrive w k.queue, .dequeue w k.queue] ∧ (s.waiter w).onlist = false ∧
      (s.thread t).runnable = true) := by
  obtain ⟨hw, ht, hret, _⟩ := h.place t w k hp
  cases h.stage w hw with
  | waiting k' hl ho hp' =>
    rw [ht, hp] at hp'
    cases hp'
    exact .inl ⟨hl, ho⟩
  | signalled k' hl ho hp' hr =>
    rw [ht, hp] at hp'
    cases hp'
    rw [ht] at hr
    exact .inr ⟨hl, ho, hr⟩
  | succeeded q hl => simp [returned, hl, isRet] at hret
  | expired q hl => simp [returned, hl, isRet] at hret

/-- A waiter is on a queue exactly as long as its `onlist` says so. -/
theorem queued_iff {s : State} (h : Inv s) {t : Tid} {w : Wid} {k : Cont}
    (hp : s.pc t = .wait w k) (q : Queue) :
    w ∈ s.waiters q ↔ q = k.queue ∧ (s.waiter w).onlist = true := by
  rw [h.mem q w]
  rcases open_stage h hp with ⟨hl, ho⟩ | ⟨hl, ho, _⟩
  · rw [hl, ho]
    constructor
    · intro he
      simp only [List.cons.injEq, WaitEv.arrive.injEq, true_and, and_true] at he
      exact ⟨he.symm, rfl⟩
    · rintro ⟨rfl, _⟩
      rfl
  · rw [hl, ho]
    simp

/-- Whoever is on a queue waits for it. -/
theorem waiter_waits {s : State} (h : Inv s) {q : Queue} {w : Wid} (hw : w ∈ s.waiters q) :
    w < s.nextWid ∧ (s.waiter w).onlist = true ∧
      ∃ k, s.pc (s.waiter w).who = .wait w k ∧ k.queue = q := by
  have hl := (h.mem q w).mp hw
  have hlt : w < s.nextWid := by
    by_contra hn
    have hf := h.fresh w (Nat.le_of_not_lt hn)
    rw [hl] at hf
    cases hf
  refine ⟨hlt, ?_⟩
  cases h.stage w hlt with
  | waiting k hl' ho hp =>
    rw [hl] at hl'
    simp only [List.cons.injEq, WaitEv.arrive.injEq, true_and, and_true] at hl'
    exact ⟨ho, k, hp, hl'.symm⟩
  | signalled k hl' => simp [hl] at hl'
  | succeeded q hl' => simp [hl] at hl'
  | expired q hl' => simp [hl] at hl'

/-! ## Steps that touch no queue -/

/-- A waiter that a step does not concern stays at its stage. -/
theorem stage_other {s s' : State} {w : Wid} (hl : life w s'.hist = life w s.hist)
    (hw : s'.waiter w = s.waiter w)
    (hp : ∀ k, s.pc (s.waiter w).who = .wait w k → s'.pc (s.waiter w).who = .wait w k)
    (hr : ∀ k, s.pc (s.waiter w).who = .wait w k → (s.thread (s.waiter w).who).runnable = true →
      (s'.thread (s.waiter w).who).runnable = true)
    (h : Stage s w) : Stage s' w := by
  cases h with
  | waiting k hl' ho hpk =>
    exact .waiting k (hl.trans hl') (by rw [hw]; exact ho) (by rw [hw]; exact hp k hpk)
  | signalled k hl' ho hpk hrun =>
    exact .signalled k (hl.trans hl') (by rw [hw]; exact ho) (by rw [hw]; exact hp k hpk)
      (by rw [hw]; exact hr k hpk hrun)
  | succeeded q hl' => exact .succeeded q (hl.trans hl')
  | expired q hl' => exact .expired q (hl.trans hl')

/-- The queues and their record stay, no thread starts or stops waiting, and
no waiting thread stops being runnable. -/
theorem inv_quiet {s s' : State} (h : Inv s)
    (hq : s'.waiters = s.waiters) (hw : s'.waiter = s.waiter) (hn : s'.nextWid = s.nextWid)
    (hh : s'.hist = s.hist)
    (hp : ∀ t w k, s'.pc t = .wait w k ↔ s.pc t = .wait w k)
    (hr : ∀ t w k, s.pc t = .wait w k → (s.thread t).runnable = true →
      (s'.thread t).runnable = true)
    (hc : ∀ t ∈ s.created, t ∈ s'.created) : Inv s' where
  fresh w hle := by
    rw [hn] at hle
    rw [hh]
    exact h.fresh w hle
  stage w hlt := by
    rw [hn] at hlt
    refine stage_other (by rw [hh]) (by rw [hw]) ?_ ?_ (h.stage w hlt)
    · exact fun k hpk => (hp _ _ _).mpr hpk
    · exact fun k hpk hrun => hr _ _ _ hpk hrun
  order q := by rw [hq, hh]; exact h.order q
  fifo := by rw [hh]; exact h.fifo
  place t w k hpk := by
    obtain ⟨hlt, hwho, hret, hcr⟩ := h.place t w k ((hp t w k).mp hpk)
    rw [hn, hw, hh]
    exact ⟨hlt, hwho, hret, hc t hcr⟩

/-- The current thread is in the library or in its own code, and not inside a
call of `wait`. -/
structure Ready (s : State) : Prop where
  inv : Inv s
  notWaiting : ∀ w k, s.pc s.current ≠ .wait w k
  created : s.current ∈ s.created

theorem ready_locks {s s' : State} (h : Ready s) (hl : OnlyLocks s s') : Ready s' := by
  unfold OnlyLocks at hl
  rw [hl]
  refine ⟨?_, h.notWaiting, h.created⟩
  exact inv_quiet h.inv rfl rfl rfl rfl (fun _ _ _ => Iff.rfl) (fun _ _ _ _ hr => hr) fun _ hc => hc

/-- The current thread takes another position that is not inside `wait`, and
threads are changed in ways that leave waiting threads runnable. -/
theorem ready_move {s s' : State} (h : Ready s) (hq : s'.waiters = s.waiters)
    (hw : s'.waiter = s.waiter) (hn : s'.nextWid = s.nextWid) (hh : s'.hist = s.hist)
    (hc : s'.current = s.current) (hcr : s'.created = s.created)
    (hp : ∀ t, t ≠ s.current → s'.pc t = s.pc t)
    (hpc : ∀ w k, s'.pc s.current ≠ .wait w k)
    (hr : ∀ t, t ≠ s.current → (s.thread t).runnable = true → (s'.thread t).runnable = true) :
    Ready s' := by
  refine ⟨inv_quiet h.inv hq hw hn hh ?_ ?_ ?_, ?_, ?_⟩
  · intro t w k
    by_cases ht : t = s.current
    · subst ht
      exact ⟨fun he => absurd he (hpc w k), fun he => absurd he (h.notWaiting w k)⟩
    · rw [hp t ht]
  · intro t w k hpk hrun
    refine hr t ?_ hrun
    rintro rfl
    exact h.notWaiting w k hpk
  · intro t ht
    rwa [hcr]
  · rw [hc]
    exact hpc
  · rw [hc, hcr]
    exact h.created

theorem ready_calm {s s' : State} (h : Ready s) (hcalm : Calm s s')
    (hq : s'.waiters = s.waiters) (hw : s'.waiter = s.waiter) (hn : s'.nextWid = s.nextWid)
    (hh : s'.hist = s.hist) (hpc : ∀ w k, s'.pc s.current ≠ .wait w k) : Ready s' :=
  ready_move h hq hw hn hh hcalm.current hcalm.created hcalm.pc hpc hcalm.runnable

theorem ready_toUser {s : State} (h : Ready s) : Ready s.toUser :=
  ready_calm h (toUser_calm s) rfl rfl rfl rfl (by simp [State.toUser])

theorem ready_suspend {s : State} (h : Ready s) {p : Pc} (hp : ∀ w k, p ≠ .wait w k) :
    Ready (s.suspend p) :=
  ready_move h rfl rfl rfl rfl rfl rfl (fun t ht => by simp [State.suspend, ht])
    (by simpa [State.suspend] using hp) (fun _ _ hr => hr)

/-! ## Arrival, dequeueing and return -/

theorem filter_ne_self {l : List Wid} {w : Wid} (h : w ∉ l) :
    l.filter (fun u => u ≠ w) = l := by
  rw [List.filter_eq_self]
  intro u hu
  exact decide_eq_true fun he => h (he ▸ hu)

/-- A waiter is on one queue only. -/
theorem not_mem_other {s : State} (h : Inv s) {q q' : Queue} {w : Wid}
    (hl : life w s.hist = [.arrive w q]) (hne : q' ≠ q) : w ∉ s.waiters q' := by
  intro hw
  have hl' := (h.mem q' w).mp hw
  rw [hl] at hl'
  simp only [List.cons.injEq, WaitEv.arrive.injEq, true_and, and_true] at hl'
  exact hne hl'.symm

/-- A wakeup takes the first waiter off its queue. Its thread is runnable, and
nothing happens to any other waiter. -/
theorem inv_dequeue {s : State} (h : Inv s) {q : Queue} {w : Wid} {ws : List Wid}
    (hq : s.waiters q = w :: ws) : Inv (dequeue q w ws s) := by
  have hw : w ∈ s.waiters q := by rw [hq]; exact List.mem_cons_self
  obtain ⟨hlt, hon, k, hpk, hkq⟩ := waiter_waits h hw
  have hl : life w s.hist = [.arrive w q] := (h.mem q w).mp hw
  have hnd : (w :: ws).Nodup := hq ▸ h.nodup q
  have hlife : ∀ u, life u (dequeue q w ws s).hist =
      if w = u then life u s.hist ++ [.dequeue w q] else life u s.hist :=
    fun u => life_snoc u s.hist (.dequeue w q)
  refine ⟨?_, ?_, ?_, ?_, ?_⟩
  · intro u hu
    have hne : w ≠ u := fun he => absurd hlt (he ▸ Nat.not_lt_of_le hu)
    rw [hlife, if_neg hne]
    exact h.fresh u hu
  · intro u hu
    by_cases hwu : w = u
    · subst hwu
      refine .signalled k ?_ ?_ ?_ ?_
      · rw [hlife, if_pos rfl, hl, hkq]
        rfl
      · simp [dequeue, wake, State.setThread]
      · simpa [dequeue, wake, State.setThread] using hpk
      · simp [dequeue, wake, State.setThread]
    · refine stage_other (s := s) ?_ ?_ (fun _ hp => hp) ?_ (h.stage u hu)
      · rw [hlife, if_neg hwu]
      · simp [dequeue, wake, State.setThread, Ne.symm hwu]
      · intro k' _ hr
        simp only [dequeue, wake, State.setThread, Function.update_apply]
        split
        · rfl
        · exact hr
  · intro q'
    change Function.update s.waiters q ws q' = pending q' (s.hist ++ [.dequeue w q])
    rw [pending_leave (fun _ => rfl) rfl, ← h.order]
    by_cases hqq : q' = q
    · subst hqq
      rw [Function.update_self, hq, List.filter_cons_of_neg (by simp [wid])]
      exact (filter_ne_self (List.nodup_cons.mp hnd).1).symm
    · rw [Function.update_of_ne hqq]
      exact (filter_ne_self (not_mem_other h hl hqq)).symm
  · refine fifo_snoc h.fifo ?_
    rintro w' q' ⟨rfl, rfl⟩
    rw [← h.order, hq]
    rfl
  · intro t u k' hp'
    obtain ⟨hu, hwho, hret, hcr⟩ := h.place t u k' hp'
    refine ⟨hu, ?_, ?_, hcr⟩
    · simp only [dequeue, wake, State.setThread, Function.update_apply]
      split
      next he =>
        subst he
        exact hwho
      next => exact hwho
    · unfold returned at hret ⊢
      rw [hlife]
      split
      · rw [List.any_append, hret]
        rfl
      · exact hret

/-- A thread that is not waiting puts a new waiter at the end of a queue. -/
theorem inv_waitOn {k : Cont} {nsec tm : Int} {s s' : State} (h : Ready s)
    (hw : waitOn k nsec tm s = .ok s') : Inv s' := by
  obtain ⟨_, th, hth, _, rfl⟩ := waitOn_ok hw
  have hi := h.inv
  have hnew : life s.nextWid s.hist = [] := hi.fresh _ (Nat.le_refl _)
  have hlife : ∀ u, life u (s.hist ++ [.arrive s.nextWid k.queue]) =
      if s.nextWid = u then life u s.hist ++ [.arrive s.nextWid k.queue] else life u s.hist :=
    fun u => life_snoc u s.hist _
  have hwho : ∀ u k', s.pc (s.waiter u).who = .wait u k' → (s.waiter u).who ≠ s.current := by
    intro u k' hp he
    rw [he] at hp
    exact h.notWaiting u k' hp
  refine ⟨?_, ?_, ?_, ?_, ?_⟩
  · intro u hu
    have hne : s.nextWid ≠ u := Nat.ne_of_lt (Nat.lt_of_succ_le hu)
    refine (hlife u).trans ?_
    rw [if_neg hne]
    exact hi.fresh u (Nat.le_of_succ_le hu)
  · intro u hu
    by_cases hun : s.nextWid = u
    · subst hun
      refine .waiting k ?_ ?_ ?_
      · refine (hlife _).trans ?_
        rw [if_pos rfl, hnew]
        rfl
      · simp [enqueue]
      · simp [enqueue]
    · have hlt : u < s.nextWid := Nat.lt_of_le_of_ne (Nat.le_of_lt_succ hu) (Ne.symm hun)
      refine stage_other (s := s) ?_ ?_ ?_ ?_ (hi.stage u hlt)
      · refine (hlife u).trans ?_
        rw [if_neg hun]
      · simp [enqueue, Ne.symm hun]
      · intro k' hp
        simpa [hwho u k' hp] using hp
      · intro k' hp hr
        simpa [hth _ (hwho u k' hp)] using hr
  · intro q
    change Function.update s.waiters k.queue (s.waiters k.queue ++ [s.nextWid]) q = _
    refine Eq.trans ?_ (pending_arrive hnew k.queue q).symm
    by_cases hq : k.queue = q
    · subst hq
      rw [Function.update_self, if_pos rfl, hi.order]
    · rw [Function.update_of_ne (Ne.symm hq), if_neg hq, hi.order]
  · refine fifo_snoc hi.fifo ?_
    rintro w q ⟨⟩
  · intro t u k' hp
    change Function.update s.pc s.current (.wait s.nextWid k) t = _ at hp
    by_cases ht : t = s.current
    · subst ht
      rw [Function.update_self] at hp
      cases hp
      refine ⟨Nat.lt_succ_self _, by simp [enqueue], ?_, h.created⟩
      unfold returned
      refine (congrArg (List.any · isRet) (hlife _)).trans ?_
      rw [if_pos rfl, hnew]
      rfl
    · rw [Function.update_of_ne ht] at hp
      obtain ⟨hlt, hwt, hret, hcr⟩ := hi.place t u k' hp
      have hne : s.nextWid ≠ u := (Nat.ne_of_lt hlt).symm
      refine ⟨Nat.lt_succ_of_lt hlt, ?_, ?_, hcr⟩
      · simpa [enqueue, Ne.symm hne] using hwt
      · unfold returned
        refine (congrArg (List.any · isRet) (hlife _)).trans ?_
        rw [if_neg hne]
        exact hret

/-- The current thread leaves its `wait`: the life of its waiter ends and
nothing happens to any other. -/
theorem inv_return {s s' : State} (h : Inv s) {w : Wid} {k : Cont}
    (hp : s.pc s.current = .wait w k)
    (hs : s' = { s with
      pc := Function.update s.pc s.current .running, waiters := s'.waiters, hist := s'.hist })
    (hlife : ∀ u, u ≠ w → life u s'.hist = life u s.hist)
    (hend : (∃ q, life w s'.hist = [.arrive w q, .dequeue w q, .ret w .ok]) ∨
      ∃ q, life w s'.hist = [.arrive w q, .remove w q, .ret w .ETIMEDOUT])
    (horder : ∀ q, s'.waiters q = pending q s'.hist) (hfifo : Fifo s'.hist) : Inv s' := by
  obtain ⟨hlt, hwho, _, _⟩ := h.place _ _ _ hp
  have hpc : s'.pc = Function.update s.pc s.current .running := by rw [hs]
  have hth : s'.thread = s.thread := by rw [hs]
  have hwt : s'.waiter = s.waiter := by rw [hs]
  have hn : s'.nextWid = s.nextWid := by rw [hs]
  have hcr : s'.created = s.created := by rw [hs]
  have hother : ∀ t u k', s.pc t = .wait u k' → u ≠ w → t ≠ s.current := by
    rintro t u k' hpu hne rfl
    rw [hp] at hpu
    cases hpu
    exact hne rfl
  refine ⟨?_, ?_, horder, hfifo, ?_⟩
  · intro u hu
    rw [hn] at hu
    rw [hlife u (fun he => absurd hlt (he ▸ Nat.not_lt_of_le hu))]
    exact h.fresh u hu
  · intro u hu
    rw [hn] at hu
    by_cases huw : u = w
    · subst huw
      rcases hend with ⟨q, hl⟩ | ⟨q, hl⟩
      · exact .succeeded q hl
      · exact .expired q hl
    · refine stage_other (hlife u huw) (by rw [hwt]) ?_ ?_ (h.stage u hu)
      · intro k' hpu
        rw [hpc, Function.update_of_ne (hother _ _ _ hpu huw)]
        exact hpu
      · intro k' _ hr
        rw [hth]
        exact hr
  · intro t u k' hpu
    have ht : t ≠ s.current := by
      rintro rfl
      rw [hpc, Function.update_self] at hpu
      cases hpu
    rw [hpc, Function.update_of_ne ht] at hpu
    obtain ⟨hu, hwu, hret, hc⟩ := h.place t u k' hpu
    have hne : u ≠ w := by
      rintro rfl
      exact ht (hwu.symm.trans hwho)
    rw [hn, hwt, hcr]
    refine ⟨hu, hwu, ?_, hc⟩
    unfold returned
    rw [hlife u hne]
    exact hret

theorem inv_waitRet {s : State} (h : Inv s) {w : Wid} {k : Cont}
    (hp : s.pc s.current = .wait w k) : Inv (waitRet w k.queue s).2 := by
  rcases open_stage h hp with ⟨hl, ho⟩ | ⟨hl, ho, _⟩
  · -- still on its queue: it takes itself off and reports the timeout
    unfold waitRet
    rw [if_pos ho]
    have hh : s.hist ++ [.remove w k.queue, .ret w .ETIMEDOUT] =
        s.hist ++ [.remove w k.queue] ++ [.ret w .ETIMEDOUT] := by simp
    refine inv_return h hp ?_ ?_ (.inr ⟨k.queue, ?_⟩) ?_ ?_
    · rfl
    · intro u hu
      dsimp only
      rw [hh, life_other hu, life_other hu]
    · dsimp only
      rw [hh, life_self (w := w) (e := .ret w _) rfl, life_self (w := w) (e := .remove w _) rfl, hl]
      rfl
    · intro q
      dsimp only
      rw [hh, pending_leave (fun _ => rfl) rfl, pending_remove, ← h.order]
      by_cases hq : q = k.queue
      · subst hq
        rw [Function.update_self, (h.nodup _).erase_eq_filter]
        refine List.filter_congr fun u _ => ?_
        by_cases hu : u = w <;> simp [wid, hu]
      · rw [Function.update_of_ne hq]
        exact (filter_ne_self (not_mem_other h hl hq)).symm
    · dsimp only
      rw [hh]
      refine fifo_snoc (fifo_snoc h.fifo ?_) ?_ <;> rintro w q ⟨⟩
  · -- taken off by a wakeup
    unfold waitRet
    rw [if_neg (by rw [ho]; simp)]
    refine inv_return h hp ?_ (fun u hu => life_other hu _) (.inl ⟨k.queue, ?_⟩) ?_ ?_
    · rfl
    · dsimp only
      rw [life_self (w := w) (e := .ret w _) rfl, hl]
      rfl
    · intro q
      dsimp only
      rw [pending_leave (fun _ => rfl) rfl, ← h.order]
      refine (filter_ne_self ?_).symm
      change w ∉ _
      rw [h.mem, hl]
      simp
    · refine fifo_snoc h.fifo ?_
      rintro w q ⟨⟩

theorem ready_waitRet {s : State} (h : Inv s) {w : Wid} {k : Cont}
    (hp : s.pc s.current = .wait w k) : Ready (waitRet w k.queue s).2 := by
  refine ⟨inv_waitRet h hp, ?_, ?_⟩
  · unfold waitRet
    split <;> simp
  · obtain ⟨_, _, _, hc⟩ := h.place _ _ _ hp
    rw [(waitRet_calm w k.queue s).current, (waitRet_calm w k.queue s).created]
    exact hc

theorem ready_dequeue {s : State} (h : Ready s) {q : Queue} {w : Wid} {ws : List Wid}
    (hq : s.waiters q = w :: ws) : Ready (dequeue q w ws s) :=
  ⟨inv_dequeue h.inv hq, h.notWaiting, h.created⟩

theorem ready_wakeupOne {s : State} (h : Ready s) (q : Queue) : Ready (wakeupOne q s) := by
  unfold wakeupOne
  split
  · exact h
  next hq => exact ready_dequeue h hq

theorem ready_wakeupLoop {q : Queue} {ws : List Wid} {s : State} (h : Ready s)
    (hq : s.waiters q = ws) : Ready (wakeupLoop q ws s) := by
  induction ws generalizing s with
  | nil => exact h
  | cons w ws ih => exact ih (ready_dequeue h hq) (by simp [dequeue, wake, State.setThread])

theorem ready_wakeupAll {s : State} (h : Ready s) (q : Queue) : Ready (wakeupAll q s) :=
  ready_wakeupLoop h rfl

/-! ## Whole runs -/

/-- What holds when a call has returned or has come to `schedule`. -/
def Settled (s : State) : Prop := Inv s ∧ (s.mode = .user → Ready s)

theorem Ready.settled {s : State} (h : Ready s) : Settled s := ⟨h.inv, fun _ => h⟩

theorem settled_waitOn {k : Cont} {nsec tm : Int} {s s' : State} (h : Ready s)
    (hw : waitOn k nsec tm s = .ok s') : Settled s' := by
  refine ⟨inv_waitOn h hw, fun hm => ?_⟩
  obtain ⟨_, th, _, _, rfl⟩ := waitOn_ok hw
  cases hm

theorem settled_turn {k : Cont} {s s' : State} (h : Ready s) (ht : Turn s k s') : Settled s' := by
  cases ht with
  | mutexIn => exact (ready_toUser (ready_locks h (mutexEntered_locks _ s))).settled
  | mutexWait _ hw => exact settled_waitOn h hw
  | rwIn => exact (ready_toUser (ready_locks h (rwEntered_locks _ s _))).settled
  | rwWait _ hw => exact settled_waitOn h hw
  | cvIn =>
    refine (ready_toUser (ready_locks h ?_)).settled
    rfl
  | bare => exact (ready_toUser h).settled

theorem ready_mutexExit {m : MtxId} {s s' : State} (h : Ready s)
    (he : mutexExit m s = .ok s') : Ready s' := by
  have hl := ready_locks h (mutexLeft_locks m s)
  obtain ⟨_, ⟨_, rfl⟩ | ⟨_, rfl⟩⟩ := mutexExit_ok he
  · exact ready_wakeupOne hl _
  · exact hl

theorem ready_rwExit {s : State} (h : Ready s) (r : RwId) : Ready (rwExit r s) := by
  have hl := ready_locks h (rwReleased_locks r s)
  rw [rwExit_eq]
  unfold rwHandOver
  split
  · split
    · exact ready_wakeupOne hl _
    · exact hl
  · split
    · exact ready_wakeupAll hl _
    · exact hl

theorem settled_cvBegin {kind : CvKind} {c : CvId} {m : MtxId} {nsec tm : Int} {s s' : State}
    (h : Ready s) (he : cvBegin kind c m nsec tm s = .ok s') : Settled s' := by
  obtain ⟨s₁, hm, hw⟩ := cvBegin_ok he
  refine settled_waitOn (ready_mutexExit (ready_locks h ?_) hm) hw
  rfl

theorem ready_threadMade {s : State} (h : Ready s) {t : Tid} (joinable extstack : Bool)
    (hnew : t ∉ s.created) : Ready (threadMade t joinable extstack s) := by
  unfold threadMade
  have hcur : s.current ≠ t := fun he => hnew (he ▸ h.created)
  refine ⟨inv_quiet h.inv rfl rfl rfl rfl ?_ ?_ ?_, ?_, ?_⟩
  · intro u w k
    by_cases hu : u = t
    · subst hu
      have hold : s.pc u ≠ .wait w k := by
        intro hp
        obtain ⟨_, _, _, hc⟩ := h.inv.place _ _ _ hp
        exact hnew hc
      simpa using hold
    · simp [hu]
  · intro u w k hp hr
    by_cases hu : u = t
    · subst hu
      simp [State.setThread, newThread]
    · simpa [State.setThread, hu] using hr
  · exact fun u hu => List.mem_append_left _ hu
  · simpa [State.setThread, hcur] using h.notWaiting
  · exact List.mem_append_left _ h.created

theorem ready_exitThread {s : State} (h : Ready s) : Ready (exitThread s) := by
  cases hm : (s.thread s.current).mustjoin with
  | true =>
    obtain ⟨th, he, _, _, _, hr, _⟩ := exitThread_gate hm
    rw [he]
    exact ready_move h rfl rfl rfl rfl rfl rfl (fun t ht => by simp [ht]) (by simp) hr
  | false =>
    rw [exitThread_leave hm]
    refine ready_move h rfl rfl rfl rfl rfl rfl (fun t ht => by simp [ht]) (by simp) ?_
    intro t ht hr
    simpa [ht] using hr

theorem ready_joinLoop {t : Tid} {s s' : State} (h : Ready s) (hj : joinLoop t s = .ok s') :
    Ready s' := by
  obtain ⟨_, ⟨_, rfl⟩ | ⟨_, rfl⟩⟩ := joinLoop_ok hj
  · refine ready_move h rfl rfl rfl rfl rfl rfl ?_ ?_ ?_
    · intro u hu
      simp [State.toUser, wake, State.setThread, hu]
    · simp [State.toUser, wake, State.setThread]
    · intro u _ hr
      simp only [State.toUser, wake, State.setThread, Function.update_apply]
      split
      · rfl
      · exact hr
  · refine ready_move h rfl rfl rfl rfl rfl rfl ?_ ?_ ?_
    · intro u hu
      simp [State.suspend, block, State.setThread, hu]
    · simp [State.suspend, block, State.setThread]
    · intro u hu hr
      simpa [State.suspend, block, State.setThread, hu] using hr

theorem ready_joinThread {t : Tid} {s s' : State} (h : Ready s) (hj : joinThread t s = .ok s') :
    Ready s' := by
  obtain ⟨_, _, hj⟩ := joinThread_ok hj
  refine ready_joinLoop ?_ hj
  exact ready_move h rfl rfl rfl rfl rfl rfl (fun _ _ => rfl) h.notWaiting fun _ _ hr => hr

theorem settled_exec {c : Call} {s s' : State} (h : Ready s) (ha : c.allowed s = true)
    (he : exec s c = .ok s') : Settled s' := by
  cases exec_performed he with
  | refused | mutexBusy | rwBusy => exact h.settled
  | create => exact (ready_threadMade h _ _ (by simpa [Call.allowed] using ha)).settled
  | yield => exact (ready_suspend h (by simp)).settled
  | exit => exact (ready_exitThread h).settled
  | join => exact (ready_joinThread h he).settled
  | @sleep clk =>
    cases clk with
    | other => exact h.settled
    | realtime | monotonic =>
      refine (ready_calm h (sleepUntil_calm _ s) rfl rfl rfl rfl ?_).settled
      simp [sleepUntil, State.suspend, clearRunnable, setDeadline, State.setThread]
  | setCurlwp =>
    refine Ready.settled (ready_move h ?_ ?_ ?_ ?_ ?_ ?_ (fun _ _ => ?_) h.notWaiting ?_)
    case refine_8 =>
      intro t ht hr
      simpa [State.setThread, ht] using hr
    all_goals rfl
  | wait hw => exact settled_waitOn h hw
  | wakeupOne | cvSignal => exact (ready_wakeupOne h _).settled
  | wakeupAll | cvBroadcast => exact (ready_wakeupAll h _).settled
  | mutexEnter ht | rwEnter ht => exact settled_turn h ht
  | mutexIn => exact (ready_locks h (mutexEntered_locks _ s)).settled
  | mutexExit hx => exact (ready_mutexExit h hx).settled
  | rwIn => exact (ready_locks h (rwEntered_locks _ s _)).settled
  | rwExit => exact (ready_rwExit h _).settled
  | rwDowngrade hd => exact (ready_locks h (rwDowngrade_locks hd)).settled
  | rwTryupgrade => exact (ready_locks h (rwTryupgrade_locks _ s)).settled
  | cvWait hb | cvWaitNowrap hb | cvTimedwait hb => exact settled_cvBegin h hb

theorem inv_reap {s : State} (h : Inv s) : Inv (reap s) :=
  inv_quiet h rfl rfl rfl rfl (fun _ _ _ => Iff.rfl) (fun _ _ _ _ hr => hr) fun _ hc => hc

theorem settled_resume {p : Pc} {s s' : State} (h : Inv s) (hp : s.pc s.current = p)
    (hc : s.current ∈ s.created) (he : resume s p = .ok s') : Settled s' := by
  have hready : (∀ w k, p ≠ .wait w k) → Ready (reap s) := fun hn =>
    ⟨inv_reap h, fun w k hpk => hn w k (hp.symm.trans hpk), hc⟩
  cases resume_inv he with
  | running | fresh => exact (ready_toUser ⟨h, by simp [hp], hc⟩).settled
  | yield | sleep => exact (ready_toUser (hready (by simp))).settled
  | wait ht => exact settled_turn (ready_waitRet (inv_reap h) hp) ht
  | join hj =>
    have hr := hready (by simp)
    refine (ready_joinLoop ?_ hj).settled
    exact ready_move hr rfl rfl rfl rfl rfl rfl (fun _ _ => rfl) hr.notWaiting fun _ _ hx => hx
  | gate => exact (ready_exitThread (hready (by simp))).settled
  | exited => exact (ready_suspend (hready (by simp)) (by simp)).settled

/-- The wait queues and the thread lists, together, as every step leaves them. -/
structure Sys (s : State) : Prop where
  lists : Lists.Inv s
  waits : Inv s
  user : s.mode = .user → ∀ w k, s.pc s.current ≠ .wait w k

theorem Sys.current_created {s : State} (h : Sys s) (hm : s.mode = .user ∨ s.mode = .back) :
    s.current ∈ s.created := by
  have hl := h.lists.running hm
  exact h.lists.perm.subset (List.mem_append_left _ (List.mem_append_left _ hl))

theorem Sys.ready {s : State} (h : Sys s) (hu : s.mode = .user) : Ready s :=
  ⟨h.waits, h.user hu, h.current_created (.inl hu)⟩

theorem sys_boot (t : Tid) (ts : List Tid) (lwp : Tid → Option Lwp) (hn : (t :: ts).Nodup) :
    Sys (boot t ts lwp) :=
  ⟨Lists.inv_boot t ts lwp hn, inv_boot t ts lwp, fun _ w k => by simp [boot]⟩

theorem sys_dead {s : State} (h : Sys s) (why : Abort) : Sys { s with mode := .dead why } where
  lists := Lists.inv_dead h.lists why
  waits := inv_quiet h.waits rfl rfl rfl rfl (fun _ _ _ => Iff.rfl) (fun _ _ _ _ hr => hr)
    fun _ hc => hc
  user := by simp

theorem sys_step {s s' : State} {e : Event} (h : Sys s) (hs : step s e = some s') : Sys s' := by
  have hl := Lists.inv_step h.lists hs
  have hsettled : Settled s' → Sys s' := fun hx => ⟨hl, hx.1, fun hm => (hx.2 hm).notWaiting⟩
  cases step_inv hs with
  | call hu ha he => exact hsettled (settled_exec (h.ready hu) ha he)
  | callAbort => exact sys_dead h _
  | switch _ hth =>
    refine ⟨hl, ?_, by simp⟩
    exact inv_quiet h.waits rfl rfl rfl rfl (fun _ _ _ => Iff.rfl)
      (fun t _ _ _ hr => expire_runnable (hth t) hr) fun _ hc => hc
  | idle hth =>
    refine ⟨hl, ?_, by simp⟩
    exact inv_quiet h.waits rfl rfl rfl rfl (fun _ _ _ => Iff.rfl)
      (fun t _ _ _ hr => expire_runnable (hth t) hr) fun _ hc => hc
  | @extWake t _ _ =>
    refine ⟨hl, ?_, h.user⟩
    refine inv_quiet h.waits rfl rfl rfl rfl (fun _ _ _ => Iff.rfl) ?_ fun _ hc => hc
    intro u w k _ hr
    simp only [wake, State.setThread, Function.update_apply]
    split
    · rfl
    · exact hr
  | resume hb he =>
    exact hsettled (settled_resume h.waits rfl (h.current_created (.inr hb)) he)
  | resumeAbort => exact sys_dead h _

theorem sys_run {s₀ s : State} {tr : List (State × Event)} (h₀ : Sys s₀)
    (hr : Run step s₀ tr s) : Sys s :=
  Run.always h₀ (fun _ _ _ h hs => sys_step h hs) hr

/-! ## Consequences -/

/-- A waiter that has arrived is either still on its queue or has been taken
from it once. -/
theorem removed_once {s : State} (h : Inv s) {w : Wid} {q : Queue} (ha : .arrive w q ∈ s.hist) :
    (w ∈ s.waiters q ∧ removals w s.hist = 0 ∧ returned w s.hist = false) ∨
      (w ∉ s.waiters q ∧ removals w s.hist = 1) := by
  rw [← mem_life (w := w) rfl] at ha
  rw [h.mem]
  unfold removals returned
  rcases life_cases h w with hl | ⟨q', hl | hl | hl | hl⟩ <;> rw [hl] at ha ⊢ <;>
    simp_all [isDequeue, isRemove, isRet]

theorem ret_value {s : State} (h : Inv s) {w : Wid} {rv : Rv} (hr : .ret w rv ∈ s.hist) :
    (rv = .ok ↔ dequeued w s.hist = true) ∧ (rv = .ETIMEDOUT ↔ dequeued w s.hist = false) := by
  rw [← mem_life (w := w) rfl] at hr
  unfold dequeued
  rcases life_cases h w with hl | ⟨q', hl | hl | hl | hl⟩ <;> rw [hl] at hr ⊢ <;>
    simp_all [isDequeue]

/-- What a `wait` that is about to return will return. -/
theorem waitRet_value {s : State} (h : Inv s) {w : Wid} {k : Cont}
    (hp : s.pc s.current = .wait w k) :
    (waitRet w k.queue s).1 = if dequeued w s.hist then .ok else .ETIMEDOUT := by
  unfold waitRet dequeued
  rcases open_stage h hp with ⟨hl, ho⟩ | ⟨hl, ho, _⟩
  · simp [hl, ho, isDequeue]
  · simp [hl, ho, isDequeue]

/-- A dequeued waiter is runnable until it returns 0. -/
theorem dequeued_fate {s : State} (h : Inv s) {w : Wid} {q : Queue}
    (hd : .dequeue w q ∈ s.hist) :
    (∀ rv, .ret w rv ∈ s.hist → rv = .ok) ∧
      (returned w s.hist = false → ∃ k, s.pc (s.waiter w).who = .wait w k ∧
        (s.thread (s.waiter w).who).runnable = true) := by
  have hdq : dequeued w s.hist = true := by
    rw [← mem_life (w := w) rfl] at hd
    exact List.any_eq_true.mpr ⟨_, hd, rfl⟩
  refine ⟨fun rv hr => (ret_value h hr).1.mpr hdq, fun hret => ?_⟩
  have hlt : w < s.nextWid := by
    by_contra hn
    simp [dequeued, h.fresh w (Nat.le_of_not_lt hn)] at hdq
  cases h.stage w hlt with
  | waiting k hl => simp [dequeued, hl, isDequeue] at hdq
  | signalled k _ _ hp hr => exact ⟨k, hp, hr⟩
  | succeeded q hl => simp [returned, hl, isRet] at hret
  | expired q hl => simp [returned, hl, isRet] at hret

/-- The wait-queue protocol, in every state the library can reach from
`init_sched` through any calls, clock readings, external wakes and
interleaving.

Each queue holds the waiters that were neither dequeued nor have returned, in
the order of their arrival and once. Whoever has arrived is on its queue or
was taken off it exactly once. A `wait` has returned, or is about to return,
0 if a wakeup dequeued it and `ETIMEDOUT` if not. Every wakeup took the
longest-waiting thread; and whatever the deadline of that thread, after
`wakeup_one` it is runnable until its `wait` returns 0. -/
theorem wait_queue_protocol {t₀ : Tid} {tr : List (State × Event)} {s : State}
    (hr : Run step (initSched t₀) tr s) :
    (∀ q, s.waiters q = pending q s.hist ∧ (s.waiters q).Nodup) ∧
    (∀ w q, .arrive w q ∈ s.hist →
      (w ∈ s.waiters q ∧ removals w s.hist = 0 ∧ returned w s.hist = false) ∨
      (w ∉ s.waiters q ∧ removals w s.hist = 1)) ∧
    (∀ w rv, .ret w rv ∈ s.hist →
      (rv = .ok ↔ dequeued w s.hist = true) ∧ (rv = .ETIMEDOUT ↔ dequeued w s.hist = false)) ∧
    (∀ w k, s.mode = .back → s.pc s.current = .wait w k →
      (waitRet w k.queue (reap s)).1 = if dequeued w s.hist then .ok else .ETIMEDOUT) ∧
    Fifo s.hist ∧
    (∀ q w ws, s.mode = .user → s.waiters q = w :: ws →
      ∃ s₁, step s (.call (.wakeupOne q)) = some s₁ ∧ s₁.hist = s.hist ++ [.dequeue w q] ∧
        s₁.waiters q = ws ∧ (∀ q', q' ≠ q → s₁.waiters q' = s.waiters q') ∧
        ∀ tr' s₂, Run step s₁ tr' s₂ →
          (∀ rv, .ret w rv ∈ s₂.hist → rv = .ok) ∧
          (returned w s₂.hist = false → ∃ k, s₂.pc (s.waiter w).who = .wait w k ∧
            (s₂.thread (s.waiter w).who).runnable = true)) := by
  have hs : Sys s := sys_run (sys_boot _ _ _ (by simp)) hr
  have hi := hs.waits
  refine ⟨fun q => ⟨hi.order q, hi.nodup q⟩, fun w q => removed_once hi, fun w rv => ret_value hi,
    fun w k _ hp => waitRet_value (inv_reap hi) hp, hi.fifo, ?_⟩
  intro q w ws hu hq
  have hstep : step s (.call (.wakeupOne q)) = some (dequeue q w ws s) := by
    simp [step, hu, Call.allowed, exec, settle, wakeupOne, hq]
  refine ⟨_, hstep, rfl, ?_, ?_, ?_⟩
  · simp [dequeue, wake, State.setThread]
  · intro q' hq'
    simp [dequeue, wake, State.setThread, hq']
  · intro tr' s₂ hr'
    have hs₂ : Sys s₂ := sys_run (sys_step hs hstep) hr'
    have hlater : Later s s₂ := (step_later hstep).trans (run_later hr')
    have hlt := (waiter_waits hi (q := q) (w := w) (by simp [hq])).1
    have hd : .dequeue w q ∈ s₂.hist :=
      (run_later hr').hist.subset (by simp [dequeue, wake, State.setThread])
    have hfate := dequeued_fate hs₂.waits hd
    rw [hlater.who w hlt] at hfate
    exact hfate

/-- The protocol at work: the deadline 5 of a waiting thread has passed when
another thread calls `wakeup_one`, and its `wait` returns 0. -/
theorem wait_queue_protocol_late_signal : ∃ tr s, Run step (initSched 0) tr s ∧
    .ret 0 .ok ∈ s.hist ∧ dequeued 0 s.hist = true ∧ removals 0 s.hist = 1 := by
  obtain ⟨tr, s, hr, hp⟩ := exists_run (f := step) (s := initSched 0)
    [.call (.createThread (some 1) false false true), .call .schedule, .pass 0, .resume,
      .call .schedule, .pass 0, .resume, .call (.clockSleep .monotonic 0 9 0), .pass 0, .resume,
      .call (.wait (.cv 0) 5 0), .pass 3, .pass 9, .resume,
      .call (.wakeupOne (.cv 0)), .call .schedule, .pass 10, .resume]
    (p := fun _ s => WaitEv.ret 0 .ok ∈ s.hist ∧ WaitEv.arrive 0 (.cv 0) ∈ s.hist ∧
      0 ∉ s.waiters (.cv 0)) (by decide)
  rw [decide_eq_true_eq] at hp
  obtain ⟨hret, harr, hno⟩ := hp
  obtain ⟨_, honce, hval, _⟩ := wait_queue_protocol hr
  exact ⟨tr, s, hr, hret, (hval 0 .ok hret).1.mp rfl,
    (honce 0 (.cv 0) harr).elim (fun h => absurd h.1 hno) And.right⟩

end Frankenlibc.Threads.WaitQueue

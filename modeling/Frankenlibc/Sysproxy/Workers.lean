import Frankenlibc.Sysproxy.Lifecycle

/-!
# The worker threads and their work list

`schedulework` wakes a sleeper when the list is not longer than the number of
workers in the wait loop, those already signalled included, and otherwise makes
a new worker if it may. Nobody is forgotten because a worker goes to sleep only
on an empty list: as long as one sleeps unsignalled, there are as many signals
under way as there are items.
-/
namespace Frankenlibc.Sysproxy

open Frankenlibc.Lib

/-- In the wait loop, with a signal on its way. -/
def Worker.signalled : Worker → Bool
  | .waiting kicked => kicked
  | _ => false

/-- Inside the wait loop. -/
def Worker.waits : Worker → Bool
  | .waiting _ => true
  | _ => false

def Worker.alive : Worker → Bool
  | .gone => false
  | _ => true

/-- Busy, starting or signalled. -/
def Worker.awake (w : Worker) : Bool := w.alive && !w.asleep

theorem quiet_of_not_waits {w : Worker} (hw : w.waits = false) :
    w.asleep = false ∧ w.signalled = false := by
  cases w with
  | waiting kicked => cases hw
  | _ => exact ⟨rfl, rfl⟩

theorem countP_waits (ws : List Worker) :
    ws.countP Worker.waits = ws.countP Worker.asleep + ws.countP Worker.signalled := by
  induction ws with
  | nil => rfl
  | cons w ws ih =>
    rw [List.countP_cons, List.countP_cons, List.countP_cons, ih]
    cases w with
    | waiting kicked => cases kicked <;> simp [Worker.waits, Worker.asleep, Worker.signalled] <;> omega
    | _ => simp [Worker.waits, Worker.asleep, Worker.signalled]

theorem countP_alive (ws : List Worker) :
    ws.countP Worker.alive = ws.countP Worker.asleep + ws.countP Worker.awake := by
  induction ws with
  | nil => rfl
  | cons w ws ih =>
    rw [List.countP_cons, List.countP_cons, List.countP_cons, ih]
    cases w with
    | waiting kicked => cases kicked <;> simp [Worker.alive, Worker.asleep, Worker.awake] <;> omega
    | gone => simp [Worker.alive, Worker.asleep, Worker.awake]
    | _ =>
      simp only [Worker.alive, Worker.asleep, Worker.awake]
      simp
      omega

theorem countP_signalled_le (ws : List Worker) :
    ws.countP Worker.signalled ≤ ws.countP Worker.awake := by
  refine List.countP_mono_left fun w _ hw => ?_
  cases w with
  | waiting kicked =>
    cases kicked
    · cases hw
    · rfl
  | _ => cases hw

theorem countP_waits_le (ws : List Worker) :
    ws.countP Worker.waits ≤ ws.countP Worker.alive := by
  apply List.countP_mono_left
  intro w _ hw
  cases w with
  | waiting kicked => rfl
  | _ => cases hw

/-- Where a thread is to be made, it is made. -/
def Event.creates : Event → Bool
  | .enqueue _ created => created
  | _ => true

namespace System

variable {cfg : Config} {s s' : System} {e : Event} {k : Nat}

/-- The counters of the pool count. -/
structure Tally (s : System) : Prop where
  nwork : s.nwork = s.wrklist.length
  idle : s.idleworker = s.workers.countP Worker.waits
  live : s.nworker = s.workers.countP Worker.alive

/-- The pool and its work list are as they were. -/
structure Aside (s s' : System) : Prop where
  wrklist : s'.wrklist = s.wrklist
  nwork : s'.nwork = s.nwork
  idleworker : s'.idleworker = s.idleworker
  nworker : s'.nworker = s.nworker
  workers : s'.workers = s.workers

theorem Tally.aside (ht : Tally s) (ha : Aside s s') : Tally s' := by
  obtain ⟨hl, hn, hi, hw, hs⟩ := ha
  apply Tally.mk
  · rw [hn, hl]
    exact ht.nwork
  · rw [hi, hs]
    exact ht.idle
  · rw [hw, hs]
    exact ht.live

/-- Who waits is alive. -/
theorem Tally.idle_le (ht : Tally s) : s.idleworker ≤ s.nworker := by
  have hle := countP_waits_le s.workers
  have hidle := ht.idle
  have hlive := ht.live
  omega

theorem Tally.pos (ht : Tally s) {a : Worker} (hk : s.workers[k]? = some a)
    (ha : a.alive = true) : 0 < s.nworker := by
  have hlive := ht.live
  have hpos : 0 < s.workers.countP Worker.alive :=
    List.countP_pos_iff.mpr ⟨a, List.mem_of_getElem? hk, ha⟩
  omega

/-- The thread at `k` goes from `a` to `b`, and the counters with it. -/
theorem Tally.turn (ht : Tally s) {a b : Worker} (hk : s.workers[k]? = some a)
    (hs : s'.workers = s.workers.set k b) (hn : s'.nwork = s'.wrklist.length)
    (hi : s'.idleworker + (if a.waits then 1 else 0 : Nat) =
      s.idleworker + (if b.waits then 1 else 0 : Nat))
    (hw : s'.nworker + (if a.alive then 1 else 0 : Nat) =
      s.nworker + (if b.alive then 1 else 0 : Nat)) :
    Tally s' := by
  obtain ⟨W, hW, hW'⟩ := countP_set Worker.waits hk
  obtain ⟨L, hL, hL'⟩ := countP_set Worker.alive hk
  have hidle := ht.idle
  have hlive := ht.live
  apply Tally.mk hn
  · rw [hs, hW']
    omega
  · rw [hs, hL']
    omega

theorem fetch_nworker (k : Nat) : (fetch k s).nworker = s.nworker := by
  unfold fetch
  split <;> rfl

/-- The head of the wait loop, where the thread counts as idle: it sleeps, or takes
an item and counts as busy. -/
theorem fetch_tally {a : Worker} {n : Int} (ht : Tally s) (hk : s.workers[k]? = some a)
    (ha : a.alive = true) (hn : n + (if a.waits then 1 else 0 : Nat) = s.idleworker + 1) :
    Tally (fetch k { s with idleworker := n }) := by
  have hnwork := ht.nwork
  unfold fetch
  split
  · refine ht.turn hk rfl hnwork hn ?_
    rw [ha]
    rfl
  · rename_i w ws hl
    have hl : s.wrklist = w :: ws := hl
    rw [hl, List.length_cons] at hnwork
    have hbusy : ∀ b : Worker, b.waits = false → b.alive = true → Tally (setWorker k b { s with
        wrklist := ws, idleworker := n - 1, nwork := s.nwork - 1 }) := by
      intro b hwaits halive
      apply ht.turn hk rfl
      · show s.nwork - 1 = ws.length
        omega
      · show n - 1 + _ = _
        rw [hwaits]
        simp only [Bool.false_eq_true, if_false]
        omega
      · rw [ha, halive]
        rfl
    cases w.sba.type with
    | syscall => exact hbusy _ rfl rfl
    | exec => exact hbusy _ rfl rfl

theorem worker_tally (ht : Tally s) (h : workerStep cfg k s = some s') : Tally s' := by
  cases workerStep_inv h with
  | retire hk =>
    refine ht.turn hk rfl ht.nwork rfl ?_
    show s.nworker - 1 + 1 = s.nworker + 0
    omega
  | start hk => exact fetch_tally ht hk rfl (Int.add_zero _)
  | wake hk => exact fetch_tally ht hk rfl rfl
  | syscall hk | exec hk | notify hk => exact ht.turn hk rfl ht.nwork rfl rfl
  | @release w slot r hk =>
    cases r with
    | none => exact ht.turn hk rfl ht.nwork rfl rfl
    | some t => exact ht.turn hk rfl ht.nwork rfl rfl
  | @tear t x hk hx =>
    obtain ⟨slot, disco, torn, hd, -⟩ := tearDown_frame (s := s) t
    rw [hd, hx]
    cases t.next with
    | none => exact ht.turn hk rfl ht.nwork rfl rfl
    | some t' => exact ht.turn hk rfl ht.nwork rfl rfl

/-- The last worker does not retire, if an idle one is to be kept. -/
theorem worker_staff (hidle : 1 ≤ cfg.idleworker) (ht : Tally s) (hpos : 0 < s.nworker)
    (h : workerStep cfg k s = some s') : 0 < s'.nworker := by
  have ht' := worker_tally ht h
  cases workerStep_inv h with
  | retire _ hretire =>
    have hle : s.idleworker ≤ s.nworker - 1 := ht'.idle_le
    have hnwork := ht.nwork
    show 0 < s.nworker - 1
    omega
  | start | wake =>
    rw [fetch_nworker]
    exact hpos
  | syscall | exec | notify | release => exact hpos
  | @tear t =>
    obtain ⟨slot, disco, torn, hd, -⟩ := tearDown_frame (s := s) t
    rw [hd]
    exact hpos

theorem sbaSignal_inv {ws ws' : List Worker} {kick : Nat} (h : sbaSignal kick ws = some ws') :
    (ws[kick]? = some (.waiting false) ∧ ws' = ws.set kick (.waiting true)) ∨
      (ws.countP Worker.asleep = 0 ∧ ws' = ws) := by
  unfold sbaSignal at h
  split at h
  · split at h
    · rename_i hasleep
      obtain ⟨a, hk, ha⟩ := (Option.any_eq_true _ _).mp hasleep
      cases h
      cases a with
      | waiting kicked =>
        cases kicked with
        | false => exact .inl ⟨hk, rfl⟩
        | true => cases ha
      | _ => cases ha
    · cases h
  · rename_i hnone
    cases h
    apply Or.inr
    apply And.intro _ rfl
    rw [List.countP_eq_zero]
    simpa using hnone

/-- `schedulework` counts its item, and the thread it makes. -/
theorem enqueue_tally (ht : Tally s) {w : Work} {kick : Nat} {created : Bool}
    (h : enqueue cfg w kick created s = some s') : Tally s' := by
  have hlen : s.nwork + 1 = ((s.wrklist ++ [w]).length : Nat) := by
    rw [List.length_append, ht.nwork]
    rfl
  unfold enqueue at h
  simp only at h
  split at h
  · obtain ⟨ws, hws, rfl⟩ := Option.map_eq_some_iff.mp h
    obtain ⟨hk, rfl⟩ | ⟨-, rfl⟩ := sbaSignal_inv hws
    · exact ht.turn hk rfl hlen rfl rfl
    · exact ⟨hlen, ht.idle, ht.live⟩
  split at h
  · cases h
    apply Tally.mk hlen
    · show s.idleworker = ((s.workers ++ [Worker.start]).countP Worker.waits : Nat)
      rw [List.countP_append, ht.idle]
      rfl
    · show s.nworker + 1 = ((s.workers ++ [Worker.start]).countP Worker.alive : Nat)
      rw [List.countP_append, ht.live]
      rfl
  · cases h
    exact ⟨hlen, ht.idle, ht.live⟩

theorem each_aside (h : Rounding cfg s e s') : Aside s s' := by
  cases h with
  | finished | quiet | part | eof | fini => exact ⟨rfl, rfl, rfl, rfl, rfl⟩
  | frame _ _ h =>
    obtain ⟨w', pc, -, rfl, -⟩ := frame_inv h
    exact ⟨rfl, rfl, rfl, rfl, rfl⟩
  | @accept newfd =>
    obtain ⟨pc, he, -⟩ := handleconn_frame cfg newfd (s := { s with seen := s.seen + 1 })
    rw [he]
    exact ⟨rfl, rfl, rfl, rfl, rfl⟩

/-- Of the steps of `spserver` only `schedulework` touches the pool. -/
theorem main_aside (h : mainStep cfg e s = some s') : Aside s s' ∨
    ∃ w kick created, e = .enqueue kick created ∧ enqueue cfg w kick created s = some s' := by
  cases mainStep_inv h with
  | top =>
    obtain ⟨nfds, maxidx, hcol⟩ := collect_frame (s := { s with disco := 0 }) s.disco
    rw [hcol]
    exact .inl ⟨rfl, rfl, rfl, rfl, rfl⟩
  | poll | pollIntr | pollFail | next | ref | wipe | release =>
    exact .inl ⟨rfl, rfl, rfl, rfl, rfl⟩
  | each _ h => exact .inl (each_aside h)
  | scan =>
    apply Or.inl
    unfold scan occupy
    split_ifs <;> exact ⟨rfl, rfl, rfl, rfl, rfl⟩
  | queue _ h => exact .inr ⟨_, _, _, rfl, h⟩
  | @tear t =>
    obtain ⟨slot, disco, torn, hd, -⟩ := tearDown_frame (s := s) t
    rw [hd]
    exact .inl ⟨rfl, rfl, rfl, rfl, rfl⟩
  | shutdown =>
    apply Or.inl
    unfold shutdownStep
    split_ifs <;> exact ⟨rfl, rfl, rfl, rfl, rfl⟩

theorem step_tally (ht : Tally s) (h : step cfg s e = some s') : Tally s' := by
  unfold step at h
  split at h
  next => exact worker_tally ht h
  next =>
    cases h
    exact ht.aside ⟨rfl, rfl, rfl, rfl, rfl⟩
  next =>
    obtain ha | ⟨w, kick, created, -, hq⟩ := main_aside h
    · exact ht.aside ha
    · exact enqueue_tally ht hq

/-- In every run the counters count, whether threads can be made or not. -/
theorem run_tally {sock : Nat} {tr : List (System × Event)}
    (hr : Run (step cfg) (init sock) tr s) : Tally s :=
  Run.always ⟨rfl, rfl, rfl⟩ (fun _ _ _ ht hs => step_tally ht hs) hr

/-- The counters of the pool and what they count. -/
structure Crew (cfg : Config) (s : System) : Prop where
  nwork : s.nwork = s.wrklist.length
  idle : s.idleworker = s.workers.countP Worker.waits
  live : s.nworker = s.workers.countP Worker.alive
  limit : s.nworker ≤ cfg.maxworker
  heard : 0 < s.workers.countP Worker.asleep → s.nwork ≤ s.workers.countP Worker.signalled
  staffed : 0 < s.nwork → 0 < s.nworker

theorem Crew.tally (hc : Crew cfg s) : Tally s := ⟨hc.nwork, hc.idle, hc.live⟩

theorem Tally.crew (ht : Tally s) (hlimit : s.nworker ≤ cfg.maxworker)
    (hheard : 0 < s.workers.countP Worker.asleep → s.nwork ≤ s.workers.countP Worker.signalled)
    (hstaffed : 0 < s.nwork → 0 < s.nworker) : Crew cfg s :=
  ⟨ht.nwork, ht.idle, ht.live, hlimit, hheard, hstaffed⟩

theorem Crew.aside (hc : Crew cfg s) (ha : Aside s s') : Crew cfg s' := by
  have ht := hc.tally.aside ha
  obtain ⟨-, hn, -, hw, hs⟩ := ha
  apply ht.crew
  · rw [hw]
    exact hc.limit
  · rw [hs, hn]
    exact hc.heard
  · rw [hn, hw]
    exact hc.staffed

/-- The counts when the thread at `k` is counted apart. -/
theorem worker_counts {ws : List Worker} {a : Worker} (hk : ws[k]? = some a) :
    ∃ A K, ws.countP Worker.asleep = (if a.asleep then 1 else 0) + A ∧
      ws.countP Worker.signalled = (if a.signalled then 1 else 0) + K ∧
      ∀ b : Worker, (ws.set k b).countP Worker.asleep = (if b.asleep then 1 else 0) + A ∧
        (ws.set k b).countP Worker.signalled = (if b.signalled then 1 else 0) + K := by
  obtain ⟨A, hA, hA'⟩ := countP_set Worker.asleep hk
  obtain ⟨K, hK, hK'⟩ := countP_set Worker.signalled hk
  exact ⟨A, K, hA, hK, fun b => ⟨hA' b, hK' b⟩⟩

/-- A thread outside of the wait loop, before and after. -/
theorem Crew.turn (hc : Crew cfg s) {a b : Worker} (hk : s.workers[k]? = some a)
    (ha : a.waits = false) (hb : b.waits = false) (ht : Tally s')
    (hs : s'.workers = s.workers.set k b) (hn : s'.nwork = s.nwork)
    (hlimit : s'.nworker ≤ s.nworker) (hstaffed : 0 < s.nwork → 0 < s'.nworker) :
    Crew cfg s' := by
  obtain ⟨A, K, hA, hK, hset⟩ := worker_counts hk
  obtain ⟨hA', hK'⟩ := hset b
  rw [(quiet_of_not_waits ha).1] at hA
  rw [(quiet_of_not_waits ha).2] at hK
  rw [(quiet_of_not_waits hb).1, ← hA] at hA'
  rw [(quiet_of_not_waits hb).2, ← hK] at hK'
  apply ht.crew
  · exact hlimit.trans hc.limit
  · rw [hs, hn, hA', hK']
    exact hc.heard
  · rw [hn]
    exact hstaffed

/-- A worker at the head of the wait loop, beside `A` that sleep and `K` that are
signalled: with no work it sleeps, otherwise it takes the first item. A signal
it has had is used up. -/
theorem fetch_crew {A K : Nat} (ht : Tally (fetch k s))
    (hset : ∀ b : Worker, (s.workers.set k b).countP Worker.asleep = (if b.asleep then 1 else 0) + A ∧
      (s.workers.set k b).countP Worker.signalled = (if b.signalled then 1 else 0) + K)
    (hnwork : s.nwork = s.wrklist.length) (hlive : 0 < s.nworker)
    (hlimit : s.nworker ≤ cfg.maxworker) (hheard : 0 < A → s.nwork ≤ 1 + K) :
    Crew cfg (fetch k s) := by
  rw [← fetch_nworker k] at hlive hlimit
  apply ht.crew hlimit
  swap
  · exact fun _ => hlive
  unfold fetch
  cases hl : s.wrklist with
  | nil =>
    intro _
    show s.nwork ≤ ((s.workers.set k (.waiting false)).countP Worker.signalled : Nat)
    rw [hl, List.length_nil] at hnwork
    omega
  | cons w ws =>
    have hbusy : ∀ b : Worker, b.waits = false →
        0 < (s.workers.set k b).countP Worker.asleep →
        s.nwork - 1 ≤ ((s.workers.set k b).countP Worker.signalled : Nat) := by
      intro b hwaits hpos
      obtain ⟨hA, hK⟩ := hset b
      rw [(quiet_of_not_waits hwaits).1] at hA
      rw [(quiet_of_not_waits hwaits).2] at hK
      simp only [Bool.false_eq_true, if_false] at hA hK
      have := hheard (by omega)
      omega
    simp only
    cases w.sba.type with
    | syscall => exact hbusy _ rfl
    | exec => exact hbusy _ rfl

/-- A worker retires only if the others in the wait loop are at least as many as
the items. -/
theorem retire_crew (hidle : 0 ≤ cfg.idleworker) (hc : Crew cfg s)
    (ht : Tally (setWorker k .gone { s with nworker := s.nworker - 1 }))
    (hk : s.workers[k]? = some .start) (hretire : s.idleworker - s.nwork ≥ cfg.idleworker) :
    Crew cfg (setWorker k .gone { s with nworker := s.nworker - 1 }) := by
  have hle : s.idleworker ≤ s.nworker - 1 := ht.idle_le
  apply hc.turn hk rfl rfl ht rfl rfl
  · show s.nworker - 1 ≤ s.nworker
    omega
  · intro hpos
    show 0 < s.nworker - 1
    omega

theorem start_crew (hc : Crew cfg s)
    (ht : Tally (fetch k { s with idleworker := s.idleworker + 1 }))
    (hk : s.workers[k]? = some .start) :
    Crew cfg (fetch k { s with idleworker := s.idleworker + 1 }) := by
  obtain ⟨A, K, hA, hK, hset⟩ := worker_counts hk
  replace hA : s.workers.countP Worker.asleep = 0 + A := hA
  replace hK : s.workers.countP Worker.signalled = 0 + K := hK
  have hheard := hc.heard
  apply fetch_crew ht hset hc.nwork (hc.tally.pos hk rfl) hc.limit
  intro hpos
  show s.nwork ≤ 1 + K
  omega

theorem wake_crew {kicked : Bool} (hc : Crew cfg s) (ht : Tally (fetch k s))
    (hk : s.workers[k]? = some (.waiting kicked)) : Crew cfg (fetch k s) := by
  obtain ⟨A, K, hA, hK, hset⟩ := worker_counts hk
  have hheard := hc.heard
  apply fetch_crew ht hset hc.nwork (hc.tally.pos hk rfl) hc.limit
  intro hpos
  cases kicked with
  | false =>
    replace hA : s.workers.countP Worker.asleep = 1 + A := hA
    replace hK : s.workers.countP Worker.signalled = 0 + K := hK
    omega
  | true =>
    replace hA : s.workers.countP Worker.asleep = 0 + A := hA
    replace hK : s.workers.countP Worker.signalled = 1 + K := hK
    omega

/-- A step of a worker. -/
theorem worker_crew (hidle : 0 ≤ cfg.idleworker) (hc : Crew cfg s)
    (h : workerStep cfg k s = some s') : Crew cfg s' := by
  have ht := worker_tally hc.tally h
  cases workerStep_inv h with
  | retire hk hretire => exact retire_crew hidle hc ht hk hretire
  | start hk => exact start_crew hc ht hk
  | wake hk => exact wake_crew hc ht hk
  | syscall hk | exec hk | notify hk =>
    exact hc.turn hk rfl rfl ht rfl rfl le_rfl hc.staffed
  | @release w slot r hk =>
    have hout : (r.elim Worker.start Worker.tear).waits = false := by cases r <;> rfl
    exact hc.turn hk rfl hout ht rfl rfl le_rfl hc.staffed
  | @tear t x hk hx =>
    obtain ⟨slot, disco, torn, hd, -⟩ := tearDown_frame (s := s) t
    have hout : x.waits = false := by
      rw [hx]
      cases t.next <;> rfl
    rw [hd] at ht ⊢
    exact hc.turn hk rfl hout ht rfl rfl le_rfl hc.staffed

/-- `schedulework`: with enough threads in the wait loop one more of them is
signalled, if any is left; otherwise a thread is made, unless there are as many
as there may be. -/
theorem enqueue_crew (hmax : 1 ≤ cfg.maxworker) (hc : Crew cfg s) {w : Work} {kick : Nat}
    (h : enqueue cfg w kick true s = some s') : Crew cfg s' := by
  have ht := enqueue_tally hc.tally h
  have hnwork := hc.nwork
  have hwaits := hc.idle
  have hheard := hc.heard
  rw [countP_waits] at hwaits
  unfold enqueue at h
  simp only at h
  split at h
  · rename_i hle
    have hlive : 0 < s.nworker := by
      have := hc.tally.idle_le
      omega
    obtain ⟨ws, hws, rfl⟩ := Option.map_eq_some_iff.mp h
    apply ht.crew hc.limit
    swap
    · exact fun _ => hlive
    obtain ⟨hk, rfl⟩ | ⟨hzero, rfl⟩ := sbaSignal_inv hws
    · obtain ⟨A, K, hA, hK, hset⟩ := worker_counts hk
      obtain ⟨-, hK'⟩ := hset (.waiting true)
      replace hA : s.workers.countP Worker.asleep = 1 + A := hA
      replace hK : s.workers.countP Worker.signalled = 0 + K := hK
      replace hK' : (s.workers.set kick (.waiting true)).countP Worker.signalled = 1 + K := hK'
      intro _
      show s.nwork + 1 ≤ ((s.workers.set kick (.waiting true)).countP Worker.signalled : Nat)
      omega
    · -- nobody sleeps, so the signals under way are enough
      intro hpos
      exact absurd hpos (by show ¬0 < s.workers.countP Worker.asleep; omega)
  · rename_i hgt
    -- more items than threads in the wait loop: none of those sleeps
    have hzero : s.workers.countP Worker.asleep = 0 := by
      by_contra hpos
      have := hheard (by omega)
      omega
    split at h
    · rename_i hroom
      cases h
      apply ht.crew
      · show s.nworker + 1 ≤ cfg.maxworker
        omega
      · intro hpos
        replace hpos : 0 < (s.workers ++ [Worker.start]).countP Worker.asleep := hpos
        rw [List.countP_append, hzero] at hpos
        cases hpos
      · intro _
        have := hc.live
        show 0 < s.nworker + 1
        omega
    · rename_i hfull
      cases h
      apply ht.crew hc.limit
      · intro hpos
        exact absurd hpos (by show ¬0 < s.workers.countP Worker.asleep; omega)
      · intro _
        show 0 < s.nworker
        by_contra hnot
        exact hfull ⟨by omega, trivial⟩

/-- One step keeps the crew, if threads can be made. -/
theorem step_crew (hmax : 1 ≤ cfg.maxworker) (hidle : 0 ≤ cfg.idleworker) (hc : Crew cfg s)
    (he : e.creates = true) (h : step cfg s e = some s') : Crew cfg s' := by
  unfold step at h
  split at h
  next => exact worker_crew hidle hc h
  next =>
    cases h
    exact hc.aside ⟨rfl, rfl, rfl, rfl, rfl⟩
  next =>
    obtain ha | ⟨w, kick, created, rfl, hq⟩ := main_aside h
    · exact hc.aside ha
    · cases he
      exact enqueue_crew hmax hc hq

theorem init_crew (hmax : 1 ≤ cfg.maxworker) (sock : Nat) : Crew cfg (init sock) where
  nwork := rfl
  idle := rfl
  live := rfl
  limit := Int.le_trans Int.one_nonneg hmax
  heard h := absurd h (by simp [init])
  staffed h := absurd h (by simp [init])

/-- What the pool promises. -/
structure Served (cfg : Config) (s : System) : Prop where
  nwork : s.nwork = s.wrklist.length
  idle : s.idleworker = s.workers.countP Worker.waits
  live : s.nworker = s.workers.countP Worker.alive
  limit : s.nworker ≤ cfg.maxworker
  heard : (∃ w ∈ s.workers, w.asleep = true) → s.nwork ≤ s.workers.countP Worker.signalled
  served : s.wrklist ≠ [] → ∃ w ∈ s.workers, w.awake = true

/-- If nobody is awake then everybody who lives sleeps unsignalled, and then
there is no work. -/
theorem Crew.served (hc : Crew cfg s) : Served cfg s := by
  refine ⟨hc.nwork, hc.idle, hc.live, hc.limit, fun h => hc.heard (List.countP_pos_iff.mpr h), ?_⟩
  intro hwork
  rw [← List.countP_pos_iff]
  by_contra hnone
  have hpos : 0 < s.wrklist.length := List.length_pos_iff.mpr hwork
  have hn := hc.nwork
  have hstaffed := hc.staffed
  have hlive := hc.live
  have hheard := hc.heard
  have hawake := countP_alive s.workers
  have hsig := countP_signalled_le s.workers
  omega

/-- The pool strands no work: in every run in which threads can be made, the
counters count what they are for, no sleeper is forgotten, and somebody is
awake as long as there is work. -/
theorem worker_pool_served {sock : Nat} {tr : List (System × Event)} (hmax : 1 ≤ cfg.maxworker)
    (hidle : 0 ≤ cfg.idleworker) (hr : Run (step cfg) (init sock) tr s)
    (hg : Guarded (fun _ e => e.creates = true) tr) :
    (∀ q ∈ tr, Served cfg q.1) ∧ Served cfg s := by
  have hall : ∀ {tr : List (System × Event)} {s : System}, Run (step cfg) (init sock) tr s →
      Guarded (fun _ e => e.creates = true) tr → Served cfg s := by
    intro tr s hr hg
    have hc : Crew cfg s := Run.invariant (init_crew hmax sock)
      (fun _ _ _ hc he hs => step_crew hmax hidle hc he hs) hr hg
    exact hc.served
  refine ⟨fun q hq => ?_, hall hr hg⟩
  obtain ⟨l, hl, hle⟩ := hr.reaches_mem hq
  exact hall hl (hg.prefix_of hle)

theorem worker_pool_served_visitor : ∃ tr s, Run (step ⟨3, 1, 1⟩) (init 5) tr s ∧
    s.wrklist.length = 1 ∧ Served ⟨3, 1, 1⟩ s := by
  obtain ⟨tr, s, hr, hp⟩ := exists_run (f := step ⟨3, 1, 1⟩) (s := init 5) (oneVisitor.take 21)
    (p := fun tr s => Guarded (fun _ e => e.creates = true) tr ∧ s.wrklist.length = 1) (by decide)
  rw [decide_eq_true_eq] at hp
  obtain ⟨hg, hl⟩ := hp
  exact ⟨tr, s, hr, hl, (worker_pool_served (by decide) (by decide) hr hg).2⟩

end System

end Frankenlibc.Sysproxy

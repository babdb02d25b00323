import Frankenlibc.Lib.Run
import Frankenlibc.Sysproxy.Conn

/-!
# What a step of a connection can do

`Move` lists the steps with their guards. What a step does to the threads is
said once: `Move.thread` tells for each thread that it was its turn, that it
was roused or left alone, or that it is new. The invariants of the connection
are read off from that.
-/
namespace Frankenlibc.Sysproxy

namespace Conn

open Frankenlibc.Lib

/-! ## What a step can do -/

inductive Move (s : Conn) : Event → Conn → Prop
  | send {k : Nat} {frame : List UInt8} {last : Bool} {next : Place}
      (h : after (s.pc k) last = some next) :
      Move s (.send k frame last) (sendlockl k ⟨frame, false, next⟩ s)
  | request {k type : Nat} {body : List UInt8} (h : s.pc k = .idle .syscall) :
      Move s (.request k type body)
        (sendlockl k ⟨reqFrame s.nextreq type body, true, .syscall⟩ (putwait k s))
  | number {k : Nat} (h : s.pc k = .idle .syscall) :
      Move s (.number k) { s with nextreq := u64 (s.nextreq + 1) }
  | relock {k : Nat} {b : Bool} {j : Job} (h : s.pc k = .lockwait b j) :
      Move s (.wake k) (sendlockl k j s)
  | rewait {k : Nat} {b : Bool} (h : s.pc k = .respwait b) : Move s (.wake k) (waitrespLoop k s)
  | retest {k : Nat} {b : Bool} (h : s.pc k = .execwait b) : Move s (.wake k) (execTest k s)
  | push {k n m : Nat} {j : Job} (h : s.pc k = .sending j m) (hn : m + n ≤ j.frame.length) :
      Move s (.push k n)
        { setPc k (.sending j (m + n)) s with wire := s.wire ++ (j.frame.drop m).take n }
  | unlock {k n : Nat} {ok : Bool} {j : Job} (h : s.pc k = .sending j n)
      (hok : ok = decide (n = j.frame.length)) : Move s (.unlock k ok) (unlock k ok j n s)
  | test {k : Nat} (h : s.pc k = .exec) : Move s (.test k) (execTest k s)
  | clear {k : Nat} (h : s.pc k = .execgo) :
      Move s (.clear k) (setPc k .execdone { s with inexec := false })
  | release {k : Nat} (h : s.pc k = .idle .release) : Move s (.release k) (spcrelease k s)
  | resp {r : Response} (h : s.pc 0 = .idle .loop) :
      Move s (.resp r) { kick r s with heard := s.heard ++ [r] }
  | shake (h : s.pc 0 = .idle .loop) (hs : s.state = .new) : Move s .shake { s with state := .running }
  | call (h : s.pc 0 = .idle .loop) : Move s .call (setPc 0 (.schedule .syscall) s)
  | execReq (h : s.pc 0 = .idle .loop) (hi : s.inexec = false) :
      Move s .execReq (setPc 0 (.schedule .exec) { s with inexec := true })
  | spawn {type : SbaType} (h : s.pc 0 = .schedule type) : Move s .spawn (hire type s)
  | nomem {type : SbaType} (h : s.pc 0 = .schedule type) : Move s .nomem (setPc 0 (.idle .loop) s)
  | disco (h : s.pc 0 = .idle .loop) : Move s .disco (discoLock s)
  | wipe (h : s.pc 0 = .wipe) : Move s .wipe (discoWipe s)

theorem some_of_ite {α : Type} {c : Prop} [Decidable c] {x y : α}
    (h : (if c then some x else none) = some y) : c ∧ x = y := by
  split at h
  · exact ⟨‹c›, Option.some.inj h⟩
  · cases h

theorem step_move {s s' : Conn} {e : Event} (h : step s e = some s') : Move s e s' := by
  cases e with
  | send k frame last =>
    obtain ⟨next, hn, rfl⟩ := Option.map_eq_some_iff.mp h
    exact .send hn
  | request k type body =>
    obtain ⟨hpc, rfl⟩ := some_of_ite h
    exact .request hpc
  | number k =>
    obtain ⟨hpc, rfl⟩ := some_of_ite h
    exact .number hpc
  | wake k =>
    simp only [step] at h
    cases hpc : s.pc k with
    | lockwait b j =>
      simp only [hpc] at h
      cases h
      exact .relock hpc
    | respwait b =>
      simp only [hpc] at h
      cases h
      exact .rewait hpc
    | execwait b =>
      simp only [hpc] at h
      cases h
      exact .retest hpc
    | _ => simp [hpc] at h
  | push k n =>
    simp only [step] at h
    cases hpc : s.pc k with
    | sending j m =>
      simp only [hpc] at h
      obtain ⟨hn, rfl⟩ := some_of_ite h
      exact .push hpc hn
    | _ => simp [hpc] at h
  | unlock k ok =>
    simp only [step] at h
    cases hpc : s.pc k with
    | sending j n =>
      simp only [hpc] at h
      obtain ⟨hok, rfl⟩ := some_of_ite h
      exact .unlock hpc hok
    | _ => simp [hpc] at h
  | test k =>
    obtain ⟨hpc, rfl⟩ := some_of_ite h
    exact .test hpc
  | clear k =>
    obtain ⟨hpc, rfl⟩ := some_of_ite h
    exact .clear hpc
  | release k =>
    obtain ⟨hpc, rfl⟩ := some_of_ite h
    exact .release hpc
  | resp r =>
    obtain ⟨hpc, rfl⟩ := some_of_ite h
    exact .resp hpc
  | shake =>
    obtain ⟨⟨hpc, hs⟩, rfl⟩ := some_of_ite h
    exact .shake hpc hs
  | call =>
    obtain ⟨hpc, rfl⟩ := some_of_ite h
    exact .call hpc
  | execReq =>
    obtain ⟨⟨hpc, hi⟩, rfl⟩ := some_of_ite h
    exact .execReq hpc hi
  | spawn =>
    simp only [step] at h
    cases hpc : s.pc 0 with
    | schedule type =>
      simp only [hpc] at h
      cases h
      exact .spawn hpc
    | _ => simp [hpc] at h
  | nomem =>
    simp only [step] at h
    cases hpc : s.pc 0 with
    | schedule type =>
      simp only [hpc] at h
      cases h
      exact .nomem hpc
    | _ => simp [hpc] at h
  | disco =>
    obtain ⟨hpc, rfl⟩ := some_of_ite h
    exact .disco hpc
  | wipe =>
    obtain ⟨hpc, rfl⟩ := some_of_ite h
    exact .wipe hpc

/-! ## The threads that do not move -/

/-- A thread is left alone, or is notified where it sleeps. -/
inductive Roused : Pc → Pc → Prop
  | same (p : Pc) : Roused p p
  | lock (b : Bool) (j : Job) : Roused (.lockwait b j) (.lockwait true j)
  | resp (b : Bool) : Roused (.respwait b) (.respwait true)
  | exec (b : Bool) : Roused (.execwait b) (.execwait true)

theorem roused_notify (p : Pc) : Roused p p.notify := by
  cases p with
  | lockwait b j => exact .lock b j
  | execwait b => exact .exec b
  | _ => exact .same _

theorem roused_ring (p : Pc) : Roused p p.ring := by
  cases p with
  | respwait b => exact .resp b
  | _ => exact .same _

theorem Roused.trans {p q r : Pc} (h : Roused p q) (h' : Roused q r) : Roused p r := by
  cases h with
  | same => exact h'
  | lock b j =>
    cases h' with
    | same => exact .lock b j
    | lock => exact .lock b j
  | resp b =>
    cases h' with
    | same => exact .resp b
    | resp => exact .resp b
  | exec b =>
    cases h' with
    | same => exact .exec b
    | exec => exact .exec b

variable {s s' : Conn} {e : Event} {k i : Nat}

@[simp] theorem setPc_self (k : Nat) (p : Pc) (s : Conn) : (setPc k p s).pc k = p :=
  Function.update_self ..

theorem setPc_other (h : i ≠ k) (p : Pc) (s : Conn) : (setPc k p s).pc i = s.pc i :=
  Function.update_of_ne h ..

theorem sendlockl_other (h : i ≠ k) (j : Job) (s : Conn) : (sendlockl k j s).pc i = s.pc i := by
  unfold sendlockl
  split <;> exact setPc_other h ..

theorem sendunlockl_pc (s : Conn) (i : Nat) : Roused (s.pc i) ((sendunlockl s).pc i) := by
  unfold sendunlockl
  split
  · exact roused_notify _
  · exact .same _

theorem waitrespLoop_other (h : i ≠ k) (s : Conn) : (waitrespLoop k s).pc i = s.pc i := by
  unfold waitrespLoop
  split <;> exact setPc_other h ..

theorem execTest_other (h : i ≠ k) (s : Conn) : (execTest k s).pc i = s.pc i := by
  unfold execTest
  split <;> exact setPc_other h ..

theorem kick_pc (r : Response) (s : Conn) (i : Nat) : Roused (s.pc i) ((kick r s).pc i) := by
  unfold kick
  split
  · exact .same _
  · rename_i k _
    by_cases h : i = k
    · rw [h, setPc_self]
      exact roused_ring _
    · rw [setPc_other h]
      exact .same _

theorem kickall_pc (s : Conn) (i : Nat) : Roused (s.pc i) ((kickall s).pc i) := by
  show Roused (s.pc i) (if i ∈ s.queue then (s.pc i).ring else s.pc i)
  split
  · exact roused_ring _
  · exact .same _

theorem spcrelease_other (h : i ≠ k) (s : Conn) : Roused (s.pc i) ((spcrelease k s).pc i) := by
  unfold spcrelease
  simp only
  rw [setPc_other h]
  split
  · exact roused_notify _
  · exact .same _

theorem unlock_other (h : i ≠ k) (ok : Bool) (j : Job) (n : Nat) (s : Conn) :
    Roused (s.pc i) ((unlock k ok j n s).pc i) := by
  have hs := sendunlockl_pc { s with tenures := s.tenures ++ [⟨j.frame, j.frame.take n, ok⟩] } i
  unfold unlock
  simp only
  split
  · split
    · rw [waitrespLoop_other h]
      exact hs
    · rw [setPc_other h]
      exact hs
  · rw [setPc_other h]
    exact hs

theorem discoLock_other (h : i ≠ 0) (s : Conn) : Roused (s.pc i) ((discoLock s).pc i) := by
  unfold discoLock
  rw [setPc_other h]
  exact (kickall_pc { s with state := .dying } i).trans (sendunlockl_pc _ i)

/-! ## What else the calls change -/

theorem sendlockl_frame (k : Nat) (j : Job) (s : Conn) :
    ∃ pc o, sendlockl k j s = { s with pc := pc, ostatus := o } ∧ o ≠ .free := by
  unfold sendlockl
  split <;> exact ⟨_, _, rfl, by simp⟩

theorem sendunlockl_frame (s : Conn) :
    ∃ pc, sendunlockl s = { s with pc := pc, ostatus := .free } := by
  unfold sendunlockl
  split <;> exact ⟨_, rfl⟩

theorem waitrespLoop_frame (k : Nat) (s : Conn) :
    ∃ pc q r, waitrespLoop k s = { s with pc := pc, queue := q, returns := r } := by
  unfold waitrespLoop
  split <;> exact ⟨_, _, _, rfl⟩

theorem execTest_frame (k : Nat) (s : Conn) : ∃ pc, execTest k s = { s with pc := pc } := by
  unfold execTest
  split <;> exact ⟨_, rfl⟩

theorem kick_frame (r : Response) (s : Conn) :
    ∃ pc rw, kick r s = { s with pc := pc, rw := rw } := by
  unfold kick
  split <;> exact ⟨_, _, rfl⟩

theorem spcrelease_frame (k : Nat) (s : Conn) :
    ∃ pc, spcrelease k s = { s with pc := pc, refcnt := s.refcnt - 1 } := by
  unfold spcrelease
  simp only
  split <;> exact ⟨_, rfl⟩

/-- A tenure ends: a request that was sent waits for its response, one that was
not is taken back, and everything else goes on. -/
theorem unlock_cases (k : Nat) (ok : Bool) (j : Job) (n : Nat) (s : Conn) :
    ∃ s₁ pc, s₁ = { s with
        pc := pc, ostatus := .free, tenures := s.tenures ++ [⟨j.frame, j.frame.take n, ok⟩] } ∧
      (j.asks = true ∧ ok = true ∧ unlock k ok j n s = waitrespLoop k s₁ ∨
        j.asks = true ∧ ok = false ∧ unlock k ok j n s = setPc k (.idle .syscall) (dequeue k s₁) ∨
        j.asks = false ∧ unlock k ok j n s = setPc k (.idle j.next) s₁) := by
  obtain ⟨pc, hs⟩ := sendunlockl_frame
    { s with tenures := s.tenures ++ [⟨j.frame, j.frame.take n, ok⟩] }
  refine ⟨_, pc, rfl, ?_⟩
  unfold unlock
  simp only [hs]
  cases j.asks with
  | false => exact .inr (.inr ⟨rfl, rfl⟩)
  | true =>
    cases ok with
    | false => exact .inr (.inl ⟨rfl, rfl, rfl⟩)
    | true => exact .inl ⟨rfl, rfl, rfl⟩

theorem unlock_frame (k : Nat) (ok : Bool) (j : Job) (n : Nat) (s : Conn) :
    ∃ pc q r, unlock k ok j n s = { s with
      pc := pc, queue := q, returns := r, ostatus := .free
      tenures := s.tenures ++ [⟨j.frame, j.frame.take n, ok⟩] } := by
  obtain ⟨s₁, pc, hs₁, ⟨-, -, he⟩ | ⟨-, -, he⟩ | ⟨-, he⟩⟩ := unlock_cases k ok j n s
  · obtain ⟨pc', q, r, hw⟩ := waitrespLoop_frame k s₁
    rw [he, hw, hs₁]
    exact ⟨_, _, _, rfl⟩
  · rw [he, hs₁]
    exact ⟨_, _, _, rfl⟩
  · rw [he, hs₁]
    exact ⟨_, _, _, rfl⟩

theorem discoLock_frame (s : Conn) :
    ∃ pc, discoLock s = { s with pc := pc, state := .dying, ostatus := .free } := by
  obtain ⟨pc, hs⟩ := sendunlockl_frame (kickall { s with state := .dying })
  exact ⟨_, by rw [discoLock, hs]; rfl⟩

/-! ## The thread that moves -/

/-- `sendlockl` ends in a sleep with the lock wanted, or with the lock. -/
theorem sendlockl_self (k : Nat) (j : Job) (s : Conn) :
    s.ostatus ≠ .free ∧ (sendlockl k j s).pc k = .lockwait false j ∧
        (sendlockl k j s).ostatus = .wanted ∨
      s.ostatus = .free ∧ (sendlockl k j s).pc k = .sending j 0 ∧
        (sendlockl k j s).ostatus = .busy := by
  unfold sendlockl
  split
  · exact .inl ⟨‹_›, setPc_self .., rfl⟩
  · exact .inr ⟨not_not.mp ‹_›, setPc_self .., rfl⟩

/-- `waitresp` sleeps, or takes its waiter out and returns. -/
theorem waitrespLoop_self (k : Nat) (s : Conn) :
    ((s.rw k).done = false ∧ s.state ≠ .dying ∧ (waitrespLoop k s).pc k = .respwait false) ∨
      (waitrespLoop k s).pc k = .idle .syscall := by
  unfold waitrespLoop
  split
  · rename_i h
    exact .inl ⟨h.1, h.2, setPc_self ..⟩
  · exact .inr (setPc_self ..)

/-- An exec sleeps only while there are other references. -/
theorem execTest_self (k : Nat) (s : Conn) :
    2 < s.refcnt ∧ (execTest k s).pc k = .execwait false ∨ (execTest k s).pc k = .execgo := by
  unfold execTest
  split
  · exact .inl ⟨‹_›, setPc_self ..⟩
  · exact .inr (setPc_self ..)

theorem spcrelease_self (k : Nat) (s : Conn) : (spcrelease k s).pc k = .gone := setPc_self ..

/-- A tenure ends in a sleep on `rw_cv` or outside of all calls. -/
theorem unlock_self (k : Nat) (ok : Bool) (j : Job) (n : Nat) (s : Conn) :
    (j.asks = true ∧ ok = true ∧ (s.rw k).done = false ∧ s.state ≠ .dying ∧
      (unlock k ok j n s).pc k = .respwait false) ∨ ∃ p, (unlock k ok j n s).pc k = .idle p := by
  obtain ⟨s₁, pc, hs₁, ⟨hasks, hok, he⟩ | ⟨-, -, he⟩ | ⟨-, he⟩⟩ := unlock_cases k ok j n s
  · rw [he]
    rcases waitrespLoop_self k s₁ with ⟨hd, hst, hpc⟩ | hpc
    · rw [hs₁] at hd hst
      exact .inl ⟨hasks, hok, hd, hst, hpc⟩
    · exact .inr ⟨_, hpc⟩
  · rw [he]
    exact .inr ⟨_, setPc_self ..⟩
  · rw [he]
    exact .inr ⟨_, setPc_self ..⟩

theorem hire_syscall (s : Conn) : (hire .syscall s).pc s.count = .idle .syscall :=
  Function.update_self ..

theorem hire_exec (s : Conn) : (hire .exec s).pc s.count = .exec := Function.update_self ..

theorem hire_server {s : Conn} (h : 0 < s.count) (type : SbaType) :
    (hire type s).pc 0 = .idle .loop :=
  (Function.update_of_ne (Nat.ne_of_lt h) ..).trans (Function.update_self ..)

/-- The thread that takes the step. -/
def Event.actor : Event → Nat
  | .send k _ _ => k
  | .request k _ _ => k
  | .number k => k
  | .wake k => k
  | .push k _ => k
  | .unlock k _ => k
  | .test k => k
  | .clear k => k
  | .release k => k
  | _ => 0

/-- A step changes its own thread, begins a new one, and rouses others. -/
theorem Move.other (h : Move s e s') (hi : i ≠ e.actor) (hn : s'.count = s.count ∨ i ≠ s.count) :
    Roused (s.pc i) (s'.pc i) := by
  cases h with
  | send => exact (sendlockl_other hi ..).symm ▸ .same _
  | request => exact (sendlockl_other hi ..).symm ▸ .same _
  | number => exact .same _
  | relock => exact (sendlockl_other hi ..).symm ▸ .same _
  | rewait => exact (waitrespLoop_other hi _).symm ▸ .same _
  | retest => exact (execTest_other hi _).symm ▸ .same _
  | push => exact (setPc_other hi ..).symm ▸ .same _
  | unlock => exact unlock_other hi ..
  | test => exact (execTest_other hi _).symm ▸ .same _
  | clear => exact (setPc_other hi ..).symm ▸ .same _
  | release => exact spcrelease_other hi _
  | resp => exact kick_pc _ _ _
  | shake => exact .same _
  | call => exact (setPc_other hi ..).symm ▸ .same _
  | execReq => exact (setPc_other hi ..).symm ▸ .same _
  | spawn =>
    rename_i type _
    have hpc : (hire type s).pc i = s.pc i := by
      show Function.update _ s.count _ i = _
      rw [Function.update_of_ne (hn.resolve_left (Nat.succ_ne_self _))]
      exact Function.update_of_ne hi ..
    rw [hpc]
    exact .same _
  | nomem => exact (setPc_other hi ..).symm ▸ .same _
  | disco => exact discoLock_other hi _
  | wipe => exact (setPc_other hi ..).symm ▸ .same _

/-- Only a thread with something to do takes a step. -/
theorem Move.actor_live (h : Move s e s') : s.pc e.actor ≠ .gone := by
  intro hg
  cases h with
  | @send k frame last next h =>
    have hk : s.pc k = .gone := hg
    rw [hk] at h
    cases h
  | shake h _ => exact absurd (h.symm.trans hg) (by simp)
  | execReq h _ => exact absurd (h.symm.trans hg) (by simp)
  | push h _ => exact absurd (h.symm.trans hg) (by simp)
  | unlock h _ => exact absurd (h.symm.trans hg) (by simp)
  | _ h => exact absurd (h.symm.trans hg) (by simp)

/-- What a step does beside the positions, the queue and the wire: a connection is
dying from its disconnect on, references come and go with threads, there is a new
thread only where one is made, and only a request of its own and a response write
a waiter. -/
structure Kept (s : Conn) (e : Event) (s' : Conn) : Prop where
  state : s'.state = .dying ↔ s.state = .dying ∨ e = .disco
  refcnt : (∃ k, e = .release k ∧ s'.refcnt = s.refcnt - 1) ∨
    (e = .spawn ∧ s'.refcnt = s.refcnt + 1) ∨
    ((∀ k, e ≠ .release k) ∧ e ≠ .spawn ∧ s'.refcnt = s.refcnt ∧ s'.count = s.count)
  count : s'.count = s.count ∨ ∃ type, s.pc 0 = .schedule type ∧ s' = hire type s
  rw : ∀ i, (∀ r, e ≠ .resp r) → (∀ type body, e ≠ .request i type body) → s'.rw i = s.rw i

theorem Kept.same (hs : s'.state = s.state) (hr : s'.refcnt = s.refcnt)
    (hn : s'.count = s.count) (hw : s'.rw = s.rw) (hd : e ≠ .disco) (hl : ∀ k, e ≠ .release k)
    (hp : e ≠ .spawn) : Kept s e s' where
  state := by rw [hs, or_iff_left hd]
  refcnt := .inr (.inr ⟨hl, hp, hr, hn⟩)
  count := .inl hn
  rw _ _ _ := by rw [hw]

theorem Move.keeps (h : Move s e s') : Kept s e s' := by
  cases h with
  | @send k frame last next _ =>
    obtain ⟨pc, o, he, -⟩ := sendlockl_frame k ⟨frame, false, next⟩ s
    rw [he]
    exact .same rfl rfl rfl rfl nofun nofun nofun
  | @request k type body _ =>
    obtain ⟨pc, o, he, -⟩ :=
      sendlockl_frame k ⟨reqFrame s.nextreq type body, true, .syscall⟩ (putwait k s)
    rw [he]
    refine ⟨(or_iff_left nofun).symm, .inr (.inr ⟨nofun, nofun, rfl, rfl⟩), .inl rfl, ?_⟩
    intro i _ hi
    refine Function.update_of_ne (fun hik => ?_) ..
    exact hi type body (by rw [hik])
  | @relock k b j _ =>
    obtain ⟨pc, o, he, -⟩ := sendlockl_frame k j s
    rw [he]
    exact .same rfl rfl rfl rfl nofun nofun nofun
  | @rewait k b _ =>
    obtain ⟨pc, q, r, he⟩ := waitrespLoop_frame k s
    rw [he]
    exact .same rfl rfl rfl rfl nofun nofun nofun
  | @retest k b _ =>
    obtain ⟨pc, he⟩ := execTest_frame k s
    rw [he]
    exact .same rfl rfl rfl rfl nofun nofun nofun
  | @unlock k n ok j _ _ =>
    obtain ⟨pc, q, r, he⟩ := unlock_frame k ok j n s
    rw [he]
    exact .same rfl rfl rfl rfl nofun nofun nofun
  | @test k _ =>
    obtain ⟨pc, he⟩ := execTest_frame k s
    rw [he]
    exact .same rfl rfl rfl rfl nofun nofun nofun
  | @release k _ =>
    obtain ⟨pc, he⟩ := spcrelease_frame k s
    rw [he]
    exact ⟨(or_iff_left nofun).symm, .inl ⟨k, rfl, rfl⟩, .inl rfl, fun _ _ _ => rfl⟩
  | @resp r _ =>
    obtain ⟨pc, rw', he⟩ := kick_frame r s
    rw [he]
    exact ⟨(or_iff_left nofun).symm, .inr (.inr ⟨nofun, nofun, rfl, rfl⟩), .inl rfl,
      fun _ hr _ => absurd rfl (hr r)⟩
  | shake _ hs =>
    exact ⟨by simp [hs], .inr (.inr ⟨nofun, nofun, rfl, rfl⟩), .inl rfl, fun _ _ _ => rfl⟩
  | @spawn type hpc =>
    exact ⟨(or_iff_left nofun).symm, .inr (.inl ⟨rfl, rfl⟩), .inr ⟨type, hpc, rfl⟩,
      fun _ _ _ => rfl⟩
  | disco =>
    obtain ⟨pc, he⟩ := discoLock_frame s
    rw [he]
    exact ⟨by simp, .inr (.inr ⟨nofun, nofun, rfl, rfl⟩), .inl rfl, fun _ _ _ => rfl⟩
  | _ => exact .same rfl rfl rfl rfl nofun nofun nofun

/-- Threads are numbered as they come, and only the server thread wipes, when
the client is gone. -/
structure Basic (s : Conn) : Prop where
  pos : 0 < s.count
  beyond : ∀ i, s.count ≤ i → s.pc i = .gone
  wipe : ∀ i, s.pc i = .wipe → s.state = .dying

theorem init_basic : Basic init := by
  refine ⟨Nat.one_pos, fun i hi => if_neg (Nat.ne_of_gt hi), fun i hi => ?_⟩
  replace hi : (if i = 0 then Pc.idle .loop else .gone) = .wipe := hi
  split at hi <;> cases hi

/-- Not asleep, not sending, and not about to wipe. -/
def Pc.calm : Pc → Bool
  | .lockwait .. => false
  | .sending .. => false
  | .respwait _ => false
  | .execwait _ => false
  | .wipe => false
  | _ => true

/-- What the thread that took the step has come to, and why it sleeps if it
does. -/
inductive Turn (s : Conn) (k : Nat) (s' : Conn) : Pc → Prop
  | sleep {j : Job} (ho : s'.ostatus = .wanted) : Turn s k s' (.lockwait false j)
  | take {j : Job} (ho : s.ostatus = .free) (ho' : s'.ostatus = .busy) : Turn s k s' (.sending j 0)
  | push {j : Job} {n m : Nat} (h : s.pc k = .sending j m) : Turn s k s' (.sending j n)
  | wait (hd : (s'.rw k).done = false) (hs : s'.state ≠ .dying) : Turn s k s' (.respwait false)
  | drain (hr : 2 < s'.refcnt) : Turn s k s' (.execwait false)
  | wipe (hs : s'.state = .dying) : Turn s k s' .wipe
  | calm {p : Pc} (hp : p.calm = true) : Turn s k s' p

theorem sendlockl_turn (k : Nat) (j : Job) {s u : Conn} (ho : u.ostatus = s.ostatus) :
    Turn s k (sendlockl k j u) ((sendlockl k j u).pc k) := by
  rcases sendlockl_self k j u with ⟨_, hpc, hw⟩ | ⟨hf, hpc, hb⟩
  · rw [hpc]
    exact .sleep hw
  · rw [hpc]
    exact .take (ho.symm.trans hf) hb

theorem waitrespLoop_turn (k : Nat) (s : Conn) :
    Turn s k (waitrespLoop k s) ((waitrespLoop k s).pc k) := by
  obtain ⟨pc, q, r, he⟩ := waitrespLoop_frame k s
  rcases waitrespLoop_self k s with ⟨hd, hs, hpc⟩ | hpc
  · rw [hpc, he]
    exact .wait hd hs
  · rw [hpc]
    exact .calm rfl

theorem execTest_turn (k : Nat) (s : Conn) : Turn s k (execTest k s) ((execTest k s).pc k) := by
  obtain ⟨pc, he⟩ := execTest_frame k s
  rcases execTest_self k s with ⟨hr, hpc⟩ | hpc
  · rw [hpc, he]
    exact .drain hr
  · rw [hpc]
    exact .calm rfl

theorem turn_of_eq {k : Nat} {p : Pc} {s s' : Conn} (h : s'.pc k = p) (ht : Turn s k s' p) :
    Turn s k s' (s'.pc k) := by
  rw [h]
  exact ht

theorem setPc_turn {k : Nat} {p : Pc} {s u : Conn} (hp : p.calm = true) :
    Turn s k (setPc k p u) ((setPc k p u).pc k) := by
  rw [setPc_self]
  exact .calm hp

theorem Move.turn (h : Move s e s') (hb : Basic s) : Turn s e.actor s' (s'.pc e.actor) := by
  cases h with
  | send => exact sendlockl_turn _ _ rfl
  | request => exact sendlockl_turn _ _ rfl
  | number hpc => exact turn_of_eq hpc (.calm rfl)
  | relock => exact sendlockl_turn _ _ rfl
  | rewait => exact waitrespLoop_turn _ _
  | retest => exact execTest_turn _ _
  | @push k n m j hpc _ => exact turn_of_eq (setPc_self k (.sending j (m + n)) s) (.push hpc)
  | @unlock k n ok j _ _ =>
    obtain ⟨pc, q, r, he⟩ := unlock_frame k ok j n s
    rcases unlock_self k ok j n s with ⟨_, _, hd, hs, hpc⟩ | ⟨p, hpc⟩
    · refine turn_of_eq hpc ?_
      rw [he]
      exact .wait hd hs
    · exact turn_of_eq hpc (.calm rfl)
  | test => exact execTest_turn _ _
  | clear => exact setPc_turn rfl
  | release => exact setPc_turn rfl
  | @resp r hpc =>
    have hr := kick_pc r s 0
    rw [hpc] at hr
    generalize hq : (kick r s).pc 0 = q at hr
    cases hr
    exact turn_of_eq hq (.calm rfl)
  | shake hpc => exact turn_of_eq hpc (.calm rfl)
  | call => exact setPc_turn rfl
  | execReq => exact setPc_turn rfl
  | spawn => exact turn_of_eq (hire_server hb.pos _) (.calm rfl)
  | nomem => exact setPc_turn rfl
  | disco =>
    obtain ⟨pc, he⟩ := discoLock_frame s
    refine turn_of_eq (setPc_self ..) ?_
    rw [he]
    exact .wipe rfl
  | wipe => exact setPc_turn rfl

/-- What a step does to any thread: it was its turn, it was roused or left
alone, or it is new. -/
theorem Move.thread (h : Move s e s') (hb : Basic s) (i : Nat) :
    i = e.actor ∧ Turn s i s' (s'.pc i) ∨ Roused (s.pc i) (s'.pc i) ∨
      s.pc i = .gone ∧ (s'.pc i).calm = true := by
  by_cases hi : i = e.actor
  · subst hi
    exact .inl ⟨rfl, h.turn hb⟩
  · by_cases hn : s'.count = s.count ∨ i ≠ s.count
    · exact .inr (.inl (h.other hi hn))
    · obtain ⟨hc, hic⟩ := not_or.mp hn
      obtain ⟨type, _, rfl⟩ := h.keeps.count.resolve_left hc
      rw [not_not.mp hic]
      refine .inr (.inr ⟨hb.beyond _ (Nat.le_refl _), ?_⟩)
      cases type with
      | syscall =>
        rw [hire_syscall]
        rfl
      | exec =>
        rw [hire_exec]
        rfl

theorem Roused.gone {p : Pc} (h : Roused .gone p) : p = .gone := by
  cases h
  rfl

theorem Move.basic (h : Move s e s') (hb : Basic s) : Basic s' := by
  have hcount : s.count ≤ s'.count := by
    rcases h.keeps.count with hc | ⟨type, _, rfl⟩
    · exact Nat.le_of_eq hc.symm
    · exact Nat.le_succ _
  refine ⟨Nat.lt_of_lt_of_le hb.pos hcount, fun i hi => ?_, fun i hi => ?_⟩
  · have hgone := hb.beyond i (Nat.le_trans hcount hi)
    have hne : i ≠ e.actor := fun heq => h.actor_live (heq ▸ hgone)
    have hnew : s'.count = s.count ∨ i ≠ s.count := by
      rcases h.keeps.count with hc | ⟨type, _, rfl⟩
      · exact .inl hc
      · exact .inr (Nat.ne_of_gt hi)
    have hr := h.other hne hnew
    rw [hgone] at hr
    exact hr.gone
  · rcases h.thread hb i with ⟨_, ht⟩ | hr | ⟨_, hc⟩
    · rw [hi] at ht
      cases ht with
      | wipe hs => exact hs
      | calm hp => cases hp
    · rw [hi] at hr
      generalize hp : s.pc i = p at hr
      cases hr
      exact h.keeps.state.mpr (.inl (hb.wipe i hp))
    · rw [hi] at hc
      cases hc

theorem run_basic {tr : List (Conn × Event)} (hr : Run step init tr s) : Basic s :=
  Run.always init_basic (fun _ _ _ hb hs => (step_move hs).basic hb) hr

end Conn

end Frankenlibc.Sysproxy

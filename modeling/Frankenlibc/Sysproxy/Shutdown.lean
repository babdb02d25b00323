import Frankenlibc.Sysproxy.Accounts

/-!
# Shutting down

`serv_shutdown` goes over the slots and, for each one that still has a
descriptor, calls `serv_handledisco` and then `spcrelease`. The disconnect has
already dropped the connection's reference, so the second call drops one that
somebody else counts on. From there on the slot owes a reference: when its last
item is done, its counter is negative.
-/
namespace Frankenlibc.Sysproxy

open Frankenlibc.Lib

/-! ## Every connection has its place -/

namespace Books

variable {b b' : Books}

/-- A connection that nobody has begun to tear down still has its slot, and a
slot that is free was given back by its connection. -/
structure Placed (b : Books) : Prop where
  seat : ∀ c, c ≠ 0 → c ≤ b.conns → b.done c = [] → ∃ i, i ≠ 0 ∧ (b.slot i).conn = c
  given : ∀ i, i ≠ 0 → (b.slot i).busy = false → (b.slot i).conn ≠ 0 → b.done (b.slot i).conn ≠ []

theorem Placed.keep (hp : Placed b) (hconn : ∀ i, (b'.slot i).conn = (b.slot i).conn)
    (hbusy : ∀ i, (b'.slot i).busy = (b.slot i).busy) (hn : b'.conns = b.conns)
    (ht : b'.torn = b.torn) : Placed b' := by
  have hdone : ∀ c, b'.done c = b.done c := by
    intro c
    rw [done, ht]
    rfl
  refine ⟨fun c hc hle hd => ?_, fun i hi hb hc => ?_⟩
  · rw [hn] at hle
    rw [hdone] at hd
    obtain ⟨i, hi, hic⟩ := hp.seat c hc hle hd
    exact ⟨i, hi, (hconn i).trans hic⟩
  · rw [hbusy] at hb
    rw [hconn] at hc ⊢
    rw [hdone]
    exact hp.given i hi hb hc

theorem Placed.connect {i : Nat} (hp : Placed b) (hi : i ≠ 0) (ht : (b.slot i).taken = false)
    (hs : (b.slot i).state = .new) : Placed { b with
      slot := Function.update b.slot i ⟨true, .new, 1, b.conns + 1⟩
      conns := b.conns + 1 } := by
  refine ⟨fun c hc hle hd => ?_, fun j hj hb hcj => ?_⟩
  · by_cases hnew : c = b.conns + 1
    · exact ⟨i, hi, by simp [hnew]⟩
    · replace hle : c ≤ b.conns + 1 := hle
      obtain ⟨j, hj, hjc⟩ := hp.seat c hc (by omega) hd
      have hji : j ≠ i := by
        rintro rfl
        refine hp.given j hi (Tenant.not_busy ht hs) (by rw [hjc]; exact hc) ?_
        rw [hjc]
        exact hd
      exact ⟨j, hj, by simp only [Function.update_of_ne hji]; exact hjc⟩
  · have hji : j ≠ i := by
      rintro rfl
      simp [Tenant.busy] at hb
    simp only [Function.update_of_ne hji] at hb hcj ⊢
    exact hp.given j hj hb hcj

theorem Placed.tear {t : Tear} {rest : Multiset Tear} (h : Inv b) (hp : Placed b)
    (ht : b.tears = t ::ₘ rest) : Placed (b.tearDown t rest) := by
  have hmem : t ∈ b.tears := by
    rw [ht]
    exact Multiset.mem_cons_self ..
  have hdone : ∀ c, (b.tearDown t rest).done c =
      if t.conn = c then b.done c ++ [t.phase] else b.done c := fun c => h.tearDown_done hmem
  have hmore : ∀ c, b.done c ≠ [] → (b.tearDown t rest).done c ≠ [] := by
    intro c hc
    rw [hdone]
    split
    · simp
    · exact hc
  refine ⟨fun c hc hle hd => ?_, fun i hi hb hc => ?_⟩
  · have hold : b.done c = [] := by
      by_contra hne
      exact hmore c hne hd
    obtain ⟨i, hi, hic⟩ := hp.seat c hc hle hold
    exact ⟨i, hi, (tearDown_conn i).trans hic⟩
  · rw [tearDown_conn] at hc ⊢
    by_cases hthis : t.phase = .renew ∧ i = t.slot
    · obtain ⟨hphase, rfl⟩ := hthis
      have hconn := (h.tears t hmem (by simp [hphase])).2
      rw [hdone, if_pos hconn.symm]
      simp
    · have hsame : (b.tearDown t rest).slot i = b.slot i := by
        unfold tearDown
        by_cases hphase : t.phase = .renew
        · simp only [if_pos hphase]
          exact Function.update_of_ne (fun hi' => hthis ⟨hphase, hi'⟩) ..
        · simp only [if_neg hphase]
      rw [hsame] at hb
      exact hmore _ (hp.given i hi hb hc)

theorem Placed.step (h : Inv b) (hp : Placed b) (hs : Step b b') : Placed b' := by
  cases hs with
  | quiet hq =>
    refine hp.keep (fun i => ?_) (busy_quiet hq) rfl rfl
    rcases hq i with hsame | ⟨_, st, hnew⟩
    · exact congrArg Tenant.conn hsame
    · exact (congrArg Tenant.conn hnew).trans rfl
  | connect hi ht hs => exact hp.connect hi ht hs
  | take => exact hp.keep (conn_update rfl) (busy_update rfl) rfl rfl
  | leave hi ht =>
    refine hp.keep (conn_update rfl) (busy_update ?_) rfl rfl
    exact (Tenant.busy_of_dying rfl).trans (Tenant.busy_of_taken ht).symm
  | finish => exact hp.keep (conn_update rfl) (busy_update rfl) rfl rfl
  | left => exact hp.keep (conn_update rfl) (busy_update rfl) rfl rfl
  | tear ht => exact hp.tear h ht

end Books

namespace System

variable {cfg : Config} {s s' : System} {e : Event} {fini : Bool}

/-! ## A slot with references has its descriptor -/

def Opened (s : System) : Prop := ∀ i, 0 < (s.slot i).refcnt → (s.slot i).fd ≠ none

theorem Opened.keep (ho : Opened s) (h : ∀ i, (s'.slot i).fd = (s.slot i).fd ∧
    (s'.slot i).refcnt ≤ (s.slot i).refcnt) : Opened s' := by
  intro i hi
  rw [(h i).1]
  exact ho i (by have := (h i).2; omega)

theorem opened_onSlot {i : Nat} {f : Slot → Slot} (ho : Opened s)
    (hf : 0 < (f (s.slot i)).refcnt → (f (s.slot i)).fd ≠ none) : Opened (onSlot i f s) := by
  intro j hj
  have hslot : (onSlot i f s).slot = Function.update s.slot i (f (s.slot i)) := rfl
  rw [hslot] at hj ⊢
  by_cases hji : j = i
  · subst hji
    rw [Function.update_self] at hj ⊢
    exact hf hj
  · rw [Function.update_of_ne hji] at hj ⊢
    exact ho j hj

theorem opened_drop (ho : Opened s) (i : Nat) :
    Opened (onSlot i (fun x => { x with refcnt := x.refcnt - 1 }) s) := by
  refine opened_onSlot ho fun hpos => ho i ?_
  have hless : 0 < (s.slot i).refcnt - 1 := hpos
  omega

theorem opened_spcrelease (ho : Opened s) (i : Nat) : Opened (spcrelease i s).1 := by
  intro j
  rw [spcrelease_slots]
  exact opened_drop ho i j

/-- The descriptor that a tear-down closes belongs to a slot without
references. -/
theorem opened_tearDown (hinv : Books.Inv s.books) (ho : Opened s) {t : Tear} (ht : t ∈ s.tears) :
    Opened (tearDown t s) := by
  unfold tearDown
  cases hp : t.phase with
  | mainlwp => exact opened_onSlot (f := fun x => { x with mainlwp := none }) ho fun h => ho _ h
  | close =>
    refine opened_onSlot (f := fun x => { x with fd := none }) ho fun h => ?_
    have hzero : (s.slot t.slot).refcnt = 0 := (hinv.tearing ht (by simp [hp])).2.2.2
    have hpos : 0 < (s.slot t.slot).refcnt := h
    omega
  | renew => exact opened_onSlot (f := fun x => { x with state := .new }) ho fun h => ho _ h
  | signal => exact ho

theorem opened_worker {k : Nat} (hinv : Books.Inv s.books) (ho : Opened s)
    (h : workerStep cfg k s = some s') : Opened s' := by
  have hslot : ∀ x : System, Opened x → s'.slot = x.slot → Opened s' := by
    intro x hx hs i
    rw [hs]
    exact hx i
  cases (worker_touch h).1 with
  | none hs => exact hslot s ho hs
  | notify i hs => exact hslot _ (opened_onSlot ho fun h => ho _ h) hs
  | drop i hs => exact hslot _ (opened_drop ho i) hs
  | tear t hm hs => exact hslot _ (opened_tearDown hinv ho hm) hs

theorem opened_frame {w : Server} (ho : Opened s) (h : frame w s = some s') : Opened s' := by
  obtain ⟨w', pc, -, rfl, -⟩ := frame_inv h
  exact opened_onSlot (i := s.idx) (f := fun x => { x with
    state := w'.spc.state
    mainlwp := w'.spc.mainlwp
    inexec := w'.spc.inexec }) ho fun h => ho _ h

theorem opened_each (ho : Opened s) (h : Rounding cfg s e s') : Opened s' := by
  cases h with
  | finished => exact ho
  | quiet => exact ho
  | part => exact ho
  | eof =>
    exact opened_onSlot (s := { s with seen := s.seen + 1 })
      (f := fun x => { x with pfd := none, revents := false, state := .dying }) ho
      fun h => ho _ h
  | frame _ _ h => exact opened_frame (s := { s with seen := s.seen + 1 }) ho h
  | fini => exact ho
  | @accept newfd =>
    obtain ⟨pc, hc, -⟩ := handleconn_frame cfg newfd (s := { s with seen := s.seen + 1 })
    rw [hc]
    exact ho

theorem opened_main (ht : Tame fini s) (hinv : Books.Inv s.books) (ho : Opened s)
    (h : mainStep cfg e s = some s') : Opened s' := by
  have hplain := ht.plain
  cases mainStep_inv h with
  | top =>
    obtain ⟨nfds, maxidx, hc⟩ := collect_frame (s := { s with disco := 0 }) s.disco
    rw [hc]
    exact ho
  | @poll ready rv =>
    refine ho.keep fun i => ?_
    show (polled ready s i).fd = _ ∧ (polled ready s i).refcnt ≤ _
    unfold polled
    split
    · exact ⟨rfl, Int.le_refl _⟩
    · exact ⟨rfl, Int.le_refl _⟩
  | pollIntr => exact ho
  | pollFail => exact ho
  | each _ h => exact opened_each ho h
  | next => exact ho
  | @scan newfd i =>
    unfold scan
    split
    · exact ho
    split
    · exact opened_onSlot (s := s) (i := i) (f := fun x => { x with
        pfd := some newfd, fd := some newfd, refcnt := 1, conn := s.conns + 1 }) ho
        fun _ => by simp
    · exact ho
  | @ref w hpc =>
    rw [hpc] at hplain
    obtain ⟨hi, hpfd, _⟩ := hplain
    obtain ⟨hr, _⟩ := hinv.live hi hpfd
    refine opened_onSlot (f := fun x => { x with refcnt := x.refcnt + 1 }) ho fun _ => ho _ ?_
    have hr' : (s.slot w.spc).refcnt = 1 + (s.books.load w.spc : Int) := hr
    omega
  | queue _ h =>
    obtain ⟨ws, n, rfl⟩ := enqueue_frame h
    exact ho
  | wipe => exact opened_onSlot (f := fun x => { x with inexec := false }) ho fun h => ho _ h
  | @release i k slot r _ hr =>
    have hrel := opened_spcrelease ho i
    rw [hr] at hrel
    exact hrel
  | tear hpc => exact opened_tearDown hinv ho (pc_tear_mem hpc)
  | shutdown hpc =>
    rw [hpc] at hplain
    cases hplain

/-! ## The way into `serv_shutdown` -/

/-- The table as the workers see it: they never look where `spserver` stands. -/
def still (s : System) : System := { s with pc := .exited }

theorem fetch_still (k : Nat) : fetch k (still s) = still (fetch k s) := by
  have hw : (still s).wrklist = s.wrklist := rfl
  unfold fetch
  rw [hw]
  split <;> rfl

theorem spcrelease_still (i : Nat) :
    spcrelease i (still s) = (still (spcrelease i s).1, (spcrelease i s).2) := by
  generalize hf : (fun x : Slot => { x with refcnt := x.refcnt - 1 }) = f
  have hslot : ((onSlot i f (still s)).slot i).refcnt = ((onSlot i f s).slot i).refcnt := rfl
  unfold spcrelease
  simp only [hf, hslot]
  split <;> rfl

theorem tearDown_still (t : Tear) : tearDown t (still s) = still (tearDown t s) := by
  unfold tearDown
  cases t.phase <;> rfl

theorem worker_still {k : Nat} (h : workerStep cfg k s = some s') :
    workerStep cfg k (still s) = some (still s') := by
  have hw : (still s).workers = s.workers := rfl
  unfold workerStep
  rw [hw]
  cases workerStep_inv h with
  | retire hk hidle =>
    rw [hk]
    exact if_pos hidle
  | start hk hidle =>
    rw [hk]
    have heq := fetch_still (s := { s with idleworker := s.idleworker + 1 }) k
    exact (if_neg hidle).trans (congrArg some heq)
  | wake hk =>
    rw [hk]
    exact congrArg some (fetch_still k)
  | syscall hk =>
    rw [hk]
    rfl
  | exec hk hwait =>
    rw [hk]
    exact if_neg hwait
  | notify hk =>
    rw [hk]
    rfl
  | @release w slot r hk hr =>
    rw [hk]
    simp only [spcrelease_still, hr]
    cases r <;> rfl
  | @tear t x hk hx =>
    rw [hk, hx]
    refine congrArg some ?_
    rw [tearDown_still]
    cases t.next <;> rfl

theorem shutdown_each (h : Rounding cfg s e s') (hpc : s'.pc = .shutdown 1) :
    ∃ seen, s' = { s with seen := seen, pc := .shutdown 1 } := by
  cases h with
  | finished => cases hpc
  | quiet => cases hpc
  | part => cases hpc
  | eof => cases hpc
  | frame _ _ h =>
    obtain ⟨w', pc, -, rfl, ⟨-, rfl⟩ | ⟨_, _, -, rfl⟩⟩ := frame_inv h
    · cases hpc
    · cases hpc
  | fini => exact ⟨_, rfl⟩
  | @accept newfd =>
    obtain ⟨pc, hc, hnext⟩ := handleconn_frame cfg newfd (s := { s with seen := s.seen + 1 })
    rw [hc] at hpc
    rcases hnext with rfl | ⟨fd, rfl⟩
    · cases hpc
    · cases hpc

theorem shutdown_main (hplain : Plain s.slot s.pc) (h : mainStep cfg e s = some s')
    (hpc : s'.pc = .shutdown 1) :
    ∃ seen, s.pc = .each ∧ s' = { s with seen := seen, pc := .shutdown 1 } := by
  cases mainStep_inv h with
  | top => cases hpc
  | poll => cases hpc
  | pollIntr => cases hpc
  | pollFail => cases hpc
  | each heach h => exact shutdown_each h hpc |>.imp fun _ hs => ⟨heach, hs⟩
  | next => cases hpc
  | scan =>
    unfold scan at hpc
    split at hpc
    · cases hpc
    split at hpc
    · cases hpc
    · cases hpc
  | ref => cases hpc
  | queue _ h =>
    obtain ⟨ws, n, rfl⟩ := enqueue_frame h
    cases hpc
  | wipe => cases hpc
  | @release i k slot r hrel =>
    rw [hrel] at hplain
    obtain ⟨_, rfl⟩ := hplain
    cases r <;> cases hpc
  | @tear t k pc htear hnext =>
    rw [htear] at hplain
    have hk : k = .next := hplain
    subst hk
    replace hpc : pc = .shutdown 1 := hpc
    rw [hpc] at hnext
    cases hn : t.next <;> simp [hn] at hnext
  | shutdown hs =>
    rw [hs] at hplain
    cases hplain

/-- Only the loop of `spserver` turns to `serv_shutdown`, and nothing else
happens in that step. -/
theorem shutdown_entry (ht : Tame fini s) (h : step cfg s e = some s')
    (hpc : s'.pc = .shutdown 1) :
    ∃ seen, s.pc = .each ∧ s' = { s with seen := seen, pc := .shutdown 1 } := by
  have hout : s.pc ≠ .shutdown 1 := by
    intro hs
    have hplain := ht.plain
    rw [hs] at hplain
    cases hplain
  unfold step at h
  split at h
  · exact absurd ((worker_touch h).2.pc.symm.trans hpc) hout
  · cases h
    exact absurd hpc hout
  · exact shutdown_main ht.plain h hpc

/-! ## Without open slots -/

/-- What is known as long as no reference has been dropped twice. -/
structure Steady (cfg : Config) (s : System) : Prop where
  kept : Kept cfg s
  placed : Books.Placed s.books
  opened : Opened s

theorem steady_init (hm : 0 < cfg.maxcli) (sock : Nat) : Steady cfg (init sock) where
  kept := kept_init hm sock
  placed := by
    refine ⟨fun c hc hle => ?_, fun i _ _ hc => absurd rfl hc⟩
    replace hle : c ≤ 0 := hle
    omega
  opened i hi := by
    replace hi : (0 : Int) < 0 := hi
    omega

theorem steady_step (hs : Steady cfg s) (h : step cfg s e = some s') :
    s'.pc = .shutdown 1 ∨ Steady cfg s' := by
  obtain ⟨fini, ht⟩ := hs.kept.tame
  rcases kept_step hs.kept h with hhalt | hk
  · exact .inl hhalt
  rcases step_books ht h with ⟨_, hhalt⟩ | ⟨_, hb⟩
  · exact .inl hhalt
  refine .inr ⟨hk, hs.placed.step hs.kept.books hb, ?_⟩
  unfold step at h
  split at h
  · exact opened_worker hs.kept.books hs.opened h
  · cases h
    exact hs.opened
  · exact opened_main ht hs.kept.books hs.opened h

theorem steady_still (hs : Steady cfg s) (hw : s.pc.works = 0) (ht : s.pc.tears = 0)
    (hc : s.pc.closing = none) : Steady cfg (still s) := by
  have hbooks : (still s).books = s.books := by
    refine Books.ext rfl ?_ ?_ ?_ rfl rfl rfl
    · show 0 + _ + _ = s.pc.works + _ + _
      rw [hw]
      rfl
    · show 0 + _ = s.pc.tears + _
      rw [ht]
      rfl
    · exact hc.symm
  obtain ⟨fini, htame⟩ := hs.kept.tame
  have hcounts := hs.kept.counts
  refine ⟨⟨⟨fini, htame.calm, trivial, htame.listen, htame.revents⟩, ?_, ?_, ?_⟩, ?_, hs.opened⟩
  · rw [hbooks]
    exact hs.kept.books
  · rw [hbooks]
    exact hs.kept.census
  · exact ⟨hcounts.balance, hcounts.room, hcounts.polled, hcounts.maxidx, fun _ _ h => (by cases h),
      by simp [still], hcounts.listener⟩
  · rw [hbooks]
    exact hs.placed

/-- A round of `serv_shutdown` finds a slot that still has its descriptor. -/
def opens (cfg : Config) (s : System) : Event → Bool
  | .go =>
    match s.pc with
    | .shutdown i => i < cfg.maxcli && (s.slot i).fd.isSome
    | _ => false
  | _ => false

/-- The slots that `serv_shutdown` has been over are closed. -/
def Shut (cfg : Config) (s : System) : Prop :=
  (∃ i, 1 ≤ i ∧ s.pc = .shutdown i ∧ ∀ j, 1 ≤ j → j < i → (s.slot j).fd = none) ∨
    s.pc = .exited ∧ ∀ j, 1 ≤ j → j < cfg.maxcli → (s.slot j).fd = none

/-- A slot without a descriptor gets none from a worker. -/
theorem worker_closed {k : Nat} (h : workerStep cfg k s = some s') {j : Nat}
    (hj : (s.slot j).fd = none) : (s'.slot j).fd = none := by
  have hon : ∀ {i : Nat} {f : Slot → Slot}, (∀ x, x.fd = none → (f x).fd = none) →
      ((onSlot i f s).slot j).fd = none := by
    intro i f hf
    show (Function.update s.slot i (f (s.slot i)) j).fd = none
    by_cases hji : j = i
    · subst hji
      rw [Function.update_self]
      exact hf _ hj
    · rw [Function.update_of_ne hji]
      exact hj
  cases (worker_touch h).1 with
  | none hs => rw [hs]; exact hj
  | notify i hs => rw [hs]; exact hon fun _ h => h
  | drop i hs => rw [hs]; exact hon fun _ h => h
  | tear t _ hs =>
    rw [hs]
    unfold tearDown
    cases t.phase with
    | mainlwp => exact hon (f := fun x => { x with mainlwp := none }) fun _ h => h
    | close => exact hon (f := fun x => { x with fd := none }) fun _ _ => rfl
    | renew => exact hon (f := fun x => { x with state := .new }) fun _ h => h
    | signal => exact hj

/-- `serv_shutdown` under way, or behind it, without an open slot so far. -/
structure Down (cfg : Config) (s : System) : Prop where
  steady : Steady cfg (still s)
  shut : Shut cfg s

theorem down_entry (hs : Steady cfg s) (h : step cfg s e = some s') (hpc : s'.pc = .shutdown 1) :
    Down cfg s' := by
  obtain ⟨fini, ht⟩ := hs.kept.tame
  obtain ⟨seen, heach, rfl⟩ := shutdown_entry ht h hpc
  have hstill := steady_still hs (by rw [heach]; rfl) (by rw [heach]; rfl) (by rw [heach]; rfl)
  refine ⟨⟨⟨?_, hstill.kept.books, hstill.kept.census, ?_⟩, hstill.placed, hstill.opened⟩,
    .inl ⟨1, Nat.le_refl 1, rfl, fun j hj hlt => by omega⟩⟩
  · obtain ⟨f, hf⟩ := hstill.kept.tame
    exact ⟨f, hf.calm, trivial, hf.listen, hf.revents⟩
  · have hc := hstill.kept.counts
    exact ⟨hc.balance, hc.room, hc.polled, hc.maxidx, fun _ _ h => (by cases h), by simp [still],
      hc.listener⟩

/-- A step of a worker, or the request for a shutdown, beside `serv_shutdown`. -/
theorem down_beside (hd : Down cfg s) (h : step cfg (still s) e = some (still s'))
    (hpc : s'.pc = s.pc) (hclosed : ∀ j, (s.slot j).fd = none → (s'.slot j).fd = none) :
    Down cfg s' := by
  refine ⟨?_, ?_⟩
  · rcases steady_step hd.steady h with hhalt | hs
    · cases hhalt
    · exact hs
  · rcases hd.shut with ⟨i, hi, hsp, hbelow⟩ | ⟨hex, hall⟩
    · exact .inl ⟨i, hi, hpc.trans hsp, fun j hj hlt => hclosed j (hbelow j hj hlt)⟩
    · exact .inr ⟨hpc.trans hex, fun j hj hlt => hclosed j (hall j hj hlt)⟩

theorem down_main (hd : Down cfg s) (ho : opens cfg s e = false) (h : mainStep cfg e s = some s') :
    Down cfg s' := by
  rcases hd.shut with ⟨i, hi, hsp, hbelow⟩ | ⟨hex, _⟩
  · cases mainStep_inv h with
    | @shutdown i' hpc =>
      obtain rfl : i = i' := by
        rw [hsp] at hpc
        cases hpc
        rfl
      simp only [opens, hsp] at ho
      unfold shutdownStep
      split
      next hge => exact ⟨hd.steady, .inr ⟨rfl, fun j hj hlt => hbelow j hj (by omega)⟩⟩
      next hlt =>
        have hclosed : (s.slot i).fd = none := by
          simpa [Nat.lt_of_not_ge hlt] using ho
        rw [if_pos hclosed]
        refine ⟨hd.steady, .inl ⟨i + 1, by omega, rfl, fun j hj hle => ?_⟩⟩
        by_cases hji : j = i
        · exact hji ▸ hclosed
        · exact hbelow j hj (by omega)
    | _ hpc =>
      rw [hsp] at hpc
      cases hpc
  · cases mainStep_inv h with
    | _ hpc =>
      rw [hex] at hpc
      cases hpc

theorem down_step (hd : Down cfg s) (ho : opens cfg s e = false) (h : step cfg s e = some s') :
    Down cfg s' := by
  unfold step at h
  split at h
  next k =>
    refine down_beside (e := .worker k) hd ?_ (worker_touch h).2.pc fun j => worker_closed h
    exact worker_still h
  · cases h
    exact down_beside (e := .fini) hd rfl rfl fun _ hj => hj
  · exact down_main hd ho h

/-! ## What a shutdown owes its connections -/

/-- No counter is negative, no connection is torn down twice, and none before
its last item has dropped its reference. -/
structure Orderly (s : System) : Prop where
  refcnt : ∀ i, i ≠ 0 → 0 ≤ (s.slot i).refcnt
  once : ∀ c, s.torndown c <+: [.mainlwp, .close, .renew, .signal]
  late : ∀ p c, (p, c) ∈ s.torn → ∀ w ∈ s.works, w.conn ≠ c

/-- The server thread and the workers have come to an end. -/
structure Finished (s : System) : Prop where
  pc : s.pc = .exited
  works : s.works = 0
  tears : s.tears = 0

theorem orderly_of_books (h : Books.Inv s.books) : Orderly s := by
  refine ⟨fun i hi => ?_, h.done_prefix, fun p c hp => (h.torn hp).2⟩
  have hr : (s.slot i).refcnt = _ := h.refcnt hi
  rw [hr]
  split
  · omega
  · omega

theorem down_books (hd : Down cfg s) : (still s).books = s.books := by
  have hpc : s.pc.works = 0 ∧ s.pc.tears = 0 ∧ s.pc.closing = none := by
    rcases hd.shut with ⟨i, _, hsp, _⟩ | ⟨hex, _⟩
    · rw [hsp]
      exact ⟨rfl, rfl, rfl⟩
    · rw [hex]
      exact ⟨rfl, rfl, rfl⟩
  refine Books.ext rfl ?_ ?_ hpc.2.2.symm rfl rfl rfl
  · show 0 + _ + _ = s.pc.works + _ + _
    rw [hpc.1]
    rfl
  · show 0 + _ = s.pc.tears + _
    rw [hpc.2.1]
    rfl

theorem orderly_of_down (hd : Down cfg s) : Orderly s := by
  refine orderly_of_books ?_
  rw [← down_books hd]
  exact hd.steady.kept.books

/-- When everybody has come to an end and every slot is closed, every connection
has been torn down. -/
theorem torndown_of_finished (hd : Down cfg s) (hf : Finished s) {c : Nat} (hc : c ≠ 0)
    (hle : c ≤ s.conns) : s.torndown c = [.mainlwp, .close, .renew, .signal] := by
  have hclosed : ∀ j, 1 ≤ j → j < cfg.maxcli → (s.slot j).fd = none := by
    rcases hd.shut with ⟨i, _, hsp, _⟩ | ⟨_, hall⟩
    · rw [hf.pc] at hsp
      cases hsp
    · exact hall
  have hbooks := down_books hd
  have hinv : Books.Inv s.books := hbooks ▸ hd.steady.kept.books
  have hplaced : Books.Placed s.books := hbooks ▸ hd.steady.placed
  have hcensus : Books.Census cfg.maxcli s.books := hbooks ▸ hd.steady.kept.census
  have hdoing : ∀ d, s.books.doing d = 0 := by
    intro d
    have htears : s.books.tears = 0 := hf.tears
    rw [Books.doing, htears]
    rfl
  have hload : ∀ i, s.books.load i = 0 := by
    intro i
    have hworks : s.books.works = 0 := hf.works
    rw [Books.load, hworks]
    rfl
  have hfate := hinv.fate c
  rw [hdoing c] at hfate
  generalize hP : (0 : Multiset TearPhase) = P at hfate
  generalize hD : s.books.done c = D at hfate
  cases hfate with
  | torn _ p => exact absurd hP (by simp)
  | complete => exact hD
  | intact =>
    -- it would still have its slot, and that slot its descriptor
    exfalso
    obtain ⟨i, hi, hic⟩ := hplaced.seat c hc hle hD
    have hopen : 0 < (s.slot i).refcnt → (s.books.slot i).busy = true → False := by
      intro hpos hbusy
      have hlt : i < cfg.maxcli := by
        by_contra hge
        rw [hcensus.vacant i (Nat.le_of_not_lt hge)] at hbusy
        cases hbusy
      exact hd.steady.opened i hpos (hclosed i (Nat.one_le_iff_ne_zero.mpr hi) hlt)
    cases hinv.stands i hi with
    | free ht hs =>
      refine hplaced.given i hi (Tenant.not_busy ht hs) (by rw [hic]; exact hc) ?_
      rw [hic]
      exact hD
    | live ht hr =>
      have hr' : (s.slot i).refcnt = 1 + (s.books.load i : Int) := hr
      exact hopen (by omega) (Tenant.busy_of_taken ht)
    | leaving _ _ _ hcl =>
      have hnone : s.pc.closing = some i := hcl
      rw [hf.pc] at hnone
      cases hnone
    | draining _ _ _ hl =>
      have hpos : 0 < s.books.load i := hl
      rw [hload i] at hpos
      omega
    | tearing _ _ _ _ _ hdo =>
      have hone : s.books.doing (s.books.slot i).conn = _ := hdo
      rw [hdoing] at hone
      exact absurd hone (by simp)

end System

/-! ## Dropping a reference too many -/

namespace Books

variable {b b' : Books}

theorem load_drop {w : Work} {r : Multiset Work} (hw : b.works = w ::ₘ r) (j : Nat) :
    (b.load j : Int) = (r.countP (·.spc = j) : Nat) + if j = w.spc then 1 else 0 := by
  rw [load, hw]
  by_cases hj : j = w.spc
  · subst hj
    rw [countP_self, if_pos rfl]
    push_cast
    rfl
  · rw [countP_other hj, if_neg hj]
    simp

/-- Outside a connect and a disconnect, references come and go with items. -/
theorem Step.balance (hs : Step b b') (hc : b.closing = none) (hc' : b'.closing = none)
    (hn : b'.conns = b.conns) (j : Nat) : (b'.slot j).taken = (b.slot j).taken ∧
      (b'.slot j).refcnt - (b'.load j : Int) = (b.slot j).refcnt - (b.load j : Int) := by
  cases hs with
  | @quiet slot hq =>
    have hx : ∀ x : Tenant, x.taken = (b.slot j).taken → x.refcnt = (b.slot j).refcnt →
        slot j = x → (slot j).taken = (b.slot j).taken ∧
          (slot j).refcnt - (b.load j : Int) = (b.slot j).refcnt - (b.load j : Int) := by
      rintro x ht hr rfl
      exact ⟨ht, by rw [hr]⟩
    rcases hq j with hsame | ⟨_, st, hnew⟩
    · exact hx _ rfl rfl hsame
    · exact hx { b.slot j with state := st } rfl rfl hnew
  | connect =>
    replace hn : b.conns + 1 = b.conns := hn
    omega
  | @take w hi ht =>
    generalize hb : ({ b with
      slot := Function.update b.slot w.spc
        { b.slot w.spc with refcnt := (b.slot w.spc).refcnt + 1 }
      works := w ::ₘ b.works } : Books) = b'
    have hslot : b'.slot = Function.update b.slot w.spc
        { b.slot w.spc with refcnt := (b.slot w.spc).refcnt + 1 } := by rw [← hb]
    have hload := load_drop (b := b') (w := w) (r := b.works) (by rw [← hb]) j
    replace hload : (b'.load j : Int) = b.load j + if j = w.spc then 1 else 0 := hload
    rw [hslot, hload]
    by_cases hjw : j = w.spc
    · subst hjw
      simp only [Function.update_self, if_true]
      exact ⟨trivial, by omega⟩
    · simp only [Function.update_of_ne hjw, if_neg hjw]
      exact ⟨trivial, by omega⟩
  | leave => cases hc'
  | left hi =>
    rw [hc] at hi
    cases hi
  | @finish w rest hw =>
    have hload := load_drop hw j
    have hrest : (b.drop w.spc rest b.closing).load j = rest.countP (·.spc = j) := rfl
    rw [hrest, hload]
    by_cases hjw : j = w.spc
    · subst hjw
      simp only [drop, Function.update_self, if_true]
      exact ⟨trivial, by omega⟩
    · simp only [drop, Function.update_of_ne hjw, if_neg hjw]
      exact ⟨trivial, by omega⟩
  | @tear t rest ht =>
    have hload : (b.tearDown t rest).load j = b.load j := rfl
    rw [hload]
    unfold tearDown
    split
    · by_cases hjt : j = t.slot
      · subst hjt
        simp only [Function.update_self]
        exact ⟨trivial, trivial⟩
      · simp only [Function.update_of_ne hjt]
        exact ⟨trivial, trivial⟩
    · exact ⟨rfl, rfl⟩

end Books

/-- The references to slot `i` that `spserver` is still going to drop. -/
def Pc.dues (i : Nat) : Pc → Nat
  | .wipe j k => (if j = i then 1 else 0) + k.dues i
  | .release j k => (if j = i then 1 else 0) + k.dues i
  | .tear _ k => k.dues i
  | _ => 0

/-- The places of `spserver` from `serv_shutdown` on. -/
def Pc.down : Pc → Bool
  | .shutdown i => 1 ≤ i
  | .wipe _ k => k.down
  | .release _ k => k.down
  | .tear _ k => k.down
  | .exited => true
  | _ => false

namespace System

variable {cfg : Config} {s s' : System} {e : Event} {fini : Bool}

/-- The references to slot `j` that neither an item nor a drop to come accounts
for. -/
def spare (s : System) (j : Nat) : Int :=
  (s.slot j).refcnt - ((still s).books.load j : Int) - s.pc.dues j

/-- Slot `j` is closed and will be asked for more references than it has. -/
def Owes (s : System) (j : Nat) : Prop := (s.slot j).pfd = none ∧ s.spare j < 0

/-- From `serv_shutdown` on, whatever has happened: nobody counts on more than
the reference of a connection. -/
structure Ledger (s : System) : Prop where
  down : s.pc.down = true
  tame : ∃ fini, Tame fini (still s)
  spare : ∀ j, j ≠ 0 → s.spare j ≤ if (s.slot j).pfd.isSome then 1 else 0

/-- The slot that a round of `serv_shutdown` finds open. -/
def opensAt (cfg : Config) (s : System) (e : Event) (j : Nat) : Prop :=
  opens cfg s e = true ∧ s.pc = .shutdown j

/-- What a step from `serv_shutdown` on does to a slot. -/
structure Spends (cfg : Config) (s : System) (e : Event) (s' : System) (j : Nat) : Prop where
  opened : opensAt cfg s e j → (s'.slot j).pfd = none ∧ s'.spare j = s.spare j - 2
  other : ¬ opensAt cfg s e j → (s'.slot j).pfd = (s.slot j).pfd ∧ s'.spare j = s.spare j

theorem Spends.owes {j : Nat} (h : Spends cfg s e s' j) (ho : Owes s j) : Owes s' j := by
  by_cases hop : opensAt cfg s e j
  · obtain ⟨hpfd, hsp⟩ := h.opened hop
    have hneg := ho.2
    exact ⟨hpfd, by omega⟩
  · obtain ⟨hpfd, hsp⟩ := h.other hop
    exact ⟨hpfd.trans ho.1, hsp ▸ ho.2⟩

theorem Spends.spare {j : Nat} (h : Spends cfg s e s' j)
    (hs : s.spare j ≤ if (s.slot j).pfd.isSome then 1 else 0) :
    s'.spare j ≤ if (s'.slot j).pfd.isSome then 1 else 0 := by
  by_cases hop : opensAt cfg s e j
  · obtain ⟨hpfd, hsp⟩ := h.opened hop
    rw [hpfd]
    split at hs
    · simp
      omega
    · simp
      omega
  · obtain ⟨hpfd, hsp⟩ := h.other hop
    rw [hpfd, hsp]
    exact hs

/-- Finding a slot open leaves it in debt. -/
theorem Spends.opens {j : Nat} (h : Spends cfg s e s' j)
    (hs : s.spare j ≤ if (s.slot j).pfd.isSome then 1 else 0) (ho : opensAt cfg s e j) :
    Owes s' j := by
  obtain ⟨hpfd, hsp⟩ := h.opened ho
  refine ⟨hpfd, ?_⟩
  split at hs
  · omega
  · omega

theorem spends_worker {k : Nat} (hl : Ledger s) (h : workerStep cfg k s = some s') :
    s'.pc.down = true ∧ (∃ fini, Tame fini (still s')) ∧ ∀ j, Spends cfg s (.worker k) s' j := by
  obtain ⟨fini, ht⟩ := hl.tame
  obtain ⟨htouch, ha⟩ := worker_touch h
  obtain ⟨ht', hb⟩ := worker_books ht (worker_still h)
  refine ⟨by rw [ha.pc]; exact hl.down, ⟨fini, ht'⟩, fun j => ⟨fun hop => ?_, fun _ => ?_⟩⟩
  · exact absurd hop.1 (by simp [System.opens])
  · obtain ⟨_, hbal⟩ := hb.balance rfl rfl ha.conns j
    refine ⟨(htouch.keeps j).1, ?_⟩
    replace hbal : (s'.slot j).refcnt - ((still s').books.load j : Int) =
        (s.slot j).refcnt - ((still s).books.load j : Int) := hbal
    unfold System.spare
    rw [ha.pc]
    omega

theorem tearDown_refcnt (t : Tear) (j : Nat) :
    ((tearDown t s).slot j).refcnt = (s.slot j).refcnt := by
  have hon : ∀ f : Slot → Slot, (∀ x, (f x).refcnt = x.refcnt) →
      ((onSlot t.slot f s).slot j).refcnt = (s.slot j).refcnt := by
    intro f hf
    show (Function.update s.slot t.slot (f (s.slot t.slot)) j).refcnt = _
    by_cases hj : j = t.slot
    · subst hj
      rw [Function.update_self, hf]
    · rw [Function.update_of_ne hj]
  unfold tearDown
  cases t.phase with
  | mainlwp => exact hon (fun x => { x with mainlwp := none }) fun _ => rfl
  | close => exact hon (fun x => { x with fd := none }) fun _ => rfl
  | renew => exact hon (fun x => { x with state := .new }) fun _ => rfl
  | signal => rfl

/-- What is left to show of a step of `spserver` that finds no slot open. -/
theorem spends_quiet (hop : opens cfg s e = false) (hpfd : ∀ j, (s'.slot j).pfd = (s.slot j).pfd)
    (hload : (still s').books.works = (still s).books.works)
    (href : ∀ j, (s'.slot j).refcnt - s'.pc.dues j = (s.slot j).refcnt - s.pc.dues j) (j : Nat) :
    Spends cfg s e s' j := by
  refine ⟨fun ho => ?_, fun _ => ⟨hpfd j, ?_⟩⟩
  · rw [ho.1] at hop
    cases hop
  · have hr := href j
    unfold System.spare Books.load
    rw [hload]
    omega

/-- A step that only drops references or tears down, and goes on to `pc`. -/
theorem spends_go {pc : Pc} {slot : Nat → Slot} {disco : Nat}
    {torn : List (TearPhase × Nat)}
    (hl : Ledger s) (hop : opens cfg s .go = false) (hkeep : Keeps s.slot slot)
    (hdown : pc.down = true)
    (href : ∀ j, (slot j).refcnt - (pc.dues j : Int) = (s.slot j).refcnt - (s.pc.dues j : Int))
    (hs' : s' = { s with slot := slot, disco := disco, torn := torn, pc := pc }) :
    s'.pc.down = true ∧ (∃ fini, Tame fini (still s')) ∧ ∀ j, Spends cfg s .go s' j := by
  obtain ⟨fini, ht⟩ := hl.tame
  subst hs'
  exact ⟨hdown, ⟨fini, ht.keeps hkeep rfl trivial⟩,
    spends_quiet hop (fun j => (hkeep j).1) rfl href⟩

theorem spends_release {i : Nat} {k : Pc} {slot : Nat → Slot} {r : Option Tear} (hl : Ledger s)
    (hpc : s.pc = .release i k) (hr : spcrelease i s = ({ s with slot := slot }, r))
    (hkeep : Keeps s.slot slot)
    (hs' : s' = { s with slot := slot, pc := r.elim k fun t => .tear t k }) :
    s'.pc.down = true ∧ (∃ fini, Tame fini (still s')) ∧ ∀ j, Spends cfg s .go s' j := by
  have hdown := hl.down
  rw [hpc] at hdown
  have hslots := spcrelease_slots (s := s) i
  rw [hr] at hslots
  have hdues : ∀ j, (r.elim k fun t => .tear t k).dues j = k.dues j := by
    cases r <;> exact fun _ => rfl
  refine spends_go hl (by simp [System.opens, hpc]) hkeep (by cases r <;> exact hdown)
    (fun j => ?_) hs'
  rw [show slot = _ from hslots, hpc, hdues j]
  by_cases hji : j = i
  · subst hji
    simp only [onSlot, Function.update_self, Pc.dues, if_true]
    push_cast
    omega
  · simp only [onSlot, Function.update_of_ne hji, Pc.dues, if_neg (Ne.symm hji)]
    push_cast
    omega

theorem spends_tear {t : Tear} {k pc : Pc} (hl : Ledger s) (hpc : s.pc = .tear t k)
    (hnext : pc = t.next.elim k fun t => .tear t k) (hs' : s' = { tearDown t s with pc := pc }) :
    s'.pc.down = true ∧ (∃ fini, Tame fini (still s')) ∧ ∀ j, Spends cfg s .go s' j := by
  have hdown := hl.down
  rw [hpc] at hdown
  obtain ⟨slot, disco, torn, hd, hkeep⟩ := tearDown_frame (s := s) t
  have hdues : ∀ j, pc.dues j = k.dues j := by
    rw [hnext]
    cases t.next <;> exact fun _ => rfl
  refine spends_go hl (by simp [System.opens, hpc]) hkeep ?_ (fun j => ?_) (by rw [hs', hd])
  · rw [hnext]
    cases t.next <;> exact hdown
  · have href := tearDown_refcnt (s := s) t j
    rw [hd] at href
    rw [show (slot j).refcnt = _ from href, hpc, hdues j]
    rfl

/-- A round of `serv_shutdown` that finds slot `i` open: two drops are to come,
and at most one reference is there for them. -/
theorem spends_open {i : Nat} (hl : Ledger s) (hi : 1 ≤ i) (hpc : s.pc = .shutdown i)
    (hop : opens cfg s .go = true) (hpc' : s'.pc = .wipe i (.release i (.shutdown (i + 1))))
    (hslot : s'.slot = Function.update s.slot i
      { s.slot i with pfd := none, revents := false, state := .dying })
    (hf : s'.spfini = s.spfini) (hw : (still s').books.works = (still s).books.works) :
    s'.pc.down = true ∧ (∃ fini, Tame fini (still s')) ∧ ∀ j, Spends cfg s .go s' j := by
  obtain ⟨fini, ht⟩ := hl.tame
  have hself : s'.slot i = { s.slot i with pfd := none, revents := false, state := .dying } := by
    rw [hslot, Function.update_self]
  have hother : ∀ j, j ≠ i → s'.slot j = s.slot j := by
    intro j hj
    rw [hslot, Function.update_of_ne hj]
  have hload : ∀ j, (still s').books.load j = (still s).books.load j := by
    intro j
    rw [Books.load, hw]
    rfl
  refine ⟨by rw [hpc']; simp [Pc.down], ⟨fini, hf.trans ht.calm, trivial, ?_, fun j hj => ?_⟩,
    fun j => ⟨?_, fun hno => ?_⟩⟩
  · show (s'.slot 0).pfd.isSome = true
    rw [hother 0 (by omega)]
    exact ht.listen
  · replace hj : (s'.slot j).revents = true := hj
    show (s'.slot j).pfd.isSome = true
    by_cases hji : j = i
    · rw [hji, hself] at hj
      cases hj
    · rw [hother j hji] at hj ⊢
      exact ht.revents j hj
  · rintro ⟨_, hji⟩
    rw [hpc] at hji
    cases hji
    refine ⟨by rw [hself], ?_⟩
    unfold System.spare
    rw [hself, hload, hpc', hpc]
    simp only [Pc.dues, if_true]
    push_cast
    omega
  · have hji : j ≠ i := by
      rintro rfl
      exact hno ⟨hop, hpc⟩
    refine ⟨by rw [hother j hji], ?_⟩
    unfold System.spare
    rw [hother j hji, hload, hpc', hpc]
    simp only [Pc.dues, if_neg (Ne.symm hji)]

/-- A round of `serv_shutdown`. -/
theorem spends_round {i : Nat} (hl : Ledger s) (hpc : s.pc = .shutdown i) :
    (shutdownStep cfg i s).pc.down = true ∧ (∃ fini, Tame fini (still (shutdownStep cfg i s))) ∧
      ∀ j, Spends cfg s .go (shutdownStep cfg i s) j := by
  obtain ⟨fini, ht⟩ := hl.tame
  have hdown := hl.down
  rw [hpc] at hdown
  have hi : 1 ≤ i := by simpa [Pc.down] using hdown
  have hhop : ∀ pc : Pc, pc.down = true → (∀ j, pc.dues j = 0) → opens cfg s .go = false →
      { s with pc := pc }.pc.down = true ∧ (∃ fini, Tame fini (still { s with pc := pc })) ∧
        ∀ j, Spends cfg s .go { s with pc := pc } j := by
    intro pc hd hdues hop
    refine ⟨hd, ⟨fini, ht⟩, spends_quiet hop (fun _ => rfl) rfl fun j => ?_⟩
    show _ - (pc.dues j : Int) = _ - (s.pc.dues j : Int)
    rw [hpc, hdues j]
    rfl
  unfold shutdownStep
  split
  next hge => exact hhop .exited rfl (fun _ => rfl) (by simp [System.opens, hpc, hge])
  next hlt =>
    split
    next hclosed =>
      exact hhop (.shutdown (i + 1)) (by simp [Pc.down]) (fun _ => rfl)
        (by simp [System.opens, hpc, hclosed])
    next hopen =>
      have hop : opens cfg s .go = true := by
        simp only [System.opens, hpc, Bool.and_eq_true, decide_eq_true_eq]
        exact ⟨Nat.lt_of_not_ge hlt, Option.isSome_iff_ne_none.mpr hopen⟩
      exact spends_open hl hi hpc hop rfl rfl rfl rfl

/-- From `serv_shutdown` on, every step keeps the ledger. -/
theorem spends_step (hl : Ledger s) (h : step cfg s e = some s') :
    s'.pc.down = true ∧ (∃ fini, Tame fini (still s')) ∧ ∀ j, Spends cfg s e s' j := by
  obtain ⟨fini, ht⟩ := hl.tame
  have hdown := hl.down
  unfold step at h
  split at h
  · exact spends_worker hl h
  · cases h
    refine ⟨hdown, ⟨true, rfl, trivial, ht.listen, ht.revents⟩, ?_⟩
    exact spends_quiet rfl (fun _ => rfl) rfl fun _ => rfl
  · cases mainStep_inv h with
    | shutdown hpc => exact spends_round hl hpc
    | @wipe i k hpc =>
      rw [hpc] at hdown
      have hkeep : Keeps s.slot (discoWipe i s).slot :=
        keeps_onSlot (f := fun x => { x with inexec := false }) fun _ => ⟨rfl, rfl, rfl⟩
      have hframe : Tame fini (still { discoWipe i s with pc := .release i k }) :=
        ht.keeps hkeep rfl trivial
      refine ⟨hdown, ⟨fini, hframe⟩, spends_quiet (by simp [System.opens, hpc])
        (fun j => (hkeep j).1) rfl fun j => ?_⟩
      show ((discoWipe i s).slot j).refcnt - _ = _ - (s.pc.dues j : Int)
      rw [hpc]
      by_cases hji : j = i
      · subst hji
        simp [discoWipe, onSlot, Pc.dues]
      · simp [discoWipe, onSlot, hji, Pc.dues]
    | release hpc hr hkeep => exact spends_release hl hpc hr hkeep rfl
    | tear hpc hnext => exact spends_tear hl hpc hnext rfl
    | _ hpc =>
      rw [hpc] at hdown
      cases hdown

theorem ledger_step (hl : Ledger s) (h : step cfg s e = some s') : Ledger s' := by
  obtain ⟨hdown, htame, hspend⟩ := spends_step hl h
  exact ⟨hdown, htame, fun j hj => (hspend j).spare (hl.spare j hj)⟩

/-- At the way into `serv_shutdown` the references are those of the connections
and of the items. -/
theorem ledger_entry (hs : Steady cfg s) (h : step cfg s e = some s') (hpc : s'.pc = .shutdown 1) :
    Ledger s' := by
  have hd := down_entry hs h hpc
  have hbooks := hd.steady.kept.books
  refine ⟨by rw [hpc]; rfl, hd.steady.kept.tame, fun j hj => ?_⟩
  have hr : (s'.slot j).refcnt = _ := hbooks.refcnt hj
  have hnone : (still s').books.closing = none := rfl
  simp only [hnone, reduceCtorEq, or_false] at hr
  unfold System.spare
  rw [hpc, hr]
  show (if (s'.slot j).pfd.isSome = true then (1 : Int) else 0) + _ - _ - ((0 : Nat) : Int) ≤ _
  omega

/-! ## Every run through `serv_shutdown` -/

theorem steady_out (hs : Steady cfg s) : s.pc.inShutdown = false := by
  obtain ⟨fini, ht⟩ := hs.kept.tame
  have hplain := ht.plain
  generalize s.pc = pc at hplain ⊢
  cases pc with
  | shutdown => cases hplain
  | _ => rfl

theorem opensAt_of_opens (h : opens cfg s e = true) : ∃ j, opensAt cfg s e j := by
  cases e with
  | go =>
    cases hpc : s.pc with
    | shutdown i => exact ⟨i, h, hpc⟩
    | _ => simp [System.opens, hpc] at h
  | _ => cases h

/-- Before `serv_shutdown` everything is in order; from there on every slot that
was found open is in debt. -/
theorem shutdown_debts {sock : Nat} {tr : List (System × Event)} (hm : 0 < cfg.maxcli)
    (hr : Run (step cfg) (init sock) tr s) :
    (∀ q ∈ tr, q.1.pc.inShutdown = false) ∧ Steady cfg s ∨
      Ledger s ∧ ∀ q ∈ tr, ∀ j, opensAt cfg q.1 q.2 j → j ≠ 0 ∧ Owes s j := by
  induction hr with
  | nil => exact .inl ⟨fun q hq => absurd hq List.not_mem_nil, steady_init hm sock⟩
  | @snoc tr s s' e _ hstep ih =>
    rcases ih with ⟨hout, hs⟩ | ⟨hl, hdebt⟩
    · have hall : ∀ q ∈ tr ++ [(s, e)], q.1.pc.inShutdown = false := by
        intro q hq
        rcases List.mem_append.mp hq with hq | hq
        · exact hout q hq
        · rw [List.mem_singleton.mp hq]
          exact steady_out hs
      rcases steady_step hs hstep with hpc | hs'
      · refine .inr ⟨ledger_entry hs hstep hpc, fun q hq j ho => ?_⟩
        have hno := hall q hq
        rw [ho.2] at hno
        cases hno
      · exact .inl ⟨hall, hs'⟩
    · obtain ⟨_, _, hspend⟩ := spends_step hl hstep
      refine .inr ⟨ledger_step hl hstep, fun q hq j ho => ?_⟩
      rcases List.mem_append.mp hq with hq | hq
      · obtain ⟨hj, hold⟩ := hdebt q hq j ho
        exact ⟨hj, (hspend j).owes hold⟩
      · rw [List.mem_singleton.mp hq] at ho
        have hj : j ≠ 0 := by
          have hdown := hl.down
          rw [ho.2] at hdown
          have hpos : 1 ≤ j := by simpa [Pc.down] using hdown
          omega
        exact ⟨hj, (hspend j).opens (hl.spare j hj) ho⟩

/-- If no slot was found open, everything is in order throughout. -/
theorem shutdown_orderly {sock : Nat} {tr : List (System × Event)} (hm : 0 < cfg.maxcli)
    (hr : Run (step cfg) (init sock) tr s)
    (hg : Guarded (fun s e => opens cfg s e = false) tr) :
    (∀ q ∈ tr, q.1.pc.inShutdown = false) ∧ Steady cfg s ∨ Down cfg s := by
  induction hr with
  | nil => exact .inl ⟨fun q hq => absurd hq List.not_mem_nil, steady_init hm sock⟩
  | @snoc tr s s' e _ hstep ih =>
    obtain ⟨hg, ho⟩ := guarded_snoc.mp hg
    rcases ih hg with ⟨hout, hs⟩ | hd
    · rcases steady_step hs hstep with hpc | hs'
      · exact .inr (down_entry hs hstep hpc)
      · refine .inl ⟨fun q hq => ?_, hs'⟩
        rcases List.mem_append.mp hq with hq | hq
        · exact hout q hq
        · rw [List.mem_singleton.mp hq]
          exact steady_out hs
    · exact .inr (down_step hd ho hstep)

theorem refcnt_of_owes (hf : Finished s) {j : Nat} (ho : Owes s j) : (s.slot j).refcnt < 0 := by
  have hneg := ho.2
  have hload : (still s).books.load j = 0 := by
    have hworks : (still s).works = s.works := by
      rw [works, works, hf.pc]
      rfl
    have hzero : (still s).books.works = 0 := hworks.trans hf.works
    rw [Books.load, hzero]
    rfl
  have hdues : s.pc.dues j = 0 := by
    rw [hf.pc]
    rfl
  unfold System.spare at hneg
  omega

/-- As long as no round of `serv_shutdown` finds a slot open, the shutdown is
orderly. In a run that has come to its end it is orderly, and every connection
has been torn down exactly once, only then. -/
theorem shutdown_once_iff {sock : Nat} {tr : List (System × Event)} (hm : 0 < cfg.maxcli)
    (hr : Run (step cfg) (init sock) tr s) (hq : ∃ q ∈ tr, q.1.pc.inShutdown = true) :
    (Guarded (fun s e => opens cfg s e = false) tr → (∀ q ∈ tr, Orderly q.1) ∧ Orderly s) ∧
      (Finished s → (((∀ q ∈ tr, Orderly q.1) ∧ Orderly s ∧ ∀ c, c ≠ 0 → c ≤ s.conns →
          s.torndown c = [.mainlwp, .close, .renew, .signal]) ↔
        Guarded (fun s e => opens cfg s e = false) tr)) := by
  have horderly : ∀ {l : List (System × Event)} {x : System}, Run (step cfg) (init sock) l x →
      Guarded (fun s e => opens cfg s e = false) l → Orderly x := by
    intro l x hl hg
    rcases shutdown_orderly hm hl hg with ⟨_, hs⟩ | hd
    · exact orderly_of_books hs.kept.books
    · exact orderly_of_down hd
  have hall : Guarded (fun s e => opens cfg s e = false) tr →
      (∀ q ∈ tr, Orderly q.1) ∧ Orderly s := by
    intro hg
    refine ⟨fun q hqm => ?_, horderly hr hg⟩
    obtain ⟨l, hl, hle⟩ := hr.reaches_mem hqm
    exact horderly hl (hg.prefix_of hle)
  obtain ⟨q₀, hq₀, hdown⟩ := hq
  refine ⟨hall, fun hf => ⟨fun ⟨_, hs, _⟩ q hqm => ?_, fun hg => ?_⟩⟩
  · show opens cfg q.1 q.2 = false
    rw [← Bool.not_eq_true]
    intro hop
    obtain ⟨j, ho⟩ := opensAt_of_opens hop
    rcases shutdown_debts hm hr with ⟨hout, _⟩ | ⟨_, hdebt⟩
    · rw [hout q₀ hq₀] at hdown
      cases hdown
    · obtain ⟨hj, howes⟩ := hdebt q hqm j ho
      have hneg := refcnt_of_owes hf howes
      have hpos := hs.refcnt j hj
      omega
  · obtain ⟨hpast, hnow⟩ := hall hg
    refine ⟨hpast, hnow, fun c hc hle => ?_⟩
    rcases shutdown_orderly hm hr hg with ⟨hout, _⟩ | hd
    · rw [hout q₀ hq₀] at hdown
      cases hdown
    · exact torndown_of_finished hd hf hc hle

/-- Nobody has anything left to do. -/
def idle (s : System) : Bool :=
  (match s.pc with | .exited => true | _ => false) && s.wrklist.isEmpty &&
    s.workers.all fun w => match w with | .start => true | _ => false

theorem finished_of_idle (h : s.idle = true) : Finished s := by
  simp only [idle, Bool.and_eq_true, List.isEmpty_iff, List.all_eq_true] at h
  obtain ⟨⟨hpc, hlist⟩, hworkers⟩ := h
  replace hpc : s.pc = .exited := by
    split at hpc
    · assumption
    · cases hpc
  have hstart : ∀ w ∈ s.workers, w = .start := by
    intro w hw
    have hx := hworkers w hw
    split at hx
    · rfl
    · cases hx
  have hzero : ∀ {M : Type} [AddCommMonoid M] (f : Worker → M), f .start = 0 →
      (s.workers.map f).sum = 0 := by
    intro M _ f hf
    refine List.sum_eq_zero fun x hx => ?_
    obtain ⟨w, hw, rfl⟩ := List.mem_map.mp hx
    rw [hstart w hw, hf]
  refine ⟨hpc, ?_, ?_⟩
  · rw [works, hpc, hlist, hzero Worker.works rfl]
    rfl
  · rw [tears, hpc, hzero Worker.tears rfl]
    rfl

/-- The one visitor has come and gone before the server is shut down. -/
def emptyHouse : List Event :=
  List.flatten [oneVisitor, [.go, .go, .fini], visit 0, [.accept none, .go, .go, .go]]

theorem shutdown_once_iff_empty : ∃ tr s, Run (step ⟨3, 1, 1⟩) (init 5) tr s ∧ Finished s ∧
    s.conns = 1 ∧ (∀ q ∈ tr, Orderly q.1) ∧ Orderly s ∧
    ∀ c, c ≠ 0 → c ≤ s.conns → s.torndown c = [.mainlwp, .close, .renew, .signal] := by
  obtain ⟨tr, s, hr, hp⟩ := exists_run (f := step ⟨3, 1, 1⟩) (s := init 5) emptyHouse
    (p := fun tr s => s.idle ∧ s.conns = 1 ∧ tr.any (fun q => q.1.pc.inShutdown) ∧
      Guarded (fun s e => opens ⟨3, 1, 1⟩ s e = false) tr) (by decide +kernel)
  rw [decide_eq_true_eq] at hp
  obtain ⟨hidle, hconns, hany, hg⟩ := hp
  have hf := finished_of_idle hidle
  have honce := (shutdown_once_iff (by decide) hr (List.any_eq_true.mp hany)).2 hf
  exact ⟨tr, s, hr, hf, hconns, honce.mpr hg⟩

/-- A client connects, shakes hands and makes a system call; the server is shut
down while a worker runs it. -/
def lateWorker : List Event := List.flatten [
  visit 0, [.accept (some 7), .go, .go, .go, .go],
  visit 1, [.frame (received (rspHdr 26 1 0 0 0) (some ⟨3, Bytes.ofList [115, 104]⟩) 26
    [.rfork true, .newlwp true, .sent 28]), .go, .go],
  visit 1, [.frame (received (rspHdr 24 2 0 1 20) none 24 [.malloc true]), .go,
    .enqueue 0 true, .go, .go, .worker 0, .fini],
  visit 0, [.accept none], List.replicate 10 .go, List.replicate 6 (.worker 0)]

/-- Its connection is torn down under the worker, and a second time when the
worker drops its reference. -/
theorem shutdown_twice : ∃ tr s, Run (step ⟨3, 1, 1⟩) (init 5) tr s ∧ Finished s ∧
    (∃ q ∈ tr, q.1.pc.inShutdown = true) ∧ (s.slot 1).refcnt = -1 ∧
    s.torndown 1 =
      [.mainlwp, .close, .renew, .signal, .mainlwp, .close, .renew, .signal] ∧ ¬ Orderly s := by
  obtain ⟨tr, s, hr, hp⟩ := exists_run (f := step ⟨3, 1, 1⟩) (s := init 5) lateWorker
    (p := fun tr s => s.idle ∧ tr.any (fun q => q.1.pc.inShutdown) ∧ (s.slot 1).refcnt = -1 ∧
      s.torndown 1 = [.mainlwp, .close, .renew, .signal, .mainlwp, .close, .renew, .signal])
    (by decide +kernel)
  rw [decide_eq_true_eq] at hp
  obtain ⟨hidle, hany, href, htorn⟩ := hp
  refine ⟨tr, s, hr, finished_of_idle hidle, List.any_eq_true.mp hany, href, htorn, fun ho => ?_⟩
  have hpos := ho.refcnt 1 (by decide)
  omega

end System

end Frankenlibc.Sysproxy

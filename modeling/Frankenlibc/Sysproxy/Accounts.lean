import Frankenlibc.Sysproxy.Lifecycle
import Mathlib.Data.Finset.Card
import Mathlib.Order.Interval.Finset.Nat

/-!
# The accounts of the main loop

`nfds` and `maxidx` belong to `spserver` alone, but a slot is freed by whoever
drops its last reference. `nfds` follows late: a connection is counted until
its slot is free, its tear-down has bumped `disco` and `spserver` has collected
it. So every connection that was ever accepted is in one of four places: it has
a slot, its tear-down is between the slot and `disco`, it is counted in
`disco`, or it has been collected. The books hold the first two and the history
of the others; `nfds` is what is left.
-/
namespace Frankenlibc.Sysproxy

open Frankenlibc.Lib

/-- A slot that the search in `serv_handleconn` passes over. -/
def Tenant.busy (x : Tenant) : Bool := x.taken || x.state ≠ .new

theorem Tenant.busy_of_taken {x : Tenant} (h : x.taken = true) : x.busy = true := by
  simp [busy, h]

theorem Tenant.busy_of_dying {x : Tenant} (h : x.state = .dying) : x.busy = true := by
  simp [busy, h]

theorem Tenant.not_busy {x : Tenant} (ht : x.taken = false) (hs : x.state = .new) :
    x.busy = false := by
  simp [busy, ht, hs]

/-! ## Where the connections are -/

namespace Books

variable {b b' : Books} {n : Nat}

/-- The slots below `n` that are in use; slot 0 is the listening socket's. -/
def occupied (n : Nat) (b : Books) : Nat :=
  ((Finset.Ico 1 n).filter fun i => (b.slot i).busy = true).card

/-- The tear-downs that have given their slot back and not yet said so. -/
def unsaid (b : Books) : Nat := b.tears.countP (·.phase = .signal)

def signalled (b : Books) : Nat := b.torn.countP (·.1 = .signal)

/-- Every connection is in one place, and slots from `n` on are never used. -/
structure Census (n : Nat) (b : Books) : Prop where
  vacant : ∀ i, n ≤ i → (b.slot i).busy = false
  count : b.conns = b.occupied n + b.unsaid + b.signalled

theorem occupied_congr (h : ∀ i, i ≠ 0 → (b'.slot i).busy = (b.slot i).busy) :
    b'.occupied n = b.occupied n := by
  unfold occupied
  congr 1
  refine Finset.filter_congr fun i hi => ?_
  rw [h i (by have := (Finset.mem_Ico.mp hi).1; omega)]

/-- One slot comes into use. -/
theorem occupied_succ {i : Nat} (hi : i ≠ 0) (hn : i < n) (hfree : (b.slot i).busy = false)
    (hbusy : (b'.slot i).busy = true) (h : ∀ j, j ≠ i → (b'.slot j).busy = (b.slot j).busy) :
    b'.occupied n = b.occupied n + 1 := by
  have hinsert : (Finset.Ico 1 n).filter (fun j => (b'.slot j).busy = true) =
      insert i ((Finset.Ico 1 n).filter fun j => (b.slot j).busy = true) := by
    ext j
    by_cases hj : j = i
    · subst hj
      simp [hbusy, hn, Nat.one_le_iff_ne_zero.mpr hi]
    · simp [hj, h j hj]
  rw [occupied, hinsert, Finset.card_insert_of_notMem (by simp [hfree])]
  rfl

/-- The slot of a tear-down that has not given it back. -/
theorem Inv.tearing (h : Inv b) {t : Tear} (ht : t ∈ b.tears) (hp : t.phase ≠ .signal) :
    t.slot ≠ 0 ∧ (b.slot t.slot).taken = false ∧ (b.slot t.slot).state = .dying ∧
      (b.slot t.slot).refcnt = 0 := by
  obtain ⟨hne, hconn⟩ := h.tears t ht hp
  have hmem : t.phase ∈ b.doing (b.slot t.slot).conn := hconn ▸ mem_doing ht
  have hidle : (b.status t.slot).doing = 0 → False := by
    intro hz
    have hd : b.doing (b.slot t.slot).conn = 0 := hz
    rw [hd] at hmem
    exact absurd hmem (Multiset.notMem_zero _)
  cases h.stands t.slot hne with
  | free _ _ _ _ _ hd => exact absurd (hd _ hmem) hp
  | live _ _ _ hi => exact (hidle hi.doing).elim
  | leaving _ _ _ _ hi => exact (hidle hi.doing).elim
  | draining _ _ _ _ _ hi => exact (hidle hi.doing).elim
  | tearing htk hs hr => exact ⟨hne, htk, hs, hr⟩

/-- No slot comes into use or falls free. -/
theorem Census.keep (hc : Census n b) (hbusy : ∀ i, (b'.slot i).busy = (b.slot i).busy)
    (hu : b'.unsaid = b.unsaid) (hs : b'.signalled = b.signalled) (hn : b'.conns = b.conns) :
    Census n b' where
  vacant i hi := (hbusy i).trans (hc.vacant i hi)
  count := by rw [hn, hu, hs, occupied_congr fun i _ => hbusy i, hc.count]

theorem busy_update {i : Nat} {x : Tenant} (hx : x.busy = (b.slot i).busy) (j : Nat) :
    (Function.update b.slot i x j).busy = (b.slot j).busy := by
  by_cases hj : j = i
  · subst hj
    rw [Function.update_self, hx]
  · rw [Function.update_of_ne hj]

theorem busy_quiet {slot : Nat → Tenant} (h : ∀ i, slot i = b.slot i ∨
    (b.slot i).taken = true ∧ ∃ st, slot i = { b.slot i with state := st }) (i : Nat) :
    (slot i).busy = (b.slot i).busy := by
  rcases h i with hsame | ⟨ht, st, hnew⟩
  · rw [hsame]
  · have hbusy := Tenant.busy_of_taken (x := { b.slot i with state := st }) ht
    rw [hnew, hbusy, Tenant.busy_of_taken ht]

theorem Census.drop {i : Nat} {works : Multiset Work} {closing : Option Nat}
    (hc : Census n b) : Census n (b.drop i works closing) := by
  refine hc.keep (busy_update rfl) ?_ rfl rfl
  show Multiset.countP _ (if _ then _ else _) = _
  split
  · rfl
  · exact Multiset.countP_cons_of_neg _ (by simp)

theorem signalled_tearDown {t : Tear} (rest : Multiset Tear) :
    (b.tearDown t rest).signalled = b.signalled + if t.phase = .signal then 1 else 0 := by
  unfold signalled tearDown
  rw [List.countP_append, List.countP_singleton]
  simp

theorem unsaid_cons {t : Tear} {rest : Multiset Tear} (ht : b.tears = t ::ₘ rest) :
    b.unsaid = rest.countP (·.phase = .signal) + if t.phase = .signal then 1 else 0 := by
  unfold unsaid
  rw [ht, Multiset.countP_cons]

theorem Census.tear {t : Tear} {rest : Multiset Tear} (h : Inv b) (hc : Census n b)
    (ht : b.tears = t ::ₘ rest) : Census n (b.tearDown t rest) := by
  have hmem : t ∈ b.tears := by
    rw [ht]
    exact Multiset.mem_cons_self ..
  have hsig := signalled_tearDown (b := b) (t := t) rest
  have hun := unsaid_cons ht
  have hcount := hc.count
  have hstill : t.phase ≠ .renew → ∀ i, ((b.tearDown t rest).slot i).busy = (b.slot i).busy := by
    intro hp i
    simp only [tearDown, if_neg hp]
  have hnext : ∀ p, t.phase.next = some p → (b.tearDown t rest).unsaid =
      rest.countP (·.phase = .signal) + if p = .signal then 1 else 0 := by
    intro p hp
    have hcons : (b.tearDown t rest).tears = { t with phase := p } ::ₘ rest := by
      simp [tearDown, Tear.next, hp]
    exact unsaid_cons hcons
  cases hp : t.phase with
  | mainlwp =>
    rw [hp] at hsig hun
    exact hc.keep (hstill (by simp [hp])) ((hnext .close (by rw [hp]; rfl)).trans hun.symm) hsig rfl
  | close =>
    rw [hp] at hsig hun
    exact hc.keep (hstill (by simp [hp])) ((hnext .renew (by rw [hp]; rfl)).trans hun.symm) hsig rfl
  | renew =>
    -- the slot falls free, and the tear-down has yet to say so
    rw [hp] at hsig hun
    obtain ⟨hne, htk, hs, _⟩ := h.tearing hmem (by simp [hp])
    have hbusy := Tenant.busy_of_dying hs
    have hslot : (b.tearDown t rest).slot =
        Function.update b.slot t.slot { b.slot t.slot with state := .new } := by
      simp [tearDown, hp]
    have hfree : ((b.tearDown t rest).slot t.slot).busy = false := by
      rw [hslot, Function.update_self]
      exact Tenant.not_busy htk rfl
    have hother : ∀ j, j ≠ t.slot → ((b.tearDown t rest).slot j).busy = (b.slot j).busy := by
      intro j hj
      rw [hslot, Function.update_of_ne hj]
    have hlt : t.slot < n := by
      by_contra hge
      rw [hc.vacant _ (Nat.le_of_not_lt hge)] at hbusy
      cases hbusy
    have hocc := occupied_succ hne hlt hfree hbusy fun j hj => (hother j hj).symm
    have hun' := hnext .signal (by rw [hp]; rfl)
    refine ⟨fun i hi => ?_, ?_⟩
    · rw [hother i (by omega)]
      exact hc.vacant i hi
    · show b.conns = _
      simp only [reduceCtorEq, if_false, if_true] at hsig hun hun'
      omega
  | signal =>
    rw [hp] at hsig hun
    have hbusy := hstill (by simp [hp])
    have hun' : (b.tearDown t rest).unsaid = rest.countP (·.phase = .signal) := by
      simp [unsaid, tearDown, Tear.next, hp, TearPhase.next]
    have hocc := occupied_congr (n := n) fun i _ => hbusy i
    refine ⟨fun i hi => (hbusy i).trans (hc.vacant i hi), ?_⟩
    show b.conns = _
    simp only [if_true] at hsig hun
    omega

theorem Census.step (h : Inv b) (hc : Census n b) (hs : Step b b')
    (hn : ∀ i, (b'.slot i).taken = true → i < n) : Census n b' := by
  cases hs with
  | quiet hq => exact hc.keep (busy_quiet hq) rfl rfl rfl
  | @connect i hi ht hs =>
    have hlt := hn i (by simp)
    have hocc : Books.occupied n { b with
        slot := Function.update b.slot i ⟨true, .new, 1, b.conns + 1⟩
        conns := b.conns + 1 } = b.occupied n + 1 :=
      occupied_succ hi hlt (Tenant.not_busy ht hs) (by simp [Tenant.busy])
        fun j hj => by simp only [Function.update_of_ne hj]
    refine ⟨fun j hj => ?_, ?_⟩
    · have hji : j ≠ i := by omega
      simp only [Function.update_of_ne hji]
      exact hc.vacant j hj
    · have hcount := hc.count
      show b.conns + 1 = occupied n _ + b.unsaid + b.signalled
      rw [hocc]
      omega
  | take => exact hc.keep (busy_update rfl) rfl rfl rfl
  | leave hi ht =>
    refine hc.keep (busy_update ?_) rfl rfl rfl
    exact (Tenant.busy_of_dying rfl).trans (Tenant.busy_of_taken ht).symm
  | finish => exact hc.drop
  | left => exact hc.drop
  | tear ht => exact hc.tear h ht

end Books

/-! ## The counters of `spserver` -/

/-- A place of `spserver` outside the search for a slot. -/
def Pc.settled : Pc → Bool
  | .scan _ _ => false
  | .aborted => false
  | _ => true

/-- `spserver` has turned to `serv_shutdown`. -/
def Pc.inShutdown : Pc → Bool
  | .shutdown _ => true
  | _ => false

namespace System

variable {cfg : Config} {s s' : System} {e : Event}

/-- `nfds` counts the connections that have not been collected; every slot with
a descriptor is polled; while `serv_handleconn` searches, there is a free slot
ahead of it. -/
structure Counts (cfg : Config) (s : System) : Prop where
  balance : s.nfds + s.books.signalled = 1 + s.conns + s.disco
  room : s.nfds ≤ cfg.maxcli
  polled : ∀ i, (s.slot i).pfd.isSome = true → i ≤ s.maxidx
  maxidx : s.maxidx < cfg.maxcli
  search : ∀ newfd i, s.pc = .scan newfd i → s.nfds < cfg.maxcli ∧
    ∃ j, i ≤ j ∧ j < cfg.maxcli ∧ isFree (s.slot j) = true
  found : s.pc ≠ .aborted
  listener : (s.slot 0).conn = 0

/-- The counters stay as they are, no descriptor is added and slot 0 stays with
the listening socket. -/
theorem Counts.keep (hc : Counts cfg s) (hn : s'.nfds = s.nfds) (hm : s'.maxidx = s.maxidx)
    (hd : s'.disco = s.disco) (ht : s'.torn = s.torn) (hk : s'.conns = s.conns)
    (hpfd : ∀ i, (s'.slot i).pfd.isSome = true → (s.slot i).pfd.isSome = true)
    (h0 : (s'.slot 0).conn = (s.slot 0).conn) (hpc : s'.pc.settled = true) : Counts cfg s' where
  balance := by
    show s'.nfds + s'.torn.countP _ = _
    rw [hn, ht, hk, hd]
    exact hc.balance
  room := by
    rw [hn]
    exact hc.room
  polled i hi := by
    rw [hm]
    exact hc.polled i (hpfd i hi)
  maxidx := by
    rw [hm]
    exact hc.maxidx
  search newfd i hscan := by
    rw [hscan] at hpc
    cases hpc
  found habort := by
    rw [habort] at hpc
    cases hpc
  listener := h0.trans hc.listener

/-- Another thread, or `spserver` outside its loop, takes a step: slots may fall
free, and what has been signalled is counted in `disco`. -/
theorem Counts.beside (hc : Counts cfg s) (hpc : s'.pc = s.pc ∨ s'.pc.settled = true)
    (hn : s'.nfds = s.nfds) (hm : s'.maxidx = s.maxidx) (hk : s'.conns = s.conns)
    (hkeep : Keeps s.slot s'.slot)
    (hfree : ∀ j, isFree (s.slot j) = true → isFree (s'.slot j) = true)
    (hsig : s'.books.signalled + s.disco = s.books.signalled + s'.disco) : Counts cfg s' where
  balance := by
    have hb := hc.balance
    rw [hn, hk]
    omega
  room := by
    rw [hn]
    exact hc.room
  polled i hi := by
    rw [hm]
    rw [(hkeep i).1] at hi
    exact hc.polled i hi
  maxidx := by
    rw [hm]
    exact hc.maxidx
  search newfd i hscan := by
    rcases hpc with hpc | hpc
    · rw [hpc] at hscan
      obtain ⟨hlt, j, hij, hj, hjf⟩ := hc.search newfd i hscan
      exact ⟨by rw [hn]; exact hlt, j, hij, hj, hfree j hjf⟩
    · rw [hscan] at hpc
      cases hpc
  found habort := by
    rcases hpc with hpc | hpc
    · exact hc.found (hpc.symm.trans habort)
    · rw [habort] at hpc
      cases hpc
  listener := (hkeep 0).2.2.trans hc.listener

/-! ### References and tear-downs -/

theorem free_onSlot {i : Nat} {f : Slot → Slot} (hf : ∀ x, isFree x = true → isFree (f x) = true)
    (j : Nat) (hj : isFree (s.slot j) = true) : isFree ((onSlot i f s).slot j) = true := by
  have hslot : (onSlot i f s).slot = Function.update s.slot i (f (s.slot i)) := rfl
  rw [hslot]
  by_cases hji : j = i
  · subst hji
    rw [Function.update_self]
    exact hf _ hj
  · rw [Function.update_of_ne hji]
    exact hj

theorem spcrelease_free (i j : Nat) (hj : isFree (s.slot j) = true) :
    isFree ((spcrelease i s).1.slot j) = true := by
  rw [spcrelease_slots]
  exact free_onSlot (f := fun x => { x with refcnt := x.refcnt - 1 }) (fun _ h => h) j hj

theorem tearDown_free (t : Tear) (j : Nat) (hj : isFree (s.slot j) = true) :
    isFree ((tearDown t s).slot j) = true := by
  unfold tearDown
  cases t.phase with
  | mainlwp => exact free_onSlot (f := fun x => { x with mainlwp := none }) (fun _ h => h) j hj
  | close => exact free_onSlot (f := fun x => { x with fd := none }) (fun _ h => h) j hj
  | renew =>
    refine free_onSlot (f := fun x => { x with state := .new }) (fun x h => ?_) j hj
    have hpfd : x.pfd = none ∧ x.state = .new := by simpa [isFree] using h
    simp [isFree, hpfd.1]
  | signal => exact hj

theorem tearDown_signals (t : Tear) :
    (tearDown t s).books.signalled + s.disco = s.books.signalled + (tearDown t s).disco := by
  show (tearDown t s).torn.countP _ + _ = s.torn.countP _ + _
  unfold tearDown
  cases t.phase with
  | mainlwp => simp [onSlot]
  | close => simp [onSlot]
  | renew => simp [onSlot]
  | signal =>
    simp only [List.countP_append, List.countP_singleton, decide_true, if_true]
    omega

/-- What a worker may do to the table and to what `spserver` collects. -/
inductive Touch (s s' : System) : Prop
  | none (hs : s'.slot = s.slot) (hd : s'.disco = s.disco) (ht : s'.torn = s.torn)
  | notify (i : Nat) (hs : s'.slot = (onSlot i (fun x => { x with inexec := false }) s).slot)
      (hd : s'.disco = s.disco) (ht : s'.torn = s.torn)
  | drop (i : Nat) (hs : s'.slot = (onSlot i (fun x => { x with refcnt := x.refcnt - 1 }) s).slot)
      (hd : s'.disco = s.disco) (ht : s'.torn = s.torn)
  | tear (t : Tear) (hm : t ∈ s.tears) (hs : s'.slot = (tearDown t s).slot)
      (hd : s'.disco = (tearDown t s).disco) (ht : s'.torn = (tearDown t s).torn)

/-- `spserver` and its own counters stay where they are. -/
structure Apart (s s' : System) : Prop where
  pc : s'.pc = s.pc
  nfds : s'.nfds = s.nfds
  maxidx : s'.maxidx = s.maxidx
  conns : s'.conns = s.conns

theorem worker_touch {k : Nat} (h : workerStep cfg k s = some s') : Touch s s' ∧ Apart s s' := by
  have hfetch : ∀ x : System, (fetch k x).slot = x.slot ∧ (fetch k x).disco = x.disco ∧
      (fetch k x).torn = x.torn ∧ Apart x (fetch k x) := by
    intro x
    unfold fetch
    split <;> exact ⟨rfl, rfl, rfl, rfl, rfl, rfl, rfl⟩
  cases workerStep_inv h with
  | retire => exact ⟨.none rfl rfl rfl, rfl, rfl, rfl, rfl⟩
  | start =>
    obtain ⟨hs, hd, ht, ha⟩ := hfetch { s with idleworker := s.idleworker + 1 }
    exact ⟨.none hs hd ht, ha.pc, ha.nfds, ha.maxidx, ha.conns⟩
  | wake =>
    obtain ⟨hs, hd, ht, ha⟩ := hfetch s
    exact ⟨.none hs hd ht, ha⟩
  | syscall => exact ⟨.none rfl rfl rfl, rfl, rfl, rfl, rfl⟩
  | exec => exact ⟨.none rfl rfl rfl, rfl, rfl, rfl, rfl⟩
  | @notify w => exact ⟨.notify w.spc rfl rfl rfl, rfl, rfl, rfl, rfl⟩
  | @release w slot r _ hr =>
    have hslots := spcrelease_slots (s := s) w.spc
    rw [hr] at hslots
    exact ⟨.drop w.spc hslots rfl rfl, rfl, rfl, rfl, rfl⟩
  | @tear t x hk =>
    obtain ⟨slot, disco, torn, hd, _⟩ := tearDown_frame (s := s) t
    exact ⟨.tear t (tear_mem hk) rfl rfl rfl, by rw [hd]; rfl, by rw [hd]; rfl, by rw [hd]; rfl,
      by rw [hd]; rfl⟩

theorem Touch.keeps (h : Touch s s') : Keeps s.slot s'.slot := by
  cases h with
  | none hs => exact hs ▸ Keeps.refl _
  | notify i hs => exact hs ▸ keeps_onSlot fun _ => ⟨rfl, rfl, rfl⟩
  | drop i hs => exact hs ▸ keeps_onSlot fun _ => ⟨rfl, rfl, rfl⟩
  | tear t _ hs =>
    obtain ⟨slot, disco, torn, hframe, hkeep⟩ := tearDown_frame (s := s) t
    rw [hs, hframe]
    exact hkeep

theorem Touch.free (h : Touch s s') (j : Nat) (hj : isFree (s.slot j) = true) :
    isFree (s'.slot j) = true := by
  cases h with
  | none hs => exact hs ▸ hj
  | notify i hs =>
    rw [hs]
    exact free_onSlot (f := fun x => { x with inexec := false }) (fun _ h => h) j hj
  | drop i hs =>
    rw [hs]
    exact free_onSlot (f := fun x => { x with refcnt := x.refcnt - 1 }) (fun _ h => h) j hj
  | tear t _ hs =>
    rw [hs]
    exact tearDown_free t j hj

/-- What has been signalled is counted in `disco`. -/
theorem Touch.signals (h : Touch s s') :
    s'.books.signalled + s.disco = s.books.signalled + s'.disco := by
  show s'.torn.countP _ + _ = s.torn.countP _ + _
  cases h with
  | none _ hd ht => rw [ht, hd]
  | notify _ _ hd ht => rw [ht, hd]
  | drop _ _ hd ht => rw [ht, hd]
  | tear t _ _ hd ht =>
    rw [ht, hd]
    exact tearDown_signals t

theorem counts_worker {k : Nat} (hc : Counts cfg s) (h : workerStep cfg k s = some s') :
    Counts cfg s' := by
  obtain ⟨ht, ha⟩ := worker_touch h
  exact hc.beside (.inl ha.pc) ha.nfds ha.maxidx ha.conns ht.keeps ht.free ht.signals

/-! ### The main loop -/

theorem busy_tenant (x : Slot) : (tenant x).busy = !isFree x := by
  unfold tenant Tenant.busy isFree
  cases x.pfd <;> simp

theorem nfds_eq (hcen : Books.Census cfg.maxcli s.books) (hc : Counts cfg s) :
    s.nfds = 1 + s.books.occupied cfg.maxcli + s.books.unsaid + s.disco := by
  have hb := hc.balance
  have hcount : s.conns = _ := hcen.count
  omega

/-- If not all descriptors are in use, there is a free slot. -/
theorem exists_free (hcen : Books.Census cfg.maxcli s.books) (hc : Counts cfg s)
    (hlt : s.nfds < cfg.maxcli) : ∃ j, j < cfg.maxcli ∧ isFree (s.slot j) = true := by
  by_contra hnone
  have hall : s.books.occupied cfg.maxcli = (Finset.Ico 1 cfg.maxcli).card := by
    unfold Books.occupied
    congr 1
    refine Finset.filter_true_of_mem fun j hj => ?_
    show (tenant (s.slot j)).busy = true
    rw [busy_tenant]
    cases hf : isFree (s.slot j) with
    | true => exact absurd ⟨j, (Finset.mem_Ico.mp hj).2, hf⟩ hnone
    | false => rfl
  have heq := nfds_eq hcen hc
  rw [hall, Nat.card_Ico] at heq
  omega

/-- The search goes down to the last slot that has a descriptor, and stays
where it began if there is none. -/
theorem lastOpen_spec (slot : Nat → Slot) (m : Nat) {i : Nat} (hi : i ≤ m)
    (hopen : ∀ j, (slot j).pfd.isSome = true → j ≤ i ∨ m < j) :
    lastOpen slot m i ≤ m ∧ ∀ j, (slot j).pfd.isSome = true → j ≤ lastOpen slot m i ∨ m < j := by
  induction i with
  | zero => exact ⟨Nat.le_refl m, fun j _ => (Nat.lt_or_ge m j).symm⟩
  | succ i ih =>
    unfold lastOpen
    split
    · exact ⟨hi, hopen⟩
    next hclosed =>
      refine ih (by omega) fun j hj => ?_
      rcases hopen j hj with hle | hgt
      · have hne : j ≠ i + 1 := by
          rintro rfl
          exact hclosed hj
        exact .inl (by omega)
      · exact .inr hgt

theorem collect_spec (n : Nat) (hn : n ≤ s.nfds)
    (hp : ∀ i, (s.slot i).pfd.isSome = true → i ≤ s.maxidx) :
    ∃ nfds maxidx, collect n s = { s with nfds := nfds, maxidx := maxidx } ∧
      nfds + n = s.nfds ∧ maxidx ≤ s.maxidx ∧
      ∀ i, (s.slot i).pfd.isSome = true → i ≤ maxidx := by
  induction n generalizing s with
  | zero => exact ⟨s.nfds, s.maxidx, rfl, rfl, Nat.le_refl _, hp⟩
  | succ n ih =>
    obtain ⟨hle, hopen⟩ := lastOpen_spec s.slot s.maxidx (Nat.le_refl _)
      fun j hj => .inl (hp j hj)
    have hpos : s.nfds ≠ 0 := by omega
    obtain ⟨nfds, maxidx, heq, hsum, hmax, hpoll⟩ := ih (s := { s with
      nfds := if s.nfds = 0 then 4294967295 else s.nfds - 1
      maxidx := lastOpen s.slot s.maxidx s.maxidx }) (by simp only [if_neg hpos]; omega)
      fun i hi => (hopen i hi).resolve_right (by have := hp i hi; omega)
    simp only [if_neg hpos] at hsum
    exact ⟨nfds, maxidx, heq, by omega, hmax.trans hle, hpoll⟩

theorem counts_top (hcen : Books.Census cfg.maxcli s.books) (hc : Counts cfg s) :
    Counts cfg { collect s.disco { s with disco := 0 } with pc := .poll } := by
  have heq := nfds_eq hcen hc
  obtain ⟨nfds, maxidx, hcol, hsum, hmax, hpoll⟩ :=
    collect_spec (s := { s with disco := 0 }) s.disco (by show _ ≤ s.nfds; omega) hc.polled
  have hb := hc.balance
  have hroom := hc.room
  have hlt := hc.maxidx
  replace hsum : nfds + s.disco = s.nfds := hsum
  replace hmax : maxidx ≤ s.maxidx := hmax
  rw [hcol]
  refine ⟨?_, ?_, hpoll, ?_, fun _ _ h => (by cases h), by simp, hc.listener⟩
  · show nfds + s.books.signalled = 1 + s.conns + 0
    omega
  · show nfds ≤ cfg.maxcli
    omega
  · show maxidx < cfg.maxcli
    omega

theorem counts_handleconn (hcen : Books.Census cfg.maxcli s.books) (hc : Counts cfg s)
    (newfd : Option Nat) : Counts cfg (handleconn cfg newfd s) := by
  have hnext : Counts cfg { s with pc := .next } :=
    hc.keep rfl rfl rfl rfl rfl (fun _ h => h) rfl rfl
  unfold handleconn
  split
  · exact hnext
  · split
    · exact hnext
    next fd hne =>
      have hlt : s.nfds < cfg.maxcli := Nat.lt_of_le_of_ne hc.room hne
      obtain ⟨j, hj, hfree⟩ := exists_free hcen hc hlt
      refine ⟨hc.balance, hc.room, hc.polled, hc.maxidx, fun newfd i hscan => ?_, by simp,
        hc.listener⟩
      cases hscan
      exact ⟨hlt, j, Nat.zero_le j, hj, hfree⟩

theorem counts_occupy {newfd i : Nat} (hc : Counts cfg s) (hi : i ≠ 0) (hlt : i < cfg.maxcli)
    (hroom : s.nfds < cfg.maxcli) : Counts cfg (occupy newfd i s) := by
  have hb := hc.balance
  have hm := hc.maxidx
  refine ⟨?_, ?_, fun j hj => ?_, ?_, fun _ _ h => (by cases h), by simp [occupy], ?_⟩
  · show (if i ≠ 0 then s.nfds + 1 else s.nfds) + s.books.signalled = 1 + (s.conns + 1) + s.disco
    rw [if_pos hi]
    omega
  · show (if i ≠ 0 then s.nfds + 1 else s.nfds) ≤ cfg.maxcli
    rw [if_pos hi]
    exact hroom
  · show j ≤ max s.maxidx i
    by_cases hji : j = i
    · omega
    · have hold : (s.slot j).pfd.isSome = true := by
        simpa [occupy, onSlot, hji] using hj
      have := hc.polled j hold
      omega
  · show max s.maxidx i < cfg.maxcli
    omega
  · show (Function.update s.slot i _ 0).conn = 0
    rw [Function.update_of_ne (Ne.symm hi)]
    exact hc.listener

theorem counts_scan {fini : Bool} {newfd i : Nat} (ht : Tame fini s) (hc : Counts cfg s)
    (hpc : s.pc = .scan newfd i) : Counts cfg (scan cfg newfd i s) := by
  obtain ⟨hroom, j, hij, hj, hfree⟩ := hc.search newfd i hpc
  unfold scan
  rw [if_neg (by omega)]
  split
  next hf =>
    have hi : i ≠ 0 := by
      rintro rfl
      have hl := ht.listen
      have hnone : (s.slot 0).pfd = none ∧ (s.slot 0).state = .new := by
        simpa [isFree] using hf
      rw [hnone.1] at hl
      cases hl
    exact counts_occupy hc hi (by omega) hroom
  next hf =>
    have hne : j ≠ i := by
      rintro rfl
      exact hf hfree
    refine ⟨hc.balance, hc.room, hc.polled, hc.maxidx, fun _ _ hscan => ?_, by simp, hc.listener⟩
    cases hscan
    exact ⟨hroom, j, by omega, hj, hfree⟩

theorem counts_frame {w : Server} (hc : Counts cfg s) (h : frame w s = some s') :
    Counts cfg s' := by
  obtain ⟨w', pc, -, hs', hpc⟩ := frame_inv h
  have hkeep : Keeps s.slot (onSlot s.idx (fun x => { x with
      state := w'.spc.state
      mainlwp := w'.spc.mainlwp
      inexec := w'.spc.inexec }) s).slot := keeps_onSlot fun _ => ⟨rfl, rfl, rfl⟩
  rw [hs']
  refine hc.keep rfl rfl rfl rfl rfl (fun i hi => (hkeep i).1 ▸ hi) (hkeep 0).2.2 ?_
  rcases hpc with ⟨-, rfl⟩ | ⟨_, _, -, rfl⟩
  · rfl
  · rfl

theorem counts_each (hcen : Books.Census cfg.maxcli s.books) (hc : Counts cfg s)
    (h : Rounding cfg s e s') : Counts cfg s' := by
  have hhop : ∀ (pc : Pc) (seen : Nat), pc.settled = true →
      Counts cfg { s with pc := pc, seen := seen } := fun pc seen hpc =>
    hc.keep rfl rfl rfl rfl rfl (fun _ h => h) rfl hpc
  have hseen : Counts cfg { s with seen := s.seen + 1 } :=
    ⟨hc.balance, hc.room, hc.polled, hc.maxidx, hc.search, hc.found, hc.listener⟩
  cases h with
  | finished => exact hhop .top s.seen rfl
  | quiet => exact hhop .next s.seen rfl
  | part => exact hhop .next _ rfl
  | eof hidx =>
    refine hc.keep rfl rfl rfl rfl rfl (fun i hi => ?_) ?_ rfl
    · by_cases hii : i = s.idx
      · subst hii
        simp [discoLock, onSlot] at hi
      · simpa [discoLock, onSlot, hii] using hi
    · have hne : 0 ≠ s.idx := Nat.ne_of_lt hidx
      simp [discoLock, onSlot, hne]
  | frame _ _ h => exact counts_frame hseen h
  | fini => exact hhop (.shutdown 1) _ rfl
  | @accept newfd =>
    have hcen' : Books.Census cfg.maxcli { s with seen := s.seen + 1 }.books := hcen
    exact counts_handleconn hcen' hseen newfd

theorem counts_enqueue {w : Work} {kick : Nat} {created : Bool} (hc : Counts cfg s)
    (h : enqueue cfg w kick created s = some s') : Counts cfg s' := by
  obtain ⟨ws, n, rfl⟩ := enqueue_frame h
  exact hc.keep rfl rfl rfl rfl rfl (fun _ h => h) rfl rfl

theorem counts_main {fini : Bool} (ht : Tame fini s) (hcen : Books.Census cfg.maxcli s.books)
    (hc : Counts cfg s) (h : mainStep cfg e s = some s') : Counts cfg s' := by
  have hplain := ht.plain
  have hhop : ∀ {pc : Pc} {seen rv idx : Nat}, pc.settled = true →
      Counts cfg { s with pc := pc, seen := seen, rv := rv, idx := idx } := fun hpc =>
    hc.keep rfl rfl rfl rfl rfl (fun _ h => h) rfl hpc
  cases mainStep_inv h with
  | top => exact counts_top hcen hc
  | @poll ready rv =>
    have hpoll : ∀ i, (polled ready s i).pfd = (s.slot i).pfd ∧
        (polled ready s i).conn = (s.slot i).conn := by
      intro i
      unfold polled
      split <;> exact ⟨rfl, rfl⟩
    exact hc.keep rfl rfl rfl rfl rfl (fun i hi => (hpoll i).1 ▸ hi) (hpoll 0).2 rfl
  | pollIntr => exact hhop rfl
  | pollFail => exact hhop rfl
  | each _ h => exact counts_each hcen hc h
  | next => exact hhop rfl
  | scan hpc => exact counts_scan ht hc hpc
  | ref =>
    exact hc.beside (.inr rfl) rfl rfl rfl
      (keeps_onSlot (f := fun x => { x with refcnt := x.refcnt + 1 }) fun _ => ⟨rfl, rfl, rfl⟩)
      (free_onSlot (f := fun x => { x with refcnt := x.refcnt + 1 }) fun _ h => h) rfl
  | queue _ h => exact counts_enqueue hc h
  | wipe =>
    exact hc.beside (.inr rfl) rfl rfl rfl
      (keeps_onSlot (f := fun x => { x with inexec := false }) fun _ => ⟨rfl, rfl, rfl⟩)
      (free_onSlot (f := fun x => { x with inexec := false }) fun _ h => h) rfl
  | @release i k slot r hpc hr hkeep =>
    rw [hpc] at hplain
    obtain ⟨_, rfl⟩ := hplain
    have hfree := spcrelease_free (s := s) i
    rw [hr] at hfree
    refine hc.beside (.inr ?_) rfl rfl rfl hkeep hfree rfl
    cases r <;> rfl
  | @tear t k pc hpc hnext =>
    rw [hpc] at hplain
    have hk : k = .next := hplain
    subst hk
    obtain ⟨slot, disco, torn, hd, hkeep⟩ := tearDown_frame (s := s) t
    have hfree := tearDown_free (s := s) t
    have hsig := tearDown_signals (s := s) t
    rw [hd] at hfree hsig
    rw [hd]
    refine hc.beside (.inr ?_) rfl rfl rfl hkeep hfree hsig
    rw [hnext]
    cases t.next <;> rfl
  | shutdown hpc =>
    rw [hpc] at hplain
    cases hplain

/-! ## The accounts in every run -/

/-- Everything that is known before a shutdown. -/
structure Kept (cfg : Config) (s : System) : Prop where
  tame : ∃ fini, Tame fini s
  books : Books.Inv s.books
  census : Books.Census cfg.maxcli s.books
  counts : Counts cfg s

theorem kept_init (hm : 0 < cfg.maxcli) (sock : Nat) : Kept cfg (init sock) where
  tame := ⟨false, init_tame sock⟩
  books := init_inv sock
  census := by
    have hfree : ∀ i, i ≠ 0 → ((init sock).books.slot i).busy = false := by
      intro i hi
      simp [books, init, tenant, Tenant.busy, hi]
    refine ⟨fun i hi => hfree i (by omega), ?_⟩
    have hocc : (init sock).books.occupied cfg.maxcli = 0 := by
      refine Finset.card_eq_zero.mpr (Finset.filter_eq_empty_iff.mpr fun i hi => ?_)
      have hne : i ≠ 0 := by
        have := (Finset.mem_Ico.mp hi).1
        omega
      simp [hfree i hne]
    rw [hocc]
    rfl
  counts := by
    refine ⟨rfl, hm, fun i hi => ?_, hm, fun _ _ h => (by cases h), by simp [init], rfl⟩
    by_cases hz : i = 0
    · exact Nat.le_of_eq hz
    · simp [init, hz] at hi

theorem kept_step (hk : Kept cfg s) (h : step cfg s e = some s') :
    s'.pc = .shutdown 1 ∨ Kept cfg s' := by
  obtain ⟨fini, ht⟩ := hk.tame
  have hcounts : Counts cfg s' := by
    unfold step at h
    split at h
    · exact counts_worker hk.counts h
    · cases h
      exact ⟨hk.counts.balance, hk.counts.room, hk.counts.polled, hk.counts.maxidx,
        hk.counts.search, hk.counts.found, hk.counts.listener⟩
    · exact counts_main ht hk.census hk.counts h
  rcases step_books ht h with ⟨_, hhalt⟩ | ⟨ht', hb⟩
  · exact .inl hhalt
  · refine .inr ⟨⟨_, ht'⟩, hk.books.step hb, hk.census.step hk.books hb fun i hi => ?_, hcounts⟩
    exact Nat.lt_of_le_of_lt (hcounts.polled i hi) hcounts.maxidx

/-- A slot with a descriptor to poll, or one whose connection is not done. -/
def inUse (x : Slot) : Bool := x.pfd.isSome || x.state ≠ .new

/-- The slots in use beside the listening socket's. -/
def slotsInUse (cfg : Config) (s : System) : Nat :=
  ((Finset.Ico 1 cfg.maxcli).filter fun i => inUse (s.slot i) = true).card

/-- What the main loop keeps account of: `nfds` covers the slots in use and
does not exceed `MAXCLI`, every slot with a descriptor is polled, slot 0 is the
listening socket's and was never given to a connection, and the search for an
empty slot has not come to the `abort`. -/
structure Accounted (cfg : Config) (s : System) : Prop where
  covers : 1 + s.slotsInUse cfg ≤ s.nfds
  room : s.nfds ≤ cfg.maxcli
  polled : ∀ i, (s.slot i).pfd ≠ none → i ≤ s.maxidx
  maxidx : s.maxidx < cfg.maxcli
  listener : (s.slot 0).pfd ≠ none ∧ (s.slot 0).conn = 0
  found : s.pc ≠ .aborted

theorem accounted_of_kept (hk : Kept cfg s) : Accounted cfg s := by
  obtain ⟨fini, ht⟩ := hk.tame
  have hocc : s.slotsInUse cfg = s.books.occupied cfg.maxcli := rfl
  refine ⟨?_, hk.counts.room, fun i hi => ?_, hk.counts.maxidx, ⟨?_, hk.counts.listener⟩,
    hk.counts.found⟩
  · have heq := nfds_eq hk.census hk.counts
    omega
  · exact hk.counts.polled i (Option.isSome_iff_ne_none.mpr hi)
  · exact Option.isSome_iff_ne_none.mp ht.listen

/-- Under every interleaving the accounts of the main loop are in order, up to
the point where it turns to `serv_shutdown`. -/
theorem slot_accounting {sock : Nat} {tr : List (System × Event)} (hm : 0 < cfg.maxcli)
    (hr : Run (step cfg) (init sock) tr s)
    (hg : Guarded (fun s _ => s.pc.inShutdown = false) tr) (hs : s.pc.inShutdown = false) :
    (∀ q ∈ tr, Accounted cfg q.1) ∧ Accounted cfg s := by
  have hall : ∀ {tr : List (System × Event)} {s : System}, Run (step cfg) (init sock) tr s →
      Guarded (fun s _ => s.pc.inShutdown = false) tr → s.pc.inShutdown = false →
      Accounted cfg s := by
    intro tr s hr hg hs
    have hinv : s.pc.inShutdown = true ∨ Kept cfg s := by
      refine Run.invariant (I := fun s => s.pc.inShutdown = true ∨ Kept cfg s)
        (.inr (kept_init hm sock)) (fun s e s' hi he hstep => ?_) hr hg
      rcases hi with hdown | hk
      · rw [he] at hdown
        cases hdown
      · rcases kept_step hk hstep with hhalt | hk
        · exact .inl (by rw [hhalt]; rfl)
        · exact .inr hk
    rcases hinv with hdown | hk
    · rw [hs] at hdown
      cases hdown
    · exact accounted_of_kept hk
  refine ⟨fun q hq => ?_, hall hr hg hs⟩
  obtain ⟨l, hl, hle⟩ := hr.reaches_mem hq
  exact hall hl (hg.prefix_of hle) (hg q hq)

/-- The one visitor has gone and its slot is free, but its disconnect is still
to be collected. -/
theorem slot_accounting_visitor : ∃ tr s, Run (step ⟨3, 1, 1⟩) (init 5) tr s ∧
    isFree (s.slot 1) = true ∧ s.nfds = 2 ∧ s.disco = 1 ∧ Accounted ⟨3, 1, 1⟩ s := by
  obtain ⟨tr, s, hr, hp⟩ := exists_run (f := step ⟨3, 1, 1⟩) (s := init 5) oneVisitor
    (p := fun tr s => Guarded (fun s _ => s.pc.inShutdown = false) tr ∧
      s.pc.inShutdown = false ∧ isFree (s.slot 1) = true ∧ s.nfds = 2 ∧ s.disco = 1) (by decide)
  rw [decide_eq_true_eq] at hp
  obtain ⟨hg, hs, hfree, hn, hd⟩ := hp
  exact ⟨tr, s, hr, hfree, hn, hd, (slot_accounting (by decide) hr hg hs).2⟩

end System

end Frankenlibc.Sysproxy

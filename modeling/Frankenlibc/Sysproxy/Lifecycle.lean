import Frankenlibc.Lib.Roster
import Frankenlibc.Lib.Run
import Frankenlibc.Sysproxy.Tenancy
import Mathlib.Algebra.Order.Group.Multiset

/-!
# The life of a client slot

The threads of the server keep the books: each of their steps is a step of
`Books`, as long as nobody asks for a shutdown. Everything that is known of the
books then holds of the client table, under every interleaving.
-/
namespace Frankenlibc.Sysproxy

open Frankenlibc.Lib

/-! ## What the threads hold -/

/-- The item whose reference `schedulework` has taken, and which is not yet in
the list. -/
def Pc.works : Pc → Multiset Work
  | .queue w => {w}
  | _ => 0

def Pc.tears : Pc → Multiset Tear
  | .tear t _ => {t}
  | _ => 0

/-- The slot whose connection has gone while `serv_handledisco` still has the
connection's reference. -/
def Pc.closing : Pc → Option Nat
  | .wipe i _ => some i
  | .release i _ => some i
  | _ => none

/-- The item a worker runs, until it drops its reference. -/
def Worker.works : Worker → Multiset Work
  | .syscall w => {w}
  | .exec w => {w}
  | .notify w => {w}
  | .release w => {w}
  | _ => 0

def Worker.tears : Worker → Multiset Tear
  | .tear t => {t}
  | _ => 0

/-- Somebody asks for a shutdown. -/
def Event.isFini : Event → Bool
  | .fini => true
  | _ => false

namespace System

variable {cfg : Config} {s s' : System} {e : Event} {fini : Bool}

/-- The items that are queued, the one being queued included, or running. -/
def works (s : System) : Multiset Work :=
  s.pc.works + (s.wrklist : Multiset Work) + (s.workers.map Worker.works).sum

def tears (s : System) : Multiset Tear := s.pc.tears + (s.workers.map Worker.tears).sum

def tenant (x : Slot) : Tenant := ⟨x.pfd.isSome, x.state, x.refcnt, x.conn⟩

def books (s : System) : Books where
  slot := tenant ∘ s.slot
  works := s.works
  tears := s.tears
  closing := s.pc.closing
  ended := s.ended
  torn := s.torn
  conns := s.conns

/-! ## Before a shutdown -/

/-- What `spserver` relies on at its place: the slot of an item it is about to
queue has its connection, and the calls it makes return to its loop. -/
def Plain (slot : Nat → Slot) : Pc → Prop
  | .ref w => w.spc ≠ 0 ∧ (slot w.spc).pfd.isSome = true ∧ w.conn = (slot w.spc).conn
  | .queue w => w.spc ≠ 0 ∧ (slot w.spc).pfd.isSome = true ∧ w.conn = (slot w.spc).conn
  | .wipe i k => i ≠ 0 ∧ k = .next
  | .release i k => i ≠ 0 ∧ k = .next
  | .tear _ k => k = .next
  | .shutdown _ => False
  | _ => True

structure Tame (fini : Bool) (s : System) : Prop where
  calm : s.spfini = fini
  plain : Plain s.slot s.pc
  listen : (s.slot 0).pfd.isSome = true
  revents : ∀ i, (s.slot i).revents = true → (s.slot i).pfd.isSome = true

/-- No descriptor and no connection changes. -/
def Keeps (slot slot' : Nat → Slot) : Prop :=
  ∀ j, (slot' j).pfd = (slot j).pfd ∧ (slot' j).revents = (slot j).revents ∧
    (slot' j).conn = (slot j).conn

theorem Keeps.refl (slot : Nat → Slot) : Keeps slot slot := fun _ => ⟨rfl, rfl, rfl⟩

theorem keeps_onSlot {i : Nat} {f : Slot → Slot} (hf : ∀ x, (f x).pfd = x.pfd ∧
    (f x).revents = x.revents ∧ (f x).conn = x.conn) : Keeps s.slot (onSlot i f s).slot := by
  intro j
  have hslot : (onSlot i f s).slot = Function.update s.slot i (f (s.slot i)) := rfl
  rw [hslot]
  by_cases hj : j = i
  · subst hj
    rw [Function.update_self]
    exact hf _
  · rw [Function.update_of_ne hj]
    exact ⟨rfl, rfl, rfl⟩

theorem Tame.keeps (ht : Tame fini s) (hk : Keeps s.slot s'.slot) (hf : s'.spfini = s.spfini)
    (hp : Plain s.slot s'.pc) : Tame fini s' := by
  refine ⟨hf.trans ht.calm, ?_, ?_, fun i hi => ?_⟩
  · generalize s'.pc = pc at hp
    cases pc with
    | ref w =>
      obtain ⟨hi, hpfd, hc⟩ := hp
      exact ⟨hi, by rw [(hk _).1]; exact hpfd, by rw [(hk _).2.2]; exact hc⟩
    | queue w =>
      obtain ⟨hi, hpfd, hc⟩ := hp
      exact ⟨hi, by rw [(hk _).1]; exact hpfd, by rw [(hk _).2.2]; exact hc⟩
    | _ => exact hp
  · rw [(hk 0).1]
    exact ht.listen
  · rw [(hk i).1]
    rw [(hk i).2.1] at hi
    exact ht.revents i hi

/-! ## The books of a step -/

theorem tenant_onSlot (i : Nat) (f : Slot → Slot) :
    tenant ∘ (onSlot i f s).slot =
      Function.update (tenant ∘ s.slot) i (tenant (f (s.slot i))) :=
  Function.comp_update ..

theorem tenant_onSlot_same {i : Nat} {f : Slot → Slot} (hf : ∀ x, tenant (f x) = tenant x) :
    tenant ∘ (onSlot i f s).slot = tenant ∘ s.slot := by
  rw [tenant_onSlot, hf]
  exact Function.update_eq_self ..

theorem quiet_books (hs : tenant ∘ s'.slot = tenant ∘ s.slot) (hw : s'.works = s.works)
    (ht : s'.tears = s.tears) (hc : s'.pc.closing = s.pc.closing) (he : s'.ended = s.ended)
    (ho : s'.torn = s.torn) (hn : s'.conns = s.conns) : Books.Step s.books s'.books := by
  have heq : s'.books = s.books := Books.ext hs hw ht hc he ho hn
  rw [heq]
  exact .quiet fun _ => .inl rfl

/-- What worker `k` holds beside the others. -/
theorem worker_sums {k : Nat} {a : Worker} (hk : s.workers[k]? = some a) :
    ∃ W T, s.works = a.works + W ∧ s.tears = a.tears + T ∧
      ∀ b, (s.setWorker k b).works = b.works + W ∧ (s.setWorker k b).tears = b.tears + T := by
  obtain ⟨W, hW, hW'⟩ := sum_set Worker.works hk
  obtain ⟨T, hT, hT'⟩ := sum_set Worker.tears hk
  refine ⟨s.pc.works + (s.wrklist : Multiset Work) + W, s.pc.tears + T, ?_, ?_, fun b => ⟨?_, ?_⟩⟩
  · rw [works, hW]
    exact add_left_comm _ _ _
  · rw [tears, hT]
    exact add_left_comm _ _ _
  · rw [works]
    show s.pc.works + (s.wrklist : Multiset Work) + ((s.workers.set k b).map Worker.works).sum = _
    rw [hW']
    exact add_left_comm _ _ _
  · rw [tears]
    show s.pc.tears + ((s.workers.set k b).map Worker.tears).sum = _
    rw [hT']
    exact add_left_comm _ _ _

/-! ## Dropping a reference and tearing down -/

/-- What `spcrelease` leaves in its caller's hands. -/
def pending (r : System × Option Tear) : Multiset Tear := r.2.elim 0 ({·})

theorem spcrelease_frame (i : Nat) : ∃ slot r, spcrelease i s = ({ s with slot := slot }, r) ∧
    Keeps s.slot slot := by
  unfold spcrelease
  simp only
  have hk : Keeps s.slot (onSlot i (fun x => { x with refcnt := x.refcnt - 1 }) s).slot :=
    keeps_onSlot fun _ => ⟨rfl, rfl, rfl⟩
  split
  · exact ⟨_, _, rfl, hk⟩
  · exact ⟨_, _, rfl, hk⟩

theorem spcrelease_slots (i : Nat) : (spcrelease i s).1.slot =
    (onSlot i (fun x => { x with refcnt := x.refcnt - 1 }) s).slot := by
  unfold spcrelease
  simp only
  split <;> rfl

theorem spcrelease_books {i : Nat} {works : Multiset Work} {closing : Option Nat}
    (hstep : Books.Step s.books (s.books.drop i works closing)) (hw : s'.works = works)
    (hc : s'.pc.closing = closing)
    (hs : s'.slot = (spcrelease i s).1.slot) (ht : s'.tears = pending (spcrelease i s) + s.tears)
    (he : s'.ended = s.ended) (ho : s'.torn = s.torn) (hn : s'.conns = s.conns) :
    Books.Step s.books s'.books := by
  have hself : ((onSlot i (fun x => { x with refcnt := x.refcnt - 1 }) s).slot i).refcnt =
      (s.slot i).refcnt - 1 := by
    simp [onSlot]
  have hconn : ((onSlot i (fun x => { x with refcnt := x.refcnt - 1 }) s).slot i).conn =
      (s.slot i).conn := by
    simp [onSlot]
  have heq : s'.books = s.books.drop i works closing := by
    refine Books.ext ?_ hw ?_ hc he ho hn
    · show tenant ∘ s'.slot = _
      rw [hs, spcrelease_slots, tenant_onSlot]
      rfl
    · show s'.tears = if (s.slot i).refcnt - 1 > 0 then s.tears
        else (⟨i, (s.slot i).conn, .mainlwp⟩ : Tear) ::ₘ s.tears
      rw [ht]
      unfold spcrelease pending
      simp only [hself, hconn]
      split
      · exact zero_add _
      · rfl
  rw [heq]
  exact hstep

theorem tearDown_frame (t : Tear) : ∃ slot disco torn, tearDown t s =
    { s with slot := slot, disco := disco, torn := torn } ∧ Keeps s.slot slot := by
  unfold tearDown
  cases t.phase with
  | mainlwp => exact ⟨_, _, _, rfl, keeps_onSlot fun _ => ⟨rfl, rfl, rfl⟩⟩
  | close => exact ⟨_, _, _, rfl, keeps_onSlot fun _ => ⟨rfl, rfl, rfl⟩⟩
  | renew => exact ⟨_, _, _, rfl, keeps_onSlot fun _ => ⟨rfl, rfl, rfl⟩⟩
  | signal => exact ⟨_, _, _, rfl, Keeps.refl _⟩

theorem tearDown_books {t : Tear} {rest : Multiset Tear} (hmem : s.tears = t ::ₘ rest)
    (hw : s'.works = s.works)
    (hc : s'.pc.closing = s.pc.closing) (hs : s'.slot = (tearDown t s).slot)
    (ht : s'.tears = t.next.elim rest (· ::ₘ rest)) (he : s'.ended = s.ended)
    (ho : s'.torn = (tearDown t s).torn) (hn : s'.conns = s.conns) :
    Books.Step s.books s'.books := by
  have heq : s'.books = s.books.tearDown t rest := by
    refine Books.ext ?_ hw ht hc he ?_ hn
    · show tenant ∘ s'.slot = if t.phase = .renew then Function.update (tenant ∘ s.slot) t.slot
        { (tenant ∘ s.slot) t.slot with state := .new } else tenant ∘ s.slot
      rw [hs]
      unfold tearDown
      cases t.phase with
      | mainlwp => exact tenant_onSlot_same (f := fun x => { x with mainlwp := none }) fun _ => rfl
      | close => exact tenant_onSlot_same (f := fun x => { x with fd := none }) fun _ => rfl
      | renew => exact tenant_onSlot (s := s) t.slot fun x => { x with state := .new }
      | signal => rfl
    · show s'.torn = s.torn ++
        [(t.phase, if t.phase = .signal then t.conn else (s.slot t.slot).conn)]
      rw [ho]
      unfold tearDown
      cases t.phase <;> rfl
  rw [heq]
  exact .tear hmem

/-! ## The workers -/

section Workers

variable {k : Nat} {a : Worker}

/-- A worker moves without touching the table. -/
theorem move_books {b : Worker} (hk : s.workers[k]? = some a) (hw : b.works = a.works)
    (ht : b.tears = a.tears) : Books.Step s.books (s.setWorker k b).books := by
  obtain ⟨W, T, hW, hT, hset⟩ := worker_sums hk
  refine quiet_books rfl ?_ ?_ rfl rfl rfl rfl
  · rw [(hset b).1, hW, hw]
  · rw [(hset b).2, hT, ht]

theorem fetch_books (hk : s.workers[k]? = some a) (hw : a.works = 0) (ht : a.tears = 0) :
    Books.Step s.books (fetch k s).books := by
  unfold fetch
  split
  · exact move_books hk hw.symm ht.symm
  · rename_i w ws hlist
    have hsame : ∀ b : Worker, b.works = {w} → b.tears = 0 → Books.Step s.books (setWorker k b
        { s with wrklist := ws, idleworker := s.idleworker - 1, nwork := s.nwork - 1 }).books := by
      intro b hb hbt
      obtain ⟨r, hr, hset⟩ := sum_set Worker.works hk
      obtain ⟨W, T, _, hT, hset'⟩ := worker_sums hk
      refine quiet_books rfl ?_ ?_ rfl rfl rfl rfl
      · show s.pc.works + (ws : Multiset Work) + ((s.workers.set k b).map Worker.works).sum = _
        rw [works, hset b, hr, hb, hw, hlist, zero_add, ← Multiset.cons_coe,
          ← Multiset.singleton_add, add_assoc, add_assoc, add_left_comm (ws : Multiset Work),
          add_assoc]
      · exact ((hset' b).2.trans (by rw [hbt, ← ht])).trans hT.symm
    simp only
    cases w.sba.type with
    | syscall => exact hsame _ rfl rfl
    | exec => exact hsame _ rfl rfl

theorem fetch_frame : (fetch k s).slot = s.slot ∧ (fetch k s).pc = s.pc ∧
    (fetch k s).spfini = s.spfini := by
  unfold fetch
  split <;> exact ⟨rfl, rfl, rfl⟩

/-- What a worker tears down is under way. -/
theorem tear_mem {t : Tear} (hk : s.workers[k]? = some (.tear t)) : t ∈ s.tears := by
  obtain ⟨W, T, _, hT, _⟩ := worker_sums hk
  rw [hT]
  exact Multiset.mem_add.mpr (.inl (Multiset.mem_singleton_self t))

/-- So is what `spserver` tears down. -/
theorem pc_tear_mem {t : Tear} {k : Pc} (hpc : s.pc = .tear t k) : t ∈ s.tears := by
  rw [tears, hpc]
  exact Multiset.mem_add.mpr (.inl (Multiset.mem_singleton_self t))

/-- What a worker may do. -/
inductive Working (cfg : Config) (k : Nat) (s : System) : System → Prop
  | retire (hk : s.workers[k]? = some .start) (h : s.idleworker - s.nwork ≥ cfg.idleworker) :
      Working cfg k s (setWorker k .gone { s with nworker := s.nworker - 1 })
  | start (hk : s.workers[k]? = some .start) (h : ¬s.idleworker - s.nwork ≥ cfg.idleworker) :
      Working cfg k s (fetch k { s with idleworker := s.idleworker + 1 })
  | wake {kicked : Bool} (hk : s.workers[k]? = some (.waiting kicked)) :
      Working cfg k s (fetch k s)
  | syscall {w : Work} (hk : s.workers[k]? = some (.syscall w)) :
      Working cfg k s (setWorker k (.release w) s)
  | exec {w : Work} (hk : s.workers[k]? = some (.exec w)) (h : ¬(s.slot w.spc).refcnt > 2) :
      Working cfg k s (setWorker k (.notify w) s)
  | notify {w : Work} (hk : s.workers[k]? = some (.notify w)) :
      Working cfg k s
        (setWorker k (.release w) (onSlot w.spc (fun x => { x with inexec := false }) s))
  | release {w : Work} {slot : Nat → Slot} {r : Option Tear}
      (hk : s.workers[k]? = some (.release w)) (hr : spcrelease w.spc s = ({ s with slot := slot }, r))
      (hkeep : Keeps s.slot slot) :
      Working cfg k s (setWorker k (r.elim .start .tear) { s with slot := slot })
  | tear {t : Tear} {x : Worker} (hk : s.workers[k]? = some (.tear t))
      (hx : x = t.next.elim .start .tear) : Working cfg k s (setWorker k x (tearDown t s))

theorem workerStep_inv (h : workerStep cfg k s = some s') : Working cfg k s s' := by
  unfold workerStep at h
  cases hk : s.workers[k]? with
  | none => simp [hk] at h
  | some a =>
    simp only [hk] at h
    cases a with
    | start =>
      simp only at h
      split at h
      next hidle =>
        cases h
        exact .retire hk hidle
      next hidle =>
        cases h
        exact .start hk hidle
    | waiting kicked =>
      cases h
      exact .wake hk
    | syscall w =>
      cases h
      exact .syscall hk
    | exec w =>
      simp only at h
      split at h
      · cases h
      next hlow =>
        cases h
        exact .exec hk hlow
    | notify w =>
      cases h
      exact .notify hk
    | release w =>
      obtain ⟨slot, r, hr, hkeep⟩ := spcrelease_frame (s := s) w.spc
      simp only [hr] at h
      cases r with
      | none =>
        cases h
        exact .release hk hr hkeep
      | some t =>
        cases h
        exact .release hk hr hkeep
    | tear t =>
      cases h
      refine .tear hk ?_
      cases t.next <;> rfl
    | gone => cases h

/-- Every step of a worker is a step of the books. -/
theorem worker_books (ht : Tame fini s) (h : workerStep cfg k s = some s') :
    Tame fini s' ∧ Books.Step s.books s'.books := by
  cases workerStep_inv h with
  | retire hk => exact ⟨ht.keeps (Keeps.refl _) rfl ht.plain, move_books hk rfl rfl⟩
  | start hk =>
    obtain ⟨hs, hp, hf⟩ := fetch_frame (k := k) (s := { s with idleworker := s.idleworker + 1 })
    refine ⟨ht.keeps (by rw [hs]; exact Keeps.refl _) hf (by rw [hp]; exact ht.plain), ?_⟩
    exact fetch_books (s := { s with idleworker := s.idleworker + 1 }) hk rfl rfl
  | wake hk =>
    obtain ⟨hs, hp, hf⟩ := fetch_frame (k := k) (s := s)
    exact ⟨ht.keeps (by rw [hs]; exact Keeps.refl _) hf (by rw [hp]; exact ht.plain),
      fetch_books hk rfl rfl⟩
  | syscall hk => exact ⟨ht.keeps (Keeps.refl _) rfl ht.plain, move_books hk rfl rfl⟩
  | exec hk => exact ⟨ht.keeps (Keeps.refl _) rfl ht.plain, move_books hk rfl rfl⟩
  | notify hk =>
    obtain ⟨W, T, hW, hT, hset⟩ := worker_sums hk
    refine ⟨ht.keeps (keeps_onSlot (f := fun x => { x with inexec := false })
      fun _ => ⟨rfl, rfl, rfl⟩) rfl ht.plain, ?_⟩
    refine quiet_books (tenant_onSlot_same (f := fun x => { x with inexec := false })
      fun _ => rfl) ?_ ?_ rfl rfl rfl rfl
    · exact (hset _).1.trans hW.symm
    · exact (hset _).2.trans hT.symm
  | @release w slot r hk hr hkeep =>
    obtain ⟨W, T, hW, hT, hset⟩ := worker_sums hk
    have hstep : Books.Step s.books (s.books.drop w.spc W s.books.closing) :=
      .finish (hW.trans (Multiset.singleton_add w W))
    have hworks : (r.elim Worker.start Worker.tear).works = 0 := by cases r <;> rfl
    have htears : (r.elim Worker.start Worker.tear).tears = r.elim 0 ({·}) := by cases r <;> rfl
    refine ⟨ht.keeps hkeep rfl ht.plain, ?_⟩
    refine spcrelease_books hstep ?_ rfl (by rw [hr]; rfl) ?_ rfl rfl rfl
    · exact (hset _).1.trans (by rw [hworks, zero_add])
    · rw [hr, hT]
      exact (hset _).2.trans (by rw [htears, pending]; exact congrArg _ (zero_add T).symm)
  | @tear t x hk hx =>
    obtain ⟨W, T, hW, hT, hset⟩ := worker_sums hk
    obtain ⟨slot, disco, torn, hd, hkeep⟩ := tearDown_frame (s := s) t
    rw [hd]
    refine ⟨ht.keeps hkeep rfl ht.plain, ?_⟩
    refine tearDown_books (hT.trans (Multiset.singleton_add t T)) ?_ rfl (by rw [hd]; rfl) ?_ rfl
      (by rw [hd]; rfl) rfl
    · refine (hset x).1.trans (Eq.trans ?_ hW.symm)
      rw [hx]
      cases t.next <;> rfl
    · refine (hset x).2.trans ?_
      rw [hx]
      cases t.next with
      | none => exact zero_add T
      | some t' => exact Multiset.singleton_add t' T

end Workers

/-! ## The main loop -/

theorem handleconn_frame (cfg : Config) (newfd : Option Nat) :
    ∃ pc, handleconn cfg newfd s = { s with pc := pc } ∧ (pc = .next ∨ ∃ fd, pc = .scan fd 0) := by
  unfold handleconn
  split
  · exact ⟨_, rfl, .inl rfl⟩
  split
  · exact ⟨_, rfl, .inl rfl⟩
  · exact ⟨_, rfl, .inr ⟨_, rfl⟩⟩

theorem enqueue_frame {w : Work} {kick : Nat} {created : Bool}
    (h : enqueue cfg w kick created s = some s') :
    ∃ ws n, s' = { s with
      wrklist := s.wrklist ++ [w], nwork := s.nwork + 1, workers := ws, nworker := n
      pc := .next } := by
  unfold enqueue at h
  simp only at h
  split at h
  · obtain ⟨ws, _, rfl⟩ := Option.map_eq_some_iff.mp h
    exact ⟨_, _, rfl⟩
  split at h
  · cases h
    exact ⟨_, _, rfl⟩
  · cases h
    exact ⟨_, _, rfl⟩

/-- A complete frame changes its slot as `dispatch` says, and goes on to the next
slot or with an item. -/
theorem frame_inv {w : Server} (h : frame w s = some s') :
    ∃ w' pc, dispatch (view w s) = .ok w' ∧
      s' = { onSlot s.idx (fun x => { x with
        state := w'.spc.state
        mainlwp := w'.spc.mainlwp
        inexec := w'.spc.inexec }) s with pc := pc } ∧
      (w'.wrklist = [] ∧ pc = .next ∨ ∃ sba rest, w'.wrklist = sba :: rest ∧
        pc = .ref ⟨s.idx, (s.slot s.idx).conn, sba⟩) := by
  unfold frame at h
  cases hd : dispatch (view w s) with
  | error e => simp [hd] at h
  | ok w' =>
    simp only [hd] at h
    cases hw : w'.wrklist with
    | nil =>
      simp only [hw] at h
      cases h
      exact ⟨w', _, rfl, rfl, .inl ⟨hw, rfl⟩⟩
    | cons sba rest =>
      simp only [hw] at h
      cases h
      refine ⟨w', _, rfl, rfl, .inr ⟨sba, rest, hw, ?_⟩⟩
      simp [onSlot]

/-- What a round of the loop over `pfdlist` may do. -/
inductive Rounding (cfg : Config) (s : System) : Event → System → Prop
  | finished (h : ¬(s.seen < s.rv ∧ s.idx < cfg.maxcli)) : Rounding cfg s .go { s with pc := .top }
  | quiet (hrev : (s.slot s.idx).revents = false) : Rounding cfg s .go { s with pc := .next }
  | part (hidx : 0 < s.idx) (hrev : (s.slot s.idx).revents = true) :
      Rounding cfg s .part { s with seen := s.seen + 1, pc := .next }
  | eof (hidx : 0 < s.idx) (hrev : (s.slot s.idx).revents = true) :
      Rounding cfg s .eof
        { discoLock s.idx { s with seen := s.seen + 1 } with pc := .wipe s.idx .next }
  | frame {w : Server} {s' : System} (hidx : 0 < s.idx) (hrev : (s.slot s.idx).revents = true)
      (h : System.frame w { s with seen := s.seen + 1 } = some s') : Rounding cfg s (.frame w) s'
  | fini {newfd : Option Nat} (hf : s.spfini = true) :
      Rounding cfg s (.accept newfd) { s with seen := s.seen + 1, pc := .shutdown 1 }
  | accept {newfd : Option Nat} (hf : ¬s.spfini = true) :
      Rounding cfg s (.accept newfd) (handleconn cfg newfd { s with seen := s.seen + 1 })

theorem eachStep_inv (h : eachStep cfg e s = some s') : Rounding cfg s e s' := by
  unfold eachStep at h
  split at h
  next hover =>
    cases e with
    | go =>
      cases h
      exact .finished hover
    | _ => cases h
  split at h
  next hrev =>
    cases e with
    | go =>
      cases h
      exact .quiet hrev
    | _ => cases h
  next hrev =>
    replace hrev : (s.slot s.idx).revents = true := by simpa using hrev
    simp only at h
    split at h
    next hidx =>
      cases e with
      | part =>
        cases h
        exact .part hidx hrev
      | eof =>
        cases h
        exact .eof hidx hrev
      | frame w => exact .frame hidx hrev h
      | _ => cases h
    next =>
      cases e with
      | accept newfd =>
        simp only at h
        split at h
        next hf =>
          cases h
          exact .fini hf
        next hf =>
          cases h
          exact .accept hf
      | _ => cases h

/-- What `spserver` may do. -/
inductive Serving (cfg : Config) (s : System) : Event → System → Prop
  | top (hpc : s.pc = .top) :
      Serving cfg s .go { collect s.disco { s with disco := 0 } with pc := .poll }
  | poll {ready : Nat → Bool} {rv : Nat} (hpc : s.pc = .poll) :
      Serving cfg s (.poll ready rv)
        { s with slot := polled ready s, rv := rv, seen := 0, idx := 0, pc := .each }
  | pollIntr (hpc : s.pc = .poll) : Serving cfg s .pollIntr { s with pc := .top }
  | pollFail (hpc : s.pc = .poll) : Serving cfg s .pollFail { s with pc := .exited }
  | each {e : Event} {s' : System} (hpc : s.pc = .each) (h : Rounding cfg s e s') :
      Serving cfg s e s'
  | next (hpc : s.pc = .next) : Serving cfg s .go { s with idx := s.idx + 1, pc := .each }
  | scan {newfd i : Nat} (hpc : s.pc = .scan newfd i) :
      Serving cfg s .go (System.scan cfg newfd i s)
  | ref {w : Work} (hpc : s.pc = .ref w) :
      Serving cfg s .go { spcref w.spc s with pc := .queue w }
  | queue {w : Work} {kick : Nat} {created : Bool} {s' : System} (hpc : s.pc = .queue w)
      (h : enqueue cfg w kick created s = some s') : Serving cfg s (.enqueue kick created) s'
  | wipe {i : Nat} {k : Pc} (hpc : s.pc = .wipe i k) :
      Serving cfg s .go { discoWipe i s with pc := .release i k }
  | release {i : Nat} {k : Pc} {slot : Nat → Slot} {r : Option Tear} (hpc : s.pc = .release i k)
      (hr : spcrelease i s = ({ s with slot := slot }, r)) (hkeep : Keeps s.slot slot) :
      Serving cfg s .go { s with slot := slot, pc := r.elim k fun t => .tear t k }
  | tear {t : Tear} {k pc : Pc} (hpc : s.pc = .tear t k)
      (hnext : pc = t.next.elim k fun t => .tear t k) :
      Serving cfg s .go { tearDown t s with pc := pc }
  | shutdown {i : Nat} (hpc : s.pc = .shutdown i) : Serving cfg s .go (shutdownStep cfg i s)

theorem mainStep_inv (h : mainStep cfg e s = some s') : Serving cfg s e s' := by
  unfold mainStep at h
  split at h
  next hpc =>
    cases h
    exact .top hpc
  next hpc =>
    split at h
    · cases h
    · cases h
      exact .poll hpc
  next hpc =>
    cases h
    exact .pollIntr hpc
  next hpc =>
    cases h
    exact .pollFail hpc
  next hpc => exact .each hpc (eachStep_inv h)
  next hpc =>
    cases h
    exact .next hpc
  next hpc =>
    cases h
    exact .scan hpc
  next hpc =>
    cases h
    exact .ref hpc
  next hpc => exact .queue hpc h
  next hpc =>
    cases h
    exact .wipe hpc
  next i k hpc =>
    obtain ⟨slot, r, hr, hkeep⟩ := spcrelease_frame (s := s) i
    simp only [hr] at h
    cases r with
    | none =>
      cases h
      exact .release hpc hr hkeep
    | some t =>
      cases h
      exact .release hpc hr hkeep
  next t k hpc =>
    cases h
    refine .tear hpc ?_
    cases t.next <;> rfl
  next hpc =>
    cases h
    exact .shutdown hpc
  next => cases h

theorem collect_frame (n : Nat) :
    ∃ nfds maxidx, collect n s = { s with nfds := nfds, maxidx := maxidx } := by
  induction n generalizing s with
  | zero => exact ⟨s.nfds, s.maxidx, rfl⟩
  | succ n ih =>
    obtain ⟨nfds, maxidx, h⟩ := ih (s := { s with
      nfds := if s.nfds = 0 then 4294967295 else s.nfds - 1
      maxidx := lastOpen s.slot s.maxidx s.maxidx })
    exact ⟨nfds, maxidx, h⟩

/-- `spserver` moves without touching the table. -/
theorem hop_books {pc : Pc} {nfds maxidx disco seen rv idx : Nat} (hp : pc.works = s.pc.works)
    (ht : pc.tears = s.pc.tears) (hc : pc.closing = s.pc.closing) :
    Books.Step s.books { s with
      pc := pc, nfds := nfds, maxidx := maxidx, disco := disco, seen := seen, rv := rv
      idx := idx }.books := by
  refine quiet_books rfl ?_ ?_ hc rfl rfl rfl
  · show pc.works + _ + _ = s.pc.works + _ + _
    rw [hp]
  · show pc.tears + _ = s.pc.tears + _
    rw [ht]

theorem Tame.hop (ht : Tame fini s) {pc : Pc} {nfds maxidx disco seen rv idx : Nat}
    (hp : Plain s.slot pc) : Tame fini { s with
      pc := pc, nfds := nfds, maxidx := maxidx, disco := disco, seen := seen, rv := rv
      idx := idx } :=
  ht.keeps (Keeps.refl _) rfl hp

theorem poll_books (ht : Tame fini s) (hpc : s.pc = .poll) {ready : Nat → Bool} {rv : Nat} :
    Tame fini { s with slot := polled ready s, rv := rv, seen := 0, idx := 0, pc := .each } ∧
      Books.Step s.books
        { s with slot := polled ready s, rv := rv, seen := 0, idx := 0, pc := .each }.books := by
  have hpoll : ∀ i, (polled ready s i).pfd = (s.slot i).pfd ∧
      tenant (polled ready s i) = tenant (s.slot i) ∧
      ((polled ready s i).revents = true → (s.slot i).pfd.isSome = true) := by
    intro i
    unfold polled
    split
    · exact ⟨rfl, rfl, fun h => (Bool.and_eq_true_iff.mp h).2⟩
    · exact ⟨rfl, rfl, ht.revents i⟩
  refine ⟨⟨ht.calm, trivial, ?_, fun i hi => ?_⟩, ?_⟩
  · rw [show _ = (s.slot 0).pfd from (hpoll 0).1]
    exact ht.listen
  · rw [show _ = (s.slot i).pfd from (hpoll i).1]
    exact (hpoll i).2.2 hi
  · refine quiet_books (funext fun i => (hpoll i).2.1) ?_ ?_ ?_ rfl rfl rfl
    · show Pc.works .each + _ + _ = s.pc.works + _ + _
      rw [hpc]
      rfl
    · show Pc.tears .each + _ = s.pc.tears + _
      rw [hpc]
      rfl
    · rw [hpc]
      rfl

/-- The first part of a disconnect. -/
theorem eof_books (ht : Tame fini s) (hpc : s.pc = .each) (hi : 0 < s.idx)
    (hrev : (s.slot s.idx).revents = true) {seen : Nat} :
    Tame fini { discoLock s.idx { s with seen := seen } with pc := .wipe s.idx .next } ∧
      Books.Step s.books
        { discoLock s.idx { s with seen := seen } with pc := .wipe s.idx .next }.books := by
  have hne : s.idx ≠ 0 := Nat.ne_of_gt hi
  refine ⟨⟨ht.calm, ⟨hne, rfl⟩, ?_, fun i hrev' => ?_⟩, ?_⟩
  · show (Function.update s.slot s.idx _ 0).pfd.isSome = true
    rw [Function.update_of_ne (Ne.symm hne)]
    exact ht.listen
  · replace hrev' : (Function.update s.slot s.idx
      { s.slot s.idx with pfd := none, revents := false, state := .dying } i).revents = true := hrev'
    show (Function.update s.slot s.idx
      { s.slot s.idx with pfd := none, revents := false, state := .dying } i).pfd.isSome = true
    by_cases hii : i = s.idx
    · rw [hii, Function.update_self] at hrev'
      cases hrev'
    · rw [Function.update_of_ne hii] at hrev' ⊢
      exact ht.revents i hrev'
  · have hleave : Books.Step s.books { s.books with
        slot := Function.update s.books.slot s.idx
          { s.books.slot s.idx with taken := false, state := .dying }
        closing := some s.idx
        ended := s.books.ended ++ [(s.books.slot s.idx).conn] } := by
      refine .leave hne (ht.revents s.idx hrev) ?_
      show s.pc.closing = none
      rw [hpc]
      rfl
    have heq : { discoLock s.idx { s with seen := seen } with pc := .wipe s.idx .next }.books =
        { s.books with
          slot := Function.update s.books.slot s.idx
            { s.books.slot s.idx with taken := false, state := .dying }
          closing := some s.idx
          ended := s.books.ended ++ [(s.books.slot s.idx).conn] } := by
      refine Books.ext ?_ ?_ ?_ rfl rfl rfl rfl
      · exact tenant_onSlot (s := { s with seen := seen }) s.idx
          fun x => { x with pfd := none, revents := false, state := .dying }
      · show Pc.works (.wipe s.idx .next) + _ + _ = s.pc.works + _ + _
        rw [hpc]
        rfl
      · show Pc.tears (.wipe s.idx .next) + _ = s.pc.tears + _
        rw [hpc]
        rfl
    rw [heq]
    exact hleave

/-- A handshake can change the state of its slot; nothing else of a frame
concerns the books. -/
theorem frame_books (ht : Tame fini s) (hpc : s.pc = .each) (hi : 0 < s.idx)
    (hrev : (s.slot s.idx).revents = true) {w : Server} (h : frame w s = some s') :
    Tame fini s' ∧ Books.Step s.books s'.books := by
  obtain ⟨w', pc, -, hs', hpc'⟩ := frame_inv h
  generalize hf : (fun x : Slot => { x with
    state := w'.spc.state
    mainlwp := w'.spc.mainlwp
    inexec := w'.spc.inexec }) = f at hs'
  have hten : ∀ x, tenant (f x) = { tenant x with state := w'.spc.state } := by
    rw [← hf]
    exact fun _ => rfl
  have hkeep : Keeps s.slot (onSlot s.idx f s).slot := by
    rw [← hf]
    exact keeps_onSlot fun _ => ⟨rfl, rfl, rfl⟩
  have hquiet : Books.Step s.books { s.books with slot := tenant ∘ (onSlot s.idx f s).slot } := by
    refine .quiet fun i => ?_
    rw [tenant_onSlot]
    by_cases hii : i = s.idx
    · subst hii
      rw [Function.update_self, hten]
      exact .inr ⟨ht.revents s.idx hrev, w'.spc.state, rfl⟩
    · rw [Function.update_of_ne hii]
      exact .inl rfl
  have hmove : ∀ pc : Pc, Plain s.slot pc → pc.works = 0 → pc.tears = 0 → pc.closing = none →
      Tame fini { onSlot s.idx f s with pc := pc } ∧
      Books.Step s.books { onSlot s.idx f s with pc := pc }.books := by
    intro pc hp hw htear hc
    refine ⟨ht.keeps hkeep rfl hp, ?_⟩
    have heq : { onSlot s.idx f s with pc := pc }.books =
        { s.books with slot := tenant ∘ (onSlot s.idx f s).slot } := by
      refine Books.ext rfl ?_ ?_ ?_ rfl rfl rfl
      · show pc.works + _ + _ = s.pc.works + _ + _
        rw [hpc, hw]
        rfl
      · show pc.tears + _ = s.pc.tears + _
        rw [hpc, htear]
        rfl
      · show pc.closing = s.pc.closing
        rw [hpc, hc]
        rfl
    rw [heq]
    exact hquiet
  rw [hs']
  rcases hpc' with ⟨-, rfl⟩ | ⟨sba, rest, -, rfl⟩
  · exact hmove .next trivial rfl rfl rfl
  · exact hmove (.ref ⟨s.idx, _, sba⟩) ⟨Nat.ne_of_gt hi, ht.revents s.idx hrev, rfl⟩ rfl rfl rfl

theorem occupy_books (ht : Tame fini s) {newfd i : Nat} (hpc : s.pc = .scan newfd i)
    (hfree : isFree (s.slot i) = true) :
    Tame fini (occupy newfd i s) ∧ Books.Step s.books (occupy newfd i s).books := by
  obtain ⟨hpfd, hst⟩ : (s.slot i).pfd = none ∧ (s.slot i).state = .new := by
    simpa [isFree] using hfree
  have hi : i ≠ 0 := by
    rintro rfl
    have hl := ht.listen
    rw [hpfd] at hl
    cases hl
  refine ⟨⟨ht.calm, trivial, ?_, fun j hj => ?_⟩, ?_⟩
  · show (Function.update s.slot i _ 0).pfd.isSome = true
    rw [Function.update_of_ne (Ne.symm hi)]
    exact ht.listen
  · replace hj : (Function.update s.slot i { s.slot i with
        pfd := some newfd, fd := some newfd, refcnt := 1, conn := s.conns + 1 } j).revents = true :=
      hj
    show (Function.update s.slot i { s.slot i with
        pfd := some newfd, fd := some newfd, refcnt := 1, conn := s.conns + 1 } j).pfd.isSome = true
    by_cases hji : j = i
    · rw [hji, Function.update_self]
      rfl
    · rw [Function.update_of_ne hji] at hj ⊢
      exact ht.revents j hj
  · have hconnect : Books.Step s.books { s.books with
        slot := Function.update s.books.slot i ⟨true, .new, 1, s.books.conns + 1⟩
        conns := s.books.conns + 1 } := by
      refine .connect hi ?_ hst
      show (s.slot i).pfd.isSome = false
      rw [hpfd]
      rfl
    have heq : (occupy newfd i s).books = { s.books with
        slot := Function.update s.books.slot i ⟨true, .new, 1, s.books.conns + 1⟩
        conns := s.books.conns + 1 } := by
      refine Books.ext ?_ ?_ ?_ ?_ rfl rfl rfl
      · refine (tenant_onSlot (s := s) i fun x => { x with
          pfd := some newfd, fd := some newfd, refcnt := 1, conn := s.conns + 1 }).trans ?_
        simp only [tenant, hst]
        rfl
      · show Pc.works .next + _ + _ = s.pc.works + _ + _
        rw [hpc]
        rfl
      · show Pc.tears .next + _ = s.pc.tears + _
        rw [hpc]
        rfl
      · show Pc.closing .next = s.pc.closing
        rw [hpc]
        rfl
    rw [heq]
    exact hconnect

theorem ref_books (ht : Tame fini s) {w : Work} (hpc : s.pc = .ref w) :
    Tame fini { spcref w.spc s with pc := .queue w } ∧
      Books.Step s.books { spcref w.spc s with pc := .queue w }.books := by
  have hplain := ht.plain
  rw [hpc] at hplain
  have hkeep : Keeps s.slot (spcref w.spc s).slot := keeps_onSlot fun _ => ⟨rfl, rfl, rfl⟩
  refine ⟨ht.keeps hkeep rfl hplain, ?_⟩
  obtain ⟨hi, hpfd, hc⟩ := hplain
  have htake : Books.Step s.books { s.books with
      slot := Function.update s.books.slot w.spc
        { s.books.slot w.spc with refcnt := (s.books.slot w.spc).refcnt + 1 }
      works := w ::ₘ s.books.works } := .take hi hpfd hc
  have heq : { spcref w.spc s with pc := .queue w }.books = { s.books with
      slot := Function.update s.books.slot w.spc
        { s.books.slot w.spc with refcnt := (s.books.slot w.spc).refcnt + 1 }
      works := w ::ₘ s.books.works } := by
    refine Books.ext ?_ ?_ ?_ ?_ rfl rfl rfl
    · exact tenant_onSlot (s := s) w.spc fun x => { x with refcnt := x.refcnt + 1 }
    · show {w} + _ + _ = w ::ₘ s.works
      rw [works, hpc, ← Multiset.singleton_add, add_assoc, add_assoc]
      exact congrArg _ (zero_add _).symm
    · show Pc.tears (.queue w) + _ = s.pc.tears + _
      rw [hpc]
      rfl
    · show Pc.closing (.queue w) = s.pc.closing
      rw [hpc]
      rfl
  rw [heq]
  exact htake

/-- A signal changes who sleeps and nothing of what anybody holds. -/
theorem sbaSignal_sums {kick : Nat} {ws ws' : List Worker} (h : sbaSignal kick ws = some ws') :
    (ws'.map Worker.works).sum = (ws.map Worker.works).sum ∧
      (ws'.map Worker.tears).sum = (ws.map Worker.tears).sum := by
  unfold sbaSignal at h
  split at h
  · cases hk : ws[kick]? with
    | none => simp [hk] at h
    | some a =>
      rw [hk] at h
      split at h
      · rename_i hs
        cases h
        obtain ⟨W, hW, hW'⟩ := sum_set Worker.works hk
        obtain ⟨T, hT, hT'⟩ := sum_set Worker.tears hk
        rw [hW, hW', hT, hT']
        cases a with
        | waiting kicked => exact ⟨rfl, rfl⟩
        | _ => exact absurd hs (by simp [Worker.asleep])
      · cases h
  · cases h
    exact ⟨rfl, rfl⟩

theorem enqueue_books (ht : Tame fini s) {w : Work} (hpc : s.pc = .queue w) {kick : Nat}
    {created : Bool} (h : enqueue cfg w kick created s = some s') :
    Tame fini s' ∧ Books.Step s.books s'.books := by
  have hmove : ∀ (ws : List Worker) (nw : Int),
      (ws.map Worker.works).sum = (s.workers.map Worker.works).sum →
      (ws.map Worker.tears).sum = (s.workers.map Worker.tears).sum →
      Tame fini { s with
        wrklist := s.wrklist ++ [w], nwork := s.nwork + 1, pc := .next, workers := ws
        nworker := nw } ∧
      Books.Step s.books { s with
        wrklist := s.wrklist ++ [w], nwork := s.nwork + 1, pc := .next, workers := ws
        nworker := nw }.books := by
    intro ws nw hws hwt
    refine ⟨ht.keeps (Keeps.refl _) rfl trivial, quiet_books rfl ?_ ?_ ?_ rfl rfl rfl⟩
    · show 0 + ((s.wrklist ++ [w] : List Work) : Multiset Work) + (ws.map Worker.works).sum = _
      rw [works, hws, hpc, ← Multiset.coe_add, zero_add, add_comm (s.wrklist : Multiset Work)]
      rfl
    · show 0 + (ws.map Worker.tears).sum = s.pc.tears + _
      rw [hwt, hpc]
      rfl
    · rw [hpc]
      rfl
  unfold enqueue at h
  simp only at h
  split at h
  · obtain ⟨ws, hws, rfl⟩ := Option.map_eq_some_iff.mp h
    obtain ⟨hW, hT⟩ := sbaSignal_sums hws
    exact hmove ws s.nworker hW hT
  · split at h
    · cases h
      refine hmove (s.workers ++ [.start]) (s.nworker + 1) ?_ ?_
      · rw [List.map_append, List.sum_append]
        exact add_zero _
      · rw [List.map_append, List.sum_append]
        exact add_zero _
    · cases h
      exact hmove s.workers s.nworker rfl rfl

/-- The connection's own reference is dropped. -/
theorem release_books (ht : Tame fini s) {i : Nat} {k : Pc} {slot : Nat → Slot} {r : Option Tear}
    (hpc : s.pc = .release i k) (hr : spcrelease i s = ({ s with slot := slot }, r))
    (hkeep : Keeps s.slot slot) :
    Tame fini { s with slot := slot, pc := r.elim k fun t => .tear t k } ∧
      Books.Step s.books { s with slot := slot, pc := r.elim k fun t => .tear t k }.books := by
  have hplain := ht.plain
  rw [hpc] at hplain
  obtain ⟨hi, rfl⟩ := hplain
  have hstep : Books.Step s.books (s.books.drop i s.books.works none) := by
    refine .left ?_
    show s.pc.closing = some i
    rw [hpc]
    rfl
  have hmove : ∀ pc : Pc, Plain s.slot pc → pc.works = 0 → pc.closing = none →
      pc.tears = r.elim 0 ({·}) → Tame fini { s with slot := slot, pc := pc } ∧
        Books.Step s.books { s with slot := slot, pc := pc }.books := by
    intro pc hp hw hc htear
    refine ⟨ht.keeps hkeep rfl hp, ?_⟩
    refine spcrelease_books hstep ?_ hc (by rw [hr]) ?_ rfl rfl rfl
    · show pc.works + _ + _ = s.pc.works + _ + _
      rw [hpc, hw]
      rfl
    · show pc.tears + _ = _ + (s.pc.tears + _)
      rw [hr, hpc, htear]
      exact congrArg _ (zero_add _).symm
  cases r with
  | none => exact hmove .next trivial rfl rfl rfl
  | some t => exact hmove (.tear t .next) rfl rfl rfl rfl

theorem tear_books (ht : Tame fini s) {t : Tear} {k pc : Pc} (hpc : s.pc = .tear t k)
    (hnext : pc = t.next.elim k fun t => .tear t k) :
    Tame fini { tearDown t s with pc := pc } ∧
      Books.Step s.books { tearDown t s with pc := pc }.books := by
  have hplain := ht.plain
  rw [hpc] at hplain
  have hk : k = .next := hplain
  subst hk
  obtain ⟨slot, disco, torn, hd, hkeep⟩ := tearDown_frame (s := s) t
  have hmem : s.tears = t ::ₘ (s.workers.map Worker.tears).sum := by
    rw [tears, hpc]
    exact Multiset.singleton_add ..
  have hmove : ∀ pc : Pc, Plain s.slot pc → pc.works = 0 → pc.closing = none →
      pc.tears = t.next.elim 0 ({·}) →
      Tame fini { s with slot := slot, disco := disco, torn := torn, pc := pc } ∧
        Books.Step s.books { s with slot := slot, disco := disco, torn := torn, pc := pc }.books := by
    intro pc hp hw hc htear
    refine ⟨ht.keeps hkeep rfl hp, ?_⟩
    refine tearDown_books hmem ?_ ?_ (by rw [hd]) ?_ rfl (by rw [hd]) rfl
    · show pc.works + _ + _ = s.pc.works + _ + _
      rw [hpc, hw]
      rfl
    · show pc.closing = s.pc.closing
      rw [hpc, hc]
      rfl
    · show pc.tears + _ = _
      rw [htear]
      cases t.next with
      | none => exact zero_add _
      | some t' => exact Multiset.singleton_add ..
  rw [hd, hnext]
  cases hn : t.next with
  | none => exact hmove .next trivial rfl rfl (by rw [hn]; rfl)
  | some t' => exact hmove (.tear t' .next) rfl rfl rfl (by rw [hn]; rfl)

/-- The server thread has turned to `serv_shutdown`. -/
def Halts (fini : Bool) (s : System) : Prop := fini = true ∧ s.pc = .shutdown 1

theorem each_books (ht : Tame fini s) (hpc : s.pc = .each) (h : Rounding cfg s e s') :
    Halts fini s' ∨ Tame fini s' ∧ Books.Step s.books s'.books := by
  have hhop : ∀ (pc : Pc) {seen : Nat}, Plain s.slot pc → pc.works = 0 → pc.tears = 0 →
      pc.closing = none → Tame fini { s with pc := pc, seen := seen } ∧
        Books.Step s.books { s with pc := pc, seen := seen }.books := by
    intro pc seen hp hw htear hc
    refine ⟨ht.hop hp, hop_books ?_ ?_ ?_⟩
    · rw [hpc, hw]
      rfl
    · rw [hpc, htear]
      rfl
    · rw [hpc, hc]
      rfl
  cases h with
  | finished => exact .inr <| hhop .top trivial rfl rfl rfl
  | quiet => exact .inr <| hhop .next trivial rfl rfl rfl
  | part => exact .inr <| hhop .next trivial rfl rfl rfl
  | eof hi hrev => exact .inr <| eof_books ht hpc hi hrev
  | frame hi hrev h =>
    have ht' : Tame fini { s with seen := s.seen + 1 } := ht.keeps (Keeps.refl _) rfl ht.plain
    exact .inr <| frame_books (s := { s with seen := s.seen + 1 }) ht' hpc hi hrev h
  | fini hf => exact .inl ⟨ht.calm.symm.trans hf, rfl⟩
  | @accept newfd =>
    obtain ⟨pc, hc, hpc'⟩ := handleconn_frame cfg newfd (s := { s with seen := s.seen + 1 })
    rw [hc]
    rcases hpc' with rfl | ⟨fd, rfl⟩
    · exact .inr <| hhop .next trivial rfl rfl rfl
    · exact .inr <| hhop (.scan fd 0) trivial rfl rfl rfl

theorem scan_books (ht : Tame fini s) {newfd i : Nat} (hpc : s.pc = .scan newfd i) :
    Tame fini (scan cfg newfd i s) ∧ Books.Step s.books (scan cfg newfd i s).books := by
  unfold scan
  split
  · exact ⟨ht.hop trivial, hop_books (by rw [hpc]; rfl) (by rw [hpc]; rfl) (by rw [hpc]; rfl)⟩
  split
  · rename_i hfree
    exact occupy_books ht hpc hfree
  · exact ⟨ht.hop trivial, hop_books (by rw [hpc]; rfl) (by rw [hpc]; rfl) (by rw [hpc]; rfl)⟩

/-- Every step of `spserver` is a step of the books. -/
theorem main_books (ht : Tame fini s) (h : mainStep cfg e s = some s') :
    Halts fini s' ∨ Tame fini s' ∧ Books.Step s.books s'.books := by
  have hhop : ∀ {pc : Pc} {nfds maxidx disco idx : Nat}, Plain s.slot pc → pc.works = s.pc.works →
      pc.tears = s.pc.tears → pc.closing = s.pc.closing →
      Tame fini { s with pc := pc, nfds := nfds, maxidx := maxidx, disco := disco, idx := idx } ∧
        Books.Step s.books
          { s with pc := pc, nfds := nfds, maxidx := maxidx, disco := disco, idx := idx }.books :=
    fun hp hw htear hc => ⟨ht.hop hp, hop_books hw htear hc⟩
  cases mainStep_inv h with
  | top hpc =>
    obtain ⟨nfds, maxidx, hc⟩ := collect_frame (s := { s with disco := 0 }) s.disco
    rw [hc]
    exact .inr <| hhop trivial (by rw [hpc]; rfl) (by rw [hpc]; rfl) (by rw [hpc]; rfl)
  | poll hpc => exact .inr <| poll_books ht hpc
  | pollIntr hpc =>
    exact .inr <| hhop trivial (by rw [hpc]; rfl) (by rw [hpc]; rfl) (by rw [hpc]; rfl)
  | pollFail hpc =>
    exact .inr <| hhop trivial (by rw [hpc]; rfl) (by rw [hpc]; rfl) (by rw [hpc]; rfl)
  | each hpc h => exact each_books ht hpc h
  | next hpc => exact .inr <| hhop trivial (by rw [hpc]; rfl) (by rw [hpc]; rfl) (by rw [hpc]; rfl)
  | scan hpc => exact .inr <| scan_books ht hpc
  | ref hpc => exact .inr <| ref_books ht hpc
  | queue hpc h => exact .inr <| enqueue_books ht hpc h
  | @wipe i k hpc =>
    have hplain := ht.plain
    rw [hpc] at hplain
    refine .inr ⟨ht.keeps (keeps_onSlot (f := fun x => { x with inexec := false })
      fun _ => ⟨rfl, rfl, rfl⟩) rfl hplain, ?_⟩
    refine quiet_books (tenant_onSlot_same (f := fun x => { x with inexec := false })
      fun _ => rfl) ?_ ?_ ?_ rfl rfl rfl
    · show Pc.works (.release i k) + _ + _ = s.pc.works + _ + _
      rw [hpc]
      rfl
    · show Pc.tears (.release i k) + _ = s.pc.tears + _
      rw [hpc]
      rfl
    · rw [hpc]
      rfl
  | release hpc hr hkeep => exact .inr <| release_books ht hpc hr hkeep
  | tear hpc hnext => exact .inr <| tear_books ht hpc hnext
  | shutdown hpc =>
    have hplain := ht.plain
    rw [hpc] at hplain
    cases hplain

/-- Every step of the system is a step of the books, until a shutdown. -/
theorem step_books (ht : Tame fini s) (h : step cfg s e = some s') :
    Halts fini s' ∨ Tame (fini || e.isFini) s' ∧ Books.Step s.books s'.books := by
  unfold step at h
  split at h
  · right
    show Tame (fini || false) s' ∧ _
    rw [Bool.or_false]
    exact worker_books ht h
  · cases h
    rw [show (fini || Event.isFini .fini) = true from Bool.or_true fini]
    exact .inr ⟨⟨rfl, ht.plain, ht.listen, ht.revents⟩, quiet_books rfl rfl rfl rfl rfl rfl rfl⟩
  · rename_i hw hf
    have he : e.isFini = false := by
      cases e with
      | fini => exact absurd rfl hf
      | _ => rfl
    rw [he, Bool.or_false]
    exact main_books ht h

theorem init_tame (sock : Nat) : Tame false (init sock) := by
  refine ⟨rfl, trivial, rfl, fun i hi => ?_⟩
  cases hi

theorem init_inv (sock : Nat) : Books.Inv (init sock).books where
  stands i hi := by
    refine .free ?_ rfl rfl rfl (by simp [Books.status, books, init, Pc.closing]) ?_
    · simp [Books.status, books, init, tenant, hi]
    · intro p hp
      exact absurd hp (by simp [Books.status, Books.doing, books, tears, init, Pc.tears])
  works w hw := absurd hw (by simp [books, works, init, Pc.works])
  tears t ht := absurd ht (by simp [books, tears, init, Pc.tears])
  closing i hi := by cases hi
  inj i j hi := absurd rfl hi
  bound i := Nat.le_refl 0
  fate c := by
    have hd : (init sock).books.doing c = 0 := by
      simp [Books.doing, books, tears, init, Pc.tears]
    rw [hd]
    exact .intact
  fresh c _ := ⟨by simp [Books.doing, books, tears, init, Pc.tears], rfl⟩

/-! ## The life of a slot -/

/-- The number of items that are queued or running for slot `i`. -/
def items (s : System) (i : Nat) : Nat := s.works.countP (·.spc = i)

/-- The connection of slot `i` still has its own reference: it is polled, or
`serv_handledisco` has not come to its `spcrelease`. -/
def connected (s : System) (i : Nat) : Bool := (s.slot i).pfd.isSome || s.pc.closing = some i

/-- What has been done to tear connection `c` down. -/
def torndown (s : System) (c : Nat) : List TearPhase := (s.torn.filter (·.2 = c)).map Prod.fst

/-- What the client table promises. -/
structure Sound (s : System) : Prop where
  refcnt : ∀ i, i ≠ 0 → (s.slot i).refcnt = (if s.connected i then 1 else 0) + (s.items i : Int)
  once : ∀ c, s.torndown c <+: [.mainlwp, .close, .renew, .signal]
  late : ∀ p c, (p, c) ∈ s.torn → c ∈ s.ended ∧ ∀ w ∈ s.works, w.conn ≠ c
  reuse : ∀ i, isFree (s.slot i) = true →
    (s.slot i).refcnt = 0 ∧ s.connected i = false ∧ s.items i = 0

theorem sound_of_inv (ht : Tame fini s) (h : Books.Inv s.books) : Sound s := by
  have hconn : ∀ i, s.connected i = true ↔
      (s.books.slot i).taken = true ∨ s.books.closing = some i := by
    intro i
    simp [connected, books, tenant]
  refine ⟨fun i hi => ?_, h.done_prefix, fun p c hp => h.torn hp, fun i hfree => ?_⟩
  · have hr := h.refcnt hi
    simp only [← hconn i] at hr
    exact hr
  · obtain ⟨hpfd, hst⟩ : (s.slot i).pfd = none ∧ (s.slot i).state = .new := by
      simpa [isFree] using hfree
    have hi : i ≠ 0 := by
      rintro rfl
      have hl := ht.listen
      rw [hpfd] at hl
      cases hl
    have htk : (s.books.slot i).taken = false := by
      show (s.slot i).pfd.isSome = false
      rw [hpfd]
      rfl
    obtain ⟨hr, hl, hc, _⟩ := h.vacant hi htk hst
    refine ⟨hr, ?_, hl⟩
    rw [← Bool.not_eq_true, hconn]
    rintro (hx | hx)
    · rw [htk] at hx
      cases hx
    · exact hc hx

/-- In every run without a shutdown the references of a slot are those of its
connection and of its work items, each connection is torn down at most once,
after its disconnect and after its last item, and no slot is given away while
anybody refers to it. -/
theorem slot_lifecycle {sock : Nat} {tr : List (System × Event)}
    (hr : Run (step cfg) (init sock) tr s) (hg : Guarded (fun _ e => e.isFini = false) tr) :
    (∀ q ∈ tr, Sound q.1) ∧ Sound s := by
  have hall : ∀ {tr : List (System × Event)} {s : System}, Run (step cfg) (init sock) tr s →
      Guarded (fun _ e => e.isFini = false) tr → Sound s := by
    intro tr s hr hg
    have hinv : Tame false s ∧ Books.Inv s.books := by
      refine Run.invariant (I := fun s => Tame false s ∧ Books.Inv s.books)
        ⟨init_tame sock, init_inv sock⟩ (fun s e s' hi he hs => ?_) hr hg
      rcases step_books hi.1 hs with ⟨hf, -⟩ | ⟨ht, hb⟩
      · cases hf
      · rw [he] at ht
        exact ⟨ht, hi.2.step hb⟩
    exact sound_of_inv hinv.1 hinv.2
  refine ⟨fun q hq => ?_, hall hr hg⟩
  obtain ⟨l, hl, hle⟩ := hr.reaches_mem hq
  exact hall hl (hg.prefix_of hle)

/-- A frame as the server thread finds it, and the results of the calls it
makes. -/
def received (hdr : List UInt8) (buf : Option Buf) (off : Nat) (script : List Outcome) : Server :=
  { freshServer with
    spc := { freshServer.spc with hdr := Bytes.ofList hdr, buf := buf, off := off }
    script := script }

/-- A round of the main loop that finds input for slot `i` alone, up to there. -/
def visit (i : Nat) : List Event :=
  [.go, .poll (fun j => j = i) 1] ++ (List.replicate i [.go, .go]).flatten

/-- One client connects, shakes hands, makes a system call and leaves while it
is running; the worker tears the connection down. -/
def oneVisitor : List Event :=
  visit 0 ++ ([.accept (some 7), .go, .go, .go, .go] : List Event) ++
  visit 1 ++ ([.frame (received (rspHdr 26 1 0 0 0) (some ⟨3, Bytes.ofList [115, 104]⟩) 26
    [.rfork true, .newlwp true, .sent 28]), .go, .go] : List Event) ++
  visit 1 ++ ([.frame (received (rspHdr 24 2 0 1 20) none 24 [.malloc true]), .go,
    .enqueue 0 true, .go, .go] : List Event) ++
  visit 1 ++ ([.worker 0, .eof, .go, .go, .worker 0, .worker 0, .worker 0, .worker 0, .worker 0,
    .worker 0] : List Event)

theorem slot_lifecycle_visitor : ∃ tr s, Run (step ⟨3, 1, 1⟩) (init 5) tr s ∧
    s.torndown 1 = [.mainlwp, .close, .renew, .signal] ∧ isFree (s.slot 1) = true ∧ Sound s := by
  obtain ⟨tr, s, hr, hp⟩ := exists_run (f := step ⟨3, 1, 1⟩) (s := init 5) oneVisitor
    (p := fun tr s => Guarded (fun _ e => e.isFini = false) tr ∧
      s.torndown 1 = [.mainlwp, .close, .renew, .signal] ∧ isFree (s.slot 1) = true) (by decide)
  rw [decide_eq_true_eq] at hp
  obtain ⟨hg, ht, hf⟩ := hp
  exact ⟨tr, s, hr, ht, hf, (slot_lifecycle hr hg).2⟩

end System

end Frankenlibc.Sysproxy

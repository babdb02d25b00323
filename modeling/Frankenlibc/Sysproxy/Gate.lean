import Frankenlibc.Sysproxy.Dispatch
import Frankenlibc.Sysproxy.Lifecycle

/-!
# The handshake gate

A client is served once its connection has shaken hands. The record of a
dispatch has the calls through which a frame is acted on; a new client's frame
adds none of them, and leaves the work list, the tokens and the exec flag as
they are. The only dispatch that changes the state or the main lwp of a client
is a handshake that succeeds, and nobody else writes them while the slot has its
connection: the tear-down comes after the disconnect. So the handshake a running
client owes its state to is always one of its own connection, also when the slot
has had others before.
-/
namespace Frankenlibc.Sysproxy

open Frankenlibc.Lib

variable {w w' : Server}

/-! ## One frame -/

/-- The calls by which a request is acted on. -/
def Deed.gated : Deed → Bool
  | .schedulework => true
  | .rfork flags => flags = .copy
  | .lwpexit => true
  | .store _ => false

theorem Acts.ungated {l : List Deed} (h : Acts w l) (hnew : w.spc.state = .new) :
    ∀ d ∈ l, d.gated = false := by
  cases h with
  | nothing | guest | fork => simp [Deed.gated]
  | prefork hold | exec hold | syscall hold => exact absurd hnew hold

/-! ## Whole runs -/

/-- The server thread is on its way out and reads no more frames. -/
def Pc.shut : Pc → Prop
  | .shutdown _ => True
  | .exited => True
  | .aborted => True
  | .wipe _ k => k.shut
  | .release _ k => k.shut
  | .tear _ k => k.shut
  | _ => False

namespace System

variable {cfg : Config} {s s' : System} {e : Event} {fini : Bool}

/-- Two views of a slot agree on its client. -/
def SameClient (x x' : Slot) : Prop :=
  x'.pfd = x.pfd ∧ x'.state = x.state ∧ x'.mainlwp = x.mainlwp ∧ x'.conn = x.conn

/-- Whoever is served after the step was served before it, as the same client. -/
def Unmoved (s s' : System) : Prop :=
  ∀ i, (s'.slot i).pfd.isSome = true → (s'.slot i).state ≠ .new → SameClient (s.slot i) (s'.slot i)

theorem unmoved_slots (hs : s'.slot = s.slot) : Unmoved s s' := by
  intro i _ _
  rw [hs]
  exact ⟨rfl, rfl, rfl, rfl⟩

theorem unmoved_onSlot {i : Nat} {f : Slot → Slot} (hs : s'.slot = (onSlot i f s).slot)
    (hf : SameClient (s.slot i) (f (s.slot i)) ∨ (f (s.slot i)).pfd = none ∨
      (f (s.slot i)).state = .new) : Unmoved s s' := by
  intro j htaken hstate
  have hslot : s'.slot = Function.update s.slot i (f (s.slot i)) := hs
  rw [hslot] at htaken hstate ⊢
  by_cases hj : j = i
  · subst hj
    rw [Function.update_self] at htaken hstate ⊢
    rcases hf with hsame | hnone | hnew
    · exact hsame
    · rw [hnone] at htaken
      cases htaken
    · exact absurd hnew hstate
  · rw [Function.update_of_ne hj]
    exact ⟨rfl, rfl, rfl, rfl⟩

/-- A thread that tears down does so behind a connection that is gone. -/
theorem tear_untaken (hi : Books.Inv s.books) {t : Tear} (ht : t ∈ s.tears)
    (hp : t.phase ≠ .signal) : (s.slot t.slot).pfd = none := by
  obtain ⟨hne, hconn⟩ := hi.tears t ht hp
  cases htaken : (s.slot t.slot).pfd with
  | none => rfl
  | some fd =>
    have hlive : (s.books.slot t.slot).taken = true := by
      show (s.slot t.slot).pfd.isSome = true
      rw [htaken]
      rfl
    have hdoing := (hi.live hne hlive).2.2.doing
    have hmem := Books.mem_doing (b := s.books) ht
    rw [← hconn] at hmem
    replace hdoing : s.books.doing (s.books.slot t.slot).conn = 0 := hdoing
    rw [hdoing] at hmem
    cases hmem

theorem tearDown_unmoved (hi : Books.Inv s.books) {t : Tear} (ht : t ∈ s.tears)
    (hs : s'.slot = (tearDown t s).slot) : Unmoved s s' := by
  unfold tearDown at hs
  cases hp : t.phase with
  | mainlwp =>
    rw [hp] at hs
    exact unmoved_onSlot (f := fun x => { x with mainlwp := none }) hs
      (.inr (.inl (tear_untaken hi ht (by simp [hp]))))
  | close =>
    rw [hp] at hs
    exact unmoved_onSlot (f := fun x => { x with fd := none }) hs (.inl ⟨rfl, rfl, rfl, rfl⟩)
  | renew =>
    rw [hp] at hs
    exact unmoved_onSlot (f := fun x => { x with state := .new }) hs (.inr (.inr rfl))
  | signal =>
    rw [hp] at hs
    exact unmoved_slots hs

theorem spcrelease_unmoved {i : Nat} (hs : s'.slot = (spcrelease i s).1.slot) : Unmoved s s' := by
  rw [spcrelease_slots] at hs
  exact unmoved_onSlot (f := fun x => { x with refcnt := x.refcnt - 1 }) hs
    (.inl ⟨rfl, rfl, rfl, rfl⟩)

theorem worker_unmoved {k : Nat} (h : workerStep cfg k s = some s') :
    (Books.Inv s.books → Unmoved s s') ∧ s'.pc = s.pc := by
  cases workerStep_inv h with
  | retire => exact ⟨fun _ => unmoved_slots rfl, rfl⟩
  | start =>
    obtain ⟨hs, hp, -⟩ := fetch_frame (k := k) (s := { s with idleworker := s.idleworker + 1 })
    exact ⟨fun _ => unmoved_slots hs, hp⟩
  | wake =>
    obtain ⟨hs, hp, -⟩ := fetch_frame (k := k) (s := s)
    exact ⟨fun _ => unmoved_slots hs, hp⟩
  | syscall => exact ⟨fun _ => unmoved_slots rfl, rfl⟩
  | exec => exact ⟨fun _ => unmoved_slots rfl, rfl⟩
  | notify =>
    exact ⟨fun _ => unmoved_onSlot (f := fun x => { x with inexec := false }) rfl
      (.inl ⟨rfl, rfl, rfl, rfl⟩), rfl⟩
  | @release w slot r _ hr =>
    have hslot : slot = (spcrelease w.spc s).1.slot := by rw [hr]
    exact ⟨fun _ => spcrelease_unmoved hslot, rfl⟩
  | @tear t x hk =>
    obtain ⟨slot, disco, torn, hd, -⟩ := tearDown_frame (s := s) t
    refine ⟨fun hi => tearDown_unmoved hi (tear_mem hk) rfl, ?_⟩
    rw [hd]
    rfl

/-- A frame is read in the main loop, for a slot that has its connection. -/
theorem frame_event {w : Server} (h : mainStep cfg (.frame w) s = some s') :
    s.pc = .each ∧ 0 < s.idx ∧ (s.slot s.idx).revents = true ∧
      frame w { s with seen := s.seen + 1 } = some s' := by
  cases mainStep_inv h with
  | each hpc h =>
    cases h with
    | frame hidx hrev h => exact ⟨hpc, hidx, hrev, h⟩

theorem each_unmoved (he : ∀ w, e ≠ .frame w) (h : Rounding cfg s e s') : Unmoved s s' := by
  cases h with
  | finished => exact unmoved_slots rfl
  | quiet => exact unmoved_slots rfl
  | part => exact unmoved_slots rfl
  | eof =>
    exact unmoved_onSlot
      (f := fun x => { x with pfd := none, revents := false, state := .dying }) rfl
      (.inr (.inl rfl))
  | @frame w => exact absurd rfl (he w)
  | fini => exact unmoved_slots rfl
  | @accept newfd =>
    obtain ⟨pc, hc, -⟩ := handleconn_frame cfg newfd (s := { s with seen := s.seen + 1 })
    rw [hc]
    exact unmoved_slots rfl

/-- The server thread changes the client of a slot only by a frame. -/
theorem main_unmoved (ht : Tame fini s) (hi : Books.Inv s.books) (he : ∀ w, e ≠ .frame w)
    (h : mainStep cfg e s = some s') : Unmoved s s' := by
  have hplain := ht.plain
  cases mainStep_inv h with
  | top =>
    obtain ⟨nfds, maxidx, hc⟩ := collect_frame (s := { s with disco := 0 }) s.disco
    rw [hc]
    exact unmoved_slots rfl
  | @poll ready rv =>
    intro i _ _
    show SameClient (s.slot i) (polled ready s i)
    unfold polled
    split <;> exact ⟨rfl, rfl, rfl, rfl⟩
  | pollIntr => exact unmoved_slots rfl
  | pollFail => exact unmoved_slots rfl
  | each _ h => exact each_unmoved he h
  | next => exact unmoved_slots rfl
  | @scan newfd i =>
    unfold scan
    split
    · exact unmoved_slots rfl
    split
    · rename_i hfree
      have hnew : (s.slot i).state = .new := by
        unfold isFree at hfree
        simpa using (Bool.and_eq_true_iff.mp hfree).2
      exact unmoved_onSlot (f := fun x => { x with
        pfd := some newfd, fd := some newfd, refcnt := 1, conn := s.conns + 1 }) rfl
        (.inr (.inr hnew))
    · exact unmoved_slots rfl
  | ref =>
    exact unmoved_onSlot (f := fun x => { x with refcnt := x.refcnt + 1 }) rfl
      (.inl ⟨rfl, rfl, rfl, rfl⟩)
  | queue _ h =>
    obtain ⟨ws, n, rfl⟩ := enqueue_frame h
    exact unmoved_slots rfl
  | wipe =>
    exact unmoved_onSlot (f := fun x => { x with inexec := false }) rfl
      (.inl ⟨rfl, rfl, rfl, rfl⟩)
  | @release i k slot r _ hr =>
    have hslot : slot = (spcrelease i s).1.slot := by rw [hr]
    exact spcrelease_unmoved hslot
  | tear hpc => exact tearDown_unmoved hi (pc_tear_mem hpc) rfl
  | shutdown hpc =>
    rw [hpc] at hplain
    cases hplain

/-- Who is on the way out stays there. -/
theorem main_shut (hs : s.pc.shut) (h : mainStep cfg e s = some s') : s'.pc.shut := by
  cases mainStep_inv h with
  | wipe hpc =>
    rw [hpc] at hs
    exact hs
  | @release i k slot r hpc =>
    rw [hpc] at hs
    cases r <;> exact hs
  | @tear t k pc hpc hnext =>
    rw [hpc] at hs
    show Pc.shut pc
    rw [hnext]
    cases t.next <;> exact hs
  | shutdown =>
    unfold shutdownStep
    split
    · exact trivial
    · split <;> exact trivial
  | pollFail => exact trivial
  | _ hpc =>
    rw [hpc] at hs
    exact hs.elim

/-- The client in slot `i`, as `x` has it, is running on the lwp it got from a
handshake of its own connection that is in the record. -/
def Admitted (tr : List (System × Event)) (i : Nat) (x : Slot) : Prop :=
  x.state = .running ∧ ∃ q w w', (q, Event.frame w) ∈ tr ∧ q.idx = i ∧
    (q.slot i).conn = x.conn ∧ dispatch (view w q) = .ok w' ∧ Greeted (view w q) w' ∧
    x.mainlwp = some w.fresh

theorem Admitted.snoc {tr : List (System × Event)} {i : Nat} {x x' : Slot} (h : Admitted tr i x)
    (hs : SameClient x x') (p : System × Event) : Admitted (tr ++ [p]) i x' := by
  obtain ⟨hrun, q, w, w', hmem, hidx, hconn, hd, hg, hmain⟩ := h
  obtain ⟨_, hst, hml, hcn⟩ := hs
  exact ⟨hst.trans hrun, q, w, w', List.mem_append_left _ hmem, hidx, hconn.trans hcn.symm, hd, hg,
    hml.trans hmain⟩

/-- Whoever is past the handshake has been admitted. -/
def Barred (tr : List (System × Event)) (s : System) : Prop :=
  ∀ i, (s.slot i).pfd.isSome = true → i ≠ 0 → (s.slot i).state ≠ .new → Admitted tr i (s.slot i)

theorem Barred.unmoved {tr : List (System × Event)} (h : Barred tr s) (hu : Unmoved s s')
    (e : Event) : Barred (tr ++ [(s, e)]) s' := by
  intro i htaken hi hstate
  have hs := hu i htaken hstate
  obtain ⟨hpfd, hst, _, _⟩ := id hs
  rw [hpfd] at htaken
  rw [hst] at hstate
  exact (h i htaken hi hstate).snoc hs _

/-- A frame moves its client only by a handshake that succeeds. -/
theorem Barred.frame {tr : List (System × Event)} {w : Server} {seen : Nat} (h : Barred tr s)
    (hf : frame w { s with seen := seen } = some s') : Barred (tr ++ [(s, .frame w)]) s' := by
  unfold System.frame at hf
  cases hd : dispatch (view w { s with seen := seen }) with
  | error e => simp [hd] at hf
  | ok w' =>
    simp only [hd] at hf
    have hslot : s'.slot = Function.update s.slot s.idx { s.slot s.idx with
        state := w'.spc.state, mainlwp := w'.spc.mainlwp, inexec := w'.spc.inexec } := by
      split at hf <;> cases hf <;> rfl
    intro i htaken hi hstate
    by_cases hii : i = s.idx
    · subst hii
      rw [hslot, Function.update_self] at htaken hstate ⊢
      rcases (dispatch_spec hd).client with ⟨hst, hml⟩ | hg
      · have hsame : (s.slot s.idx).state ≠ .new := by
          rw [show w'.spc.state = (s.slot s.idx).state from hst] at hstate
          exact hstate
        have hclient : SameClient (s.slot s.idx) { s.slot s.idx with
            state := w'.spc.state, mainlwp := w'.spc.mainlwp, inexec := w'.spc.inexec } :=
          ⟨rfl, hst, hml, rfl⟩
        exact (h s.idx htaken hi hsame).snoc hclient _
      · refine ⟨hg.state, s, w, w', ?_, rfl, rfl, hd, hg, hg.mainlwp⟩
        exact List.mem_append_right _ (List.mem_singleton_self _)
    · rw [hslot, Function.update_of_ne hii] at htaken hstate ⊢
      exact (h i htaken hi hstate).snoc ⟨rfl, rfl, rfl, rfl⟩ _

/-- What a run keeps until the server thread is on its way out. -/
def Watched (tr : List (System × Event)) (s : System) : Prop :=
  s.pc.shut ∨ (∃ fini, Tame fini s) ∧ Books.Inv s.books ∧ Barred tr s

theorem step_watched {tr : List (System × Event)} (hw : Watched tr s)
    (h : step cfg s e = some s') : Watched (tr ++ [(s, e)]) s' := by
  rcases hw with hshut | ⟨⟨fini, ht⟩, hi, hb⟩
  · left
    unfold step at h
    split at h
    next k =>
      rw [(worker_unmoved h).2]
      exact hshut
    next =>
      cases h
      exact hshut
    next => exact main_shut hshut h
  · rcases step_books ht h with ⟨_, hpc⟩ | ⟨ht', hs⟩
    · left
      rw [hpc]
      exact trivial
    · refine .inr ⟨⟨_, ht'⟩, hi.step hs, ?_⟩
      unfold step at h
      split at h
      next k => exact hb.unmoved ((worker_unmoved h).1 hi) _
      next =>
        cases h
        exact hb.unmoved (unmoved_slots rfl) _
      next =>
        cases e with
        | frame w => exact hb.frame (frame_event h).2.2.2
        | _ => exact hb.unmoved (main_unmoved ht hi (fun _ => by simp) h) _

theorem run_watched {sock : Nat} {tr : List (System × Event)}
    (hr : Run (step cfg) (init sock) tr s) : Watched tr s := by
  induction hr with
  | nil =>
    refine .inr ⟨⟨_, init_tame sock⟩, init_inv sock, fun i _ _ hstate => ?_⟩
    exact absurd rfl hstate
  | snoc _ hs ih => exact step_watched ih hs

/-- A frame of a run is one whose dispatch returns. -/
theorem frame_dispatched {w : Server} {seen : Nat}
    (h : frame w { s with seen := seen } = some s') : ∃ w', dispatch (view w s) = .ok w' := by
  unfold frame at h
  cases hd : dispatch (view w { s with seen := seen }) with
  | error e => simp [hd] at h
  | ok w' => exact ⟨w', hd⟩

/-- The gate: a frame that is acted on, or leaves anything behind to be acted
on, is one of a connection that has shaken hands before, and its client runs on
the lwp of that handshake. -/
theorem handshake_gate {sock : Nat} {tr l : List (System × Event)} {q : System} {w : Server}
    (hr : Run (step cfg) (init sock) tr s) (hl : l ++ [(q, .frame w)] <+: tr) :
    ∃ w' done, dispatch (view w q) = .ok w' ∧ w'.deeds = w.deeds ++ done ∧
      ((∀ d ∈ done, d.gated = false) ∧ Spared (view w q) w' ∨
        Admitted l q.idx (q.slot q.idx)) := by
  obtain ⟨hrun, q', hstep⟩ := hr.before hl
  obtain ⟨hpc, hidx, hrev, hf⟩ := frame_event (show mainStep cfg (.frame w) q = some q' from hstep)
  obtain ⟨w', hw⟩ := frame_dispatched hf
  have hspec := dispatch_spec hw
  obtain ⟨done, hd, ha⟩ := hspec.acts
  refine ⟨w', done, hw, hd, ?_⟩
  by_cases hnew : (q.slot q.idx).state = .new
  · exact .inl ⟨ha.ungated hnew, hspec.spared hnew⟩
  · right
    rcases run_watched hrun with hshut | ⟨⟨fini, ht⟩, _, hb⟩
    · rw [hpc] at hshut
      exact hshut.elim
    · exact hb q.idx (ht.revents q.idx hrev) (Nat.ne_of_gt hidx) hnew

/-- A system call, with memory for its work item. -/
def plainCall : Server := received (rspHdr 24 2 0 1 20) none 24 [.malloc true]

theorem handshake_gate_visitor : ∃ tr s s' w',
    Run (step ⟨3, 1, 1⟩) (init 5) (tr ++ [(s, .frame plainCall)]) s' ∧
      dispatch (view plainCall s) = .ok w' ∧ w'.deeds = [.schedulework] ∧
      Admitted tr s.idx (s.slot s.idx) := by
  obtain ⟨tr, s, hr, hp⟩ := exists_run (f := step ⟨3, 1, 1⟩) (s := init 5) (oneVisitor.take 18)
    (p := fun _ s => (step ⟨3, 1, 1⟩ s (.frame plainCall)).isSome = true ∧
      (dispatch (view plainCall s)).map Server.deeds = .ok [.schedulework]) (by decide)
  rw [decide_eq_true_eq] at hp
  obtain ⟨hsome, hdeed⟩ := hp
  obtain ⟨s', hs⟩ := Option.isSome_iff_exists.mp hsome
  obtain ⟨w', done, hw, hd, hcase⟩ := handshake_gate (hr.snoc hs) (List.prefix_refl _)
  have hdone : w'.deeds = [.schedulework] := by simpa [hw, Except.map] using hdeed
  refine ⟨tr, s, s', w', hr.snoc hs, hw, hdone, ?_⟩
  rcases hcase with ⟨hnone, _⟩ | hadm
  · rw [hdone] at hd
    exact absurd (hnone .schedulework (by rw [← show _ = done from hd]; simp)) (by decide)
  · exact hadm

end System

end Frankenlibc.Sysproxy

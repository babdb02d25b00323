import Mathlib.Data.List.Nodup
import Frankenlibc.Sysproxy.Moves

/-!
# Requests and their responses

A worker queues its waiter before it sends, so a response finds it whenever it
comes; `kickwaiter` marks the waiter before it signals, and a disconnect marks
the connection before it does. What a thread tests before it sleeps is what
wakes it. The numbers of the waiters are told apart because they come from one
counter, which only a disconnect sets back.
-/
namespace Frankenlibc.Sysproxy

namespace Conn

open Frankenlibc.Lib

variable {s s' : Conn} {e : Event} {k i c c' : Nat}

/-- Between `doputwait` and the removal of the waiter. -/
def Pc.pends : Pc → Bool
  | .lockwait _ j => j.asks
  | .sending j _ => j.asks
  | .respwait _ => true
  | _ => false

/-- A thread stays what it is to the queue, and does not fall asleep there. -/
def Peer (p p' : Pc) : Prop := p'.pends = p.pends ∧ (p' = .respwait false → p = .respwait false)

theorem Roused.peer {p p' : Pc} (h : Roused p p') : Peer p p' := by
  cases h with
  | same => exact ⟨rfl, id⟩
  | _ => exact ⟨rfl, fun hx => absurd hx (by simp)⟩

theorem calm_pends {p : Pc} (h : p.calm = true) : p.pends = false ∧ p ≠ .respwait false := by
  cases p <;> first | exact ⟨rfl, by simp⟩ | cases h

/-- How `waitresp` may return: without a connection, or with a response to its
own request. -/
def Settled (heard : List Response) (r : Return) : Prop :=
  r.state = .dying ∧ r.rv = ENOTCONN ∨
    r.state ≠ .dying ∧ r.rv = 0 ∧ ⟨r.rw.reqno, r.rw.data, r.rw.dlen⟩ ∈ heard

theorem Settled.mono {heard heard' : List Response} {r : Return} (hh : ∀ x ∈ heard, x ∈ heard')
    (h : Settled heard r) : Settled heard' r := by
  rcases h with h | ⟨hs, hrv, hmem⟩
  · exact .inl h
  · exact .inr ⟨hs, hrv, hh _ hmem⟩

/-- The waiters after `c` numbers have been handed out. -/
structure Waiting (c : Nat) (s : Conn) : Prop where
  nodup : s.queue.Nodup
  queued : ∀ i, i ∈ s.queue ↔ (s.pc i).pends = true
  counter : s.state ≠ .dying → s.nextreq = u64 c
  below : s.state ≠ .dying → ∀ i ∈ s.queue, (s.rw i).reqno < c
  distinct : s.state ≠ .dying → ∀ i ∈ s.queue, ∀ j ∈ s.queue, (s.rw i).reqno = (s.rw j).reqno → i = j
  asleep : ∀ i, s.pc i = .respwait false → (s.rw i).done = false ∧ s.state ≠ .dying
  done : ∀ i, (s.rw i).done = true → ⟨(s.rw i).reqno, (s.rw i).data, (s.rw i).dlen⟩ ∈ s.heard
  error : ∀ i, (s.rw i).error = 0
  returns : ∀ r ∈ s.returns, Settled s.heard r

theorem init_waiting : Waiting 0 init := by
  refine ⟨List.nodup_nil, fun i => ?_, fun _ => rfl, fun _ i hi => ?_, fun _ i hi => ?_,
    fun i hi => ?_, fun i hi => ?_, fun i => rfl, fun r hr => ?_⟩
  · show i ∈ [] ↔ Pc.pends (if i = 0 then .idle .loop else .gone) = true
    split <;> simp [Pc.pends]
  · cases hi
  · cases hi
  · replace hi : (if i = 0 then Pc.idle .loop else .gone) = .respwait false := hi
    split at hi <;> cases hi
  · cases hi
  · cases hr

/-- A step that leaves the waiters alone. -/
theorem Waiting.same (hw : Waiting c s) (hpc : ∀ i, Peer (s.pc i) (s'.pc i))
    (hq : s'.queue = s.queue) (hr : s'.rw = s.rw) (hh : s'.heard = s.heard)
    (hret : s'.returns = s.returns) (hn : s.state ≠ .dying → c ≤ c' ∧ s'.nextreq = u64 c')
    (hs : s'.state = .dying ↔ s.state = .dying) : Waiting c' s' := by
  have hdy : s'.state ≠ .dying → s.state ≠ .dying := fun hd hx => hd (hs.mpr hx)
  refine ⟨?_, fun i => ?_, fun hd => (hn (hdy hd)).2, fun hd i hi => ?_, fun hd => ?_,
    fun i hi => ?_, fun i hi => ?_, fun i => ?_, fun r hrr => ?_⟩
  · rw [hq]
    exact hw.nodup
  · rw [hq, (hpc i).1]
    exact hw.queued i
  · rw [hr]
    rw [hq] at hi
    exact Nat.lt_of_lt_of_le (hw.below (hdy hd) i hi) (hn (hdy hd)).1
  · rw [hr, hq]
    exact hw.distinct (hdy hd)
  · obtain ⟨hnot, hst⟩ := hw.asleep i ((hpc i).2 hi)
    rw [hr]
    exact ⟨hnot, fun hx => hst (hs.mp hx)⟩
  · rw [hr] at hi
    rw [hr, hh]
    exact hw.done i hi
  · rw [hr]
    exact hw.error i
  · rw [hret] at hrr
    rw [hh]
    exact hw.returns r hrr

/-- The threads that do not move stay what they are to the queue. -/
theorem Move.peer_other (h : Move s e s') (hb : Basic s) (hi : i ≠ e.actor) :
    Peer (s.pc i) (s'.pc i) := by
  rcases h.thread hb i with ⟨ha, _⟩ | hr | ⟨hg, hc⟩
  · exact absurd ha hi
  · exact hr.peer
  · obtain ⟨hp, hne⟩ := calm_pends hc
    rw [hg]
    exact ⟨hp, fun hx => absurd hx hne⟩

theorem Waiting.apart (hw : Waiting c s) (h : Move s e s') (hb : Basic s)
    (ha : Peer (s.pc e.actor) (s'.pc e.actor))
    (hq : s'.queue = s.queue) (hr : s'.rw = s.rw) (hh : s'.heard = s.heard)
    (hret : s'.returns = s.returns) (hn : s.state ≠ .dying → c ≤ c' ∧ s'.nextreq = u64 c')
    (he : e ≠ .disco) : Waiting c' s' := by
  refine hw.same (fun i => ?_) hq hr hh hret hn (h.keeps.state.trans (or_iff_left he))
  by_cases hi : i = e.actor
  · rw [hi]
    exact ha
  · exact h.peer_other hb hi

/-! ## The steps that touch the waiters -/

/-- A thread takes its waiter out. -/
theorem Waiting.leave (hw : Waiting c s) (k : Nat) {rs : List Return}
    (hrs : ∀ r ∈ rs, Settled s.heard r) :
    Waiting c { setPc k (.idle .syscall) (dequeue k s) with returns := rs } := by
  have hmem : ∀ i, i ∈ s.queue.erase k ↔ i ≠ k ∧ i ∈ s.queue := fun i => hw.nodup.mem_erase_iff
  refine ⟨hw.nodup.erase k, fun i => ?_, hw.counter, fun hd i hi => ?_, fun hd i hi j hj => ?_,
    fun i hi => ?_, hw.done, hw.error, hrs⟩
  · show i ∈ s.queue.erase k ↔ (Function.update s.pc k (.idle .syscall) i).pends = true
    rw [hmem]
    by_cases hik : i = k
    · rw [hik, Function.update_self]
      simp [Pc.pends]
    · rw [Function.update_of_ne hik, hw.queued i]
      exact ⟨And.right, fun hp => ⟨hik, hp⟩⟩
  · exact hw.below hd i ((hmem i).mp hi).2
  · exact hw.distinct hd i ((hmem i).mp hi).2 j ((hmem j).mp hj).2
  · replace hi : Function.update s.pc k (.idle .syscall) i = .respwait false := hi
    by_cases hik : i = k
    · rw [hik, Function.update_self] at hi
      cases hi
    · rw [Function.update_of_ne hik] at hi
      exact hw.asleep i hi

/-- A round of `waitresp`: the thread sleeps for want of a response, or returns
with one, or because the client is gone. -/
theorem Waiting.loop (hw : Waiting c s) (hp : (s.pc k).pends = true) :
    Waiting c (waitrespLoop k s) := by
  unfold waitrespLoop
  split
  · rename_i htest
    refine ⟨hw.nodup, fun i => ?_, hw.counter, hw.below, hw.distinct, fun i hi => ?_, hw.done,
      hw.error, hw.returns⟩
    · show i ∈ s.queue ↔ (Function.update s.pc k (.respwait false) i).pends = true
      rw [hw.queued i]
      by_cases hik : i = k
      · rw [hik, Function.update_self, hp]
        rfl
      · rw [Function.update_of_ne hik]
    · replace hi : Function.update s.pc k (.respwait false) i = .respwait false := hi
      by_cases hik : i = k
      · rw [hik]
        exact htest
      · rw [Function.update_of_ne hik] at hi
        exact hw.asleep i hi
  · rename_i htest
    refine hw.leave k fun r hr => ?_
    rcases List.mem_append.mp hr with hr | hr
    · exact hw.returns r hr
    · obtain rfl := List.mem_singleton.mp hr
      by_cases hd : s.state = .dying
      · exact .inl ⟨hd, if_pos hd⟩
      · have hdone : (s.rw k).done = true := by
          cases hx : (s.rw k).done with
          | true => rfl
          | false => exact absurd ⟨hx, hd⟩ htest
        exact .inr ⟨hd, (if_neg hd).trans (hw.error k), hw.done k hdone⟩

/-- A thread queues a waiter with the next number. -/
theorem Waiting.put (hw : Waiting c s) (hk : (s.pc k).pends = false)
    (hc : s.state ≠ .dying → c < 18446744073709551616 ∧ c' = c + 1)
    (hpc : (s'.pc k).pends = true ∧ s'.pc k ≠ .respwait false)
    (hother : ∀ i, i ≠ k → s'.pc i = s.pc i) (hq : s'.queue = s.queue ++ [k])
    (hr : s'.rw = Function.update s.rw k (doputwait s.nextreq))
    (hn : s'.nextreq = u64 (s.nextreq + 1)) (hh : s'.heard = s.heard)
    (hret : s'.returns = s.returns) (hs : s'.state = s.state) : Waiting c' s' := by
  have hnk : k ∉ s.queue := by
    rw [hw.queued, hk]
    simp
  have hself : s'.rw k = doputwait s.nextreq := by
    rw [hr, Function.update_self]
  have hsame : ∀ i, i ≠ k → s'.rw i = s.rw i := by
    intro i hi
    rw [hr, Function.update_of_ne hi]
  have hne : ∀ i ∈ s.queue, i ≠ k := fun i hi hik => hnk (hik ▸ hi)
  have hmem : ∀ i, i ∈ s'.queue ↔ i ∈ s.queue ∨ i = k := by
    intro i
    rw [hq, List.mem_append, List.mem_singleton]
  have hnum : s.state ≠ .dying → s.nextreq = c := by
    intro hd
    rw [hw.counter hd, u64_of_lt (hc hd).1]
  rw [← hs] at hc hnum
  refine ⟨?_, fun i => ?_, fun hd => ?_, fun hd i hi => ?_, fun hd i hi j hj heq => ?_,
    fun i hi => ?_, fun i hi => ?_, fun i => ?_, fun r hrr => ?_⟩
  · rw [hq]
    exact List.nodup_append.mpr ⟨hw.nodup, by simp, fun a ha b hb hab =>
      hnk (List.mem_singleton.mp hb ▸ hab ▸ ha)⟩
  · rw [hmem]
    by_cases hik : i = k
    · rw [hik, hpc.1]
      simp
    · rw [hother i hik, hw.queued i]
      simp [hik]
  · rw [hn, hnum hd, (hc hd).2]
  · rw [(hc hd).2]
    rcases (hmem i).mp hi with hi | rfl
    · rw [hsame i (hne i hi)]
      exact Nat.lt_succ_of_lt (hw.below (hs ▸ hd) i hi)
    · rw [hself]
      exact Nat.lt_succ_of_le (Nat.le_of_eq (hnum hd))
  · have hlt := hw.below (hs ▸ hd)
    rw [← hnum hd] at hlt
    rcases (hmem i).mp hi with hi | rfl <;> rcases (hmem j).mp hj with hj | rfl
    · rw [hsame i (hne i hi), hsame j (hne j hj)] at heq
      exact hw.distinct (hs ▸ hd) i hi j hj heq
    · rw [hsame i (hne i hi), hself] at heq
      exact absurd (hlt i hi) (Nat.not_lt.mpr (Nat.le_of_eq heq.symm))
    · rw [hsame j (hne j hj), hself] at heq
      exact absurd (hlt j hj) (Nat.not_lt.mpr (Nat.le_of_eq heq))
    · rfl
  · by_cases hik : i = k
    · rw [hik] at hi
      exact absurd hi hpc.2
    · rw [hother i hik] at hi
      rw [hsame i hik, hs]
      exact hw.asleep i hi
  · by_cases hik : i = k
    · rw [hik, hself] at hi
      cases hi
    · rw [hsame i hik] at hi ⊢
      rw [hh]
      exact hw.done i hi
  · by_cases hik : i = k
    · rw [hik, hself]
      rfl
    · rw [hsame i hik]
      exact hw.error i
  · rw [hret] at hrr
    rw [hh]
    exact hw.returns r hrr

/-- What `kickwaiter` does: nothing, or it marks one waiter with the number of
the response and signals its thread. -/
theorem kick_cases (r : Response) (s : Conn) :
    (∀ i ∈ s.queue, (s.rw i).reqno ≠ r.reqno) ∧ kick r s = s ∨
      ∃ k ∈ s.queue, (s.rw k).reqno = r.reqno ∧
        kick r s = setPc k (s.pc k).ring { s with
          rw := Function.update s.rw k
            { s.rw k with data := r.data, done := true, dlen := r.dlen } } := by
  unfold kick
  cases hf : s.queue.find? fun k => (s.rw k).reqno = r.reqno with
  | none =>
    refine .inl ⟨fun i hi => ?_, rfl⟩
    simpa using List.find?_eq_none.mp hf i hi
  | some k => exact .inr ⟨k, List.mem_of_find?_eq_some hf, by simpa using List.find?_some hf, rfl⟩

theorem Waiting.heard (hw : Waiting c s) (r : Response) :
    Waiting c { s with heard := s.heard ++ [r] } :=
  ⟨hw.nodup, hw.queued, hw.counter, hw.below, hw.distinct, hw.asleep,
    fun i hi => List.mem_append_left _ (hw.done i hi), hw.error,
    fun x hx => (hw.returns x hx).mono fun _ hy => List.mem_append_left _ hy⟩

theorem Waiting.resp (hw : Waiting c s) (r : Response) :
    Waiting c { kick r s with heard := s.heard ++ [r] } := by
  rcases kick_cases r s with ⟨_, he⟩ | ⟨k, hk, hreq, he⟩
  · rw [he]
    exact hw.heard r
  · rw [he]
    have hpeer := (roused_ring (s.pc k)).peer
    generalize hf : Function.update s.rw k
      { s.rw k with data := r.data, done := true, dlen := r.dlen } = f
    have hself : f k = { s.rw k with data := r.data, done := true, dlen := r.dlen } := by
      rw [← hf, Function.update_self]
    have hother : ∀ i, i ≠ k → f i = s.rw i := by
      intro i hi
      rw [← hf, Function.update_of_ne hi]
    have hno : ∀ i, (f i).reqno = (s.rw i).reqno := by
      intro i
      by_cases hik : i = k
      · rw [hik, hself]
      · rw [hother i hik]
    refine ⟨hw.nodup, fun i => ?_, hw.counter, fun hd i hi => ?_, fun hd i hi j hj heq => ?_,
      fun i hi => ?_, fun i hi => ?_, fun i => ?_, (hw.heard r).returns⟩
    · show i ∈ s.queue ↔ (Function.update s.pc k (s.pc k).ring i).pends = true
      rw [hw.queued i]
      by_cases hik : i = k
      · rw [hik, Function.update_self, hpeer.1]
      · rw [Function.update_of_ne hik]
    · exact (hno i).symm ▸ hw.below hd i hi
    · exact hw.distinct hd i hi j hj ((hno i).symm.trans (heq.trans (hno j)))
    · replace hi : Function.update s.pc k (s.pc k).ring i = .respwait false := hi
      show (f i).done = false ∧ s.state ≠ .dying
      by_cases hik : i = k
      · rw [hik, Function.update_self] at hi
        cases hp : s.pc k <;> rw [hp] at hi <;> cases hi
      · rw [Function.update_of_ne hik] at hi
        rw [hother i hik]
        exact hw.asleep i hi
    · replace hi : (f i).done = true := hi
      show ⟨(f i).reqno, (f i).data, (f i).dlen⟩ ∈ s.heard ++ [r]
      by_cases hik : i = k
      · rw [hik, hself, hreq]
        exact List.mem_append_right _ (List.mem_singleton_self r)
      · rw [hother i hik] at hi ⊢
        exact List.mem_append_left _ (hw.done i hi)
    · show (f i).error = 0
      by_cases hik : i = k
      · rw [hik, hself]
        exact hw.error k
      · rw [hother i hik]
        exact hw.error i

/-- A disconnect wakes everybody who waits for a response. -/
theorem Waiting.disco (hw : Waiting c s) (h0 : s.pc 0 = .idle .loop) :
    Waiting c (discoLock s) := by
  have hkick : ∀ i, (kickall { s with state := .dying }).pc i ≠ .respwait false := by
    intro i hi
    replace hi : (if i ∈ s.queue then (s.pc i).ring else s.pc i) = .respwait false := hi
    split at hi
    · cases hp : s.pc i <;> rw [hp] at hi <;> cases hi
    · rename_i hni
      rw [hw.queued i, hi] at hni
      exact hni rfl
  have hpeer : ∀ i, Peer (s.pc i) ((discoLock s).pc i) ∧ (discoLock s).pc i ≠ .respwait false := by
    intro i
    by_cases hi : i = 0
    · subst hi
      rw [discoLock, setPc_self, h0]
      exact ⟨⟨rfl, fun hx => absurd hx (by simp)⟩, by simp⟩
    · refine ⟨(discoLock_other hi s).peer, fun hx => ?_⟩
      have hr := (sendunlockl_pc (kickall { s with state := .dying }) i).peer
      rw [discoLock, setPc_other hi] at hx
      exact hkick i (hr.2 hx)
  obtain ⟨pc, he⟩ := discoLock_frame s
  rw [he] at hpeer ⊢
  refine ⟨hw.nodup, fun i => ?_, fun hd => absurd rfl hd, fun hd => absurd rfl hd,
    fun hd => absurd rfl hd, fun i hi => ?_, hw.done, hw.error, hw.returns⟩
  · rw [(hpeer i).1.1]
    exact hw.queued i
  · exact absurd hi (hpeer i).2

theorem sendlockl_peer {j : Job} {u : Conn} (hp : (s.pc k).pends = j.asks) :
    Peer (s.pc k) ((sendlockl k j u).pc k) := by
  rcases sendlockl_self k j u with ⟨_, hpc, _⟩ | ⟨_, hpc, _⟩
  · rw [hpc]
    exact ⟨hp.symm, fun hx => absurd hx (by simp)⟩
  · rw [hpc]
    exact ⟨hp.symm, fun hx => absurd hx (by simp)⟩

theorem execTest_peer (hp : (s.pc k).pends = false) : Peer (s.pc k) ((execTest k s).pc k) := by
  rcases execTest_self k s with ⟨_, hpc⟩ | hpc
  · rw [hpc]
    exact ⟨hp.symm, fun hx => absurd hx (by simp)⟩
  · rw [hpc]
    exact ⟨hp.symm, fun hx => absurd hx (by simp)⟩

theorem peer_of_calm {p p' : Pc} (hp : p.pends = false) (hc : p'.calm = true) : Peer p p' := by
  obtain ⟨hp', hne⟩ := calm_pends hc
  exact ⟨hp'.trans hp.symm, fun hx => absurd hx hne⟩

theorem after_pends {p : Pc} {last : Bool} {next : Place} (h : after p last = some next) :
    p.pends = false := by
  cases p <;> first | rfl | cases h

/-- The end of a tenure: the waiter stays for `waitresp`, or goes with a send
that failed. -/
theorem Waiting.unlock (hw : Waiting c s) {j : Job} {n : Nat} (hk : s.pc k = .sending j n) (ok : Bool) :
    Waiting c (Conn.unlock k ok j n s) := by
  have hpc := sendunlockl_pc { s with tenures := s.tenures ++ [⟨j.frame, j.frame.take n, ok⟩] }
  obtain ⟨pc, he⟩ := sendunlockl_frame
    { s with tenures := s.tenures ++ [⟨j.frame, j.frame.take n, ok⟩] }
  have hsame : Waiting c
      (sendunlockl { s with tenures := s.tenures ++ [⟨j.frame, j.frame.take n, ok⟩] }) :=
    hw.same (fun i => (hpc i).peer) (by rw [he]) (by rw [he]) (by rw [he]) (by rw [he])
      (fun hd => ⟨Nat.le_refl c, by rw [he]; exact hw.counter hd⟩) (by rw [he])
  have hpend : ((sendunlockl { s with
      tenures := s.tenures ++ [⟨j.frame, j.frame.take n, ok⟩] }).pc k).pends = j.asks := by
    rw [(hpc k).peer.1]
    exact congrArg Pc.pends hk
  unfold Conn.unlock
  simp only
  split
  · rename_i hasks
    split
    · exact hsame.loop (hpend.trans hasks)
    · exact hsame.leave k hsame.returns
  · rename_i hasks
    refine hsame.same (fun i => ?_) rfl rfl rfl rfl (fun hd => ⟨Nat.le_refl c, hsame.counter hd⟩)
      Iff.rfl
    by_cases hik : i = k
    · subst hik
      rw [setPc_self]
      exact peer_of_calm (hpend.trans (Bool.eq_false_iff.mpr hasks)) rfl
    · rw [setPc_other hik]
      exact ⟨rfl, id⟩

/-- The events that take a number. -/
def Event.counts : Event → Bool
  | .request .. => true
  | .number _ => true
  | _ => false

/-- How many numbers a run has taken before its disconnect. -/
def handedOut (tr : List (Conn × Event)) : Nat :=
  tr.countP fun q => q.1.state ≠ .dying && q.2.counts

/-- A step that takes no number. -/
theorem Move.waiting_same (h : Move s e s') (hb : Basic s) (hw : Waiting c s)
    (hnc : e.counts = false) : Waiting c s' := by
  have hstay : ∀ {s' : Conn}, s'.nextreq = s.nextreq →
      s.state ≠ .dying → c ≤ c ∧ s'.nextreq = u64 c := by
    intro s' hs hd
    exact ⟨Nat.le_refl c, hs.trans (hw.counter hd)⟩
  cases h with
  | @send k frame last next ha =>
    obtain ⟨pc, o, he, -⟩ := sendlockl_frame k ⟨frame, false, next⟩ s
    exact hw.apart (.send ha) hb (sendlockl_peer (after_pends ha)) (by rw [he]) (by rw [he])
      (by rw [he]) (by rw [he]) (hstay (by rw [he])) (by simp)
  | request => cases hnc
  | number => cases hnc
  | @relock k b j hk =>
    obtain ⟨pc, o, he, -⟩ := sendlockl_frame k j s
    exact hw.apart (.relock hk) hb (sendlockl_peer (congrArg Pc.pends hk)) (by rw [he])
      (by rw [he]) (by rw [he]) (by rw [he]) (hstay (by rw [he])) (by simp)
  | rewait hk => exact hw.loop (congrArg Pc.pends hk)
  | @retest k b hk =>
    obtain ⟨pc, he⟩ := execTest_frame k s
    exact hw.apart (.retest hk) hb (execTest_peer (congrArg Pc.pends hk)) (by rw [he])
      (by rw [he]) (by rw [he]) (by rw [he]) (hstay (by rw [he])) (by simp)
  | @push k n m j hk hn =>
    refine hw.apart (.push hk hn) hb ?_ rfl rfl rfl rfl (hstay rfl) (by simp)
    have hpc := setPc_self k (.sending j (m + n)) s
    exact ⟨(congrArg Pc.pends hpc).trans (congrArg Pc.pends hk).symm, fun hx =>
      absurd (hpc.symm.trans hx) (by simp)⟩
  | unlock hk _ => exact hw.unlock hk _
  | @test k hk =>
    obtain ⟨pc, he⟩ := execTest_frame k s
    exact hw.apart (.test hk) hb (execTest_peer (congrArg Pc.pends hk)) (by rw [he])
      (by rw [he]) (by rw [he]) (by rw [he]) (hstay (by rw [he])) (by simp)
  | resp => exact hw.resp _
  | disco h0 => exact hw.disco h0
  | @release k hk =>
    obtain ⟨pc, he⟩ := spcrelease_frame k s
    refine hw.apart (.release hk) hb (peer_of_calm (congrArg Pc.pends hk) ?_) (by rw [he])
      (by rw [he]) (by rw [he]) (by rw [he]) (hstay (by rw [he])) (by simp)
    exact congrArg Pc.calm (spcrelease_self k s)
  | clear hk =>
    exact hw.apart (.clear hk) hb (peer_of_calm (congrArg Pc.pends hk)
      (congrArg Pc.calm (setPc_self ..))) rfl rfl rfl rfl (hstay rfl) (by simp)
  | shake h0 hs => exact hw.apart (.shake h0 hs) hb ⟨rfl, id⟩ rfl rfl rfl rfl (hstay rfl) (by simp)
  | call h0 =>
    exact hw.apart (.call h0) hb (peer_of_calm (congrArg Pc.pends h0)
      (congrArg Pc.calm (setPc_self ..))) rfl rfl rfl rfl (hstay rfl) (by simp)
  | execReq h0 hi =>
    exact hw.apart (.execReq h0 hi) hb (peer_of_calm (congrArg Pc.pends h0)
      (congrArg Pc.calm (setPc_self ..))) rfl rfl rfl rfl (hstay rfl) (by simp)
  | @spawn type h0 =>
    exact hw.apart (.spawn h0) hb (peer_of_calm (congrArg Pc.pends h0)
      (congrArg Pc.calm (hire_server hb.pos type))) rfl rfl rfl rfl (hstay rfl) (by simp)
  | nomem h0 =>
    exact hw.apart (.nomem h0) hb (peer_of_calm (congrArg Pc.pends h0)
      (congrArg Pc.calm (setPc_self ..))) rfl rfl rfl rfl (hstay rfl) (by simp)
  | wipe h0 =>
    exact hw.apart (.wipe h0) hb (peer_of_calm (congrArg Pc.pends h0)
      (congrArg Pc.calm (setPc_self ..))) rfl rfl rfl rfl (fun hd => absurd (hb.wipe 0 h0) hd) (by simp)

/-- A step that takes a number, of which there are enough. -/
theorem Move.waiting_next (h : Move s e s') (hb : Basic s) (hw : Waiting c s)
    (hn : e.counts = true) (hc : s.state ≠ .dying → c < 18446744073709551616 ∧ c' = c + 1) :
    Waiting c' s' := by
  cases h with
  | @request k type body hk =>
    obtain ⟨pc, o, he, -⟩ :=
      sendlockl_frame k ⟨reqFrame s.nextreq type body, true, .syscall⟩ (putwait k s)
    refine hw.put (congrArg Pc.pends hk) hc ?_ (fun i hi => sendlockl_other hi ..) (by rw [he]; rfl)
      (by rw [he]; rfl) (by rw [he]; rfl) (by rw [he]; rfl) (by rw [he]; rfl) (by rw [he]; rfl)
    rcases sendlockl_self k ⟨reqFrame s.nextreq type body, true, .syscall⟩ (putwait k s) with
      ⟨_, hpc, _⟩ | ⟨_, hpc, _⟩
    · rw [hpc]
      exact ⟨rfl, by simp⟩
    · rw [hpc]
      exact ⟨rfl, by simp⟩
  | @number k hk =>
    refine hw.apart (.number hk) hb ⟨rfl, id⟩ rfl rfl rfl rfl (fun hd => ?_) (by simp)
    obtain ⟨hlt, rfl⟩ := hc hd
    refine ⟨Nat.le_succ c, ?_⟩
    show u64 (s.nextreq + 1) = u64 (c + 1)
    rw [hw.counter hd, u64_of_lt hlt]
  | _ => cases hn

/-! ## Whole runs -/

/-- Where the server thread is after a disconnect. -/
def Pc.parted : Pc → Bool
  | .wipe => true
  | .idle .release => true
  | .gone => true
  | _ => false

theorem Roused.parted {p p' : Pc} (h : Roused p p') (hp : p.parted = true) : p'.parted = true := by
  cases h with
  | same => exact hp
  | _ => cases hp

theorem after_parted {p : Pc} {last : Bool} {next : Place} (h : after p last = some next) :
    p.parted = false := by
  cases p with
  | idle q => cases q <;> first | rfl | cases h
  | _ => first | rfl | cases h

/-- The server thread reads no more frames of a client that is gone. -/
theorem Move.parted (h : Move s e s') (hb : Basic s)
    (hp : s.state = .dying → (s.pc 0).parted = true) (hd : s'.state = .dying) :
    (s'.pc 0).parted = true := by
  rcases h.keeps.state.mp hd with hs | rfl
  · replace hp := hp hs
    by_cases ha : e.actor = 0
    · have hat : ∀ {p : Pc}, s.pc e.actor = p → p.parted = true := by
        intro p hx
        rw [← hx, ha]
        exact hp
      cases h with
      | @send k frame last next haf =>
        have hk : (s.pc k).parted = true := hat rfl
        rw [after_parted haf] at hk
        cases hk
      | push hk _ => cases hat hk
      | unlock hk _ => cases hat hk
      | shake hk _ => cases hat hk
      | execReq hk _ => cases hat hk
      | @release k _ =>
        have hk : k = 0 := ha
        rw [hk, spcrelease_self]
        rfl
      | wipe => exact congrArg Pc.parted (setPc_self ..)
      | _ hk => cases hat hk
    · exact (h.other (Ne.symm ha) (.inr (Nat.ne_of_lt hb.pos))).parted hp
  · cases h
    exact congrArg Pc.parted (setPc_self ..)

theorem handedOut_snoc (tr : List (Conn × Event)) (s : Conn) (e : Event) :
    handedOut (tr ++ [(s, e)]) =
      handedOut tr + if (s.state ≠ .dying && e.counts) = true then 1 else 0 := by
  rw [handedOut, List.countP_append, List.countP_singleton]
  rfl

/-- What holds after every run that does not run out of numbers. -/
theorem run_waiting {tr : List (Conn × Event)} (hr : Run step init tr s)
    (hn : handedOut tr ≤ 18446744073709551616) :
    Waiting (handedOut tr) s ∧ (s.state = .dying → (s.pc 0).parted = true) := by
  induction hr with
  | nil => exact ⟨init_waiting, fun hd => by cases hd⟩
  | @snoc tr s s' e hr hs ih =>
    have hb := run_basic hr
    have hm := step_move hs
    rw [handedOut_snoc] at hn ⊢
    obtain ⟨hw, hp⟩ := ih (Nat.le_trans (Nat.le_add_right ..) hn)
    refine ⟨?_, hm.parted hb hp⟩
    cases hc : e.counts with
    | false =>
      rw [Bool.and_false, if_neg (by simp)]
      exact hm.waiting_same hb hw hc
    | true =>
      refine hm.waiting_next hb hw hc fun hd => ?_
      rw [hc, if_pos (by simpa using hd)] at hn
      exact ⟨hn, by rw [if_pos (by simpa using hd)]⟩

/-- What holds of the waiters: their numbers are told apart while the client is
there, `waitresp` has returned as it should, and nobody sleeps unsignalled with
a response or without a client. -/
structure Matched (s : Conn) : Prop where
  distinct : s.state ≠ .dying → (s.queue.map fun i => (s.rw i).reqno).Nodup
  returns : ∀ r ∈ s.returns, Settled s.heard r
  awake : ∀ i, s.pc i = .respwait false → (s.rw i).done = false ∧ s.state ≠ .dying

theorem Waiting.matched (hw : Waiting c s) : Matched s := by
  refine ⟨fun hd => ?_, hw.returns, hw.asleep⟩
  exact List.Nodup.map_on (fun i hi j hj h => hw.distinct hd i hi j hj h) hw.nodup

/-- What a step does to the waiters in the queue: only a response with its own
number changes one, that response is noted and its thread is not left asleep,
and a response nobody waits for changes nothing. -/
structure Delivered (q : Conn) (e : Event) (q' : Conn) : Prop where
  kept : ∀ i ∈ q.queue, (∀ r, e = .resp r → r.reqno ≠ (q.rw i).reqno) → q'.rw i = q.rw i
  hit : ∀ r, e = .resp r → ∀ i ∈ q.queue, (q.rw i).reqno = r.reqno →
    q'.rw i = { q.rw i with data := r.data, done := true, dlen := r.dlen } ∧
      q'.pc i ≠ .respwait false
  stray : ∀ r, e = .resp r → (∀ i ∈ q.queue, (q.rw i).reqno ≠ r.reqno) →
    q'.queue = q.queue ∧ q'.rw = q.rw ∧ q'.pc = q.pc

theorem Move.rw_same (h : Move s e s') (hi : (s.pc i).pends = true) (he : ∀ r, e ≠ .resp r) :
    s'.rw i = s.rw i := by
  refine h.keeps.rw i he fun type body hx => ?_
  subst hx
  cases h with
  | request hk =>
    rw [hk] at hi
    cases hi

theorem ring_awake (p : Pc) : p.ring ≠ .respwait false := by
  intro h
  cases p <;> cases h

theorem Move.delivered (h : Move s e s') (hw : Waiting c s)
    (hp : s.state = .dying → (s.pc 0).parted = true) : Delivered s e s' := by
  by_cases hr : ∃ r, e = .resp r
  · obtain ⟨r, rfl⟩ := hr
    cases h with
    | resp h0 =>
      have hd : s.state ≠ .dying := by
        intro hd
        replace hp := hp hd
        rw [h0] at hp
        cases hp
      rcases kick_cases r s with ⟨hnone, hk⟩ | ⟨k, hkq, hreq, hk⟩
      · rw [hk]
        exact ⟨fun i _ _ => rfl, fun x hx i hi hne => absurd hne (Event.resp.inj hx ▸ hnone i hi),
          fun _ _ _ => ⟨rfl, rfl, rfl⟩⟩
      · rw [hk]
        refine ⟨fun i hi hne => ?_, fun x hx i hi heq => ?_, fun x hx hnone => ?_⟩
        · refine Function.update_of_ne (fun hik => ?_) ..
          exact hne r rfl (hik ▸ hreq.symm)
        · cases hx
          obtain rfl : i = k := hw.distinct hd i hi k hkq (heq.trans hreq.symm)
          refine ⟨Function.update_self .., fun hx => ring_awake (s.pc i) ?_⟩
          exact (Function.update_self ..).symm.trans hx
        · cases hx
          exact absurd hreq (hnone k hkq)
  · have hne : ∀ r, e ≠ .resp r := fun r hx => hr ⟨r, hx⟩
    exact ⟨fun i hi _ => h.rw_same ((hw.queued i).mp hi) hne, fun r hx => absurd hx (hne r),
      fun r hx => absurd hx (hne r)⟩

/-- However many workers ask, in whatever order and with whatever numbers the
responses come, and whenever the client goes, every waiter gets what was sent
for it and nothing else. -/
theorem request_response {tr : List (Conn × Event)} (hr : Run step init tr s)
    (hn : handedOut tr ≤ 18446744073709551616) :
    (∀ q ∈ tr, Matched q.1 ∧ ∃ q', step q.1 q.2 = some q' ∧ Delivered q.1 q.2 q') ∧ Matched s := by
  refine ⟨fun q hq => ?_, (run_waiting hr hn).1.matched⟩
  obtain ⟨l, hl⟩ := List.append_of_mem hq
  have hpre : l ++ [(q.1, q.2)] <+: tr := by
    obtain ⟨t, rfl⟩ := hl
    exact ⟨t, by simp⟩
  obtain ⟨hrun, q', hs⟩ := hr.before hpre
  have hle : handedOut l ≤ handedOut tr :=
    (((List.prefix_append l _).trans hpre).sublist).countP_le
  obtain ⟨hw, hp⟩ := run_waiting hrun (Nat.le_trans hle hn)
  exact ⟨hw.matched, q', hs, (step_move hs).delivered hw hp⟩

/-- Two workers ask; the response to the second comes first, then one that
nobody waits for, then the client goes. -/
def twoWaiters : List Event :=
  [.shake, .call, .spawn, .call, .spawn, .request 1 0 [], .push 1 24, .unlock 1 true,
    .request 2 0 [], .push 2 24, .unlock 2 true, .resp ⟨1, none, 0⟩, .resp ⟨7, none, 0⟩, .wake 2,
    .disco, .wake 1]

theorem request_response_two : ∃ tr s, Run step init tr s ∧
    s.returns.map Return.rv = [0, ENOTCONN] ∧ Matched s := by
  obtain ⟨tr, s, hr, hp⟩ := exists_run (f := step) (s := init) twoWaiters
    (p := fun tr s => handedOut tr ≤ 18446744073709551616 ∧
      s.returns.map Return.rv = [0, ENOTCONN]) (by decide)
  rw [decide_eq_true_eq] at hp
  exact ⟨tr, s, hr, hp.2, (request_response hr hp.1).2⟩

end Conn

end Frankenlibc.Sysproxy

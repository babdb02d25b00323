import Mathlib.Data.Finset.Card
import Frankenlibc.Sysproxy.Respwait

/-!
# The threads of a connection and its references

Each thread that serves a connection holds one reference to it and gives it
back as the last thing it does; the server thread does after a disconnect. A
thread is in the queue of waiters once, and only inside of a request.
-/
namespace Frankenlibc.Sysproxy

open Frankenlibc.Lib

namespace Conn

variable {s s' : Conn} {e : Event} {k i : Nat}

/-! ## References are threads -/

theorem Roused.gone_iff {p p' : Pc} (h : Roused p p') : p' = .gone ↔ p = .gone := by
  cases h with
  | same => exact Iff.rfl
  | _ => exact ⟨fun hx => absurd hx (by simp), fun hx => absurd hx (by simp)⟩

/-- A thread ends in `spcrelease` only. -/
theorem Move.actor_stays (h : Move s e s') (hb : Basic s) (hr : ∀ k, e ≠ .release k) :
    s'.pc e.actor ≠ .gone := by
  have hlock : ∀ (k : Nat) (j : Job) (u : Conn), (sendlockl k j u).pc k ≠ .gone := by
    intro k j u
    rcases sendlockl_self k j u with ⟨_, hpc, _⟩ | ⟨_, hpc, _⟩ <;> simp [hpc]
  have htest : ∀ (k : Nat) (u : Conn), (execTest k u).pc k ≠ .gone := by
    intro k u
    rcases execTest_self k u with ⟨_, hpc⟩ | hpc <;> simp [hpc]
  have hset : ∀ (k : Nat) {p : Pc} (u : Conn), p ≠ .gone → (setPc k p u).pc k ≠ .gone := by
    intro k p u hp
    rw [setPc_self]
    exact hp
  cases h with
  | send => exact hlock _ _ _
  | request => exact hlock _ _ _
  | number hk => exact fun hx => absurd (hk.symm.trans hx) (by simp)
  | relock => exact hlock _ _ _
  | @rewait k b _ =>
    rcases waitrespLoop_self k s with ⟨_, _, hpc⟩ | hpc
    · exact fun hx => absurd (hpc.symm.trans hx) (by simp)
    · exact fun hx => absurd (hpc.symm.trans hx) (by simp)
  | retest => exact htest _ _
  | push => exact hset _ _ (by simp)
  | @unlock k n ok j _ _ =>
    rcases unlock_self k ok j n s with ⟨_, _, _, _, hpc⟩ | ⟨p, hpc⟩
    · exact fun hx => absurd (hpc.symm.trans hx) (by simp)
    · exact fun hx => absurd (hpc.symm.trans hx) (by simp)
  | test => exact htest _ _
  | clear => exact hset _ _ (by simp)
  | @release k _ => exact absurd rfl (hr k)
  | @resp r hk =>
    intro hx
    have hg := (kick_pc r s 0).gone_iff.mp hx
    exact absurd (hk.symm.trans hg) (by simp)
  | shake hk _ => exact fun hx => absurd (hk.symm.trans hx) (by simp)
  | call => exact hset _ _ (by simp)
  | execReq => exact hset _ _ (by simp)
  | @spawn type _ => exact fun hx => absurd ((hire_server hb.pos type).symm.trans hx) (by simp)
  | nomem => exact hset _ _ (by simp)
  | disco => exact hset _ _ (by simp)
  | wipe => exact hset _ _ (by simp)

/-- The threads that are not over. -/
def live (s : Conn) : Finset Nat := (Finset.range s.count).filter fun i => s.pc i ≠ .gone

theorem mem_live (hb : Basic s) : i ∈ s.live ↔ s.pc i ≠ .gone := by
  rw [live, Finset.mem_filter, Finset.mem_range]
  refine and_iff_right_of_imp fun hi => ?_
  by_contra hlt
  exact hi (hb.beyond i (Nat.not_lt.mp hlt))

/-- Every thread has a reference of its own. -/
def Counted (s : Conn) : Prop := s.refcnt = s.live.card

theorem init_counted : Counted init := rfl

theorem Move.counted (h : Move s e s') (hb : Basic s) (hc : Counted s) : Counted s' := by
  have hb' := h.basic hb
  have hactor : e.actor ∈ s.live := (mem_live hb).mpr h.actor_live
  rcases h.keeps.refcnt with ⟨k, rfl, hr⟩ | ⟨rfl, hr⟩ | ⟨hne, hsp, hr, hn⟩
  · have hlive : s'.live = s.live.erase k := by
      ext i
      rw [Finset.mem_erase, mem_live hb', mem_live hb]
      cases h with
      | release hk =>
        by_cases hi : i = k
        · subst hi
          simp [spcrelease_self]
        · rw [ne_eq, (spcrelease_other hi s).gone_iff]
          simp [hi]
    have hmem : k ∈ s.live := hactor
    have hpos : 0 < s.live.card := Finset.card_pos.mpr ⟨k, hmem⟩
    rw [Counted, hr, hc, hlive, Finset.card_erase_of_mem hmem]
    omega
  · cases h with
    | @spawn type h0 =>
      have hlive : (hire type s).live = insert s.count s.live := by
        ext i
        rw [Finset.mem_insert, mem_live hb', mem_live hb]
        by_cases hi : i = s.count
        · subst hi
          cases type with
          | syscall => simp [hire_syscall]
          | exec => simp [hire_exec]
        · by_cases hi0 : i = 0
          · subst hi0
            simp [hire_server hb.pos, h0]
          · rw [ne_eq, ((Move.spawn h0).other hi0 (.inr hi)).gone_iff]
            simp [hi]
      have hnew : s.count ∉ s.live := fun hm =>
        (mem_live hb).mp hm (hb.beyond _ (Nat.le_refl _))
      rw [Counted, hr, hc, hlive, Finset.card_insert_of_notMem hnew]
      rfl
  · have hlive : s'.live = s.live := by
      ext i
      rw [mem_live hb', mem_live hb]
      by_cases hi : i = e.actor
      · subst hi
        exact iff_of_true (h.actor_stays hb hne) h.actor_live
      · rw [ne_eq, ne_eq, (h.other hi (.inl hn)).gone_iff]
    rw [Counted, hr, hc, hlive]

/-- Without references there are no threads. -/
theorem Counted.all_gone (hc : Counted s) (hb : Basic s) (hr : s.refcnt ≤ 0) (i : Nat) :
    s.pc i = .gone := by
  have hcard : s.live.card = 0 := by
    rw [Counted] at hc
    omega
  by_contra hi
  have hmem : i ∈ s.live := (mem_live hb).mpr hi
  rw [Finset.card_eq_zero.mp hcard] at hmem
  exact absurd hmem (Finset.notMem_empty i)

/-! ## The queue and the server thread -/

/-- A thread is in the queue once, and only while it has a waiter. -/
structure Seated (s : Conn) : Prop where
  nodup : s.queue.Nodup
  pends : ∀ i ∈ s.queue, (s.pc i).pends = true

theorem Seated.same (hs : Seated s) (h : Move s e s') (hb : Basic s) (hq : s'.queue = s.queue)
    (ha : (s.pc e.actor).pends = true → (s'.pc e.actor).pends = true) : Seated s' := by
  refine ⟨hq ▸ hs.nodup, fun i hi => ?_⟩
  rw [hq] at hi
  by_cases hie : i = e.actor
  · subst hie
    exact ha (hs.pends _ hi)
  · rw [(h.peer_other hb hie).1]
    exact hs.pends i hi

/-- A thread that has no waiter moves. -/
theorem Seated.idle (hs : Seated s) (h : Move s e s') (hb : Basic s) (hq : s'.queue = s.queue)
    {p : Pc} (hk : s.pc e.actor = p) (hp : p.pends = false) : Seated s' :=
  hs.same h hb hq fun hx => by
    rw [hk, hp] at hx
    cases hx

theorem Seated.leave (hs : Seated s) (h : Move s e s') (hb : Basic s)
    (hq : s'.queue = s.queue.erase e.actor) : Seated s' := by
  refine ⟨hq ▸ hs.nodup.erase _, fun i hi => ?_⟩
  rw [hq, hs.nodup.mem_erase_iff] at hi
  rw [(h.peer_other hb hi.1).1]
  exact hs.pends i hi.2

theorem waitrespLoop_queue (k : Nat) (s : Conn) :
    ((waitrespLoop k s).queue = s.queue ∧ ((waitrespLoop k s).pc k).pends = true) ∨
      (waitrespLoop k s).queue = s.queue.erase k := by
  unfold waitrespLoop
  split
  · exact .inl ⟨rfl, congrArg Pc.pends (setPc_self ..)⟩
  · exact .inr rfl

theorem unlock_queue (k : Nat) (ok : Bool) (j : Job) (n : Nat) (s : Conn) :
    ((unlock k ok j n s).queue = s.queue ∧
      (j.asks = true → ((unlock k ok j n s).pc k).pends = true)) ∨
      (unlock k ok j n s).queue = s.queue.erase k := by
  obtain ⟨s₁, pc, hs₁, ⟨-, -, he⟩ | ⟨-, -, he⟩ | ⟨hasks, he⟩⟩ := unlock_cases k ok j n s
  · have hqueue := waitrespLoop_queue k s₁
    rw [← he, hs₁] at hqueue
    rcases hqueue with ⟨hq, hp⟩ | hq
    · exact .inl ⟨hq, fun _ => hp⟩
    · exact .inr hq
  · rw [he, hs₁]
    exact .inr rfl
  · refine .inl ⟨by rw [he, hs₁]; rfl, fun hx => ?_⟩
    rw [hasks] at hx
    cases hx

theorem init_seated : Seated init := ⟨List.nodup_nil, fun i hi => by cases hi⟩

theorem Move.seated (h : Move s e s') (hb : Basic s) (hs : Seated s) : Seated s' := by
  cases h with
  | @send k frame last next ha =>
    obtain ⟨pc, o, he, -⟩ := sendlockl_frame k ⟨frame, false, next⟩ s
    exact hs.idle (.send ha) hb (by rw [he]) rfl (after_pends ha)
  | @request k type body hk =>
    have hm : Move s (.request k type body) _ := .request hk
    have hnot : k ∉ s.queue := fun hmem => by
      have hp := hs.pends k hmem
      rw [hk] at hp
      cases hp
    obtain ⟨pc, o, he, -⟩ :=
      sendlockl_frame k ⟨reqFrame s.nextreq type body, true, .syscall⟩ (putwait k s)
    have hq : (sendlockl k ⟨reqFrame s.nextreq type body, true, .syscall⟩
        (putwait k s)).queue = s.queue ++ [k] := by
      rw [he]
      rfl
    refine ⟨?_, fun i hi => ?_⟩
    · rw [hq]
      exact List.nodup_append.mpr ⟨hs.nodup, List.nodup_singleton k, fun a ha b hb' => by
        rw [List.mem_singleton] at hb'
        exact fun heq => hnot (hb' ▸ heq ▸ ha)⟩
    · by_cases hik : i = k
      · rw [hik]
        rcases sendlockl_self k ⟨reqFrame s.nextreq type body, true, .syscall⟩
          (putwait k s) with ⟨_, hpc, _⟩ | ⟨_, hpc, _⟩
        · exact congrArg Pc.pends hpc
        · exact congrArg Pc.pends hpc
      · rw [hq, List.mem_append, List.mem_singleton, or_iff_left hik] at hi
        rw [(hm.peer_other hb hik).1]
        exact hs.pends i hi
  | number hk => exact hs.idle (.number hk) hb rfl hk rfl
  | @relock k b j hk =>
    obtain ⟨pc, o, he, -⟩ := sendlockl_frame k j s
    refine hs.same (.relock hk) hb (by rw [he]) fun hp => ?_
    exact (sendlockl_peer (congrArg Pc.pends hk)).1.trans hp
  | @rewait k b hk =>
    rcases waitrespLoop_queue k s with ⟨hq, hp⟩ | hq
    · exact hs.same (.rewait hk) hb hq fun _ => hp
    · exact hs.leave (.rewait hk) hb hq
  | @retest k b hk =>
    obtain ⟨pc, he⟩ := execTest_frame k s
    exact hs.idle (.retest hk) hb (by rw [he]) hk rfl
  | @push k n m j hk hn =>
    refine hs.same (.push hk hn) hb rfl fun hp => ?_
    have hpc := setPc_self k (.sending j (m + n)) s
    exact (congrArg Pc.pends hpc).trans ((congrArg Pc.pends hk).symm.trans hp)
  | @unlock k n ok j hk hok =>
    rcases unlock_queue k ok j n s with ⟨hq, hp⟩ | hq
    · refine hs.same (.unlock hk hok) hb hq fun hx => hp ?_
      exact (congrArg Pc.pends hk).symm.trans hx
    · exact hs.leave (.unlock hk hok) hb hq
  | @test k hk =>
    obtain ⟨pc, he⟩ := execTest_frame k s
    exact hs.idle (.test hk) hb (by rw [he]) hk rfl
  | clear hk => exact hs.idle (.clear hk) hb rfl hk rfl
  | @release k hk =>
    obtain ⟨pc, he⟩ := spcrelease_frame k s
    exact hs.idle (.release hk) hb (by rw [he]) hk rfl
  | @resp r hk =>
    obtain ⟨pc, rw', he⟩ := kick_frame r s
    exact hs.idle (.resp hk) hb (by rw [he]) hk rfl
  | shake hk hst => exact hs.idle (.shake hk hst) hb rfl hk rfl
  | call hk => exact hs.idle (.call hk) hb rfl hk rfl
  | execReq hk hi => exact hs.idle (.execReq hk hi) hb rfl hk rfl
  | spawn hk => exact hs.idle (.spawn hk) hb rfl hk rfl
  | nomem hk => exact hs.idle (.nomem hk) hb rfl hk rfl
  | disco hk =>
    obtain ⟨pc, he⟩ := discoLock_frame s
    exact hs.idle (.disco hk) hb (by rw [he]) hk rfl
  | wipe hk => exact hs.idle (.wipe hk) hb rfl hk rfl

/-- A thread in a request is in it still, or has just left it. -/
theorem Move.pends_actor (h : Move s e s')
    (hp : (s.pc e.actor).pends = true) :
    (s'.pc e.actor).pends = true ∨ s'.pc e.actor = .idle .syscall := by
  have hat : ∀ {p : Pc}, s.pc e.actor = p → p.pends = true := by
    intro p hx
    rw [← hx]
    exact hp
  cases h with
  | send ha => exact absurd ((after_pends ha).symm.trans hp) (by decide)
  | relock hk => exact .inl ((sendlockl_peer (congrArg Pc.pends hk)).1.trans hp)
  | @rewait k b hk =>
    rcases waitrespLoop_self k s with ⟨_, _, hpc⟩ | hpc
    · exact .inl (congrArg Pc.pends hpc)
    · exact .inr hpc
  | @push k n m j hk _ =>
    have hj := hat hk
    exact .inl ((congrArg Pc.pends (setPc_self k (.sending j (m + n)) s)).trans hj)
  | @unlock k n ok j hk _ =>
    have hj : j.asks = true := hat hk
    obtain ⟨pc, hs⟩ := sendunlockl_frame
      { s with tenures := s.tenures ++ [⟨j.frame, j.frame.take n, ok⟩] }
    show ((Conn.unlock k ok j n s).pc k).pends = true ∨ (Conn.unlock k ok j n s).pc k = _
    unfold Conn.unlock
    simp only [hs, hj, if_true]
    cases ok with
    | true =>
      rcases waitrespLoop_self k { s with
        pc := pc, ostatus := .free
        tenures := s.tenures ++ [⟨j.frame, j.frame.take n, true⟩] } with ⟨_, _, hpc⟩ | hpc
      · exact .inl (congrArg Pc.pends hpc)
      · exact .inr hpc
    | false => exact .inr (setPc_self ..)
  | shake hk _ => cases hat hk
  | execReq hk _ => cases hat hk
  | _ hk => cases hat hk

/-- A thread gets into a request with a new waiter. -/
theorem Move.pends_new (h : Move s e s') (hb : Basic s) (hn : (s.pc e.actor).pends = false)
    (hp : (s'.pc e.actor).pends = true) :
    (∃ k type body, e = .request k type body) ∧ s'.rw e.actor = doputwait s.nextreq := by
  have hno : ∀ {p : Pc}, s'.pc e.actor = p → p.pends = true := by
    intro p hx
    rw [← hx]
    exact hp
  have hpeer : ¬ Peer (s.pc e.actor) (s'.pc e.actor) := by
    intro hx
    rw [hx.1, hn] at hp
    cases hp
  cases h with
  | @send k frame last next ha =>
    exact absurd (sendlockl_peer (j := ⟨frame, false, next⟩) (after_pends ha)) hpeer
  | @request k type body hk =>
    obtain ⟨pc, o, he, -⟩ :=
      sendlockl_frame k ⟨reqFrame s.nextreq type body, true, .syscall⟩ (putwait k s)
    refine ⟨⟨k, type, body, rfl⟩, ?_⟩
    rw [he]
    exact Function.update_self ..
  | relock hk => exact absurd (sendlockl_peer (congrArg Pc.pends hk)) hpeer
  | rewait hk => cases (congrArg Pc.pends hk).symm.trans hn
  | retest => exact absurd (execTest_peer hn) hpeer
  | @push k n m j hk _ =>
    have hj : j.asks = false := (congrArg Pc.pends hk).symm.trans hn
    exact absurd (hno (setPc_self k (.sending j (m + n)) s)) (by simp [Pc.pends, hj])
  | @unlock k n ok j hk _ =>
    have hj : j.asks = false := (congrArg Pc.pends hk).symm.trans hn
    refine absurd (hno (p := .idle j.next) ?_) (by simp [Pc.pends])
    show (Conn.unlock k ok j n s).pc k = _
    unfold Conn.unlock
    simp only [hj, Bool.false_eq_true, if_false, setPc_self]
  | test => exact absurd (execTest_peer hn) hpeer
  | @clear k _ => cases hno (setPc_self k .execdone { s with inexec := false })
  | release => cases hno (spcrelease_self ..)
  | resp => exact absurd (kick_pc _ _ _).peer hpeer
  | call => cases hno (setPc_self ..)
  | execReq => cases hno (setPc_self ..)
  | spawn => cases hno (hire_server hb.pos _)
  | nomem => cases hno (setPc_self ..)
  | disco => cases hno (setPc_self ..)
  | wipe => cases hno (setPc_self ..)
  | _ => exact absurd ⟨rfl, id⟩ hpeer

theorem Move.of_resp {r : Response} (h : Move s (.resp r) s') :
    s.pc 0 = .idle .loop ∧ s' = { kick r s with heard := s.heard ++ [r] } := by
  cases h with
  | resp h0 => exact ⟨h0, rfl⟩

theorem Roused.stays {p p' : Pc} (h : Roused p p') (hp : p.pends = true ∨ p = .idle .syscall) :
    p'.pends = true ∨ p' = .idle .syscall := by
  rcases hp with hp | rfl
  · exact .inl (h.peer.1.trans hp)
  · cases h
    exact .inr rfl

/-- Only the server thread itself clears the connection. -/
theorem Move.wipes (h : Move s e s') (hw : s.pc 0 = .wipe) (ha : e.actor = 0) : e = .wipe := by
  have hat : ∀ {p : Pc}, s.pc e.actor = p → p = .wipe := by
    intro p hx
    rw [← hx, ha, hw]
  cases h with
  | @send k frame last next haf =>
    rw [show s.pc k = .wipe from hat rfl] at haf
    cases haf
  | push hk _ => cases hat hk
  | unlock hk _ => cases hat hk
  | shake hk _ => cases hat hk
  | execReq hk _ => cases hat hk
  | wipe => rfl
  | _ hk => cases hat hk

/-- Where the server thread is before a disconnect. -/
def Pc.serves : Pc → Bool
  | .idle .loop => true
  | .lockwait _ j => !j.asks && j.next = .loop
  | .sending j _ => !j.asks && j.next = .loop
  | .schedule _ => true
  | _ => false

theorem Roused.serves {p p' : Pc} (h : Roused p p') (hp : p.serves = true) : p'.serves = true := by
  cases h with
  | same => exact hp
  | lock b j => exact hp
  | _ => cases hp

theorem sendlockl_serves {j : Job} {u : Conn} (hj : (!j.asks && decide (j.next = .loop)) = true) :
    ((sendlockl k j u).pc k).serves = true := by
  rcases sendlockl_self k j u with ⟨_, hpc, _⟩ | ⟨_, hpc, _⟩ <;> rw [hpc] <;> exact hj

/-- The server thread leaves its loop with the client only. -/
theorem Move.serves (h : Move s e s') (hb : Basic s)
    (hp : s.state ≠ .dying → (s.pc 0).serves = true) (hd : s'.state ≠ .dying) :
    (s'.pc 0).serves = true := by
  have hstate : s.state ≠ .dying := fun hx => hd (h.keeps.state.mpr (.inl hx))
  have hdisco : e ≠ .disco := fun hx => hd (h.keeps.state.mpr (.inr hx))
  replace hp := hp hstate
  by_cases ha : e.actor = 0
  swap
  · exact (h.other (Ne.symm ha) (.inr (Nat.ne_of_lt hb.pos))).serves hp
  have hat : ∀ {p : Pc}, s.pc e.actor = p → p.serves = true := by
    intro p hx
    rw [← hx, ha]
    exact hp
  have hto : ∀ {p : Pc}, s'.pc e.actor = p → p.serves = true → (s'.pc 0).serves = true := by
    intro p hx hs
    rw [← ha, hx]
    exact hs
  cases h with
  | @send k frame last next haf =>
    refine hto rfl (sendlockl_serves ?_)
    have hk : (s.pc k).serves = true := hat rfl
    cases hpc : s.pc k with
    | idle q =>
      rw [hpc] at hk haf
      cases q with
      | loop =>
        cases haf
        rfl
      | _ => cases hk
    | execdone =>
      rw [hpc] at hk
      cases hk
    | _ =>
      rw [hpc] at haf
      cases haf
  | request hk => cases hat hk
  | number hk => cases hat hk
  | relock hk => exact hto rfl (sendlockl_serves (hat hk))
  | rewait hk => cases hat hk
  | retest hk => cases hat hk
  | push hk _ =>
    have hj := hat hk
    exact hto (setPc_self ..) hj
  | @unlock k n ok j hk _ =>
    have hj : (!j.asks && decide (j.next = .loop)) = true := hat hk
    simp only [Bool.and_eq_true, Bool.not_eq_true', decide_eq_true_eq] at hj
    refine hto (p := .idle .loop) ?_ rfl
    show (Conn.unlock k ok j n s).pc k = _
    unfold Conn.unlock
    simp only [hj.1, Bool.false_eq_true, if_false, hj.2, setPc_self]
  | test hk => cases hat hk
  | clear hk => cases hat hk
  | release hk => cases hat hk
  | resp => exact (kick_pc _ _ _).serves hp
  | shake => exact hp
  | call => exact hto (setPc_self ..) rfl
  | execReq => exact hto (setPc_self ..) rfl
  | spawn => exact hto (hire_server hb.pos _) rfl
  | nomem => exact hto (setPc_self ..) rfl
  | disco => exact absurd rfl hdisco
  | wipe hk => cases hat hk

/-- What holds of the threads after every run. -/
structure Manned (s : Conn) : Prop where
  basic : Basic s
  counted : Counted s
  seated : Seated s
  parted : s.state = .dying → (s.pc 0).parted = true
  serves : s.state ≠ .dying → (s.pc 0).serves = true

theorem init_manned : Manned init :=
  ⟨init_basic, init_counted, init_seated, fun h => (by cases h), fun _ => rfl⟩

theorem Move.manned (h : Move s e s') (hm : Manned s) : Manned s' where
  basic := h.basic hm.basic
  counted := h.counted hm.basic hm.counted
  seated := h.seated hm.basic hm.seated
  parted := h.parted hm.basic hm.parted
  serves := h.serves hm.basic hm.serves

end Conn

end Frankenlibc.Sysproxy

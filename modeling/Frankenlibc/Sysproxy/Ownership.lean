import Frankenlibc.Sysproxy.Buffers
import Frankenlibc.Sysproxy.References

/-!
# Who owns a payload buffer

A pointer is always passed on with its old place cleared, so no buffer ever has
two owners and none is freed twice. Buffers get lost where a pointer is written
over or dropped: by a second response to one request, by a disconnect in the
middle of a frame, and by a request that fails after its response has come. And
the last reference to a connection may be dropped while a worker has still to
free the data of its item, since `serv_workbouncer` does that after its
`spcrelease`.
-/
namespace Frankenlibc.Sysproxy

open Frankenlibc.Lib Conn

namespace Estate

variable {s s' : Estate} {e : BufEvent} {k : Nat}

/-- A buffer has exactly one owner until it is freed and none from then on, it
is freed once, and when the last reference to the connection is gone all
buffers are freed. -/
structure Owned (s : Estate) : Prop where
  owner : ∀ x < s.book.made, x ∉ s.book.freed → ∃! o, s.book.held o = some x
  dead : ∀ x ∈ s.book.freed, ∀ o, s.book.held o ≠ some x
  once : s.book.freed.Nodup
  released : s.conn.refcnt ≤ 0 → ∀ x < s.book.made, x ∈ s.book.freed

/-- The step drops a pointer: a response comes for a waiter that has one
already; a request fails, or its connection is dying, when its response has
come; or the client goes away in the middle of a frame. -/
def drops (s : Estate) : BufEvent → Bool
  | .resp => s.waiter.any fun k => (s.book.held (.rwData k)).isSome
  | .conn (.unlock k ok) =>
    match s.conn.pc k with
    | .sending j _ =>
      j.asks && (!ok || s.conn.state = .dying) && (s.book.held (.rwData k)).isSome
    | _ => false
  | .conn (.wake k) =>
    match s.conn.pc k with
    | .respwait _ => s.conn.state = .dying && (s.book.held (.rwData k)).isSome
    | _ => false
  | .conn .wipe => (s.book.held .spcBuf).isSome
  | _ => false

/-- The last reference goes while the data of an item has not been freed. -/
def late (s : Estate) : BufEvent → Bool
  | .conn (.release _) => s.conn.refcnt = 1 &&
      (List.range s.conn.count).any fun k => (s.book.held (.sbaData k)).isSome
  | _ => false

/-- Where pointers can be. -/
structure Tidy (s : Estate) : Prop where
  manned : Manned s.conn
  proper : s.book.Proper
  header : s.recv.off < HDRSZ → s.book.held .spcBuf = none
  wiped : s.conn.state = .dying → s.conn.pc 0 ≠ .wipe → s.book.held .spcBuf = none
  waiters : ∀ k, s.book.held (.rwData k) ≠ none →
    (s.conn.pc k).pends = true ∨ s.conn.pc k = .idle .syscall
  items : ∀ k, s.book.held (.sbaData k) ≠ none → k < s.conn.count

theorem init_tidy : Tidy init where
  manned := init_manned
  proper := Holdings.blank_proper
  header _ := rfl
  wiped h := by cases h
  waiters k h := absurd rfl h
  items k h := absurd rfl h

theorem dealt_proper (h : s.book.Proper) : (s.dealt e).Proper := by
  unfold dealt
  split
  · exact h.deal _
  · exact h

/-! ## What a step can do -/

/-- The steps with their guards. -/
inductive Did (s : Estate) : BufEvent → Estate → Prop
  | read {alloc : Bool} {h : Host} (h0 : s.conn.pc 0 = .idle .loop) :
      Did s (.read alloc h) ⟨s.conn, (readframe alloc s.recv h).2.1,
        Rx.ofRet (readframe alloc s.recv h).1, s.dealt (.read alloc h)⟩
  | resp {c : Conn} (hm : Move s.conn (.resp (response s.recv)) c) :
      Did s .resp ⟨c, spcresetbuf s.recv, .reading, s.dealt .resp⟩
  | discard (h0 : s.conn.pc 0 = .idle .loop) :
      Did s .discard ⟨s.conn, spcfreebuf s.recv, .reading, s.dealt .discard⟩
  | conn {ev : Conn.Event} {c : Conn} (ha : s.allows ev = true) (hm : Move s.conn ev c) :
      Did s (.conn ev) ⟨c, (s.connRecv ev).1, (s.connRecv ev).2, s.dealt (.conn ev)⟩
  | free {k : Nat} (hk : s.conn.pc k = .idle .syscall) :
      Did s (.free k) ⟨s.conn, s.recv, s.rx, s.dealt (.free k)⟩
  | freeData {k : Nat} (hk : s.conn.pc k = .gone) (hs : (s.book.held (.sbaData k)).isSome = true) :
      Did s (.freeData k) ⟨s.conn, s.recv, s.rx, s.dealt (.freeData k)⟩

theorem did_of_step (h : step s e = some s') : Did s e s' := by
  obtain ⟨c, hc, rfl⟩ := Option.map_eq_some_iff.mp h
  cases e with
  | read alloc h =>
    obtain ⟨hg, rfl⟩ := some_of_ite hc
    exact .read hg.1
  | resp =>
    simp only [control] at hc
    split at hc
    · obtain ⟨c', hstep, rfl⟩ := Option.map_eq_some_iff.mp hc
      exact .resp (step_move hstep)
    · cases hc
  | discard =>
    obtain ⟨hg, rfl⟩ := some_of_ite hc
    exact .discard hg.1
  | conn ev =>
    simp only [control] at hc
    split at hc
    · rename_i ha
      obtain ⟨c', hstep, rfl⟩ := Option.map_eq_some_iff.mp hc
      exact .conn ha (step_move hstep)
    · cases hc
  | free k =>
    obtain ⟨hg, rfl⟩ := some_of_ite hc
    exact .free hg.1
  | freeData k =>
    obtain ⟨hg, rfl⟩ := some_of_ite hc
    exact .freeData hg.1 hg.2

/-- A thread that starts something new has nothing to free. -/
theorem allows_clear {ev : Conn.Event} (h : s.allows ev = true)
    (hk : s.conn.pc ev.actor = .idle .syscall) : s.book.held (.rwData ev.actor) = none := by
  unfold allows at h
  simp only [Bool.and_eq_true, Bool.or_eq_true, hk] at h
  simpa using h.2

/-- The pointers after a step of the connection: at most the data of a waiter
is dropped, or the buffer of the receiver is dealt with. -/
theorem connDeal_cases (ev : Conn.Event) :
    (s.connDeal ev = none ∨ s.connDeal ev = some (.forget (.rwData ev.actor))) ∧
        s.connRecv ev = (s.recv, s.rx) ∧ ev ≠ .spawn ∧ ev ≠ .wipe ∨
      ev = .spawn ∨ ev = .nomem ∨ ev = .wipe := by
  have hleaves : ∀ k, s.leaves k = none ∨ s.leaves k = some (.forget (.rwData k)) := by
    intro k
    unfold leaves
    split
    · exact .inr rfl
    · exact .inl rfl
  cases ev with
  | request k type body => exact .inl ⟨.inr rfl, rfl, by simp, by simp⟩
  | unlock k ok =>
    refine .inl ⟨?_, rfl, by simp, by simp⟩
    simp only [connDeal]
    split
    · split
      · split
        · exact hleaves k
        · exact .inr rfl
      · exact .inl rfl
    · exact .inl rfl
  | wake k =>
    refine .inl ⟨?_, rfl, by simp, by simp⟩
    simp only [connDeal]
    split
    · exact hleaves k
    · exact .inl rfl
  | spawn => exact .inr (.inl rfl)
  | nomem => exact .inr (.inr (.inl rfl))
  | wipe => exact .inr (.inr (.inr rfl))
  | _ => exact .inl ⟨.inl rfl, rfl, by simp, by simp⟩

/-! ## Where pointers can be, over a step -/

/-- A waiter's data stays with a thread that may have it. -/
theorem Tidy.waiters_conn {c : Conn} {ev : Conn.Event} (ht : Tidy s) (ha : s.allows ev = true)
    (hm : Move s.conn ev c) (hk : s.book.held (.rwData k) ≠ none) :
    (c.pc k).pends = true ∨ c.pc k = .idle .syscall := by
  have hw := ht.waiters k hk
  by_cases hka : k = ev.actor
  · subst hka
    exact hm.pends_actor (hw.resolve_right fun hidle => hk (allows_clear ha hidle))
  · rcases hm.thread ht.manned.basic k with ⟨hx, _⟩ | hr | ⟨hg, _⟩
    · exact absurd hx hka
    · exact hr.stays hw
    · rw [hg] at hw
      rcases hw with hp | hi
      · cases hp
      · cases hi

theorem not_dying (hm : Manned s.conn) (h0 : s.conn.pc 0 = .idle .loop) :
    s.conn.state ≠ .dying := by
  intro hd
  have hp := hm.parted hd
  rw [h0] at hp
  cases hp

/-- `readframe` touches `spc_buf` only. -/
theorem held_read {alloc : Bool} {h : Host} {o : Holder} (ho : o ≠ .spcBuf) :
    (s.dealt (.read alloc h)).held o = s.book.held o := by
  simp only [dealt, dealOf]
  cases mallocs s.recv (readframe alloc s.recv h).2.1 with
  | false => rfl
  | true =>
    cases alloc with
    | true => simp [ho]
    | false => simp [ho]

theorem Tidy.read (ht : Tidy s) {alloc : Bool} {h : Host} (h0 : s.conn.pc 0 = .idle .loop) :
    Tidy ⟨s.conn, (readframe alloc s.recv h).2.1, Rx.ofRet (readframe alloc s.recv h).1,
      s.dealt (.read alloc h)⟩ where
  manned := ht.manned
  proper := dealt_proper ht.proper
  header hoff := by
    have hno : mallocs s.recv (readframe alloc s.recv h).2.1 = false := by
      simp only [mallocs, decide_eq_false (Nat.not_le.mpr hoff), Bool.and_false, Bool.false_and]
    simp only [dealt, dealOf, hno, Bool.false_eq_true, if_false]
    exact ht.header (Nat.lt_of_le_of_lt (readframe_inv _ _ _).keeps.1 hoff)
  wiped hd := absurd hd (not_dying ht.manned h0)
  waiters k hk := ht.waiters k (by rwa [held_read (by simp)] at hk)
  items k hk := ht.items k (by rwa [held_read (by simp)] at hk)

theorem mem_queue_of_waiter (h : s.waiter = some k) : k ∈ s.conn.queue :=
  List.mem_of_find?_eq_some h

theorem Tidy.resp (ht : Tidy s) {c : Conn} (hm : Move s.conn (.resp (response s.recv)) c) :
    Tidy ⟨c, spcresetbuf s.recv, .reading, s.dealt .resp⟩ := by
  have hspc : (s.dealt .resp).held .spcBuf = none := by
    cases hw : s.waiter with
    | none => simp [dealt, dealOf, hw]
    | some k => simp [dealt, dealOf, hw]
  have hcount : c.count = s.conn.count := by
    rcases hm.keeps.refcnt with ⟨k, hx, _⟩ | ⟨hx, _⟩ | ⟨_, _, _, hn⟩
    · cases hx
    · cases hx
    · exact hn
  -- whoever had data, and whoever gets it, has a waiter in the queue or is done
  have hstay : ∀ k, ((s.conn.pc k).pends = true ∨ s.conn.pc k = .idle .syscall) →
      (c.pc k).pends = true ∨ c.pc k = .idle .syscall := by
    intro k hk
    obtain ⟨_, rfl⟩ := hm.of_resp
    exact (kick_pc (response s.recv) s.conn k).stays hk
  refine ⟨hm.manned ht.manned, dealt_proper ht.proper, fun _ => hspc, fun _ _ => hspc, ?_, ?_⟩
  · intro k hk
    apply hstay
    cases hw : s.waiter with
    | none =>
      refine ht.waiters k ?_
      simpa [dealt, dealOf, hw] using hk
    | some j =>
      by_cases hkj : k = j
      · rw [hkj]
        exact .inl (ht.manned.seated.pends j (mem_queue_of_waiter hw))
      · refine ht.waiters k ?_
        simpa [dealt, dealOf, hw, hkj] using hk
  · intro k hk
    show k < c.count
    rw [hcount]
    refine ht.items k ?_
    cases hw : s.waiter with
    | none => simpa [dealt, dealOf, hw] using hk
    | some j => simpa [dealt, dealOf, hw] using hk

theorem Tidy.conn (ht : Tidy s) {ev : Conn.Event} {c : Conn} (ha : s.allows ev = true)
    (hm : Move s.conn ev c) :
    Tidy ⟨c, (s.connRecv ev).1, (s.connRecv ev).2, s.dealt (.conn ev)⟩ := by
  have hmanned := hm.manned ht.manned
  have hcount : s.conn.count ≤ c.count := by
    rcases hm.keeps.count with hc | ⟨type, _, rfl⟩
    · exact Nat.le_of_eq hc.symm
    · exact Nat.le_succ _
  have hproper : (s.dealt (.conn ev)).Proper := dealt_proper ht.proper
  rcases s.connDeal_cases ev with ⟨hdeal, hrecv, hsp, hwi⟩ | rfl | rfl | rfl
  · -- at most the actor's waiter has lost something
    have hheld : ∀ o, (s.dealt (.conn ev)).held o = s.book.held o ∨
        o = .rwData ev.actor ∧ (s.dealt (.conn ev)).held o = none := by
      intro o
      simp only [dealt, dealOf]
      rcases hdeal with hd | hd
      · rw [hd]
        exact .inl rfl
      · rw [hd]
        by_cases ho : o = .rwData ev.actor
        · exact .inr ⟨ho, by simp [ho]⟩
        · exact .inl (by simp [ho])
    have hsub : ∀ o, (s.dealt (.conn ev)).held o ≠ none → s.book.held o ≠ none := by
      intro o ho
      rcases hheld o with h | ⟨_, h⟩
      · rwa [h] at ho
      · exact absurd h ho
    have hspc : (s.dealt (.conn ev)).held .spcBuf = s.book.held .spcBuf :=
      (hheld .spcBuf).resolve_right fun h => by simp at h
    rw [hrecv]
    refine ⟨hmanned, hproper, fun hoff => hspc.trans (ht.header hoff), fun hd hw => ?_,
      fun k hk => ht.waiters_conn ha hm (hsub _ hk),
      fun k hk => Nat.lt_of_lt_of_le (ht.items k (hsub _ hk)) hcount⟩
    rw [hspc]
    rcases hm.keeps.state.mp hd with hd' | rfl
    · refine ht.wiped hd' fun hwipe => hw ?_
      -- only the server thread itself leaves the point before the `memset`
      have hactor : 0 ≠ ev.actor := fun hx => hwi (hm.wipes hwipe hx.symm)
      have hr := hm.other hactor (.inr (Nat.ne_of_lt ht.manned.basic.pos))
      rw [hwipe] at hr
      generalize c.pc 0 = p at hr
      cases hr
      rfl
    · cases hm
      exact absurd (setPc_self ..) hw
  · -- the buffer goes to the new item
    cases hm with
    | spawn h0 =>
      refine ⟨hmanned, hproper, fun _ => ?_, fun _ _ => ?_, fun k hk => ?_, fun k hk => ?_⟩
      · simp [dealt, dealOf, connDeal]
      · simp [dealt, dealOf, connDeal]
      · refine ht.waiters_conn ha (.spawn h0) ?_
        simpa [dealt, dealOf, connDeal] using hk
      · by_cases hkc : k = s.conn.count
        · exact hkc ▸ Nat.lt_succ_self _
        · refine Nat.lt_succ_of_lt (ht.items k ?_)
          simpa [dealt, dealOf, connDeal, hkc] using hk
  all_goals
    refine ⟨hmanned, hproper, fun _ => ?_, fun _ _ => ?_, fun k hk => ?_, fun k hk => ?_⟩
    · simp [dealt, dealOf, connDeal]
    · simp [dealt, dealOf, connDeal]
    · refine ht.waiters_conn ha hm ?_
      simpa [dealt, dealOf, connDeal] using hk
    · refine Nat.lt_of_lt_of_le (ht.items k ?_) hcount
      simpa [dealt, dealOf, connDeal] using hk

theorem Did.tidy (h : Did s e s') (ht : Tidy s) : Tidy s' := by
  cases h with
  | read h0 => exact ht.read h0
  | resp hm => exact ht.resp hm
  | discard h0 =>
    refine ⟨ht.manned, dealt_proper (e := .discard) ht.proper, fun _ => ?_, fun _ _ => ?_,
      fun k hk => ht.waiters k ?_, fun k hk => ht.items k ?_⟩
    · simp [dealt, dealOf]
    · simp [dealt, dealOf]
    · simpa [dealt, dealOf] using hk
    · simpa [dealt, dealOf] using hk
  | conn ha hm => exact ht.conn ha hm
  | @free k hk =>
    refine ⟨ht.manned, dealt_proper (e := .free k) ht.proper, fun hoff => ?_, fun hd hw => ?_,
      fun i hi => ht.waiters i fun hn => hi ?_, fun i hi => ht.items i ?_⟩
    · simpa [dealt, dealOf] using ht.header hoff
    · simpa [dealt, dealOf] using ht.wiped hd hw
    · simp [dealt, dealOf, hn]
    · simpa [dealt, dealOf] using hi
  | @freeData k hk hs =>
    refine ⟨ht.manned, dealt_proper (e := .freeData k) ht.proper, fun hoff => ?_, fun hd hw => ?_,
      fun i hi => ht.waiters i ?_, fun i hi => ht.items i fun hn => hi ?_⟩
    · simpa [dealt, dealOf] using ht.header hoff
    · simpa [dealt, dealOf] using ht.wiped hd hw
    · simpa [dealt, dealOf] using hi
    · simp [dealt, dealOf, hn]

/-! ## What a step loses -/

theorem Did.book (h : Did s e s') : s'.book = s.dealt e := by
  cases h <;> rfl

/-- A dealing writes over a pointer in the four cases of `drops` only. -/
theorem Did.loses_eq (h : Did s e s') (ht : Tidy s) :
    (s.dealOf e).any (Holdings.loses · s.book) = s.drops e := by
  have hleaves : ∀ k, (s.leaves k).any (Holdings.loses · s.book) =
      (decide (s.conn.state = .dying) && (s.book.held (.rwData k)).isSome) := by
    intro k
    unfold leaves
    split
    · simp [*, Holdings.loses]
    · simp [*]
  cases h with
  | @read alloc h h0 =>
    simp only [dealOf, drops]
    split
    · rename_i hmal
      have hnone : s.book.held .spcBuf = none := by
        refine ht.header ?_
        simp only [mallocs, Bool.and_eq_true, decide_eq_true_eq] at hmal
        exact hmal.1.1
      cases alloc <;> simp [Holdings.loses, hnone]
    · rfl
  | resp hm =>
    simp only [dealOf, drops]
    cases hw : s.waiter <;> rfl
  | discard h0 => rfl
  | @conn ev c ha hm =>
    cases hm with
    | @request k type body hk =>
      have hnone : s.book.held (.rwData k) = none := allows_clear ha hk
      simp [dealOf, drops, connDeal, Holdings.loses, hnone]
    | relock hk => simp [dealOf, drops, connDeal, hk]
    | @rewait k b hk =>
      simp only [dealOf, drops, connDeal, hk]
      exact hleaves k
    | retest hk => simp [dealOf, drops, connDeal, hk]
    | @unlock k n ok j hk hok =>
      simp only [dealOf, drops, connDeal, hk]
      cases j.asks with
      | false => rfl
      | true =>
        cases ok with
        | true => simpa using hleaves k
        | false => simp [Holdings.loses]
    | spawn hk =>
      have hnone : s.book.held (.sbaData s.conn.count) = none := by
        by_contra hne
        exact Nat.lt_irrefl _ (ht.items _ hne)
      simp [dealOf, drops, connDeal, Holdings.loses, hnone]
    | _ => rfl
  | free hk => rfl
  | freeData hk hs => rfl

theorem Did.kept_iff (h : Did s e s') (ht : Tidy s) (hk : s.book.Kept) :
    s'.book.Kept ↔ s.drops e = false := by
  rw [← h.loses_eq ht, h.book, dealt]
  cases hd : s.dealOf e with
  | none => exact iff_of_true hk rfl
  | some d =>
    simp only [Option.any_some]
    refine ⟨fun hk' => ?_, hk.deal⟩
    by_contra hl
    obtain ⟨x, hx⟩ := ht.proper.lost_of_loses (Bool.not_eq_false _ ▸ hl)
    exact hx.not_kept hk'

/-! ## The release of the connection -/

/-- A buffer is owned as long as no pointer is lost, and free when nobody has
one. -/
theorem owned_iff (hp : s.book.Proper) : Owned s ↔
    s.book.Kept ∧ (s.conn.refcnt ≤ 0 → ∀ o, s.book.held o = none) := by
  constructor
  · intro h
    refine ⟨fun x hx => ?_, fun hr o => ?_⟩
    · by_cases hf : x ∈ s.book.freed
      · exact .inl hf
      · obtain ⟨o, ho, _⟩ := h.owner x hx hf
        exact .inr ⟨o, ho⟩
    · by_contra hne
      obtain ⟨x, hx⟩ := Option.ne_none_iff_exists'.mp hne
      obtain ⟨hlt, hf⟩ := hp.alive o x hx
      exact hf (h.released hr x hlt)
  · rintro ⟨hk, hr⟩
    refine ⟨fun x hx hf => hp.holder hk hx hf, fun x hf o ho => (hp.alive o x ho).2 hf, hp.once,
      fun h0 x hx => (hk x hx).resolve_right ?_⟩
    rintro ⟨o, ho⟩
    rw [hr h0 o] at ho
    cases ho

/-- With the last reference all threads are over, so what is held then is the
data of items. -/
theorem Tidy.held_items (ht : Tidy s) (hr : s.conn.refcnt ≤ 0) {o : Holder}
    (ho : s.book.held o ≠ none) : ∃ k < s.conn.count, o = .sbaData k := by
  have hgone := ht.manned.counted.all_gone ht.manned.basic hr
  cases o with
  | spcBuf =>
    have hdying : s.conn.state = .dying := by
      by_contra hd
      have h0 := ht.manned.serves hd
      rw [hgone 0] at h0
      cases h0
    refine absurd (ht.wiped hdying ?_) ho
    rw [hgone 0]
    simp
  | rwData k =>
    rcases ht.waiters k ho with hp | hi
    · rw [hgone k] at hp
      cases hp
    · cases (hgone k).symm.trans hi
  | sbaData k => exact ⟨k, ht.items k ho, rfl⟩

/-- Without references, and with all buffers freed, nothing happens any more. -/
theorem Did.refcnt_pos (h : Did s e s') (ht : Tidy s)
    (hr : s.conn.refcnt ≤ 0 → ∀ o, s.book.held o = none) : 0 < s.conn.refcnt := by
  by_contra hle
  replace hle := Int.not_lt.mp hle
  have hgone := ht.manned.counted.all_gone ht.manned.basic hle
  cases h with
  | read h0 => cases (hgone 0).symm.trans h0
  | resp hm => exact hm.actor_live (hgone _)
  | discard h0 => cases (hgone 0).symm.trans h0
  | conn ha hm => exact hm.actor_live (hgone _)
  | free hk => cases (hgone _).symm.trans hk
  | freeData hk hs =>
    rw [hr hle] at hs
    cases hs

theorem Did.refcnt_cases (h : Did s e s') : (∃ k, e = .conn (.release k) ∧
      s'.conn.refcnt = s.conn.refcnt - 1 ∧ s'.conn.count = s.conn.count ∧ s'.book = s.book) ∨
    (s.late e = false ∧ s.conn.refcnt ≤ s'.conn.refcnt) := by
  cases h with
  | resp hm =>
    rcases hm.keeps.refcnt with ⟨k, hx, _⟩ | ⟨hx, _⟩ | ⟨_, _, hr, _⟩
    · cases hx
    · cases hx
    · exact .inr ⟨rfl, Int.le_of_eq hr.symm⟩
  | @conn ev c ha hm =>
    rcases hm.keeps.refcnt with ⟨k, rfl, hr⟩ | ⟨rfl, hr⟩ | ⟨hne, _, hr, _⟩
    · refine .inl ⟨k, rfl, hr, ?_, rfl⟩
      cases hm with
      | release _ =>
        obtain ⟨pc, he⟩ := spcrelease_frame k s.conn
        show (spcrelease k s.conn).count = _
        rw [he]
    · refine .inr ⟨rfl, ?_⟩
      show s.conn.refcnt ≤ c.refcnt
      omega
    · refine .inr ⟨?_, Int.le_of_eq hr.symm⟩
      cases ev with
      | release k => exact absurd rfl (hne k)
      | _ => rfl
  | _ => exact .inr ⟨rfl, Int.le_refl _⟩

theorem Did.released_iff (h : Did s e s') (ht : Tidy s) (hpos : 0 < s.conn.refcnt) :
    (s'.conn.refcnt ≤ 0 → ∀ o, s'.book.held o = none) ↔ s.late e = false := by
  rcases h.refcnt_cases with ⟨k, rfl, hr, hc, hb⟩ | ⟨hl, hle⟩
  swap
  · exact iff_of_true (fun hr => absurd hr (by omega)) hl
  by_cases hone : s.conn.refcnt = 1
  swap
  · refine iff_of_true (fun hr' => absurd hr' (by omega)) ?_
    simp [late, hone]
  have hlast : s'.conn.refcnt ≤ 0 := by omega
  simp only [late, hone, decide_true, Bool.true_and, List.any_eq_false, List.mem_range]
  constructor
  · intro hfree i _
    rw [← hb, hfree hlast]
    exact Bool.false_ne_true
  · intro hitems _ o
    by_contra ho
    obtain ⟨i, hi, rfl⟩ := (h.tidy ht).held_items hlast ho
    refine hitems i (hc ▸ hi) ?_
    rw [← hb]
    exact Option.isSome_iff_ne_none.mpr ho

/-- A step from a state in which all buffers are owned. -/
theorem owned_step (h : Did s e s') (ht : Tidy s) (ho : Owned s) :
    Owned s' ↔ s.drops e = false ∧ s.late e = false := by
  obtain ⟨hk, hr⟩ := (owned_iff ht.proper).mp ho
  rw [owned_iff (h.tidy ht).proper, h.kept_iff ht hk, h.released_iff ht (h.refcnt_pos ht hr)]

/-! ## The book and the pointers of the code -/

/-- `spc_buf` and the `rw_data` of a thread inside of a request point to a
buffer exactly if the book says so. -/
structure Mirrored (s : Estate) : Prop where
  spc : s.recv.buf.isSome = (s.book.held .spcBuf).isSome
  rw : ∀ k, (s.conn.pc k).pends = true →
    (s.conn.rw k).data.isSome = (s.book.held (.rwData k)).isSome

/-- `readframe` changes `spc_buf` where it calls `malloc`, and only there. -/
theorem intake_buf {alloc : Bool} {c c' : Client} {r : Ret} (h : Intake alloc c r c') :
    c'.buf.isSome = if mallocs c c' then alloc else c.buf.isSome := by
  have hsame : c'.buf.isSome = c.buf.isSome → mallocs c c' = false →
      c'.buf.isSome = if mallocs c c' then alloc else c.buf.isSome := by
    intro hb hno
    rw [hno, hb]
    rfl
  cases h with
  | idle hoff => exact hsame rfl (by simp [mallocs, hoff])
  | head hoff => exact hsame rfl (by simp [mallocs, Client.takeHead, Nat.not_le.mpr hoff])
  | short _ _ hlen => exact hsame rfl (by simp [mallocs, Nat.le_of_lt hlen])
  | bare _ _ hlen => exact hsame rfl (by simp [mallocs, hlen])
  | payload hoff hfull hlen ha h =>
    obtain ⟨hle, hhdr, hbuf, _⟩ := h.keeps
    have hyes : mallocs c c' = true := by
      simp only [mallocs, hhdr, hoff, hlen, decide_true, Bool.true_and, Bool.and_true,
        decide_eq_true_eq]
      exact Nat.le_trans hfull hle
    rw [hyes, hbuf, ha]
    rfl
  | @nomem bs hoff hfull hlen ha =>
    have hyes : mallocs c { c.takeHead bs with buf := none } = true := by
      simp only [mallocs, hoff, hlen, decide_true, Bool.true_and, Bool.and_true,
        decide_eq_true_eq]
      exact hfull
    rw [hyes, ha]
    rfl
  | body hoff h => exact hsame h.keeps.2.2.1 (by simp [mallocs, Nat.not_lt.mpr hoff])

/-- A request whose data is dropped is over. -/
theorem pends_of_forget {ev : Conn.Event} {c : Conn} (hm : Move s.conn ev c)
    (hp : (s.conn.pc ev.actor).pends = true)
    (hd : s.connDeal ev = some (.forget (.rwData ev.actor))) : (c.pc ev.actor).pends = false := by
  cases hm with
  | request hk => cases (congrArg Pc.pends hk).symm.trans hp
  | relock hk => simp [connDeal, hk] at hd
  | @rewait k b hk =>
    rcases waitrespLoop_self k s.conn with ⟨_, hst, _⟩ | hpc
    · simp [connDeal, hk, leaves, hst] at hd
    · exact congrArg Pc.pends hpc
  | retest hk => simp [connDeal, hk] at hd
  | @unlock k n ok j hk _ =>
    rcases unlock_self k ok j n s.conn with ⟨hj, hok, _, hst, _⟩ | ⟨p, hpc⟩
    · simp [connDeal, hk, leaves, hj, hok, hst] at hd
    · exact congrArg Pc.pends hpc
  | _ => cases hd

/-- The waiters after a step of the connection that is not a response. -/
theorem Mirrored.waiters (hmir : Mirrored s) (ht : Tidy s) {ev : Conn.Event} {c : Conn}
    (hm : Move s.conn ev c) (he : ∀ r, ev ≠ .resp r)
    (hd : (∀ k, (s.dealt (.conn ev)).held (.rwData k) = s.book.held (.rwData k)) ∨
      s.connDeal ev = some (.forget (.rwData ev.actor))) (hk : (c.pc k).pends = true) :
    (c.rw k).data.isSome = ((s.dealt (.conn ev)).held (.rwData k)).isSome := by
  cases hold : (s.conn.pc k).pends with
  | true =>
    have hheld : (s.dealt (.conn ev)).held (.rwData k) = s.book.held (.rwData k) := by
      rcases hd with hd | hd
      · exact hd k
      · have hka : k ≠ ev.actor := by
          rintro rfl
          cases (pends_of_forget hm hold hd).symm.trans hk
        simp [dealt, dealOf, hd, hka]
    rw [hm.rw_same hold he, hmir.rw k hold, hheld]
  | false =>
    have hka : k = ev.actor := by
      by_contra hka
      cases ((hm.peer_other ht.manned.basic hka).1.symm.trans hk).symm.trans hold
    subst hka
    obtain ⟨⟨i, type, body, rfl⟩, hrw⟩ := hm.pends_new ht.manned.basic hold hk
    rw [hrw]
    simp [dealt, dealOf, connDeal, Conn.Event.actor, doputwait]

theorem Mirrored.resp (hmir : Mirrored s) {c : Conn}
    (hm : Move s.conn (.resp (response s.recv)) c) :
    Mirrored ⟨c, spcresetbuf s.recv, .reading, s.dealt .resp⟩ := by
  obtain ⟨_, rfl⟩ := hm.of_resp
  have hpends : ∀ k, ((kick (response s.recv) s.conn).pc k).pends = true →
      (s.conn.pc k).pends = true := by
    intro k hk
    exact (kick_pc (response s.recv) s.conn k).peer.1.symm.trans hk
  cases hw : s.waiter with
  | none =>
    refine ⟨by simp [dealt, dealOf, hw, spcresetbuf], fun k hk => ?_⟩
    have hkick : (kick (response s.recv) s.conn).rw = s.conn.rw := by
      have hfind : s.conn.queue.find?
          (fun k => (s.conn.rw k).reqno = (response s.recv).reqno) = none := hw
      unfold kick
      rw [hfind]
    simpa [dealt, dealOf, hw, hkick] using hmir.rw k (hpends k hk)
  | some j =>
    refine ⟨by simp [dealt, dealOf, hw, spcresetbuf], fun k hk => ?_⟩
    have hkick : (kick (response s.recv) s.conn).rw = Function.update s.conn.rw j
        { s.conn.rw j with
          data := s.recv.buf, done := true, dlen := sub64 s.recv.off HDRSZ } := by
      have hfind : s.conn.queue.find?
          (fun k => (s.conn.rw k).reqno = (response s.recv).reqno) = some j := hw
      unfold kick
      rw [hfind]
      rfl
    by_cases hkj : k = j
    · subst hkj
      simpa [dealt, dealOf, hw, hkick] using hmir.spc
    · simpa [dealt, dealOf, hw, hkick, hkj] using hmir.rw k (hpends k hk)

theorem Did.mirrored (h : Did s e s') (ht : Tidy s) (hmir : Mirrored s) : Mirrored s' := by
  cases h with
  | @read alloc h h0 =>
    refine ⟨?_, fun k hk => ?_⟩
    · simp only [intake_buf (readframe_inv _ _ _), dealt, dealOf]
      split
      · cases alloc <;> simp
      · exact hmir.spc
    · simp only [held_read (show Holder.rwData k ≠ .spcBuf by simp)]
      exact hmir.rw k hk
  | resp hm => exact hmir.resp hm
  | discard h0 =>
    refine ⟨by simp [dealt, dealOf, spcfreebuf, spcresetbuf], fun k hk => ?_⟩
    simpa [dealt, dealOf] using hmir.rw k hk
  | @conn ev c ha hm =>
    have hresp : ∀ r, ev ≠ .resp r := by
      rintro r rfl
      cases ha
    rcases s.connDeal_cases ev with ⟨hdeal, hrecv, _, _⟩ | rfl | rfl | rfl
    · refine ⟨?_, fun k hk => hmir.waiters ht hm hresp ?_ hk⟩
      · simp only [hrecv, dealt, dealOf]
        rcases hdeal with hd | hd
        · simpa [hd] using hmir.spc
        · simpa [hd] using hmir.spc
      · refine hdeal.imp_left fun hd i => ?_
        simp only [dealt, dealOf, hd]
    · refine ⟨by simp [dealt, dealOf, connDeal, connRecv, spcresetbuf],
        fun k hk => hmir.waiters ht hm hresp (.inl fun i => ?_) hk⟩
      simp [dealt, dealOf, connDeal]
    · refine ⟨by simp [dealt, dealOf, connDeal, connRecv, spcfreebuf, spcresetbuf],
        fun k hk => hmir.waiters ht hm hresp (.inl fun i => ?_) hk⟩
      simp [dealt, dealOf, connDeal]
    · refine ⟨by simp [dealt, dealOf, connDeal, connRecv, zero],
        fun k hk => hmir.waiters ht hm hresp (.inl fun i => ?_) hk⟩
      simp [dealt, dealOf, connDeal]
  | @free k hk =>
    refine ⟨by simpa [dealt, dealOf] using hmir.spc, fun i hi => ?_⟩
    have hik : i ≠ k := by
      rintro rfl
      cases (congrArg Pc.pends hk).symm.trans hi
    simpa [dealt, dealOf, hik] using hmir.rw i hi
  | @freeData k hk hs =>
    refine ⟨by simpa [dealt, dealOf] using hmir.spc, fun i hi => ?_⟩
    simpa [dealt, dealOf] using hmir.rw i hi

/-! ## Over a run -/

theorem run_tidy {tr : List (Estate × BufEvent)} (hr : Run step init tr s) : Tidy s :=
  hr.always init_tidy fun _ _ _ ht hs => (did_of_step hs).tidy ht

/-- The book is about the pointers the code has. -/
theorem run_mirrored {tr : List (Estate × BufEvent)} (hr : Run step init tr s) : Mirrored s := by
  have hboth : Tidy s ∧ Mirrored s :=
    hr.always (I := fun s => Tidy s ∧ Mirrored s) ⟨init_tidy, rfl, fun _ _ => rfl⟩
      fun _ _ _ h hs => ⟨(did_of_step hs).tidy h.1, (did_of_step hs).mirrored h.1 h.2⟩
  exact hboth.2

theorem init_owned : Owned init := by
  rw [owned_iff Holdings.blank_proper]
  exact ⟨Holdings.blank_kept, fun _ _ => rfl⟩

/-- In every interleaving of frames, responses, work items, failed allocations
and disconnects all buffers are owned from the start to the end, and freed when
the connection is released, exactly if no step drops a pointer and the last
reference is not dropped before the data of an item is freed. -/
theorem buffer_ownership_iff {tr : List (Estate × BufEvent)} (hr : Run step init tr s) :
    ((∀ p ∈ tr, Owned p.1) ∧ Owned s) ↔
      Guarded (fun s e => s.drops e = false ∧ s.late e = false) tr := by
  induction hr with
  | nil =>
    refine iff_of_true ⟨fun p hp => ?_, init_owned⟩ (Guarded.nil _)
    cases hp
  | @snoc tr q q' ev hr hs ih =>
    have ht := run_tidy hr
    have hd := did_of_step hs
    rw [guarded_snoc, ← ih]
    simp only [List.forall_mem_append, List.forall_mem_singleton]
    constructor
    · rintro ⟨⟨hold, hq⟩, hq'⟩
      exact ⟨⟨hold, hq⟩, (owned_step hd ht hq).mp hq'⟩
    · rintro ⟨⟨hold, hq⟩, hno⟩
      exact ⟨⟨hold, hq⟩, (owned_step hd ht hq).mpr hno⟩

/-- Nothing is freed twice, and no buffer has two owners, whatever happens. -/
theorem run_no_double_free {tr : List (Estate × BufEvent)} (hr : Run step init tr s) :
    s.book.freed.Nodup ∧ ∀ o o' x, s.book.held o = some x → s.book.held o' = some x → o = o' :=
  ⟨(run_tidy hr).proper.once, (run_tidy hr).proper.lone⟩

/-- The client sends `bs`, which are read in two pieces. -/
def hears (bs : List UInt8) : BufEvent := .read true ⟨bs, [.upto 99, .upto 99]⟩

/-- A guest connects and makes a system call, for which the server asks for
three bytes of its memory (`RUMPSP_COPYIN` is 2). -/
def askGuest : List BufEvent :=
  [hears (rspHdr 26 1 RUMPSP_REQ RUMPSP_HANDSHAKE HANDSHAKE_GUEST ++ [115, 104]),
    .conn .shake, .discard,
    hears (rspHdr 28 2 RUMPSP_REQ RUMPSP_SYSCALL 3 ++ [1, 2, 3, 4]), .conn .call, .conn .spawn,
    .conn (.request 1 2 []), .conn (.push 1 24), .conn (.unlock 1 true)]

/-- The guest's answer, in the words of `kickwaiter`. -/
def answer (bs : List UInt8) : List BufEvent :=
  [hears (rspHdr (24 + bs.length) 0 RUMPSP_RESP 2 0 ++ bs), .resp]

/-- The worker is done with the data it has asked for, replies, and frees its
item. -/
def finish : List BufEvent :=
  [.conn (.wake 1), .free 1, .conn (.send 1 [0] true), .conn (.push 1 1), .conn (.unlock 1 true),
    .conn (.release 1), .freeData 1]

/-- The connection ends. -/
def farewell : List BufEvent :=
  [.read true ⟨[], [.eof]⟩, .conn .disco, .conn .wipe, .conn (.release 0)]

theorem buffer_ownership_iff_call : ∃ tr s, Run step init tr s ∧ s.conn.refcnt = 0 ∧
    s.book.made = 3 ∧ s.book.freed = [0, 2, 1] ∧ (∀ p ∈ tr, Owned p.1) ∧ Owned s := by
  obtain ⟨tr, s, hr, hp⟩ := exists_run (f := step) (s := init)
    (askGuest ++ answer [7, 8, 9] ++ finish ++ farewell)
    (p := fun tr s => decide (s.conn.refcnt = 0 ∧ s.book.made = 3 ∧ s.book.freed = [0, 2, 1] ∧
      Guarded (fun s e => s.drops e = false ∧ s.late e = false) tr)) (by decide +kernel)
  rw [decide_eq_true_eq] at hp
  obtain ⟨hc, hm, hf, hg⟩ := hp
  exact ⟨tr, s, hr, hc, hm, hf, (buffer_ownership_iff hr).mpr hg⟩

/-- The guest answers twice and goes away in the middle of a frame: when the
connection is released, the first answer and what there was of the frame have
never been freed. -/
theorem buffer_ownership_fails : ∃ tr s, Run step init tr s ∧ s.conn.refcnt = 0 ∧
    s.book.made = 5 ∧ s.book.freed = [0, 3, 1] ∧ ¬ Owned s := by
  obtain ⟨tr, s, hr, hp⟩ := exists_run (f := step) (s := init)
    (askGuest ++ answer [7, 8, 9] ++ answer [7, 8, 9] ++ finish ++
      hears (rspHdr 26 3 RUMPSP_REQ RUMPSP_SYSCALL 3 ++ [1]) :: farewell)
    (p := fun _ s => decide (s.conn.refcnt = 0 ∧ s.book.made = 5 ∧ s.book.freed = [0, 3, 1]))
    (by decide +kernel)
  rw [decide_eq_true_eq] at hp
  obtain ⟨hc, hm, hf⟩ := hp
  refine ⟨tr, s, hr, hc, hm, hf, fun ho => ?_⟩
  have hfreed := ho.released (Int.le_of_eq hc) 2 (by rw [hm]; decide)
  rw [hf] at hfreed
  exact absurd hfreed (by decide)

end Estate

end Frankenlibc.Sysproxy

import Frankenlibc.Sysproxy.Framing
import Frankenlibc.Sysproxy.Gate

/-!
# Requests that fail

Two ways in which a failure leaves something behind. A client that cannot serve
a request of the server answers with class `RUMPSP_ERROR`. `kickwaiter` has a
branch for that, but `spserver` does not call it: it takes such a frame for a
malformed request, and the waiter is left waiting. And an exec that finds no
memory in `schedulework` is refused after `spc_inexec` has been set, which only
a worker that has run the exec resets.
-/
namespace Frankenlibc.Sysproxy

open Frankenlibc.Lib

variable {w w' : Server}

/-! ## Error replies -/

/-- A thread waits for the response to a request. -/
def Pending (n : Nat) (c : Client) : Prop :=
  ∃ rw ∈ c.respwait, rw.done = false ∧ rw.reqno = n

/-- The round hands out a response to the request. -/
def answers (n : Nat) (s : Link) (e : Round) : Bool :=
  let r := readframe e.alloc s.srv.spc s.host
  r.1 = .frame && rspClass r.2.1.hdr = RUMPSP_RESP && rspReqno r.2.1.hdr = n

/-- Waking up the waiter of one request leaves those of the others alone. -/
theorem mem_wake {n : Nat} {f : RespWait → RespWait} {rw : RespWait} {rws : List RespWait}
    (h : rw ∈ rws) (hn : rw.reqno ≠ n) : rw ∈ wake n f rws := by
  induction rws with
  | nil => cases h
  | cons x xs ih =>
    rw [wake]
    rcases List.mem_cons.mp h with rfl | h
    · rw [if_neg hn]
      exact List.mem_cons_self
    · split
      · exact List.mem_cons_of_mem _ h
      · exact List.mem_cons_of_mem _ (ih h)

theorem kickwaiter_pending {n : Nat} {c : Client} (hn : rspReqno c.hdr ≠ n) (h : Pending n c) :
    Pending n (kickwaiter c) := by
  obtain ⟨rw, hrw, hd, hr⟩ := h
  refine ⟨rw, ?_, hd, hr⟩
  have hne : rw.reqno ≠ rspReqno c.hdr := fun he => hn (he.symm.trans hr)
  unfold kickwaiter
  split
  · simp only
    split
    · exact mem_wake hrw hne
    · exact mem_wake hrw hne
  · exact hrw

theorem serve_pending {n : Nat} {s s' : Link} {e : Round} (h : Pending n s.srv.spc)
    (ha : answers n s e = false) (hs : serve s e = some s') : Pending n s'.srv.spc := by
  have hkeep : Pending n (readframe e.alloc s.srv.spc s.host).2.1 := by
    unfold Pending
    rw [(readframe_inv _ _ _).keeps.2]
    exact h
  unfold answers at ha
  unfold serve at hs
  split at hs
  swap
  · cases hs
  generalize readframe e.alloc s.srv.spc s.host = r at hs ha hkeep
  obtain ⟨ret, c, h'⟩ := r
  cases ret with
  | again | fail =>
    cases hs
    exact hkeep
  | frame =>
    simp only at hs
    split at hs
    · rename_i w hw
      split at hs
      · cases hs
        by_cases hclass : rspClass c.hdr = RUMPSP_RESP
        · have hn : rspReqno c.hdr ≠ n := by simpa [hclass] using ha
          obtain ⟨_, rfl⟩ | ⟨hreq, _⟩ | ⟨_, hresp, _⟩ := dispatch_inv hw
          · exact kickwaiter_pending hn hkeep
          · exact absurd (hclass.symm.trans hreq) (by decide)
          · exact absurd hclass hresp
        · have hrespwait := (dispatch_spec hw).respwait hclass
          show Pending n w.spc
          unfold Pending
          rw [hrespwait]
          exact hkeep
      · cases hs
    · cases hs
      exact hkeep
    · cases hs

/-- An error reply marks every waiter for its request done, with the error,
exactly if there is none. And a thread that waits for it goes on waiting through
every run in which no response to its request arrives, whatever else does. -/
theorem error_reply_completes_iff (hclass : rspClass w.spc.hdr = RUMPSP_ERROR)
    (h : dispatch w = .ok w') :
    ((∀ (i : Nat) (rw : RespWait), w.spc.respwait[i]? = some rw → rw.done = false →
        rw.reqno = rspReqno w.spc.hdr → ∃ rw', w'.spc.respwait[i]? = some rw' ∧
          rw'.done = true ∧ rw'.error = errmap (rspWord w.spc.hdr)) ↔
      ¬Pending (rspReqno w.spc.hdr) w.spc) ∧
    ∀ n s tr s', Run serve s tr s' → Guarded (fun s e => answers n s e = false) tr →
      Pending n s.srv.spc → Pending n s'.srv.spc := by
  have hsame := (dispatch_spec h).respwait (by rw [hclass]; decide)
  refine ⟨⟨?_, ?_⟩, ?_⟩
  · rintro hall ⟨rw, hrw, hd, hr⟩
    obtain ⟨i, hi⟩ := List.getElem?_of_mem hrw
    obtain ⟨rw', hi', hd', _⟩ := hall i rw hi hd hr
    rw [hsame, hi] at hi'
    cases hi'
    rw [hd] at hd'
    cases hd'
  · intro hnone i rw hi hd hr
    exact absurd ⟨rw, List.mem_of_getElem? hi, hd, hr⟩ hnone
  · intro n s tr s' hrun hg hp
    exact Run.invariant (I := fun s => Pending n s.srv.spc) hp
      (fun s e s' h ha hs => serve_pending h ha hs) hrun hg

/-- Request 5 of the server waits, and an error reply is in the buffer. -/
def refusedBy (reqno : Nat) : Server := { freshServer with
  spc := { freshServer.spc with
    state := .running
    mainlwp := some 2
    respwait := [⟨5, none, 0, false, 0⟩]
    hdr := Bytes.ofList (rspHdr 24 reqno RUMPSP_ERROR 0 1)
    off := 24 }
  script := [.newlwp true, .sent 24] }

/-- An error reply to request 6, which is not there. -/
theorem error_reply_completes_none : ∃ w', dispatch (refusedBy 6) = .ok w' ∧
    ∀ (i : Nat) (rw : RespWait), (refusedBy 6).spc.respwait[i]? = some rw → rw.done = false →
      rw.reqno = rspReqno (refusedBy 6).spc.hdr → ∃ rw', w'.spc.respwait[i]? = some rw' ∧
        rw'.done = true ∧ rw'.error = errmap (rspWord (refusedBy 6).spc.hdr) := by
  have hd : ∃ w', dispatch (refusedBy 6) = .ok w' := ⟨_, rfl⟩
  obtain ⟨w', hd⟩ := hd
  refine ⟨w', hd, (error_reply_completes_iff (by decide) hd).1.mpr ?_⟩
  rintro ⟨rw, hrw, _, hr⟩
  cases List.mem_singleton.mp hrw
  exact absurd hr (by decide)

/-- The error reply to request 5 is answered as malformed, and the request goes
on waiting. -/
theorem error_reply_ignored :
    (dispatch (refusedBy 5)).toOption.map (fun w' =>
        (w'.spc.respwait.map fun rw => (rw.reqno, rw.done, rw.error), w'.wire)) =
      some ([(5, false, 0)], rspHdr 24 5 RUMPSP_ERROR 0 7) ∧
    rspReqno (refusedBy 5).spc.hdr = 5 ∧ errmap (rspWord (refusedBy 5).spc.hdr) = 11 := by
  decide

/-! ## An exec that is refused -/

theorem schedulework_queued {t : SbaType} (h : schedulework t w = .ok w') :
    (w'.wrklist = w.wrklist ↔ ∃ os, sbaAlloc w.nworker w.script = .ok (false, os)) ∧
      w'.spc.inexec = w.spc.inexec := by
  obtain ⟨ok, os, ha, hw⟩ := schedulework_inv h
  cases ok with
  | true =>
    rw [if_pos rfl] at hw
    subst hw
    refine ⟨iff_of_false ?_ ?_, rfl⟩
    · intro hsame
      exact absurd (List.append_right_eq_self.mp hsame) (List.cons_ne_nil _ _)
    · rintro ⟨os', ha'⟩
      rw [ha] at ha'
      cases ha'
  | false =>
    obtain ⟨u, hu, rfl⟩ := hw
    obtain ⟨v, rfl⟩ := (replied_of_map hu).kept
    exact ⟨iff_of_true rfl ⟨os, ha⟩, rfl⟩

/-- An exec that is not queued leaves `spc_inexec` as it was exactly if it was
not the allocation in `schedulework` that failed. -/
theorem exec_refused_iff (hold : w.spc.state ≠ .new) (htype : rspType w.spc.hdr = RUMPSP_HANDSHAKE)
    (hword : rspWord w.spc.hdr = HANDSHAKE_EXEC) (h : handlereq w = .ok w') :
    (w'.wrklist = w.wrklist → w'.spc.inexec = w.spc.inexec) ↔
      ¬(w.spc.inexec = false ∧ ∃ os, sbaAlloc w.nworker w.script = .ok (false, os)) := by
  cases handlereq_inv h with
  | stranger hnew | guest hnew | fork hnew => exact absurd hnew hold
  | prefork _ hpre => exact absurd (htype.symm.trans hpre) (by decide)
  | malformed _ _ hshake => exact absurd htype hshake
  | syscall _ hsys => exact absurd (htype.symm.trans hsys) (by decide)
  | again _ _ hexec hu =>
    obtain ⟨v, rfl⟩ := (replied_of_map hu).kept
    refine iff_of_true (fun _ => rfl) ?_
    rintro ⟨hfalse, _⟩
    rw [hexec hword] at hfalse
    cases hfalse
  | exec _ _ _ hexec h =>
    obtain ⟨hqueued, hflag⟩ := schedulework_queued h
    have hset : w'.spc.inexec = true := hflag
    rw [hset, hexec]
    constructor
    · rintro hkept ⟨_, hos⟩
      exact absurd (hkept (hqueued.mpr hos)) (by decide)
    · intro hmem hsame
      exact absurd ⟨rfl, hqueued.mp hsame⟩ hmem

/-- A running client asks for an exec. -/
def execAsked (inexec : Bool) (script : List Outcome) : Server := { freshServer with
  spc := { freshServer.spc with
    state := .running
    mainlwp := some 2
    inexec := inexec
    hdr := Bytes.ofList (rspHdr 26 2 RUMPSP_REQ RUMPSP_HANDSHAKE HANDSHAKE_EXEC)
    buf := some ⟨2, Bytes.ofList [115, 104]⟩
    off := 26 }
  script := script }

/-- A second exec during the first. -/
theorem exec_refused_twice : ∃ w', handlereq (execAsked true [.newlwp true, .sent 24]) = .ok w' ∧
    w'.wrklist = (execAsked true [.newlwp true, .sent 24]).wrklist ∧
    (w'.wrklist = (execAsked true [.newlwp true, .sent 24]).wrklist →
      w'.spc.inexec = (execAsked true [.newlwp true, .sent 24]).spc.inexec) := by
  have hd : ∃ w', handlereq (execAsked true [.newlwp true, .sent 24]) = .ok w' ∧
      w'.wrklist = (execAsked true [.newlwp true, .sent 24]).wrklist := ⟨_, rfl, rfl⟩
  obtain ⟨w', hd, hw⟩ := hd
  refine ⟨w', hd, hw, (exec_refused_iff (by decide) (by decide) (by decide) hd).mpr ?_⟩
  rintro ⟨hfalse, _⟩
  cases hfalse

/-- An exec of the guest `sh`. -/
def execSh : Frame := ⟨rspHdr 26 2 0 0 3, [115, 104], by decide, by decide⟩

def preforkAsked : Frame := ⟨rspHdr 24 3 0 7 0, [], by decide, by decide⟩

/-- An exec finds no memory and is answered with `RUMPSP_ERR_TRYAGAIN`. It is not
queued, the flag is set, and the prefork after it is answered with
`RUMPSP_ERR_INEXEC`. -/
theorem exec_refused_for_good : ∃ tr s,
    Run serve (link freshServer [helloSh, execSh, preforkAsked]
      [.upto 99, .upto 99, .upto 99, .upto 99, .upto 99]) tr s ∧
    s.got = [helloSh.pair, execSh.pair, preforkAsked.pair] ∧ s.srv.wrklist.length = 0 ∧
    s.srv.spc.inexec = true ∧ s.srv.spc.shut = true ∧
    s.srv.wire.drop 28 = rspHdr 24 2 RUMPSP_ERROR 0 1 ++ rspHdr 24 3 RUMPSP_ERROR 0 5 := by
  obtain ⟨tr, s, hr, hp⟩ := exists_run (f := serve)
    (s := link freshServer [helloSh, execSh, preforkAsked]
      [.upto 99, .upto 99, .upto 99, .upto 99, .upto 99])
    [⟨true, [.rfork true, .newlwp true, .sent 28]⟩, ⟨true, [.malloc false, .newlwp true, .sent 24]⟩,
      ⟨true, [.newlwp true, .sent 24]⟩]
    (p := fun _ s => s.got = [helloSh.pair, execSh.pair, preforkAsked.pair] ∧
      s.srv.wrklist.length = 0 ∧ s.srv.spc.inexec = true ∧ s.srv.spc.shut = true ∧
      s.srv.wire.drop 28 = rspHdr 24 2 RUMPSP_ERROR 0 1 ++ rspHdr 24 3 RUMPSP_ERROR 0 5)
    (by decide)
  rw [decide_eq_true_eq] at hp
  exact ⟨tr, s, hr, hp⟩

end Frankenlibc.Sysproxy

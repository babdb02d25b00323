import Frankenlibc.Lib.Run
import Frankenlibc.Sysproxy.Server

/-!
# What a reply does, and that every path of the dispatch resets the receiver

`dosend` can end in four ways, by whether it got an lwp of its own and whether
the host refused the message; `Sent` says what each leaves behind. None touches
the client. `Dispatched` says what a frame leaves behind: each exit of the
handlers passes `spcfreebuf` or `spcresetbuf`. The one way not to return is the
store of the terminating zero of a guest's name when there is no buffer.
-/
namespace Frankenlibc.Sysproxy

open Frankenlibc.Lib

variable {w w' : Server} {d : List Deed}

/-! ## `dosend` -/

/-- Results of `host_sendmsg` and `host_poll` on which `dosend` gives up. -/
def fatal : Outcome → Bool
  | .sent n => n = 0
  | .sendErr e => e ≠ .again
  | .pollErr e => e ≠ .intr
  | _ => false

/-- `Sent w bs os ok refused w'`: what a call of `dosend` leaves behind. -/
inductive Sent (w : Server) (bs : List UInt8) (os : List Outcome) : Bool → Bool → Server → Prop
  /-- The message is out and the temporary lwp is gone. -/
  | fine : Sent w bs os true false { w with
      wire := w.wire ++ bs
      script := os
      fresh := w.fresh + 1
      lwps := ((w.fresh, 1) :: w.lwps).filter fun l => some l.1 ≠ some w.fresh
      temps := w.temps ++ [w.fresh]
      releases := w.releases ++ [(some w.fresh, some w.fresh)] }
  /-- The host refused, and the temporary lwp is current. -/
  | leaked : Sent w bs os true true { w with
      wire := w.wire ++ bs
      script := os
      cur := some w.fresh
      fresh := w.fresh + 1
      lwps := (w.fresh, 1) :: w.lwps
      temps := w.temps ++ [w.fresh] }
  /-- There was no new lwp, and the caller's was released. -/
  | misreleased : Sent w bs os false false { w with
      wire := w.wire ++ bs
      script := os
      lwps := w.lwps.filter fun l => some l.1 ≠ w.cur
      releases := w.releases ++ [(none, w.cur)] }
  /-- There was no new lwp and the host refused. -/
  | idle : Sent w bs os false true { w with wire := w.wire ++ bs, script := os }

theorem sendLoop_fatal {os os' : List Outcome} {ph : Phase} {iov : List (List UInt8)}
    {e : Option Errno} {bs : List UInt8} (h : sendLoop os ph iov = .ok (e, bs, os')) :
    ∃ hs, os = hs ++ os' ∧ e.isSome = hs.any fatal := by
  fun_induction sendLoop os ph iov generalizing e bs with
  | case1 os iov ih =>
    obtain ⟨hs, rfl, hf⟩ := ih h
    exact ⟨.polled :: hs, rfl, hf⟩
  | case2 os iov ih =>
    obtain ⟨hs, rfl, hf⟩ := ih h
    exact ⟨.pollErr .intr :: hs, rfl, hf⟩
  | case3 err os iov hne =>
    cases h
    exact ⟨[.pollErr err], rfl, by simp [fatal, hne]⟩
  | case4 err os iov hne =>
    cases h
    exact ⟨[.sendErr err], rfl, by simp [fatal, hne]⟩
  | case5 err os iov heq ih =>
    obtain ⟨hs, rfl, hf⟩ := ih h
    exact ⟨.sendErr err :: hs, rfl, by simp [fatal, not_not.mp heq, hf]⟩
  | case6 os iov =>
    cases h
    exact ⟨[.sent 0], rfl, rfl⟩
  | case7 => cases h
  | case8 n os iov hn _ _ _ =>
    cases h
    exact ⟨[.sent n], rfl, by simp [fatal, hn]⟩
  | case9 => cases h
  | case10 n os iov hn _ k v vs _ err bs' os'' hrec ih =>
    cases h
    obtain ⟨hs, rfl, hf⟩ := ih hrec
    exact ⟨.sent n :: hs, rfl, by simp [fatal, hn, hf]⟩
  | case11 => cases h

/-- What `advance` leaves is what the host has not taken yet. -/
theorem advance_flatten {n k : Nat} {iov vs : List (List UInt8)} {v : List UInt8}
    (h : advance n iov = (k, v :: vs)) : iov.flatten.drop n = (v.drop k :: vs).flatten := by
  fun_induction advance n iov with
  | case1 n => cases h
  | case2 n u us hle ih =>
    rw [List.flatten_cons, List.drop_append, List.drop_eq_nil_of_le hle, List.nil_append]
    exact ih h
  | case3 n u us hlt =>
    cases h
    rw [List.flatten_cons, List.flatten_cons, List.drop_append_of_le_length (by omega)]

/-- The host is offered the message from its beginning, in order. -/
theorem sendLoop_prefix {os os' : List Outcome} {ph : Phase} {iov : List (List UInt8)}
    {e : Option Errno} {bs : List UInt8} (h : sendLoop os ph iov = .ok (e, bs, os')) :
    bs <+: iov.flatten := by
  fun_induction sendLoop os ph iov generalizing e bs with
  | case1 os iov ih => exact ih h
  | case2 os iov ih => exact ih h
  | case3 | case4 | case6 =>
    cases h
    exact List.nil_prefix
  | case5 err os iov heq ih => exact ih h
  | case7 | case9 | case11 => cases h
  | case8 n os iov hn _ _ _ =>
    cases h
    exact List.take_prefix n _
  | case10 n os iov hn _ k v vs hadv err bs' os'' hrec ih =>
    cases h
    have hrest := ih hrec
    rw [← advance_flatten hadv] at hrest
    nth_rewrite 2 [← List.take_append_drop n iov.flatten]
    exact (List.prefix_append_right_inj _).mpr hrest

theorem advance_done {n k : Nat} {iov : List (List UInt8)} (h : advance n iov = (k, [])) :
    iov.flatten.length ≤ n := by
  fun_induction advance n iov with
  | case1 n => exact Nat.zero_le _
  | case2 n v vs hle ih =>
    have hrest := ih h
    rw [List.flatten_cons, List.length_append]
    omega
  | case3 n v vs hlt => cases h

theorem sendLoop_all {os os' : List Outcome} {ph : Phase} {iov : List (List UInt8)}
    {bs : List UInt8} (h : sendLoop os ph iov = .ok (none, bs, os')) : bs = iov.flatten := by
  fun_induction sendLoop os ph iov generalizing bs with
  | case1 os iov ih => exact ih h
  | case2 os iov ih => exact ih h
  | case3 | case4 | case6 | case7 | case9 | case11 => cases h
  | case5 err os iov heq ih => exact ih h
  | case8 n os iov hn _ k hadv =>
    cases h
    exact List.take_of_length_le (advance_done hadv)
  | case10 n os iov hn _ k v vs hadv err bs' os'' hrec ih =>
    cases h
    rw [ih hrec, ← advance_flatten hadv, List.take_append_drop]

theorem sendLoop_crash {os : List Outcome} {ph : Phase} {iov : List (List UInt8)} :
    sendLoop os ph iov ≠ .error (.crash d) := by
  fun_induction sendLoop os ph iov <;> simp_all

/-- Switching back, or staying without an lwp. -/
theorem switch_back {u : Server} (hu : u.cur = none) (l : Option Lwp) :
    (if l.isSome then lwprocSwitch l u else u) = { u with cur := l } := by
  cases l with
  | none =>
    show u = { u with cur := none }
    rw [← hu]
  | some l => rfl

theorem newlwp_inv {ok : Bool} {w₁ : Server} (h : lwprocNewlwp 1 w = .ok (ok, w₁)) :
    ∃ os, w.script = .newlwp ok :: os ∧
      w₁ = if ok then { spawn 1 w with script := os } else { w with script := os } := by
  unfold lwprocNewlwp at h
  split at h <;> cases h
  · exact ⟨_, by assumption, rfl⟩
  · exact ⟨_, by assumption, rfl⟩

/-- Everything a call of `dosend` can do. -/
theorem dosend_sent {iov : List (List UInt8)} {r : Option Errno} (h : dosend iov w = .ok (r, w')) :
    ∃ ok hs bs, w.script = .newlwp ok :: (hs ++ w'.script) ∧
      (bs <+: iov.flatten ∧ (r = none → bs = iov.flatten) ∧ r.isSome = hs.any fatal) ∧
      Sent w bs w'.script ok (hs.any fatal) w' := by
  unfold dosend at h
  cases hn : lwprocNewlwp 1 w with
  | error e => simp [hn] at h
  | ok x =>
    obtain ⟨ok, w₁⟩ := x
    obtain ⟨os, hos, rfl⟩ := newlwp_inv hn
    simp only [hn] at h
    cases hl : sendLoop os .send iov with
    | error e => cases ok <;> simp [hl] at h
    | ok y =>
      obtain ⟨e, bs, os'⟩ := y
      have hpre := sendLoop_prefix hl
      obtain ⟨hs, rfl, hf⟩ := sendLoop_fatal hl
      cases ok with
      | true =>
        simp only [if_true, hl] at h
        cases e with
        | some e =>
          cases h
          exact ⟨true, hs, bs, hos, ⟨hpre, (fun hr => by cases hr), hf⟩, hf ▸ .leaked⟩
        | none =>
          simp only [switch_back (u := lwprocRelease _ _) rfl] at h
          cases h
          exact ⟨true, hs, bs, hos, ⟨hpre, fun _ => sendLoop_all hl, hf⟩, hf ▸ .fine⟩
      | false =>
        simp only [Bool.false_eq_true, if_false, hl] at h
        cases e with
        | some e =>
          cases h
          exact ⟨false, hs, bs, hos, ⟨hpre, (fun hr => by cases hr), hf⟩, hf ▸ .idle⟩
        | none =>
          simp only [switch_back (u := lwprocRelease _ _) rfl] at h
          cases h
          exact ⟨false, hs, bs, hos, ⟨hpre, fun _ => sendLoop_all hl, hf⟩,
            hf ▸ .misreleased⟩

theorem dosend_crash {iov : List (List UInt8)} : dosend iov w ≠ .error (.crash d) := by
  unfold dosend
  cases hn : lwprocNewlwp 1 w with
  | error e =>
    unfold lwprocNewlwp at hn
    split at hn <;> cases hn
    simp
  | ok x =>
    obtain ⟨ok, w₁⟩ := x
    simp only
    cases hl : sendLoop _ .send iov with
    | error e =>
      intro he
      cases he
      exact sendLoop_crash hl
    | ok y =>
      obtain ⟨e, bs, os'⟩ := y
      cases e <;> simp

/-- A reply was sent, or at least tried. -/
def Replied (w w' : Server) : Prop :=
  ∃ ok hs bs, w.script = .newlwp ok :: (hs ++ w'.script) ∧
    Sent w bs w'.script ok (hs.any fatal) w'

theorem Sent.wire {bs : List UInt8} {os : List Outcome} {ok refused : Bool}
    (h : Sent w bs os ok refused w') : w'.wire = w.wire ++ bs := by
  cases h <;> rfl

/-- `v`, with what neither the calls for lwps nor `dosend` touch as in `w`. -/
def Server.kept (w v : Server) : Server :=
  { v with
    spc := w.spc
    preforks := w.preforks
    wrklist := w.wrklist
    nworker := w.nworker
    deeds := w.deeds }

theorem Sent.kept {bs : List UInt8} {os : List Outcome} {ok refused : Bool}
    (h : Sent w bs os ok refused w') : w' = w.kept w' := by
  cases h <;> rfl

theorem Replied.kept (h : Replied w w') : ∃ v, w' = w.kept v := by
  obtain ⟨ok, hs, bs, _, hsent⟩ := h
  exact ⟨w', hsent.kept⟩

theorem Replied.spc (h : Replied w w') : w'.spc = w.spc := by
  obtain ⟨v, rfl⟩ := h.kept
  rfl

theorem Replied.preforks (h : Replied w w') : w'.preforks = w.preforks := by
  obtain ⟨v, rfl⟩ := h.kept
  rfl

theorem replied_of_map {iov : List (List UInt8)} (h : (dosend iov w).map Prod.snd = .ok w') :
    Replied w w' := by
  obtain ⟨⟨r, u⟩, hd, rfl⟩ := map_ok_iff.mp h
  obtain ⟨ok, hs, bs, hscript, _, hsent⟩ := dosend_sent hd
  exact ⟨ok, hs, bs, hscript, hsent⟩

theorem map_crash {iov : List (List UInt8)} : (dosend iov w).map Prod.snd ≠ .error (.crash d) := by
  intro h
  cases hd : dosend iov w with
  | error e =>
    simp only [hd, Except.map, Except.error.injEq] at h
    exact dosend_crash (h ▸ hd)
  | ok x => simp [hd, Except.map] at h

/-- An error reply and then one more update: the shape of most refusals. -/
theorem refusal {reqno : Nat} {e : RspErr} {g : Server → Server}
    (h : (sendErrorResp reqno e w >>= fun u => pure (g u)) = .ok w') :
    ∃ u, sendErrorResp reqno e w = .ok u ∧ w' = g u := by
  obtain ⟨u, hu, hw⟩ := bind_ok_iff.mp h
  exact ⟨u, hu, (Except.ok.inj hw).symm⟩

theorem refusal_crash {reqno : Nat} {e : RspErr} {g : Server → Server} :
    (sendErrorResp reqno e w >>= fun u => pure (g u)) ≠ .error (.crash d) := by
  intro h
  rcases bind_error_iff.mp h with h | ⟨u, _, h⟩
  · exact map_crash h
  · cases h

/-! ## Inversion of the calls -/

theorem rfork_inv {flags : Rfork} {b : Bool} {w₁ : Server} (h : lwprocRfork flags w = .ok (b, w₁)) :
    ∃ os, w.script = .rfork b :: os ∧ w₁ = if b
      then { spawn w.freshpid (w.note (.rfork flags)) with
        script := os
        freshpid := w.freshpid + 1 }
      else { w.note (.rfork flags) with script := os } := by
  unfold lwprocRfork at h
  split at h <;> cases h
  · exact ⟨_, by assumption, rfl⟩
  · exact ⟨_, by assumption, rfl⟩

theorem rfork_kept {flags : Rfork} {b : Bool} {w₁ : Server}
    (h : lwprocRfork flags w = .ok (b, w₁)) :
    ∃ v, w₁ = (w.note (.rfork flags)).kept v ∧ (b = true → v.cur = some w.fresh) := by
  obtain ⟨os, _, hw⟩ := rfork_inv h
  refine ⟨w₁, ?_, ?_⟩
  · cases b <;> rw [hw] <;> rfl
  · rintro rfl
    rw [hw]
    rfl

/-- A finished handshake: the reply, the process, no lwp, and a running client. -/
theorem handshakeDone_inv {reqno : Nat} (h : handshakeDone reqno w = .ok w') :
    ∃ u, Replied w u ∧ w' = onSpc (fun c => { c with state := .running })
      (lwprocSwitch none (onSpc (fun c => { c with pid := lwprocGetpid u }) u)) := by
  obtain ⟨u, hu, hw⟩ := bind_ok_iff.mp h
  exact ⟨u, replied_of_map hu, (Except.ok.inj hw).symm⟩

/-- The frame goes to the work list, or is refused for lack of memory. -/
theorem schedulework_inv {t : SbaType} (h : schedulework t w = .ok w') :
    ∃ ok os, sbaAlloc w.nworker w.script = .ok (ok, os) ∧ if ok
      then w' = { w with
        script := os
        spc := { spcresetbuf w.spc with refcnt := w.spc.refcnt + 1 }
        wrklist := w.wrklist ++ [⟨t, w.spc.hdr, w.spc.buf⟩]
        deeds := w.deeds ++ [.schedulework] }
      else ∃ u, sendErrorResp (rspReqno w.spc.hdr) .tryagain
          { w.note .schedulework with script := os } = .ok u ∧ w' = onSpc spcfreebuf u := by
  obtain ⟨⟨ok, os⟩, ha, hw⟩ := bind_ok_iff.mp h
  refine ⟨ok, os, ha, ?_⟩
  cases ok with
  | true => exact (Except.ok.inj hw).symm
  | false => exact refusal hw

/-- A guest's handshake, with a main lwp or without. -/
theorem handshakeGuest_inv {reqno : Nat} (h : handshakeGuest reqno w = .ok w') :
    ∃ comm ok w₁, w.spc.buf = some comm ∧
      lwprocRfork .clear (onSpc (fun c => { c with buf := some { comm with
        data := Function.update comm.data (sub64 (rspLen w.spc.hdr) HDRSZ) 0 } })
          (w.note (.store (terminator w.spc.hdr w.spc.buf)))) = .ok (ok, w₁) ∧ if ok
      then handshakeDone reqno (onSpc (fun c => { c with mainlwp := w₁.cur })
        (onSpc spcfreebuf w₁)) = .ok w'
      else w' = onSpc spcfreebuf (onSpc shutdown w₁) := by
  unfold handshakeGuest at h
  cases hb : w.spc.buf with
  | none => simp [hb] at h
  | some comm =>
    simp only [hb] at h
    obtain ⟨⟨ok, w₁⟩, hf, hw⟩ := bind_ok_iff.mp h
    refine ⟨comm, ok, w₁, rfl, hf, ?_⟩
    cases ok with
    | true => exact hw
    | false => exact (Except.ok.inj hw).symm

/-- A handshake with a token: the prefork is given up, or its lwp makes the
main lwp, or fails to. -/
theorem handshakeForkWith_inv {reqno cancel : Nat} {l : Lwp}
    (h : handshakeForkWith reqno cancel l w = .ok w') :
    (cancel ≠ 0 ∧ w' = onSpc shutdown (lwprocRelease (some l) (lwprocSwitch (some l) w))) ∨
      cancel = 0 ∧ ∃ ok w₁, lwprocRfork .share (lwprocSwitch (some l) w) = .ok (ok, w₁) ∧ if ok
        then handshakeDone reqno (lwprocSwitch w₁.cur (lwprocRelease (some l)
          (lwprocSwitch (some l) (onSpc (fun c => { c with mainlwp := w₁.cur }) w₁)))) = .ok w'
        else ∃ u, sendErrorResp reqno .rforkFailed w₁ = .ok u ∧
          w' = lwprocRelease (some l) (onSpc shutdown u) := by
  unfold handshakeForkWith at h
  by_cases hc : cancel ≠ 0
  · simp only [if_pos hc] at h
    exact .inl ⟨hc, (Except.ok.inj h).symm⟩
  · simp only [if_neg hc] at h
    obtain ⟨⟨ok, w₁⟩, hf, hw⟩ := bind_ok_iff.mp h
    refine .inr ⟨not_not.mp hc, ok, w₁, hf, ?_⟩
    cases ok with
    | true => exact hw
    | false => exact refusal hw

theorem handshakeFork_inv {reqno : Nat} (h : handshakeFork reqno w = .ok w') :
    (sub64 w.spc.off HDRSZ ≠ FORKSZ ∧ ∃ u, sendErrorResp reqno .malformedRequest w = .ok u ∧
        w' = onSpc spcfreebuf (onSpc shutdown u)) ∨
      sub64 w.spc.off HDRSZ = FORKSZ ∧ ∃ rfp, w.spc.buf = some rfp ∧
        ((w.preforks.find? (fun pf => pf.auth = rfp.data.slice 0 16) = none ∧
          ∃ u, sendErrorResp reqno .invalidPrefork (onSpc spcfreebuf w) = .ok u ∧
            w' = onSpc shutdown u) ∨
        ∃ pf, w.preforks.find? (fun pf => pf.auth = rfp.data.slice 0 16) = some pf ∧
          handshakeForkWith reqno (rfp.data.load 16 4) pf.lwp
            (onSpc spcfreebuf { w with preforks := w.preforks.erase pf }) = .ok w') := by
  unfold handshakeFork at h
  by_cases hsize : sub64 w.spc.off HDRSZ ≠ FORKSZ
  · rw [if_pos hsize] at h
    exact .inl ⟨hsize, refusal h⟩
  · rw [if_neg hsize] at h
    cases hb : w.spc.buf with
    | none => simp [hb] at h
    | some rfp =>
      simp only [hb] at h
      refine .inr ⟨not_not.mp hsize, rfp, rfl, ?_⟩
      cases hfind : w.preforks.find? fun pf => pf.auth = rfp.data.slice 0 16 with
      | none =>
        simp only [hfind] at h
        exact .inl ⟨rfl, refusal h⟩
      | some pf =>
        simp only [hfind] at h
        exact .inr ⟨pf, rfl, h⟩

theorem preforkWith_inv {reqno : Nat} (h : preforkWith reqno w = .ok w') :
    ∃ ok w₁, lwprocRfork .copy (lwprocSwitch w.spc.mainlwp w) = .ok (ok, w₁) ∧ if ok
      then ∃ auth os l, w₁.script = .random auth :: os ∧ w₁.cur = some l ∧
        sendPreforkResp reqno auth { lwprocSwitch none { w₁ with script := os } with
          preforks := ⟨auth, l⟩ :: w₁.preforks } = .ok w'
      else ∃ u, sendErrorResp reqno .rforkFailed w₁ = .ok u ∧ w' = lwprocSwitch none u := by
  obtain ⟨⟨ok, w₁⟩, hf, hw⟩ := bind_ok_iff.mp h
  refine ⟨ok, w₁, hf, ?_⟩
  cases ok with
  | true =>
    simp only [if_true] at hw
    split at hw
    · rename_i auth os l hscript hcur
      exact ⟨auth, os, l, hscript, hcur, hw⟩
    · cases hw
  | false => exact refusal hw

theorem prefork_inv {reqno : Nat} (h : prefork reqno w = .ok w') :
    (w.spc.inexec = true ∧ ∃ u, sendErrorResp reqno .inexec (onSpc spcfreebuf w) = .ok u ∧
        w' = onSpc shutdown u) ∨
      w.spc.inexec = false ∧ ∃ ok os, w.script = .malloc ok :: os ∧ if ok
        then preforkWith reqno { onSpc spcfreebuf w with script := os } = .ok w'
        else sendErrorResp reqno .nomem { onSpc spcfreebuf w with script := os } = .ok w' := by
  unfold prefork at h
  simp only at h
  split at h
  · rename_i hexec
    exact .inl ⟨hexec, refusal h⟩
  · rename_i hexec
    refine .inr ⟨Bool.eq_false_of_not_eq_true hexec, ?_⟩
    split at h
    · rename_i os hscript
      exact ⟨true, os, hscript, h⟩
    · rename_i os hscript
      exact ⟨false, os, hscript, h⟩
    · cases h

/-- Everything `handlereq` can do with a request, by the state of the client
and the type of the request. -/
inductive Handling (w : Server) : Server → Prop
  /-- A new client that does not begin with a handshake. -/
  | stranger {u : Server} (hnew : w.spc.state = .new)
      (hkind : rspType w.spc.hdr = RUMPSP_HANDSHAKE →
        rspWord w.spc.hdr ≠ HANDSHAKE_GUEST ∧ rspWord w.spc.hdr ≠ HANDSHAKE_FORK)
      (hu : sendErrorResp (rspReqno w.spc.hdr) .auth w = .ok u) :
      Handling w (onSpc spcfreebuf (onSpc shutdown u))
  | guest {w' : Server} (hnew : w.spc.state = .new)
      (htype : rspType w.spc.hdr = RUMPSP_HANDSHAKE) (hword : rspWord w.spc.hdr = HANDSHAKE_GUEST)
      (h : handshakeGuest (rspReqno w.spc.hdr) w = .ok w') : Handling w w'
  | fork {w' : Server} (hnew : w.spc.state = .new)
      (htype : rspType w.spc.hdr = RUMPSP_HANDSHAKE) (hword : rspWord w.spc.hdr = HANDSHAKE_FORK)
      (h : handshakeFork (rspReqno w.spc.hdr) w = .ok w') : Handling w w'
  | prefork {w' : Server} (hold : w.spc.state ≠ .new) (htype : rspType w.spc.hdr = RUMPSP_PREFORK)
      (h : prefork (rspReqno w.spc.hdr) w = .ok w') : Handling w w'
  /-- A handshake of a client that had one, unless it is an exec. -/
  | again {u : Server} (hold : w.spc.state ≠ .new) (htype : rspType w.spc.hdr = RUMPSP_HANDSHAKE)
      (hexec : rspWord w.spc.hdr = HANDSHAKE_EXEC → w.spc.inexec = true)
      (hu : sendErrorResp (rspReqno w.spc.hdr)
        (if rspWord w.spc.hdr ≠ HANDSHAKE_EXEC then .malformedRequest else .inexec) w = .ok u) :
      Handling w (onSpc spcfreebuf (onSpc shutdown u))
  | exec {w' : Server} (hold : w.spc.state ≠ .new) (htype : rspType w.spc.hdr = RUMPSP_HANDSHAKE)
      (hword : rspWord w.spc.hdr = HANDSHAKE_EXEC) (hexec : w.spc.inexec = false)
      (h : schedulework .exec (lwprocSwitch none ((lwprocSwitch w.spc.mainlwp
        (onSpc (fun c => { c with inexec := true }) w)).note .lwpexit)) = .ok w') : Handling w w'
  /-- A request of no known type. -/
  | malformed {u : Server} (hold : w.spc.state ≠ .new) (hpre : rspType w.spc.hdr ≠ RUMPSP_PREFORK)
      (hshake : rspType w.spc.hdr ≠ RUMPSP_HANDSHAKE) (hsys : rspType w.spc.hdr ≠ RUMPSP_SYSCALL)
      (hu : sendErrorResp (rspReqno w.spc.hdr) .malformedRequest w = .ok u) :
      Handling w (onSpc spcfreebuf u)
  | syscall {w' : Server} (hold : w.spc.state ≠ .new)
      (htype : rspType w.spc.hdr = RUMPSP_SYSCALL)
      (h : schedulework .syscall w = .ok w') : Handling w w'

theorem handshake_inv (hnew : w.spc.state = .new)
    (h : handshake (rspReqno w.spc.hdr) w = .ok w') : Handling w w' := by
  unfold handshake at h
  split at h
  · rename_i htype
    obtain ⟨u, hu, rfl⟩ := refusal (g := fun u => onSpc spcfreebuf (onSpc shutdown u)) h
    exact .stranger hnew (fun hshake => absurd hshake htype) hu
  rename_i htype
  replace htype := not_not.mp htype
  split at h
  · rename_i hword
    exact .guest hnew htype hword h
  rename_i hguest
  split at h
  · rename_i hword
    exact .fork hnew htype hword h
  · rename_i hfork
    obtain ⟨u, hu, rfl⟩ := refusal (g := fun u => onSpc spcfreebuf (onSpc shutdown u)) h
    exact .stranger hnew (fun _ => ⟨hguest, hfork⟩) hu

theorem execReq_inv (hold : w.spc.state ≠ .new) (htype : rspType w.spc.hdr = RUMPSP_HANDSHAKE)
    (h : execReq (rspReqno w.spc.hdr) w = .ok w') : Handling w w' := by
  unfold execReq at h
  split at h
  · rename_i hword
    obtain ⟨u, hu, rfl⟩ := refusal (g := fun u => onSpc spcfreebuf (onSpc shutdown u)) h
    exact .again hold htype (fun hexec => absurd hexec hword) (by rw [if_pos hword]; exact hu)
  rename_i hword
  split at h
  · rename_i hexec
    obtain ⟨u, hu, rfl⟩ := refusal (g := fun u => onSpc spcfreebuf (onSpc shutdown u)) h
    exact .again hold htype (fun _ => hexec) (by rw [if_neg hword]; exact hu)
  · rename_i hexec
    exact .exec hold htype (not_not.mp hword) (Bool.eq_false_of_not_eq_true hexec) h

theorem handlereq_inv (h : handlereq w = .ok w') : Handling w w' := by
  unfold handlereq at h
  simp only at h
  split at h
  · rename_i hnew
    exact handshake_inv hnew h
  rename_i hold
  split at h
  · rename_i htype
    exact .prefork hold htype h
  rename_i hpre
  split at h
  · rename_i htype
    exact execReq_inv hold htype h
  rename_i hshake
  split at h
  · rename_i hsys
    obtain ⟨u, hu, rfl⟩ := refusal (g := onSpc spcfreebuf) h
    exact .malformed hold hpre hshake hsys hu
  · rename_i hsys
    exact .syscall hold (not_not.mp hsys) h

theorem dispatch_inv (h : dispatch w = .ok w') :
    (rspClass w.spc.hdr = RUMPSP_RESP ∧ w' = onSpc kickwaiter w) ∨
      (rspClass w.spc.hdr = RUMPSP_REQ ∧ Handling w w') ∨
      (rspClass w.spc.hdr ≠ RUMPSP_REQ ∧ rspClass w.spc.hdr ≠ RUMPSP_RESP ∧
        ∃ u, sendErrorResp (rspReqno w.spc.hdr) .malformedRequest w = .ok u ∧
          w' = onSpc spcfreebuf u) := by
  unfold dispatch at h
  split at h
  · rename_i hresp
    exact .inl ⟨hresp, (Except.ok.inj h).symm⟩
  rename_i hresp
  split at h
  · rename_i hreq
    exact .inr (.inl ⟨hreq, handlereq_inv h⟩)
  · rename_i hreq
    exact .inr (.inr ⟨hreq, hresp, refusal h⟩)

/-- What `kickwaiter` has no business with. -/
theorem kickwaiter_client (c : Client) : (kickwaiter c).inexec = c.inexec ∧
    (kickwaiter c).state = c.state ∧ (kickwaiter c).mainlwp = c.mainlwp := by
  unfold kickwaiter
  split
  · simp only
    split <;> exact ⟨rfl, rfl, rfl⟩
  · exact ⟨rfl, rfl, rfl⟩

/-! ## What a dispatch does -/

/-- The next frame starts at its header. -/
def Reset (c : Client) : Prop := c.off = 0 ∧ c.buf = none

/-- The handshake of a guest on a new connection. -/
def Hello (c : Client) : Prop :=
  rspClass c.hdr = RUMPSP_REQ ∧ c.state = .new ∧ rspType c.hdr = RUMPSP_HANDSHAKE ∧
    rspWord c.hdr = HANDSHAKE_GUEST

instance (c : Client) : Decidable (Hello c) := inferInstanceAs (Decidable (_ ∧ _ ∧ _ ∧ _))

/-- What a frame can add to the record. -/
inductive Acts (w : Server) : List Deed → Prop
  | nothing (h : ¬ Hello w.spc) : Acts w []
  | guest (h : Hello w.spc) : Acts w [.store (terminator w.spc.hdr w.spc.buf), .rfork .clear]
  | fork (h : ¬ Hello w.spc) : Acts w [.rfork .share]
  | prefork (hold : w.spc.state ≠ .new) : Acts w [.rfork .copy]
  | exec (hold : w.spc.state ≠ .new) : Acts w [.lwpexit, .schedulework]
  | syscall (hold : w.spc.state ≠ .new) : Acts w [.schedulework]

/-- The list is as it was, or the frame has been put at its end. -/
def Queued (w w' : Server) : Prop :=
  w'.wrklist = w.wrklist ∨ ∃ t, w'.wrklist = w.wrklist ++ [⟨t, w.spc.hdr, w.spc.buf⟩]

/-- Nothing is left behind to be acted on. -/
structure Spared (w w' : Server) : Prop where
  wrklist : w'.wrklist = w.wrklist
  preforks : w'.preforks.Sublist w.preforks
  inexec : w'.spc.inexec = w.spc.inexec

/-- The client stands where it stood. -/
def Stays (w w' : Server) : Prop :=
  w'.spc.state = w.spc.state ∧ w'.spc.mainlwp = w.spc.mainlwp

/-- `w` is a handshake that makes its client a running one, with the lwp it
has got from `lwproc_rfork`. -/
structure Greeted (w w' : Server) : Prop where
  cls : rspClass w.spc.hdr = RUMPSP_REQ
  type : rspType w.spc.hdr = RUMPSP_HANDSHAKE
  kind : rspWord w.spc.hdr = HANDSHAKE_GUEST ∨ rspWord w.spc.hdr = HANDSHAKE_FORK ∧
    ∃ pf ∈ w.preforks, ∃ rfp, w.spc.buf = some rfp ∧ pf.auth = rfp.data.slice 0 16
  before : w.spc.state = .new
  state : w'.spc.state = .running
  mainlwp : w'.spc.mainlwp = some w.fresh

/-- What every dispatch that returns has done, whatever the frame. -/
structure Dispatched (w w' : Server) : Prop where
  reset : Reset w'.spc
  /-- A frame that is not a response wakes nobody. -/
  respwait : rspClass w.spc.hdr ≠ RUMPSP_RESP → w'.spc.respwait = w.spc.respwait
  acts : ∃ l, w'.deeds = w.deeds ++ l ∧ Acts w l
  queued : Queued w w'
  /-- The frame of a new client leaves nothing behind that is acted on later. -/
  spared : w.spc.state = .new → Spared w w'
  /-- Only a handshake that succeeds moves the client. -/
  client : Stays w w' ∨ Greeted w w'

/-- The frame is freed, and at most the socket shut down. -/
theorem dispatched_stays {l : List Deed} (b : Bool) (hl : Acts w l)
    (hd : w'.deeds = w.deeds ++ l) (hc : w'.spc = spcfreebuf { w.spc with shut := b })
    (hq : w'.wrklist = w.wrklist) (hp : w.spc.state = .new → w'.preforks.Sublist w.preforks) :
    Dispatched w w' where
  reset := by rw [hc]; exact ⟨rfl, rfl⟩
  respwait _ := by rw [hc]; rfl
  acts := ⟨l, hd, hl⟩
  queued := .inl hq
  spared hnew := ⟨hq, hp hnew, by rw [hc]; rfl⟩
  client := .inl (by rw [Stays, hc]; exact ⟨rfl, rfl⟩)

theorem dispatched_greeted {l : List Deed} {c : Client} (hl : Acts w l)
    (hd : w'.deeds = w.deeds ++ l) (hg : Greeted w w')
    (hc : w'.spc = { spcfreebuf w.spc with mainlwp := c.mainlwp, pid := c.pid, state := c.state })
    (hq : w'.wrklist = w.wrklist) (hp : w'.preforks.Sublist w.preforks) : Dispatched w w' where
  reset := by rw [hc]; exact ⟨rfl, rfl⟩
  respwait _ := by rw [hc]; rfl
  acts := ⟨l, hd, hl⟩
  queued := .inl hq
  spared _ := ⟨hq, hp, by rw [hc]; rfl⟩
  client := .inr hg

/-- A finished handshake, seen from before the reply. -/
theorem handshakeDone_kept {reqno : Nat} (h : handshakeDone reqno w = .ok w') : ∃ v pid,
    w' = onSpc (fun c => { c with pid := pid, state := .running }) (w.kept v) := by
  obtain ⟨u, hu, rfl⟩ := handshakeDone_inv h
  obtain ⟨v, rfl⟩ := hu.kept
  exact ⟨{ v with cur := none }, _, rfl⟩

theorem handshakeGuest_dispatched {reqno : Nat} (hh : Hello w.spc)
    (h : handshakeGuest reqno w = .ok w') : Dispatched w w' := by
  have hd := List.append_assoc w.deeds [.store (terminator w.spc.hdr w.spc.buf)] [.rfork .clear]
  obtain ⟨comm, ok, w₁, _, hf, hw⟩ := handshakeGuest_inv h
  obtain ⟨v, rfl, hcur⟩ := rfork_kept hf
  cases ok with
  | true =>
    obtain ⟨v', pid, rfl⟩ := handshakeDone_kept hw
    exact dispatched_greeted (c := ⟨.running, 0, v.cur, pid, [], w.spc.hdr, none, 0, false, false⟩)
      (.guest hh) hd ⟨hh.1, hh.2.2.1, .inl hh.2.2.2, hh.2.1, rfl, hcur rfl⟩ rfl rfl (.refl _)
  | false =>
    cases hw
    exact dispatched_stays true (.guest hh) hd rfl rfl fun _ => .refl _

theorem handshakeFork_dispatched {reqno : Nat} (hreq : rspClass w.spc.hdr = RUMPSP_REQ)
    (hnew : w.spc.state = .new) (htype : rspType w.spc.hdr = RUMPSP_HANDSHAKE)
    (hword : rspWord w.spc.hdr = HANDSHAKE_FORK) (h : handshakeFork reqno w = .ok w') :
    Dispatched w w' := by
  have hn : ¬ Hello w.spc := fun hh => absurd (hword.symm.trans hh.2.2.2) (by decide)
  have hnil := (List.append_nil w.deeds).symm
  obtain ⟨_, u, hu, rfl⟩ | ⟨_, rfp, hb, ⟨_, u, hu, rfl⟩ | ⟨pf, hfind, h⟩⟩ := handshakeFork_inv h
  · obtain ⟨v, rfl⟩ := (replied_of_map hu).kept
    exact dispatched_stays true (.nothing hn) hnil rfl rfl fun _ => .refl _
  · obtain ⟨v, rfl⟩ := (replied_of_map hu).kept
    exact dispatched_stays true (.nothing hn) hnil rfl rfl fun _ => .refl _
  obtain ⟨_, rfl⟩ | ⟨_, ok, w₁, hf, hw⟩ := handshakeForkWith_inv h
  · exact dispatched_stays true (.nothing hn) hnil rfl rfl fun _ => List.erase_sublist
  obtain ⟨v, rfl, hcur⟩ := rfork_kept hf
  cases ok with
  | true =>
    obtain ⟨v', pid, rfl⟩ := handshakeDone_kept hw
    have hauth : pf.auth = rfp.data.slice 0 16 := by simpa using List.find?_some hfind
    exact dispatched_greeted (c := ⟨.running, 0, v.cur, pid, [], w.spc.hdr, none, 0, false, false⟩)
      (.fork hn) rfl ⟨hreq, htype, .inr ⟨hword, pf, List.mem_of_find?_eq_some hfind, rfp, hb, hauth⟩,
        hnew, rfl, hcur rfl⟩ rfl rfl List.erase_sublist
  | false =>
    obtain ⟨u, hu, rfl⟩ := hw
    obtain ⟨v', rfl⟩ := (replied_of_map hu).kept
    exact dispatched_stays true (.fork hn) rfl rfl rfl fun _ => List.erase_sublist

theorem prefork_dispatched {reqno : Nat} (hold : w.spc.state ≠ .new)
    (h : prefork reqno w = .ok w') : Dispatched w w' := by
  have hn : ¬ Hello w.spc := fun hh => hold hh.2.1
  have hnil := (List.append_nil w.deeds).symm
  obtain ⟨_, u, hu, rfl⟩ | ⟨_, ok, os, _, hw⟩ := prefork_inv h
  · obtain ⟨v, rfl⟩ := (replied_of_map hu).kept
    exact dispatched_stays true (.nothing hn) hnil rfl rfl fun hnew => absurd hnew hold
  cases ok with
  | false =>
    obtain ⟨v, rfl⟩ := (replied_of_map hw).kept
    exact dispatched_stays _ (.nothing hn) hnil rfl rfl fun hnew => absurd hnew hold
  | true =>
    obtain ⟨ok, w₁, hf, hw⟩ := preforkWith_inv hw
    obtain ⟨v, rfl, _⟩ := rfork_kept hf
    cases ok with
    | true =>
      obtain ⟨auth, os, l, _, _, hu⟩ := hw
      obtain ⟨v', rfl⟩ := (replied_of_map hu).kept
      exact dispatched_stays _ (.prefork hold) rfl rfl rfl fun hnew => absurd hnew hold
    | false =>
      obtain ⟨u, hu, rfl⟩ := hw
      obtain ⟨v', rfl⟩ := (replied_of_map hu).kept
      exact dispatched_stays _ (.prefork hold) rfl rfl rfl fun hnew => absurd hnew hold

/-- The frame that is put on the list may be one whose client has been marked. -/
theorem schedulework_dispatched {t : SbaType} {u : Server} {l : List Deed} {b : Bool}
    (h : schedulework t u = .ok w') (hold : w.spc.state ≠ .new)
    (hl : Acts w (l ++ [.schedulework])) (hd : u.deeds = w.deeds ++ l)
    (hc : u.spc = { w.spc with inexec := b }) (hq : u.wrklist = w.wrklist) : Dispatched w w' := by
  have hd' : u.deeds ++ [.schedulework] = w.deeds ++ (l ++ [.schedulework]) := by
    rw [hd, List.append_assoc]
  obtain ⟨ok, os, _, hw⟩ := schedulework_inv h
  cases ok with
  | true =>
    rw [if_pos rfl, hc, hq] at hw
    subst hw
    exact ⟨⟨rfl, rfl⟩, fun _ => rfl, ⟨_, hd', hl⟩, .inr ⟨t, rfl⟩, fun hnew => absurd hnew hold,
      .inl ⟨rfl, rfl⟩⟩
  | false =>
    obtain ⟨v, hv, rfl⟩ := hw
    obtain ⟨v', rfl⟩ := (replied_of_map hv).kept
    have hspc : (onSpc spcfreebuf (Server.kept { u.note .schedulework with script := os } v')).spc =
        spcfreebuf { w.spc with inexec := b } := congrArg spcfreebuf hc
    exact ⟨by rw [hspc]; exact ⟨rfl, rfl⟩, fun _ => by rw [hspc]; rfl, ⟨_, hd', hl⟩, .inl hq,
      fun hnew => absurd hnew hold, .inl (by rw [Stays, hspc]; exact ⟨rfl, rfl⟩)⟩

theorem Handling.dispatched (hreq : rspClass w.spc.hdr = RUMPSP_REQ) (h : Handling w w') :
    Dispatched w w' := by
  have hnil := (List.append_nil w.deeds).symm
  cases h with
  | stranger _ hkind hu =>
    obtain ⟨v, rfl⟩ := (replied_of_map hu).kept
    exact dispatched_stays true (.nothing fun hh => (hkind hh.2.2.1).1 hh.2.2.2) hnil rfl rfl
      fun _ => .refl _
  | again hold _ _ hu | malformed hold _ _ _ hu =>
    obtain ⟨v, rfl⟩ := (replied_of_map hu).kept
    exact dispatched_stays _ (.nothing fun hh => hold hh.2.1) hnil rfl rfl fun _ => .refl _
  | guest hnew htype hword h => exact handshakeGuest_dispatched ⟨hreq, hnew, htype, hword⟩ h
  | fork hnew htype hword h => exact handshakeFork_dispatched hreq hnew htype hword h
  | prefork hold _ h => exact prefork_dispatched hold h
  | exec hold _ _ _ h => exact schedulework_dispatched h hold (.exec hold) rfl rfl rfl
  | syscall hold _ h => exact schedulework_dispatched h hold (.syscall hold) hnil rfl rfl

theorem kickwaiter_reset (c : Client) : Reset (kickwaiter c) := by
  unfold kickwaiter
  split
  · simp only
    split <;> exact ⟨rfl, rfl⟩
  · exact ⟨rfl, rfl⟩

theorem dispatch_spec (h : dispatch w = .ok w') : Dispatched w w' := by
  have hnil := (List.append_nil w.deeds).symm
  obtain ⟨hresp, rfl⟩ | ⟨hreq, h⟩ | ⟨hreq, _, u, hu, rfl⟩ := dispatch_inv h
  · obtain ⟨hi, hs, hm⟩ := kickwaiter_client w.spc
    have hn : ¬ Hello w.spc := fun hh => absurd (hresp.symm.trans hh.1) (by decide)
    exact ⟨kickwaiter_reset _, fun hx => absurd hresp hx, ⟨[], hnil, .nothing hn⟩, .inl rfl,
      fun _ => ⟨rfl, .refl _, hi⟩, .inl ⟨hs, hm⟩⟩
  · exact h.dispatched hreq
  · obtain ⟨v, rfl⟩ := (replied_of_map hu).kept
    exact dispatched_stays _ (.nothing fun hh => hreq hh.1) hnil rfl rfl fun _ => .refl _

/-! ## The frame that is never answered -/

theorem dispatch_hello (h : Hello w.spc) (hb : w.spc.buf = none) :
    dispatch w = .error (.crash (w.deeds ++ [.store (terminator w.spc.hdr none)])) := by
  obtain ⟨hc, hs, ht, hw⟩ := h
  simp [dispatch, handlereq, handshake, handshakeGuest, Server.note, hc, hs, ht, hw, hb]

theorem rfork_crash {flags : Rfork} : lwprocRfork flags w ≠ .error (.crash d) := by
  unfold lwprocRfork
  split <;> simp

theorem handshakeDone_crash {reqno : Nat} : handshakeDone reqno w ≠ .error (.crash d) := by
  intro h
  rcases bind_error_iff.mp h with h | ⟨u, _, h⟩
  · exact map_crash h
  · cases h

theorem sbaAlloc_crash {n : Nat} {os : List Outcome} : sbaAlloc n os ≠ .error (.crash d) := by
  fun_induction sbaAlloc n os <;> simp_all

theorem schedulework_crash {t : SbaType} : schedulework t w ≠ .error (.crash d) := by
  intro h
  rcases bind_error_iff.mp h with h | ⟨⟨ok, os⟩, _, h⟩
  · exact sbaAlloc_crash h
  · cases ok with
    | true => cases h
    | false => exact refusal_crash h

theorem handshakeForkWith_crash {reqno cancel : Nat} {l : Lwp} :
    handshakeForkWith reqno cancel l w ≠ .error (.crash d) := by
  intro h
  unfold handshakeForkWith at h
  by_cases hc : cancel ≠ 0
  · simp only [if_pos hc] at h
    cases h
  · simp only [if_neg hc] at h
    rcases bind_error_iff.mp h with h | ⟨⟨ok, w₁⟩, _, h⟩
    · exact rfork_crash h
    · cases ok with
      | true => exact handshakeDone_crash h
      | false => exact refusal_crash (g := fun u => lwprocRelease (some l) (onSpc shutdown u)) h

theorem preforkWith_crash {reqno : Nat} : preforkWith reqno w ≠ .error (.crash d) := by
  intro h
  rcases bind_error_iff.mp h with h | ⟨⟨ok, w₁⟩, _, h⟩
  · exact rfork_crash h
  · cases ok with
    | true =>
      simp only [if_true] at h
      split at h
      · exact map_crash h
      · cases h
    | false => exact refusal_crash (g := lwprocSwitch none) h

theorem prefork_crash {reqno : Nat} : prefork reqno w ≠ .error (.crash d) := by
  intro h
  unfold prefork at h
  simp only at h
  split at h
  · exact refusal_crash (g := onSpc shutdown) h
  · split at h
    · exact preforkWith_crash h
    · exact map_crash h
    · cases h

theorem execReq_crash {reqno : Nat} : execReq reqno w ≠ .error (.crash d) := by
  intro h
  unfold execReq at h
  split at h
  · exact refusal_crash (g := fun u => onSpc spcfreebuf (onSpc shutdown u)) h
  · split at h
    · exact refusal_crash (g := fun u => onSpc spcfreebuf (onSpc shutdown u)) h
    · exact schedulework_crash h

theorem handshakeGuest_crash {reqno : Nat} (h : handshakeGuest reqno w = .error (.crash d)) :
    w.spc.buf = none := by
  unfold handshakeGuest at h
  cases hb : w.spc.buf with
  | none => rfl
  | some comm =>
    simp only [hb] at h
    rcases bind_error_iff.mp h with h | ⟨⟨ok, w₁⟩, _, h⟩
    · exact absurd h rfork_crash
    · cases ok with
      | true => exact absurd h handshakeDone_crash
      | false => cases h

theorem handshakeFork_crash {reqno : Nat} (h : handshakeFork reqno w = .error (.crash d)) :
    w.spc.buf = none ∧ sub64 w.spc.off HDRSZ = FORKSZ ∧ d = w.deeds := by
  unfold handshakeFork at h
  split at h
  · exact absurd h (refusal_crash (g := fun u => onSpc spcfreebuf (onSpc shutdown u)))
  · rename_i hoff
    cases hb : w.spc.buf with
    | none =>
      simp only [hb, Except.error.injEq, Stop.crash.injEq] at h
      exact ⟨rfl, not_not.mp hoff, h.symm⟩
    | some rfp =>
      simp only [hb] at h
      split at h
      · exact absurd h (refusal_crash (g := onSpc shutdown))
      · exact absurd h handshakeForkWith_crash

/-- A dispatch fails to return for want of a buffer only: with a guest's
handshake, or a fork's with an offset that says there is one. -/
theorem dispatch_crash (h : dispatch w = .error (.crash d)) :
    w.spc.buf = none ∧ (Hello w.spc ∨
      ¬ Hello w.spc ∧ sub64 w.spc.off HDRSZ = FORKSZ ∧ d = w.deeds) := by
  unfold dispatch at h
  split at h
  · cases h
  split at h
  swap
  · exact absurd h (refusal_crash (g := onSpc spcfreebuf))
  rename_i hclass
  unfold handlereq at h
  simp only at h
  split at h
  · rename_i hnew
    unfold handshake at h
    split at h
    · exact absurd h (refusal_crash (g := fun u => onSpc spcfreebuf (onSpc shutdown u)))
    rename_i htype
    split at h
    · rename_i hword
      exact ⟨handshakeGuest_crash h, .inl ⟨hclass, hnew, not_not.mp htype, hword⟩⟩
    rename_i hword
    split at h
    · exact (handshakeFork_crash h).imp_right fun hf => .inr ⟨fun hh => hword hh.2.2.2, hf⟩
    · exact absurd h (refusal_crash (g := fun u => onSpc spcfreebuf (onSpc shutdown u)))
  split at h
  · exact absurd h prefork_crash
  split at h
  · exact absurd h execReq_crash
  split at h
  · exact absurd h (refusal_crash (g := onSpc spcfreebuf))
  · exact absurd h schedulework_crash

end Frankenlibc.Sysproxy

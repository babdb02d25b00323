import Frankenlibc.Lib.Desk
import Frankenlibc.Sysproxy.Dispatch

/-!
# Preforks: issued by one client, taken by another

A client asks for a prefork and passes the token on; whoever connects and shows
the token gets the process. The list is shared by all clients and is served by
one thread. Here whole sequences of frames and disconnects are followed, with a
desk beside them that records what was issued and what was taken.

Replies are assumed to go out. That leaves `lwproc_newlwp` in `dosend`, whose
result nobody looks at: where it fails, the reply releases the lwp of its
caller. After a fork that failed that lwp is the prefork's, and the handler
releases it again.

The second list a prefork is on, `spc_pflist`, is linked and unlinked but never
walked, and is left out.
-/
namespace Frankenlibc.Sysproxy

open Frankenlibc.Lib

variable {w w' u v : Server}

/-- How often `lwproc_release` has been applied to an lwp. -/
def released (w : Server) (l : Lwp) : Nat := w.releases.countP fun r => r.2 = some l

theorem released_snoc {mine c : Option Lwp} (h : v.releases = u.releases ++ [(mine, c)]) (l : Lwp) :
    released v l = released u l + if c = some l then 1 else 0 := by
  rw [released, h, List.countP_append, List.countP_singleton, released]
  simp only [decide_eq_true_eq]

/-! ## What a frame asks for -/

/-- The prefork a frame gets, if it gets one. -/
def grants (w : Server) : Option Prefork :=
  if rspClass w.spc.hdr = RUMPSP_REQ ∧ w.spc.state ≠ .new ∧
      rspType w.spc.hdr = RUMPSP_PREFORK ∧ w.spc.inexec = false then
    match w.script with
    | .malloc true :: .rfork true :: .random auth :: _ => some ⟨auth, w.fresh⟩
    | _ => none
  else none

/-- The token a frame shows, if it is a fork handshake. -/
def presents (w : Server) : Option (List UInt8) :=
  if rspClass w.spc.hdr = RUMPSP_REQ ∧ w.spc.state = .new ∧
      rspType w.spc.hdr = RUMPSP_HANDSHAKE ∧ rspWord w.spc.hdr = HANDSHAKE_FORK ∧
      sub64 w.spc.off HDRSZ = FORKSZ then
    w.spc.buf.map fun rfp => rfp.data.slice 0 16
  else none

/-- The fork handshake is a cancellation. -/
def cancels (w : Server) : Bool := w.spc.buf.any fun rfp => rfp.data.load 16 4 ≠ 0

/-- Neither a new process nor, for the reply that says so, an lwp. -/
def exhausted : List Outcome → Bool
  | .rfork false :: .newlwp false :: _ => true
  | _ => false

/-- A fork handshake with an outstanding token that finds the kernel
exhausted. -/
def misfires (w : Server) : Bool :=
  (presents w).any (fun t => w.preforks.any fun pf => pf.auth = t) && !cancels w &&
    exhausted w.script

/-! ## What a part of a handler does to the lwps -/

/-- From `w` to `w'` lwps are made and released; `due l` releases fall on `l`,
unless it was made on the way or is the client's own. -/
structure Passed (w w' : Server) (due : Lwp → Nat) : Prop where
  fresh : w.fresh ≤ w'.fresh
  lwps : ∀ l ∈ w'.lwps, l ∈ w.lwps ∨ w.fresh ≤ l.1 ∧ l.1 < w'.fresh
  main : w'.spc.mainlwp = w.spc.mainlwp ∨
    ∃ l, w'.spc.mainlwp = some l ∧ w.fresh ≤ l ∧ l < w'.fresh
  spare : ∀ l < w.fresh, w.spc.mainlwp ≠ some l → released w' l = released w l + due l
  bound : ∀ l, w'.fresh ≤ l → released w' l = released w l

theorem Passed.trans {d d' : Lwp → Nat} (h : Passed w u d) (h' : Passed u v d') :
    Passed w v fun l => d l + d' l := by
  refine ⟨h.fresh.trans h'.fresh, ?_, ?_, ?_, ?_⟩
  · intro l hl
    rcases h'.lwps l hl with hl | ⟨hge, hlt⟩
    · rcases h.lwps l hl with hl | ⟨hge, hlt⟩
      · exact .inl hl
      · exact .inr ⟨hge, hlt.trans_le h'.fresh⟩
    · exact .inr ⟨h.fresh.trans hge, hlt⟩
  · rcases h'.main with hm' | ⟨l, hl, hge, hlt⟩
    · rcases h.main with hm | ⟨l, hl, hge, hlt⟩
      · exact .inl (hm'.trans hm)
      · exact .inr ⟨l, hm'.trans hl, hge, hlt.trans_le h'.fresh⟩
    · exact .inr ⟨l, hl, h.fresh.trans hge, hlt⟩
  · intro l hl hm
    have hmu : u.spc.mainlwp ≠ some l := by
      rcases h.main with heq | ⟨k, hk, hge, _⟩
      · rw [heq]
        exact hm
      · rw [hk]
        intro hkl
        rw [Option.some.inj hkl] at hge
        exact absurd hl (Nat.not_lt.mpr hge)
    rw [h'.spare l (hl.trans_le h.fresh) hmu, h.spare l hl hm, Nat.add_assoc]
  · intro l hl
    rw [h'.bound l hl, h.bound l (h'.fresh.trans hl)]

theorem Passed.congr {d d' : Lwp → Nat} (h : Passed w v d)
    (hd : ∀ l < w.fresh, w.spc.mainlwp ≠ some l → d l = d' l) : Passed w v d' :=
  { h with spare := fun l hl hm => by rw [h.spare l hl hm, hd l hl hm] }

/-- `lwproc_release` on the lwp `l`. -/
theorem passed_release {m : Option Lwp} {l : Lwp} (hcur : w.cur = some l) (hl : l < w.fresh) :
    Passed w (lwprocRelease m w) fun k => if k = l then 1 else 0 := by
  refine ⟨le_rfl, fun k hk => .inl (List.mem_filter.mp hk).1, .inl rfl, ?_, ?_⟩
  · intro k _ _
    rw [released_snoc (u := w) (v := lwprocRelease m w) rfl, hcur]
    simp only [Option.some.injEq, eq_comm]
  · intro k hk
    rw [released_snoc (u := w) (v := lwprocRelease m w) rfl, hcur, if_neg, Nat.add_zero]
    simp only [Option.some.injEq]
    exact Nat.ne_of_lt (hl.trans_le hk)

/-- `lwproc_rfork`. -/
theorem passed_rfork {flags : Rfork} {b : Bool} {w₁ : Server}
    (h : lwprocRfork flags w = .ok (b, w₁)) :
    Passed w w₁ fun _ => 0 := by
  obtain ⟨os, _, rfl⟩ := rfork_inv h
  cases b with
  | true =>
    refine ⟨Nat.le_succ _, ?_, .inl rfl, fun _ _ _ => rfl, fun _ _ => rfl⟩
    intro l hl
    rcases List.mem_cons.mp hl with rfl | hl
    · exact .inr ⟨le_rfl, Nat.lt_succ_self _⟩
    · exact .inl hl
  | false => exact ⟨le_rfl, fun _ hl => .inl hl, .inl rfl, fun _ _ _ => rfl, fun _ _ => rfl⟩

/-- A reply falls on its caller's lwp where there is none for it. -/
def mishap (w : Server) (l : Lwp) : Nat :=
  if w.script.head? = some (.newlwp false) ∧ w.cur = some l then 1 else 0

/-- On a script on which every send succeeds the host takes the reply. -/
theorem Replied.taken (h : Replied u v) (hok : u.script.any fatal = false) :
    ∃ ok os bs, u.script.head? = some (.newlwp ok) ∧ Sent u bs os ok false v := by
  obtain ⟨ok, hs, bs, hscript, hsent⟩ := h
  have hfine : hs.any fatal = false := by
    rw [hscript] at hok
    simp only [List.any_cons, List.any_append, Bool.or_eq_false_iff] at hok
    exact hok.2.1
  rw [hfine] at hsent
  exact ⟨ok, v.script, bs, by rw [hscript]; rfl, hsent⟩

theorem Replied.passed (h : Replied u v) (hok : u.script.any fatal = false)
    (hcur : ∀ l, u.cur = some l → l < u.fresh) : Passed u v (mishap u) ∧ v.cur = u.cur := by
  obtain ⟨ok, os, bs, hscript, hsent⟩ := h.taken hok
  cases hsent with
  | fine =>
    refine ⟨⟨Nat.le_succ _, ?_, .inl rfl, ?_, ?_⟩, rfl⟩
    · intro l hl
      rcases List.mem_cons.mp (List.mem_filter.mp hl).1 with rfl | hl
      · exact .inr ⟨le_rfl, Nat.lt_succ_self _⟩
      · exact .inl hl
    · intro l hl _
      rw [released_snoc (u := u) rfl, mishap, hscript, if_neg, if_neg]
      · simp
      · simp only [Option.some.injEq]
        exact (Nat.ne_of_lt hl).symm
    · intro l hl
      rw [released_snoc (u := u) rfl, if_neg, Nat.add_zero]
      simp only [Option.some.injEq]
      exact Nat.ne_of_lt hl
  | misreleased =>
    refine ⟨⟨le_rfl, fun l hl => .inl (List.mem_filter.mp hl).1, .inl rfl, ?_, ?_⟩, rfl⟩
    · intro l _ _
      rw [released_snoc (u := u) rfl, mishap, hscript]
      simp
    · intro l hl
      rw [released_snoc (u := u) rfl, if_neg, Nat.add_zero]
      intro hc
      exact absurd (hcur l hc) (Nat.not_lt.mpr hl)

/-- Nothing `Passed` speaks of tells the two apart. -/
structure Alike (w v : Server) : Prop where
  fresh : v.fresh = w.fresh
  lwps : v.lwps = w.lwps
  main : v.spc.mainlwp = w.spc.mainlwp
  releases : v.releases = w.releases

theorem Alike.passed (h : Alike w v) : Passed w v fun _ => 0 := by
  refine ⟨h.fresh.ge, fun l hl => .inl (h.lwps ▸ hl), .inl h.main, fun l _ _ => ?_, fun l _ => ?_⟩
  · rw [released, h.releases, released, Nat.add_zero]
  · rw [released, h.releases, released]

theorem Passed.then {d : Lwp → Nat} (h : Passed w u d) (ha : Alike u v) : Passed w v d :=
  h.trans ha.passed

theorem Passed.after {d : Lwp → Nat} (h : Passed u v d) (ha : Alike w u) : Passed w v d :=
  (ha.passed.trans h).congr fun l _ _ => Nat.zero_add (d l)

/-- How a handler finds the server, with a script on which every send
succeeds. -/
structure Ready (w : Server) : Prop where
  cur : w.cur = none
  main : ∀ l, w.spc.mainlwp = some l → l < w.fresh
  sends : w.script.any fatal = false

/-- A frame that has no part in the hand-over. -/
structure Quiet (w w' : Server) : Prop where
  passed : Passed w w' fun _ => 0
  cur : w'.cur = none
  preforks : w'.preforks = w.preforks

/-! ## Frames without a token -/

theorem Replied.quiet (h : Replied u v) (hr : Ready u) : Quiet u v := by
  obtain ⟨hp, hcur⟩ := h.passed hr.sends (by simp [hr.cur])
  refine ⟨hp.congr fun l _ _ => ?_, hcur.trans hr.cur, h.preforks⟩
  rw [mishap, hr.cur]
  simp

theorem quiet_refusal {reqno : Nat} {e : RspErr} {f : Client → Client} (hr : Ready w)
    (h : sendErrorResp reqno e w = .ok u) (hf : ∀ c : Client, (f c).mainlwp = c.mainlwp) :
    Quiet w (onSpc f u) := by
  have hq := (replied_of_map h).quiet hr
  exact ⟨hq.passed.then ⟨rfl, rfl, hf u.spc, rfl⟩, hq.cur, hq.preforks⟩

/-- What was done before that concerns no lwp. -/
theorem Quiet.after (h : Quiet u v) (ha : Alike w u) (hp : u.preforks = w.preforks) :
    Quiet w v := ⟨h.passed.after ha, h.cur, h.preforks.trans hp⟩

theorem sbaAlloc_sends {n : Nat} {b : Bool} {os os' : List Outcome}
    (h : sbaAlloc n os = .ok (b, os')) (hok : os.any fatal = false) : os'.any fatal = false := by
  fun_induction sbaAlloc n os with
  | case1 os =>
    cases h
    simpa [fatal] using hok
  | case2 os hn =>
    cases h
    simpa [fatal] using hok
  | case3 os hn ih => exact ih h (by simpa [fatal] using hok)
  | case4 => cases h

theorem schedulework_quiet {t : SbaType} (hr : Ready w) (h : schedulework t w = .ok w') :
    Quiet w w' := by
  obtain ⟨ok, os, ha, hw⟩ := schedulework_inv h
  cases ok with
  | true =>
    rw [if_pos rfl] at hw
    subst hw
    exact ⟨Alike.passed ⟨rfl, rfl, rfl, rfl⟩, hr.cur, rfl⟩
  | false =>
    obtain ⟨u, hu, rfl⟩ := hw
    have hr' : Ready { w.note .schedulework with script := os } :=
      ⟨hr.cur, hr.main, sbaAlloc_sends ha hr.sends⟩
    have hq := quiet_refusal (f := spcfreebuf) hr' hu fun _ => rfl
    exact hq.after (w := w) ⟨rfl, rfl, rfl, rfl⟩ rfl

/-- A handshake ends on the client's own lwp, and with none. -/
theorem handshakeDone_quiet {reqno : Nat} (hcur : w.cur = w.spc.mainlwp)
    (hmain : ∀ l, w.spc.mainlwp = some l → l < w.fresh) (hok : w.script.any fatal = false)
    (h : handshakeDone reqno w = .ok w') : Quiet w w' := by
  obtain ⟨u, hu, rfl⟩ := handshakeDone_inv h
  obtain ⟨hp, _⟩ := hu.passed hok (by rw [hcur]; exact hmain)
  have hnone : Passed w u fun _ => 0 := hp.congr fun l _ hm => by
    rw [mishap, hcur]
    simp [hm]
  exact ⟨hnone.then ⟨rfl, rfl, rfl, rfl⟩, rfl, hu.preforks⟩

/-- What else `lwproc_rfork` leaves. -/
theorem rfork_rest {flags : Rfork} {b : Bool} {w₁ : Server}
    (h : lwprocRfork flags w = .ok (b, w₁)) :
    w.script = .rfork b :: w₁.script ∧ w₁.spc = w.spc ∧ w₁.preforks = w.preforks ∧
      w₁.cur = (if b then some w.fresh else w.cur) ∧
      w₁.fresh = (if b then w.fresh + 1 else w.fresh) := by
  obtain ⟨os, hos, rfl⟩ := rfork_inv h
  cases b with
  | true => exact ⟨hos, rfl, rfl, rfl, rfl⟩
  | false => exact ⟨hos, rfl, rfl, rfl, rfl⟩

theorem sends_tail {o : Outcome} {os : List Outcome} (h : (o :: os).any fatal = false) :
    os.any fatal = false := by
  rw [List.any_cons, Bool.or_eq_false_iff] at h
  exact h.2

/-- The lwp that `lwproc_rfork` has made becomes the client's. -/
theorem passed_main {w₁ : Server} (hp : Passed w w₁ fun _ => 0)
    (hv : v.fresh = w₁.fresh ∧ v.lwps = w₁.lwps ∧ v.releases = w₁.releases)
    (hm : v.spc.mainlwp = some w.fresh) (hf : w.fresh < w₁.fresh) : Passed w v fun _ => 0 where
  fresh := hv.1 ▸ hp.fresh
  lwps := by
    rw [hv.1, hv.2.1]
    exact hp.lwps
  main := .inr ⟨w.fresh, hm, le_rfl, hv.1 ▸ hf⟩
  spare := fun l hl hne => by
    rw [released, hv.2.2]
    exact hp.spare l hl hne
  bound := fun l hl => by
    rw [released, hv.2.2]
    exact hp.bound l (hv.1 ▸ hl)

theorem handshakeGuest_quiet {reqno : Nat} (hr : Ready w) (h : handshakeGuest reqno w = .ok w') :
    Quiet w w' := by
  obtain ⟨comm, ok, w₁, _, hf, hw⟩ := handshakeGuest_inv h
  obtain ⟨hscript, hspc, hpf, hcur, hfresh⟩ := rfork_rest hf
  have hsends := sends_tail (hscript ▸ (hr.sends :))
  have hstart : Passed w w₁ fun _ => 0 := (passed_rfork hf).after ⟨rfl, rfl, rfl, rfl⟩
  cases ok with
  | true =>
    have hnew : w.fresh < w₁.fresh := hfresh ▸ Nat.lt_succ_self _
    have hq := handshakeDone_quiet (w := onSpc _ (onSpc spcfreebuf w₁)) rfl (by
      intro l hl
      have hl' : w₁.cur = some l := hl
      rw [hcur] at hl'
      cases hl'
      exact hnew) hsends hw
    have hmid := passed_main hstart (v := onSpc (fun c => { c with mainlwp := w₁.cur })
      (onSpc spcfreebuf w₁)) ⟨rfl, rfl, rfl⟩ hcur hnew
    exact ⟨hmid.trans hq.passed, hq.cur, hq.preforks.trans hpf⟩
  | false =>
    cases hw
    exact ⟨hstart.then ⟨rfl, rfl, rfl, rfl⟩, hcur.trans hr.cur, hpf⟩

/-! ## Frames with a token -/

/-- A prefork was issued, with an lwp made for it. -/
structure Gave (pf : Prefork) (w w' : Server) : Prop where
  passed : Passed w w' fun _ => 0
  cur : w'.cur = none
  preforks : w'.preforks = pf :: w.preforks
  fresh : w.fresh < w'.fresh
  main : w'.spc.mainlwp = w.spc.mainlwp
  unreleased : released w' w.fresh = released w w.fresh

theorem preforkWith_served {reqno : Nat} (hr : Ready w) (h : preforkWith reqno w = .ok w') :
    (∃ auth os, w.script = .rfork true :: .random auth :: os ∧ Gave ⟨auth, w.fresh⟩ w w') ∨
      (∃ os, w.script = .rfork false :: os) ∧ Quiet w w' := by
  obtain ⟨ok, w₁, hf, hw⟩ := preforkWith_inv h
  obtain ⟨hscript, hspc, hpf, hcur, hfresh⟩ := rfork_rest hf
  have hsends := sends_tail (hscript ▸ (hr.sends :))
  have hstart : Passed w w₁ fun _ => 0 := (passed_rfork hf).after ⟨rfl, rfl, rfl, rfl⟩
  have hspc' : w₁.spc = w.spc := hspc
  cases ok with
  | true =>
    obtain ⟨auth, os, l, hrand, hl, hu⟩ := hw
    have hl' : l = w.fresh := Option.some.inj (hl.symm.trans hcur)
    subst hl'
    have hnew : w.fresh < w₁.fresh := hfresh ▸ Nat.lt_succ_self w.fresh
    have hrep := replied_of_map hu
    have hq := hrep.quiet ⟨rfl, fun l hm => by
      have hm' : w.spc.mainlwp = some l := by
        rw [← hspc']
        exact hm
      exact (hr.main l hm').trans_le hstart.fresh, sends_tail (hrand ▸ hsends)⟩
    have hp : Passed w₁ w' fun _ => 0 := hq.passed.after ⟨rfl, rfl, rfl, rfl⟩
    have hnotmain : w₁.spc.mainlwp ≠ some w.fresh := fun hm =>
      absurd (hr.main w.fresh (hspc' ▸ hm)) (Nat.lt_irrefl _)
    have hkept : released w₁ w.fresh = released w w.fresh := by
      obtain ⟨os', _, rfl⟩ := rfork_inv hf
      rfl
    refine .inl ⟨auth, os, hscript.trans (by rw [hrand]), hstart.trans hp, hq.cur, ?_, ?_, ?_, ?_⟩
    · rw [hq.preforks]
      exact congrArg _ hpf
    · exact hnew.trans_le hp.fresh
    · rw [hrep.spc]
      exact congrArg Client.mainlwp hspc'
    · rw [hp.spare w.fresh hnew hnotmain, hkept, Nat.add_zero]
  | false =>
    obtain ⟨u, hu, rfl⟩ := hw
    have hcur' : w₁.cur = w.spc.mainlwp := hcur
    have hrep := replied_of_map hu
    obtain ⟨hp, _⟩ := hrep.passed hsends (by
      rw [hcur', hfresh]
      exact hr.main)
    have hnone : Passed w₁ u fun _ => 0 := hp.congr fun l _ hm => by
      rw [mishap, hcur', ← hspc']
      simp [hm]
    exact .inr ⟨⟨_, hscript⟩, (hstart.trans hnone).then ⟨rfl, rfl, rfl, rfl⟩, rfl,
      hrep.preforks.trans hpf⟩

theorem exhausted_cons {os : List Outcome} :
    exhausted (.rfork false :: os) = true ↔ os.head? = some (.newlwp false) := by
  cases os with
  | nil => simp [exhausted]
  | cons o os =>
    cases o with
    | newlwp ok => cases ok <;> simp [exhausted]
    | _ => simp [exhausted]

/-- How often a fork handshake releases the lwp of the prefork it takes. -/
def dues (cancel : Nat) (os : List Outcome) : Nat := if cancel = 0 ∧ exhausted os then 2 else 1

theorem handshakeForkWith_took {reqno cancel : Nat} {tmp : Lwp} (hl : tmp < w.fresh)
    (hok : w.script.any fatal = false) (h : handshakeForkWith reqno cancel tmp w = .ok w') :
    Passed w w' (fun l => if l = tmp then dues cancel w.script else 0) ∧ w'.cur = none ∧
      w'.preforks = w.preforks := by
  obtain ⟨hc, rfl⟩ | ⟨hc, ok, w₁, hf, hw⟩ := handshakeForkWith_inv h
  · have hp : Passed w (lwprocRelease (some tmp) (lwprocSwitch (some tmp) w)) _ :=
      (passed_release (w := lwprocSwitch (some tmp) w) rfl hl).after ⟨rfl, rfl, rfl, rfl⟩
    have hend : Passed w (onSpc shutdown (lwprocRelease (some tmp) (lwprocSwitch (some tmp) w)))
      _ := hp.then ⟨rfl, rfl, rfl, rfl⟩
    refine ⟨hend.congr fun l _ _ => ?_, rfl, rfl⟩
    simp [dues, hc]
  · obtain ⟨hscript, hspc, hpf, hcur, hfresh⟩ := rfork_rest hf
    have hscript' : w.script = .rfork ok :: w₁.script := hscript
    have hsends := sends_tail (hscript' ▸ hok)
    have hstart : Passed w w₁ fun _ => 0 := (passed_rfork hf).after ⟨rfl, rfl, rfl, rfl⟩
    have hl₁ : tmp < w₁.fresh := hl.trans_le hstart.fresh
    cases ok with
    | true =>
      have hnew : w.fresh < w₁.fresh := hfresh ▸ Nat.lt_succ_self _
      have hmid := passed_main hstart (v := lwprocSwitch (some tmp)
        (onSpc (fun c => { c with mainlwp := w₁.cur }) w₁)) ⟨rfl, rfl, rfl⟩ hcur hnew
      have hrel := hmid.trans (passed_release (m := some tmp) rfl hl₁)
      have hq := handshakeDone_quiet
        (w := lwprocSwitch w₁.cur (lwprocRelease (some tmp) (lwprocSwitch (some tmp)
          (onSpc (fun c => { c with mainlwp := w₁.cur }) w₁)))) rfl (by
        intro l hm
        have hm' : w₁.cur = some l := hm
        rw [hcur] at hm'
        cases hm'
        exact hnew) hsends hw
      have hend := hrel.trans (hq.passed.after ⟨rfl, rfl, rfl, rfl⟩)
      refine ⟨hend.congr fun l _ _ => ?_, hq.cur, hq.preforks.trans hpf⟩
      simp [dues, hscript', exhausted]
    | false =>
      obtain ⟨u, hu, rfl⟩ := hw
      have hcur' : w₁.cur = some tmp := hcur
      have hrep := replied_of_map hu
      obtain ⟨hp, hcu⟩ := hrep.passed hsends (by
        rw [hcur']
        rintro l ⟨⟩
        exact hl₁)
      have hrel := passed_release (w := onSpc shutdown u) (m := some tmp) (hcu.trans hcur')
        (hl₁.trans_le hp.fresh)
      have hend := (hstart.trans hp).trans (hrel.after ⟨rfl, rfl, rfl, rfl⟩)
      refine ⟨hend.congr fun l _ _ => ?_, rfl, hrep.preforks.trans hpf⟩
      by_cases hlt : l = tmp
      · by_cases hh : w₁.script.head? = some (.newlwp false)
        · simp [dues, mishap, hscript', exhausted_cons, hcur', hc, hlt, hh]
        · simp [dues, mishap, hscript', exhausted_cons, hcur', hc, hlt, hh]
      · simp [mishap, hcur', hlt, Ne.symm hlt]

/-- A prefork was taken off the list, and its lwp released. -/
structure Took (pf : Prefork) (w w' : Server) : Prop where
  passed : Passed w w' fun l => if l = pf.lwp then if misfires w then 2 else 1 else 0
  cur : w'.cur = none
  preforks : w'.preforks = w.preforks.erase pf

/-- What a frame does to the preforks and the lwps. -/
inductive Handled (w w' : Server) : Prop
  /-- It has no token, or one that is not outstanding. -/
  | quiet : grants w = none →
      (∀ t, presents w = some t →
        w.preforks.find? (fun pf => pf.auth = t) = none ∧ w'.lwps = w.lwps) →
      Quiet w w' → Handled w w'
  /-- It gets one. -/
  | gave (pf : Prefork) : grants w = some pf → presents w = none → Gave pf w w' → Handled w w'
  /-- It has one that is outstanding. -/
  | took (t : List UInt8) (pf : Prefork) : grants w = none → presents w = some t →
      w.preforks.find? (fun pf => pf.auth = t) = some pf → Took pf w w' → Handled w w'

theorem grants_new (h : w.spc.state = .new) : grants w = none := by
  rw [grants, if_neg]
  rintro ⟨_, hne, _⟩
  exact hne h

theorem presents_running (h : w.spc.state ≠ .new) : presents w = none := by
  rw [presents, if_neg]
  rintro ⟨_, hnew, _⟩
  exact h hnew

theorem grants_other (h : ¬ (w.spc.state ≠ .new ∧ rspType w.spc.hdr = RUMPSP_PREFORK)) :
    grants w = none := by
  rw [grants, if_neg]
  rintro ⟨_, hne, htype, _⟩
  exact h ⟨hne, htype⟩

/-- A frame that neither gets a token nor shows one. -/
theorem Quiet.served (h : Quiet w w') (hg : grants w = none) (hp : presents w = none) :
    Handled w w' := by
  refine .quiet hg (fun t ht => ?_) h
  rw [hp] at ht
  cases ht

/-- A reply from no lwp leaves the lwps as they were. -/
theorem Replied.lwps (h : Replied u v) (hr : Ready u) (hold : ∀ l ∈ u.lwps, l.1 < u.fresh) :
    v.lwps = u.lwps := by
  obtain ⟨ok, os, bs, _, hsent⟩ := h.taken hr.sends
  cases hsent with
  | fine =>
    dsimp only
    rw [List.filter_cons_of_neg (by simp), List.filter_eq_self]
    intro l hl
    simpa using Nat.ne_of_lt (hold l hl)
  | misreleased =>
    dsimp only
    rw [List.filter_eq_self]
    simp [hr.cur]

theorem handshakeFork_served {reqno : Nat} (hr : Ready w) (hold : ∀ l ∈ w.lwps, l.1 < w.fresh)
    (hknown : ∀ pf ∈ w.preforks, pf.lwp < w.fresh) (hclass : rspClass w.spc.hdr = RUMPSP_REQ)
    (hnew : w.spc.state = .new) (htype : rspType w.spc.hdr = RUMPSP_HANDSHAKE)
    (hword : rspWord w.spc.hdr = HANDSHAKE_FORK) (h : handshakeFork reqno w = .ok w') :
    Handled w w' := by
  have hg := grants_new hnew
  obtain ⟨hsize, u, hu, rfl⟩ | ⟨hsize, rfp, hb, hw⟩ := handshakeFork_inv h
  · refine (quiet_refusal (f := fun c => spcfreebuf (shutdown c)) hr hu fun _ => rfl).served hg ?_
    rw [presents, if_neg]
    rintro ⟨_, _, _, _, hsize'⟩
    exact hsize hsize'
  · have hp : presents w = some (rfp.data.slice 0 16) := by
      rw [presents, if_pos ⟨hclass, hnew, htype, hword, hsize⟩, hb]
      rfl
    obtain ⟨hnone, u, hu, rfl⟩ | ⟨pf, hfind, h⟩ := hw
    · have hr' : Ready (onSpc spcfreebuf w) := ⟨hr.cur, hr.main, hr.sends⟩
      have hq := quiet_refusal (f := shutdown) hr' hu fun _ => rfl
      refine .quiet hg ?_ (hq.after (w := w) ⟨rfl, rfl, rfl, rfl⟩ rfl)
      intro t ht
      rw [hp] at ht
      cases ht
      exact ⟨hnone, (replied_of_map hu).lwps hr' hold⟩
    · have hmem := List.mem_of_find?_eq_some hfind
      have hauth : pf.auth = rfp.data.slice 0 16 := by simpa using List.find?_some hfind
      obtain ⟨hpass, hcur, hpf⟩ := handshakeForkWith_took (w := onSpc spcfreebuf
        { w with preforks := w.preforks.erase pf }) (hknown pf hmem) hr.sends h
      have hpass' : Passed w w' _ := hpass.after ⟨rfl, rfl, rfl, rfl⟩
      refine .took _ pf hg hp hfind ⟨hpass'.congr fun l _ _ => ?_, hcur, hpf⟩
      have hany : w.preforks.any (fun pf => pf.auth = rfp.data.slice 0 16) = true :=
        List.any_eq_true.mpr ⟨pf, hmem, by simpa using hauth⟩
      show (if l = pf.lwp then dues (rfp.data.load 16 4) w.script else 0) = _
      simp [dues, misfires, hp, hany, cancels, hb]

theorem prefork_served {reqno : Nat} (hr : Ready w) (hclass : rspClass w.spc.hdr = RUMPSP_REQ)
    (hnew : w.spc.state ≠ .new) (htype : rspType w.spc.hdr = RUMPSP_PREFORK)
    (h : prefork reqno w = .ok w') : Handled w w' := by
  have hp := presents_running hnew
  obtain ⟨hexec, u, hu, rfl⟩ | ⟨hexec, ok, os, hos, hw⟩ := prefork_inv h
  · have hr' : Ready (onSpc spcfreebuf w) := ⟨hr.cur, hr.main, hr.sends⟩
    have hq := quiet_refusal (f := shutdown) hr' hu fun _ => rfl
    refine (hq.after (w := w) ⟨rfl, rfl, rfl, rfl⟩ rfl).served ?_ hp
    rw [grants, if_neg]
    rintro ⟨_, _, _, hexec'⟩
    exact absurd (hexec.symm.trans hexec') (by decide)
  · have hr₁ : Ready { onSpc spcfreebuf w with script := os } :=
      ⟨hr.cur, hr.main, sends_tail (hos ▸ hr.sends)⟩
    cases ok with
    | true =>
      rcases preforkWith_served hr₁ hw with ⟨auth, os', hos', hgave⟩ | ⟨⟨os', hos'⟩, hq⟩
      · have hos'' : os = .rfork true :: .random auth :: os' := hos'
        have hg : grants w = some ⟨auth, w.fresh⟩ := by
          rw [grants, if_pos ⟨hclass, hnew, htype, hexec⟩, hos, hos'']
        exact .gave _ hg hp ⟨hgave.passed.after ⟨rfl, rfl, rfl, rfl⟩, hgave.cur, hgave.preforks,
          hgave.fresh, hgave.main, hgave.unreleased⟩
      · have hos'' : os = .rfork false :: os' := hos'
        refine (hq.after (w := w) ⟨rfl, rfl, rfl, rfl⟩ rfl).served ?_ hp
        rw [grants, if_pos ⟨hclass, hnew, htype, hexec⟩, hos, hos'']
    | false =>
      have hq := (replied_of_map hw).quiet hr₁
      refine (hq.after (w := w) ⟨rfl, rfl, rfl, rfl⟩ rfl).served ?_ hp
      rw [grants, if_pos ⟨hclass, hnew, htype, hexec⟩, hos]

/-- A request, by what it asks for. -/
theorem Handling.handled (hr : Ready w) (hold : ∀ l ∈ w.lwps, l.1 < w.fresh)
    (hknown : ∀ pf ∈ w.preforks, pf.lwp < w.fresh) (hclass : rspClass w.spc.hdr = RUMPSP_REQ)
    (h : Handling w w') : Handled w w' := by
  cases h with
  | stranger hnew hkind hu =>
    refine (quiet_refusal (f := fun c => spcfreebuf (shutdown c)) hr hu fun _ => rfl).served
      (grants_new hnew) ?_
    rw [presents, if_neg]
    rintro ⟨_, _, htype, hword, _⟩
    exact (hkind htype).2 hword
  | guest hnew _ hword h =>
    refine (handshakeGuest_quiet hr h).served (grants_new hnew) ?_
    rw [presents, if_neg]
    rintro ⟨_, _, _, hword', _⟩
    rw [hword] at hword'
    cases hword'
  | fork hnew htype hword h => exact handshakeFork_served hr hold hknown hclass hnew htype hword h
  | prefork hnew htype h => exact prefork_served hr hclass hnew htype h
  | again hnew htype _ hu =>
    refine (quiet_refusal (f := fun c => spcfreebuf (shutdown c)) hr hu fun _ => rfl).served
      (grants_other fun hc => ?_) (presents_running hnew)
    exact absurd (htype.symm.trans hc.2) (by decide)
  | exec hnew htype _ _ h =>
    have hq := schedulework_quiet (w := lwprocSwitch none (Server.note .lwpexit (lwprocSwitch
      w.spc.mainlwp (onSpc (fun c => { c with inexec := true }) w)))) ⟨rfl, hr.main, hr.sends⟩ h
    refine (hq.after (w := w) ⟨rfl, rfl, rfl, rfl⟩ rfl).served (grants_other fun hc => ?_)
      (presents_running hnew)
    exact absurd (htype.symm.trans hc.2) (by decide)
  | malformed hnew hpre _ _ hu =>
    exact (quiet_refusal (f := spcfreebuf) hr hu fun _ => rfl).served
      (grants_other fun hc => hpre hc.2) (presents_running hnew)
  | syscall hnew htype h =>
    refine (schedulework_quiet hr h).served (grants_other fun hc => ?_) (presents_running hnew)
    exact absurd (htype.symm.trans hc.2) (by decide)

/-- Every frame, by what it asks for. -/
theorem dispatch_handled (hr : Ready w) (hold : ∀ l ∈ w.lwps, l.1 < w.fresh)
    (hknown : ∀ pf ∈ w.preforks, pf.lwp < w.fresh) (h : dispatch w = .ok w') : Handled w w' := by
  obtain ⟨hclass, rfl⟩ | ⟨hclass, h⟩ | ⟨hclass, _, u, hu, rfl⟩ := dispatch_inv h
  · obtain ⟨_, _, hmain⟩ := kickwaiter_client w.spc
    have hq : Quiet w (onSpc kickwaiter w) :=
      ⟨Alike.passed ⟨rfl, rfl, hmain, rfl⟩, hr.cur, rfl⟩
    refine hq.served ?_ ?_
    · simp [grants, hclass]
    · simp [presents, hclass]
  · exact h.handled hr hold hknown hclass
  · have hq := quiet_refusal (f := spcfreebuf) hr hu fun _ => rfl
    refine hq.served ?_ ?_
    · simp [grants, hclass]
    · simp [presents, hclass]

end Frankenlibc.Sysproxy

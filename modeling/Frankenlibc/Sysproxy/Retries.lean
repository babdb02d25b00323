import Frankenlibc.Sysproxy.Workers

/-!
# Waiting for memory

`schedulework` tries again as long as `malloc` fails. It means to give up when
there is no worker whose end could free memory, or after more than ten retries;
but nothing counts `retries`, so only the first way out is there. The loop runs
in `spserver`, and its workers run on beside it. One of them may retire in the
meantime, but never the last one, as long as one idle worker is to be kept:
with memory exhausted for good the server thread does not come back.
-/
namespace Frankenlibc.Sysproxy

open Frankenlibc.Lib

/-! ## The loop -/

/-- One round: memory, no memory, or another round. -/
def sbaTry (retries : Int) (malloc : Bool) (nworker : Int) : Option Bool :=
  if malloc then some true
  else if nworker = 0 ∨ retries > 10 then some false
  else none

/-- The allocation loop of `schedulework` from round `i` on, where round `i` gets
`malloc i` and reads `nworker i`. It goes round with `retries` as it is. -/
def sbaLoop (malloc : Nat → Bool) (nworker : Nat → Int) : Nat → Nat → Int → Option Bool
  | 0, _, _ => none
  | fuel + 1, i, retries =>
    (sbaTry retries (malloc i) (nworker i)).or (sbaLoop malloc nworker fuel (i + 1) retries)

/-- What `schedulework` does with the memory. -/
def queued (type : SbaType) (w : Server) : Server :=
  let w := w.note .schedulework
  let sba : Sba := ⟨type, w.spc.hdr, w.spc.buf⟩
  let w := onSpc spcresetbuf w
  let w := onSpc (fun c => { c with refcnt := c.refcnt + 1 }) w
  { w with wrklist := w.wrklist ++ [sba] }

/-- What it does without. -/
def turnedAway (w : Server) : Except Stop Server := do
  let w ← sendErrorResp (rspReqno w.spc.hdr) .tryagain (w.note .schedulework)
  return onSpc spcfreebuf w

/-- `schedulework` on a whole sequence of rounds, as long as the fuel lasts. -/
def scheduleworkWithin (malloc : Nat → Bool) (nworker : Nat → Int) (fuel : Nat) (type : SbaType)
    (w : Server) : Option (Except Stop Server) :=
  (sbaLoop malloc nworker fuel 0 0).map fun ok =>
    if ok then .ok (queued type w) else turnedAway w

section Loop

variable {malloc : Nat → Bool} {nworker : Nat → Int} {retries : Int} {n i : Nat} {ok : Bool}

/-- The last round comes to pass if none before it has ended the loop. -/
theorem sbaLoop_succ : sbaLoop malloc nworker (n + 1) i retries =
    (sbaLoop malloc nworker n i retries).or
      (sbaTry retries (malloc (i + n)) (nworker (i + n))) := by
  induction n generalizing i with
  | zero => simp [sbaLoop]
  | succ n ih =>
    rw [sbaLoop, ih, sbaLoop, Option.or_assoc, Nat.succ_add_eq_add_succ]

theorem sbaLoop_stable {m : Nat} (h : sbaLoop malloc nworker n i retries = some ok) (hm : n ≤ m) :
    sbaLoop malloc nworker m i retries = some ok := by
  induction m, hm using Nat.le_induction with
  | base => exact h
  | succ m _ ih =>
    rw [sbaLoop_succ, ih]
    rfl

theorem sbaLoop_eq_none : sbaLoop malloc nworker n i retries = none ↔
    ∀ j < n, sbaTry retries (malloc (i + j)) (nworker (i + j)) = none := by
  induction n with
  | zero => simp [sbaLoop]
  | succ n ih => rw [sbaLoop_succ, Option.or_eq_none_iff, ih, Nat.forall_lt_succ_right]

/-- Only `retries = 0` ever comes here. -/
theorem sbaTry_eq_none {b : Bool} {k : Int} :
    sbaTry 0 b k = none ↔ ¬(b = true ∨ k = 0) := by
  cases b <;> simp [sbaTry]

end Loop

/-! ## The loop on a script

Elsewhere the results of `malloc` stand in the script of the server thread, and
`nworker` does not change while they are read. -/

theorem schedulework_eq (type : SbaType) (w : Server) :
    schedulework type w = (sbaAlloc w.nworker w.script).bind fun r =>
      if r.1 then .ok (queued type { w with script := r.2 })
      else turnedAway { w with script := r.2 } := by
  simp only [schedulework, Server.note]
  cases sbaAlloc w.nworker w.script with
  | error e => rfl
  | ok r =>
    obtain ⟨ok, os⟩ := r
    cases ok <;> rfl

theorem sbaAlloc_loop {malloc : Nat → Bool} {ok : Bool} {n i k : Nat}
    (h : sbaLoop malloc (fun _ => k) n i 0 = some ok) :
    ∃ m, ∀ os, sbaAlloc k ((List.range' i m).map (fun j => .malloc (malloc j)) ++ os) =
      .ok (ok, os) := by
  induction n generalizing i with
  | zero => cases h
  | succ n ih =>
    rw [sbaLoop] at h
    cases hm : malloc i with
    | true =>
      rw [hm] at h
      cases h
      apply Exists.intro 1
      intro os
      simp [List.range'_succ, hm, sbaAlloc]
    | false =>
      rw [hm] at h
      by_cases hk : k = 0
      · subst hk
        cases h
        apply Exists.intro 1
        intro os
        simp [List.range'_succ, hm, sbaAlloc]
      · have hnone : sbaTry 0 false k = none := sbaTry_eq_none.mpr (by simpa using hk)
        rw [hnone, Option.none_or] at h
        obtain ⟨m, ih⟩ := ih h
        apply Exists.intro (m + 1)
        intro os
        rw [List.range'_succ, List.map_cons, List.cons_append, hm, sbaAlloc, if_neg hk]
        exact ih os

/-- Where the loop ends, `schedulework` does the same on the script of its rounds. -/
theorem schedulework_scripted {malloc : Nat → Bool} {n : Nat} {type : SbaType} {w : Server}
    {r : Except Stop Server}
    (h : scheduleworkWithin malloc (fun _ => w.nworker) n type w = some r) :
    ∃ m, schedulework type { w with
      script := (List.range m).map (fun j => .malloc (malloc j)) ++ w.script } = r := by
  obtain ⟨ok, hloop, rfl⟩ := Option.map_eq_some_iff.mp h
  obtain ⟨m, hm⟩ := sbaAlloc_loop hloop
  apply Exists.intro m
  rw [schedulework_eq, List.range_eq_range', hm]
  rfl

/-! ## The loop beside the workers -/

/-- `spserver` in the loop: the system around it, its `retries`, and how the loop
has ended. -/
structure Stall where
  sys : System
  retries : Int
  out : Option Bool

inductive StallEvent
  | worker (k : Nat)
  /-- `spfini` is set. -/
  | fini
  /-- `spserver` goes through a round. -/
  | round (malloc : Bool)
deriving DecidableEq

/-- What `malloc` returns in the event. -/
def StallEvent.malloc : StallEvent → Option Bool
  | .round b => some b
  | _ => none

namespace Stall

variable {cfg : Config} {s s' q : Stall} {e : StallEvent} {sys : System}
  {tr : List (Stall × StallEvent)}

/-- `spserver` enters the loop. -/
def enter (sys : System) : Stall := ⟨sys, 0, none⟩

def step (cfg : Config) (s : Stall) : StallEvent → Option Stall
  | .worker k => (System.workerStep cfg k s.sys).map fun sys => { s with sys := sys }
  | .fini => some { s with sys := { s.sys with spfini := true } }
  | .round b =>
    if s.out.isSome then none else some { s with out := sbaTry s.retries b s.sys.nworker }

/-- The rounds of a run: what each got from `malloc` and read in `nworker`. -/
def rounds (tr : List (Stall × StallEvent)) : List (Bool × Int) :=
  tr.filterMap fun p => p.2.malloc.map fun b => (b, p.1.sys.nworker)

theorem rounds_snoc : rounds (tr ++ [(s, e)]) =
    rounds tr ++ (e.malloc.map fun b => (b, s.sys.nworker)).toList := by
  rw [rounds, List.filterMap_append]
  cases e <;> rfl

/-- However the workers come in between, `spserver` is where the loop is after
these rounds. -/
theorem run_loop {malloc : Nat → Bool} {nworker : Nat → Int}
    (hr : Run (step cfg) (enter sys) tr q)
    (hin : ∀ i p, (rounds tr)[i]? = some p → malloc i = p.1 ∧ nworker i = p.2) :
    q.out = sbaLoop malloc nworker (rounds tr).length 0 0 ∧ q.retries = 0 := by
  induction hr with
  | nil => exact ⟨rfl, rfl⟩
  | @snoc tr s s' e _ hs ih =>
    have hold : ∀ i p, (rounds tr)[i]? = some p → malloc i = p.1 ∧ nworker i = p.2 := by
      intro i p hi
      apply hin
      rw [rounds_snoc, List.getElem?_append_left (List.getElem?_eq_some_iff.mp hi).1]
      exact hi
    obtain ⟨hout, hretries⟩ := ih hold
    cases e with
    | worker k =>
      obtain ⟨sys', -, rfl⟩ := Option.map_eq_some_iff.mp hs
      rw [rounds_snoc]
      exact ⟨hout.trans (by simp [StallEvent.malloc]), hretries⟩
    | fini =>
      cases hs
      rw [rounds_snoc]
      exact ⟨hout.trans (by simp [StallEvent.malloc]), hretries⟩
    | round b =>
      have hlast : (rounds (tr ++ [(s, .round b)]))[(rounds tr).length]? =
          some (b, s.sys.nworker) := by
        rw [rounds_snoc]
        simp [StallEvent.malloc]
      obtain ⟨hm, hn⟩ := hin _ _ hlast
      simp only [step] at hs
      split at hs
      · cases hs
      · rename_i hopen
        cases hs
        have hnone : s.out = none := by simpa using hopen
        rw [hnone] at hout
        have hlen : (rounds (tr ++ [(s, .round b)])).length = (rounds tr).length + 1 := by
          rw [rounds_snoc]
          simp [StallEvent.malloc]
        apply And.intro _ hretries
        rw [hlen, sbaLoop_succ, ← hout, Nat.zero_add, hm, hn, hretries, Option.none_or]

theorem mem_rounds {p : Bool × Int} (h : p ∈ rounds tr) :
    ∃ s, (s, .round p.1) ∈ tr ∧ s.sys.nworker = p.2 := by
  obtain ⟨⟨s, e⟩, hmem, he⟩ := List.mem_filterMap.mp h
  cases e with
  | round b =>
    cases he
    exact ⟨s, hmem, rfl⟩
  | _ => cases he

/-- While `spserver` is in the loop nobody makes a worker, and somebody stays. -/
theorem step_staff (hidle : 1 ≤ cfg.idleworker) (h : s.sys.Tally ∧ 0 < s.sys.nworker)
    (hs : step cfg s e = some s') : s'.sys.Tally ∧ 0 < s'.sys.nworker := by
  obtain ⟨ht, hpos⟩ := h
  cases e with
  | worker k =>
    obtain ⟨sys', hw, rfl⟩ := Option.map_eq_some_iff.mp hs
    exact ⟨System.worker_tally ht hw, System.worker_staff hidle ht hpos hw⟩
  | fini =>
    cases hs
    exact ⟨ht.aside ⟨rfl, rfl, rfl, rfl, rfl⟩, hpos⟩
  | round b =>
    simp only [step] at hs
    split at hs
    · cases hs
    · cases hs
      exact ⟨ht, hpos⟩

/-- With memory exhausted for good, and a worker there, the loop does not end. -/
theorem run_caught (hidle : 1 ≤ cfg.idleworker) (ht : sys.Tally) (hpos : 0 < sys.nworker)
    (hr : Run (step cfg) (enter sys) tr q) (hg : Guarded (fun _ e => e ≠ .round true) tr) :
    q.out = none := by
  have hin : ∀ (i : Nat) (p : Bool × Int), (rounds tr)[i]? = some p →
      (rounds tr)[i]?.elim false Prod.fst = p.1 ∧ (rounds tr)[i]?.elim 0 Prod.snd = p.2 := by
    intro i p hi
    rw [hi]
    exact ⟨rfl, rfl⟩
  rw [(run_loop hr hin).1, sbaLoop_eq_none]
  intro i hi
  rw [Nat.zero_add, List.getElem?_eq_getElem hi]
  obtain ⟨s, hmem, hn⟩ := mem_rounds (List.getElem_mem hi)
  -- the worker count is that of a state the run has passed through
  obtain ⟨l, hl, -⟩ := hr.reaches_mem hmem
  have hstaff : s.sys.Tally ∧ 0 < s.sys.nworker :=
    Run.always ⟨ht, hpos⟩ (fun _ _ _ h hs => step_staff hidle h hs) hl
  apply sbaTry_eq_none.mpr
  intro hend
  cases hend with
  | inl hm =>
    replace hm : (rounds tr)[i].1 = true := hm
    rw [hm] at hmem
    exact hg _ hmem rfl
  | inr hzero =>
    replace hzero : (rounds tr)[i].2 = 0 := hzero
    omega

end Stall

/-- `schedulework` ends, with its item queued or with an error reply and the
buffer freed, exactly if some round gets memory or finds no worker; the number
of rounds has no part in it. And where a worker is there and one idle worker is to
be kept, `spserver` stays in the loop as long as no round gets memory, whatever
the workers do. -/
theorem schedulework_ends_iff (malloc : Nat → Bool) (nworker : Nat → Int) (type : SbaType)
    (w : Server) :
    ((∃ (n : Nat) (ok : Bool), ∀ m, n ≤ m → scheduleworkWithin malloc nworker m type w =
        some (if ok then .ok (queued type w) else turnedAway w)) ↔
      ∃ i, malloc i = true ∨ nworker i = 0) ∧
    ∀ cfg sock tr s, 1 ≤ cfg.idleworker → Run (System.step cfg) (System.init sock) tr s →
      0 < s.nworker → ∀ tr' q, Run (Stall.step cfg) (.enter s) tr' q →
        Guarded (fun _ e => e ≠ .round true) tr' → q.out = none := by
  apply And.intro
  · constructor
    · intro ⟨n, ok, hend⟩
      by_contra hnone
      have hloop : sbaLoop malloc nworker n 0 0 = none := by
        rw [sbaLoop_eq_none]
        intro i _
        exact sbaTry_eq_none.mpr fun hi => hnone ⟨0 + i, hi⟩
      have hn := hend n le_rfl
      rw [scheduleworkWithin, hloop] at hn
      cases hn
    · intro ⟨i, hi⟩
      cases hloop : sbaLoop malloc nworker (i + 1) 0 0 with
      | none =>
        have hround := sbaLoop_eq_none.mp hloop i (Nat.lt_succ_self i)
        rw [Nat.zero_add] at hround
        exact absurd hi (sbaTry_eq_none.mp hround)
      | some ok =>
        apply Exists.intro (i + 1)
        apply Exists.intro ok
        intro m hm
        rw [scheduleworkWithin, sbaLoop_stable hloop hm]
        rfl
  · intro cfg sock tr s hidle hr hpos tr' q hstall hg
    exact Stall.run_caught hidle (System.run_tally hr) hpos hstall hg

/-- Another system call of the visitor, while the first one waits for its worker. -/
def secondCall (script : List Outcome) : Server :=
  System.received (rspHdr 24 3 0 1 20) none 24 script

/-- The third round gets memory. And a server that has made a worker goes through a
dozen rounds without, beside the worker. -/
theorem schedulework_ends_third :
    (∃ (n : Nat) (ok : Bool), ∀ m, n ≤ m →
      scheduleworkWithin (fun i => i == 2) (fun _ => 1) m .syscall (secondCall []) =
        some (if ok then .ok (queued .syscall (secondCall [])) else turnedAway (secondCall []))) ∧
    ∃ tr s tr' q, Run (System.step ⟨3, 1, 1⟩) (System.init 5) tr s ∧ s.nworker = 1 ∧
      Run (Stall.step ⟨3, 1, 1⟩) (.enter s) tr' q ∧ (Stall.rounds tr').length = 12 ∧
      q.out = none := by
  have hends := schedulework_ends_iff (fun i => i == 2) (fun _ => 1) .syscall (secondCall [])
  apply And.intro (hends.1.mpr ⟨2, .inl rfl⟩)
  obtain ⟨tr, s, hr, hp⟩ := exists_run (f := System.step ⟨3, 1, 1⟩) (s := System.init 5)
    (System.oneVisitor.take 27)
    (p := fun _ s => s.nworker = 1 ∧ (trace (Stall.step ⟨3, 1, 1⟩) (.enter s)
      (List.replicate 6 [.round false, .worker 0, .round false]).flatten).any
        (fun r => Guarded (fun _ e => e ≠ .round true) r.1 ∧ (Stall.rounds r.1).length = 12))
    (by decide)
  rw [decide_eq_true_eq] at hp
  obtain ⟨hone, hp⟩ := hp
  obtain ⟨tr', q, hr', hp⟩ := exists_run (p := fun tr _ => decide
    (Guarded (fun _ e => e ≠ .round true) tr ∧ (Stall.rounds tr).length = 12)) _ hp
  rw [decide_eq_true_eq] at hp
  obtain ⟨hg, hlen⟩ := hp
  have hpos : 0 < s.nworker := by omega
  exact ⟨tr, s, tr', q, hr, hone, hr', hlen,
    hends.2 ⟨3, 1, 1⟩ 5 tr s (by decide) hr hpos tr' q hr' hg⟩

/-- The second system call of a client, when memory is exhausted and the worker
for the first one is there. With memory the frame would be taken; without,
`schedulework` does not return, after however many rounds. -/
theorem schedulework_spins : ∃ tr s, Run (System.step ⟨3, 1, 1⟩) (System.init 5) tr s ∧
    (System.step ⟨3, 1, 1⟩ s (.frame (secondCall [.malloc true]))).isSome = true ∧
    dispatch (System.view (secondCall []) s) =
      schedulework .syscall (System.view (secondCall []) s) ∧
    s.nworker = 1 ∧ ∀ m, scheduleworkWithin (fun _ => false) (fun _ => s.nworker) m .syscall
      (System.view (secondCall []) s) = none := by
  obtain ⟨tr, s, hr, hp⟩ := exists_run (f := System.step ⟨3, 1, 1⟩) (s := System.init 5)
    (System.oneVisitor.take 27)
    (p := fun _ s => (System.step ⟨3, 1, 1⟩ s (.frame (secondCall [.malloc true]))).isSome = true ∧
      (s.slot s.idx).state ≠ .new ∧ s.nworker = 1) (by decide)
  rw [decide_eq_true_eq] at hp
  obtain ⟨htaken, hstate, hone⟩ := hp
  apply Exists.intro tr
  apply Exists.intro s
  apply And.intro hr
  apply And.intro htaken
  constructor
  · have hnew : (System.view (secondCall []) s).spc.state ≠ .new := hstate
    simp only [dispatch, handlereq, if_neg hnew]
    rfl
  · apply And.intro hone
    intro m
    have hloop : sbaLoop (fun _ => false) (fun _ => s.nworker) m 0 0 = none := by
      rw [sbaLoop_eq_none, hone]
      intro i _
      rfl
    rw [scheduleworkWithin, hloop]
    rfl

end Frankenlibc.Sysproxy

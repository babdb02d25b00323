import Frankenlibc.Sysproxy.Errors

/-!
# The name in a handshake

A guest and an exec send a program name, without a 0 at its end. `readframe` has
allocated as many bytes as the frame announces, `rsp_len - HDRSZ`, and none if
that is 0. `handlereq` and `serv_handleexec` then store a 0 at that index: one
past the end of the buffer, or through `NULL`.

The exec's name goes to a worker with the work list. So the machine here has the
server's rounds and the workers, which take items from the list in any order.
The terminators are in the record: the index and the size of the buffer, if there
is one.
-/
namespace Frankenlibc.Sysproxy

open Frankenlibc.Lib

variable {w w' : Server}

def Deed.stored : Deed → Option Store
  | .store x => some x
  | _ => none

/-- The terminators in the record. -/
def stores (w : Server) : List Store := w.deeds.filterMap Deed.stored

/-- The store is inside the buffer. -/
def Store.inside (x : Store) : Bool := x.size.any fun n => x.index < n

/-- `serv_handleexec`, once the worker is the only one left. -/
def servHandleexec (hdr : Bytes) (comm : Option Buf) (w : Server) : Except Stop Server :=
  let w := w.note (.store (terminator hdr comm))
  match comm with
  | none => .error (.crash w.deeds)
  | some _ =>
    let w := lwprocSwitch w.spc.mainlwp w
    -- `lwproc_execnotify` renames the process
    let w := lwprocSwitch none w
    let w := onSpc (fun c => { c with inexec := false }) w
    sendHandshakeResp (rspReqno hdr) 0 w

/-- A round of the server, or a worker with the item it has taken. -/
inductive HouseEvent
  | round (e : Round)
  | work (i : Nat) (script : List Outcome)

/-- `serv_workbouncer` on one item. What a system call does is left out; an exec
waits until the connection and itself hold the only references. -/
def work (i : Nat) (script : List Outcome) (s : Link) : Option Link :=
  match s.srv.wrklist[i]? with
  | none => none
  | some sba =>
    let w := { s.srv with wrklist := s.srv.wrklist.eraseIdx i }
    let release := onSpc fun c => { c with refcnt := c.refcnt - 1 }
    match sba.type with
    | .syscall => some { s with srv := release w }
    | .exec =>
      if w.spc.refcnt ≤ 2 then
        -- the worker has an lwp of its own
        match servHandleexec sba.hdr sba.data { w with cur := none, script := script } with
        | .ok w' => some { s with srv := release { w' with cur := w.cur, script := w.script } }
        | .error (.crash deeds) =>
          some { s with srv := { w with deeds := deeds }, status := .crashed }
        | .error .stuck => none
      else none

def houseStep (s : Link) : HouseEvent → Option Link
  | .round e => serve s e
  | .work i script => if s.status = .crashed then none else work i script s

/-- A connection on which the peer sends any bytes, in any portions. -/
def house (w : Server) (pending : List UInt8) (cuts : List Cut) : Link :=
  ⟨w, ⟨pending, cuts⟩, .up, [], []⟩

/-- A frame with a name: the round has a guest's handshake on a new connection,
or the worker has an exec. -/
def names (s : Link) : HouseEvent → Bool
  | .round e =>
    let r := readframe e.alloc s.srv.spc s.host
    r.1 = .frame ∧ Hello r.2.1
  | .work i _ => s.srv.wrklist[i]?.any fun sba => sba.type = .exec

/-! ## What `readframe` allocates -/

/-- The buffer has the size that the header announces. -/
def Fitted (hdr : Bytes) (data : Option Buf) : Prop :=
  HDRSZ ≤ rspLen hdr ∧ (data = none ∨ ∃ b, data = some b ∧ b.size = rspLen hdr - HDRSZ)

/-- Between two calls of `readframe`. -/
def Awaiting (c : Client) : Prop :=
  (c.off < HDRSZ → c.buf = none) ∧ (HDRSZ ≤ c.off → Fitted c.hdr c.buf)

theorem Filling.fitted {n : Nat} {c c' : Client} {r : Ret} (h : Filling n c r c')
    (hoff : HDRSZ ≤ c.off) (hf : Fitted c.hdr c.buf) :
    HDRSZ ≤ c'.off ∧ Fitted c'.hdr c'.buf := by
  cases h with
  | complete | nothing => exact ⟨hoff, hf⟩
  | data _ hb =>
    refine ⟨Nat.le_trans hoff (Nat.le_add_right _ _), hf.1, .inr ⟨_, rfl, ?_⟩⟩
    rcases hf.2 with hnone | ⟨b', hb', hsize⟩
    · rw [hb] at hnone
      cases hnone
    · rw [hb] at hb'
      cases hb'
      exact hsize

theorem awaiting_of_fitted {c : Client} (h : HDRSZ ≤ c.off ∧ Fitted c.hdr c.buf) : Awaiting c :=
  ⟨fun hlt => absurd hlt (Nat.not_lt.mpr h.1), fun _ => h.2⟩

theorem Intake.fitted {alloc : Bool} {c c' : Client} {r : Ret} (h : Intake alloc c r c')
    (ha : Awaiting c) : (r = .again → Awaiting c') ∧ (r = .frame → Fitted c'.hdr c'.buf) := by
  cases h with
  | idle _ hr => exact ⟨fun _ => ha, fun hx => absurd hx hr⟩
  | head hlt =>
    refine ⟨fun _ => ⟨fun _ => ha.1 (by omega), fun hge => ?_⟩, nofun⟩
    exact absurd hlt (Nat.not_lt.mpr hge)
  | short | nomem => exact ⟨nofun, nofun⟩
  | bare hoff _ hlen => exact ⟨nofun, fun _ => ⟨hlen.ge, .inl (ha.1 hoff)⟩⟩
  | payload _ hfull hlen _ h =>
    have hf := h.fitted hfull ⟨hlen.le, .inr ⟨_, rfl, rfl⟩⟩
    exact ⟨fun _ => awaiting_of_fitted hf, fun _ => hf.2⟩
  | body hoff h =>
    have hf := h.fitted hoff (ha.2 hoff)
    exact ⟨fun _ => awaiting_of_fitted hf, fun _ => hf.2⟩

/-! ## What is stored -/

theorem Acts.stores {l : List Deed} (h : Acts w l) : l.filterMap Deed.stored =
    if Hello w.spc then [terminator w.spc.hdr w.spc.buf] else [] := by
  cases h with
  | nothing hn | fork hn => rw [if_neg hn]; rfl
  | guest hh => rw [if_pos hh]; rfl
  | prefork hold | exec hold | syscall hold => rw [if_neg fun hh => hold hh.2.1]; rfl

theorem dispatch_stores (h : dispatch w = .ok w') : stores w' = stores w ++
    if Hello w.spc then [terminator w.spc.hdr w.spc.buf] else [] := by
  obtain ⟨l, hd, ha⟩ := (dispatch_spec h).acts
  rw [stores, hd, List.filterMap_append, ha.stores, stores]

theorem crash_stores {d : List Deed} (h : dispatch w = .error (.crash d)) :
    stores { w with deeds := d } = stores w ++
      if Hello w.spc then [terminator w.spc.hdr w.spc.buf] else [] := by
  obtain ⟨hb, hhello | ⟨hn, _, rfl⟩⟩ := dispatch_crash h
  · rw [dispatch_hello hhello hb] at h
    cases h
    rw [if_pos hhello, hb, stores, List.filterMap_append]
    rfl
  · rw [if_neg hn, List.append_nil]

theorem terminator_outside {hdr : Bytes} {comm : Option Buf} (h : Fitted hdr comm) :
    (terminator hdr comm).size = none ∨
      (terminator hdr comm).size = some (terminator hdr comm).index := by
  obtain ⟨hlen, rfl | ⟨b, rfl, hsize⟩⟩ := h
  · exact .inl rfl
  · right
    show some b.size = some (sub64 (rspLen hdr) HDRSZ)
    rw [hsize, sub64_of_le hlen (Bytes.load_lt _ _ _)]

/-! ## Runs -/

/-- The terminators of a step are stored outside, and there is one exactly if
there is a name. -/
def Terminates (b : Bool) (w w' : Server) : Prop :=
  ∃ l, stores w' = stores w ++ l ∧ (l = [] ↔ b = false) ∧
    ∀ x ∈ l, x.size = none ∨ x.size = some x.index

theorem terminates_of {b : Bool} {hdr : Bytes} {comm : Option Buf} (hf : b = true → Fitted hdr comm)
    (h : stores w' = stores w ++ if b then [terminator hdr comm] else []) : Terminates b w w' := by
  refine ⟨_, h, by cases b <;> simp, fun x hx => ?_⟩
  cases b with
  | false => cases hx
  | true =>
    rw [List.mem_singleton.mp hx]
    exact terminator_outside (hf rfl)

theorem terminates_not (h : stores w' = stores w) : Terminates false w w' :=
  ⟨[], by rw [h, List.append_nil], by simp, nofun⟩

/-- The receiver's buffer and those on the work list have the size of their
frame. -/
structure Housed (s : Link) : Prop where
  recv : s.status = .up → Awaiting s.srv.spc
  queue : ∀ sba ∈ s.srv.wrklist, Fitted sba.hdr sba.data

theorem Queued.fitted (h : Queued w w') (hq : ∀ sba ∈ w.wrklist, Fitted sba.hdr sba.data)
    (hf : Fitted w.spc.hdr w.spc.buf) : ∀ sba ∈ w'.wrklist, Fitted sba.hdr sba.data := by
  intro sba hsba
  rcases h with hsame | ⟨t, hnew⟩
  · exact hq sba (hsame ▸ hsba)
  · rw [hnew] at hsba
    rcases List.mem_append.mp hsba with hold | hlast
    · exact hq sba hold
    · rw [List.mem_singleton.mp hlast]
      exact hf

theorem serve_housed {s s' : Link} {e : Round} (h : Housed s) (hs : serve s e = some s') :
    Housed s' ∧ Terminates (names s (.round e)) s.srv s'.srv := by
  have hup : s.status = .up := by
    by_contra hx
    unfold serve at hs
    rw [if_neg hx] at hs
    cases hs
  have hread := readframe_inv e.alloc s.srv.spc s.host
  obtain ⟨hagain, hframe⟩ := hread.fitted (h.recv hup)
  unfold serve at hs
  rw [if_pos hup] at hs
  simp only [names]
  generalize readframe e.alloc s.srv.spc s.host = x at hs hagain hframe ⊢
  obtain ⟨r, c, h'⟩ := x
  cases r with
  | again =>
    cases hs
    exact ⟨⟨fun _ => hagain rfl, h.queue⟩, terminates_not rfl⟩
  | fail =>
    cases hs
    exact ⟨⟨nofun, h.queue⟩, terminates_not rfl⟩
  | frame =>
    have hfit : Fitted c.hdr c.buf := hframe rfl
    simp only [true_and] at hs ⊢
    split at hs
    · rename_i w hw
      split at hs
      · cases hs
        have hspec := dispatch_spec hw
        obtain ⟨hoff, hbuf⟩ := hspec.reset
        refine ⟨⟨fun _ => ⟨fun _ => hbuf, fun hge => ?_⟩, ?_⟩, terminates_of (fun _ => hfit) ?_⟩
        · rw [hoff] at hge
          exact absurd hge (by decide)
        · exact hspec.queued.fitted h.queue hfit
        · rw [if_congr decide_eq_true_iff rfl rfl]
          exact (dispatch_stores hw :)
      · cases hs
    · rename_i d hw
      cases hs
      refine ⟨⟨nofun, h.queue⟩, terminates_of (fun _ => hfit) ?_⟩
      rw [if_congr decide_eq_true_iff rfl rfl]
      exact (crash_stores hw :)
    · cases hs

/-- The worker leaves the receiver and the list alone. -/
theorem servHandleexec_keeps {hdr : Bytes} {comm : Option Buf}
    (h : servHandleexec hdr comm w = .ok w') :
    w'.wrklist = w.wrklist ∧ w'.spc = { w.spc with inexec := false } ∧
      w'.deeds = w.deeds ++ [.store (terminator hdr comm)] := by
  unfold servHandleexec at h
  cases comm with
  | none => cases h
  | some b =>
    obtain ⟨v, rfl⟩ := (replied_of_map h).kept
    exact ⟨rfl, rfl, rfl⟩

theorem servHandleexec_crash {hdr : Bytes} {comm : Option Buf} {d : List Deed}
    (h : servHandleexec hdr comm w = .error (.crash d)) :
    d = w.deeds ++ [.store (terminator hdr comm)] := by
  unfold servHandleexec at h
  cases comm with
  | none =>
    cases h
    rfl
  | some b => exact absurd h map_crash

theorem stores_snoc {x : Store} (h : w'.deeds = w.deeds ++ [.store x]) :
    stores w' = stores w ++ if true then [x] else [] := by
  rw [stores, h, List.filterMap_append]
  rfl

theorem work_housed {s s' : Link} {i : Nat} {script : List Outcome} (h : Housed s)
    (hs : work i script s = some s') :
    Housed s' ∧ Terminates (names s (.work i script)) s.srv s'.srv := by
  have hrest : ∀ sba ∈ s.srv.wrklist.eraseIdx i, Fitted sba.hdr sba.data :=
    fun sba hsba => h.queue sba (List.mem_of_mem_eraseIdx hsba)
  unfold work at hs
  split at hs
  · cases hs
  rename_i sba hsba
  have hfit := h.queue sba (List.mem_of_getElem? hsba)
  simp only at hs
  split at hs
  · rename_i htype
    cases hs
    simp only [names, hsba, Option.any_some, htype]
    exact ⟨⟨h.recv, hrest⟩, terminates_not rfl⟩
  rename_i htype
  simp only [names, hsba, Option.any_some, htype]
  split at hs
  swap
  · cases hs
  split at hs
  · rename_i w' hw
    cases hs
    obtain ⟨hlist, hspc, hd⟩ := servHandleexec_keeps hw
    refine ⟨⟨fun hup => ?_, ?_⟩, terminates_of (fun _ => hfit) (stores_snoc hd)⟩
    · have ha := h.recv hup
      show Awaiting { w'.spc with refcnt := w'.spc.refcnt - 1 }
      rw [hspc]
      exact ha
    · show ∀ sba ∈ w'.wrklist, Fitted sba.hdr sba.data
      rw [hlist]
      exact hrest
  · rename_i d hw
    cases hs
    have hd := servHandleexec_crash hw
    exact ⟨⟨nofun, hrest⟩, terminates_of (fun _ => hfit) (stores_snoc hd)⟩
  · cases hs

theorem houseStep_housed {s s' : Link} {e : HouseEvent} (h : Housed s)
    (hs : houseStep s e = some s') : Housed s' ∧ Terminates (names s e) s.srv s'.srv := by
  cases e with
  | round e => exact serve_housed h hs
  | work i script =>
    simp only [houseStep] at hs
    split at hs
    · cases hs
    · exact work_housed h hs

/-- Every terminator of the run is stored outside, and there was none exactly if
there was no name. -/
theorem run_terminates {s₀ s : Link} {tr : List (Link × HouseEvent)} (h₀ : Housed s₀)
    (hd : stores s₀.srv = []) (hr : Run houseStep s₀ tr s) :
    Housed s ∧ (∀ x ∈ stores s.srv, x.size = none ∨ x.size = some x.index) ∧
      (stores s.srv = [] ↔ Guarded (fun s e => names s e = false) tr) := by
  induction hr with
  | nil => exact ⟨h₀, by simp [hd], by simp [hd, Guarded.nil]⟩
  | snoc _ hs ih =>
    obtain ⟨hh, hout, hnil⟩ := ih
    obtain ⟨hh', l, hl, hempty, hout'⟩ := houseStep_housed hh hs
    rw [hl, guarded_snoc, List.append_eq_nil_iff, hnil, hempty]
    exact ⟨hh', fun x hx => (List.mem_append.mp hx).elim (hout x) (hout' x), Iff.rfl⟩

/-- Whatever the peer sends, in whatever portions, with and without memory: a
terminator goes through `NULL` or to the index that is the size of its buffer.
So they are all inside exactly if no frame had a name: no guest has shaken hands
and no worker has had an exec. -/
theorem terminator_inside_iff {pending : List UInt8} {cuts : List Cut}
    {tr : List (Link × HouseEvent)} {s : Link} (hw : Reset w.spc) (hq : w.wrklist = [])
    (hd : w.deeds = []) (hr : Run houseStep (house w pending cuts) tr s) :
    (∀ x ∈ stores s.srv, x.size = none ∨ x.size = some x.index) ∧
      ((∀ x ∈ stores s.srv, x.inside = true) ↔ Guarded (fun s e => names s e = false) tr) := by
  have hinit : Housed (house w pending cuts) := by
    refine ⟨fun _ => ⟨fun _ => hw.2, fun hge => ?_⟩, fun sba hsba => ?_⟩
    · have hoff : w.spc.off = 0 := hw.1
      rw [show (house w pending cuts).srv.spc.off = 0 from hoff] at hge
      exact absurd hge (by decide)
    · rw [show (house w pending cuts).srv.wrklist = [] from hq] at hsba
      cases hsba
  have hnone : stores (house w pending cuts).srv = [] := by
    show w.deeds.filterMap Deed.stored = []
    rw [hd]
    rfl
  obtain ⟨_, hout, hnil⟩ := run_terminates hinit hnone hr
  refine ⟨hout, ?_⟩
  rw [← hnil]
  refine ⟨fun hall => ?_, fun hnil x hx => ?_⟩
  · refine List.eq_nil_iff_forall_not_mem.mpr fun x hx => ?_
    have hin := hall x hx
    unfold Store.inside at hin
    rcases hout x hx with hnone | hsize
    · rw [hnone] at hin
      cases hin
    · rw [hsize] at hin
      simp at hin
  · rw [hnil] at hx
    cases hx

/-- A client that starts with a system call is turned away, and has no name. -/
theorem terminator_inside_stranger : ∃ tr s,
    Run houseStep (house freshServer (stream [syscall20]) [.upto 99]) tr s ∧
    s.got = [syscall20.pair] ∧ ∀ x ∈ stores s.srv, x.inside = true := by
  obtain ⟨tr, s, hr, hp⟩ := exists_run (f := houseStep)
    (s := house freshServer (stream [syscall20]) [.upto 99])
    [.round ⟨true, [.newlwp true, .sent 24]⟩]
    (p := fun tr s => s.got = [syscall20.pair] ∧ Guarded (fun s e => names s e = false) tr)
    (by decide)
  rw [decide_eq_true_eq] at hp
  exact ⟨tr, s, hr, hp.1, (terminator_inside_iff ⟨rfl, rfl⟩ rfl rfl hr).2.mpr hp.2⟩

/-- A guest called `sh` and its exec: both store at index 2 of a buffer of two
bytes. A guest without a name: the store is through `NULL`. -/
theorem terminator_past_end :
    (∃ tr s, Run houseStep (house freshServer (stream [helloSh, execSh])
        [.upto 99, .upto 99, .upto 99, .upto 99]) tr s ∧
      stores s.srv = [⟨2, some 2⟩, ⟨2, some 2⟩] ∧ s.srv.spc.inexec = false) ∧
    ∃ tr s, Run houseStep (house freshServer (stream [helloNobody]) [.upto 99]) tr s ∧
      stores s.srv = [⟨0, none⟩] ∧ s.status = .crashed := by
  constructor
  · obtain ⟨tr, s, hr, hp⟩ := exists_run (f := houseStep)
      (s := house freshServer (stream [helloSh, execSh])
        [.upto 99, .upto 99, .upto 99, .upto 99])
      [.round ⟨true, [.rfork true, .newlwp true, .sent 28]⟩, .round ⟨true, [.malloc true]⟩,
        .work 0 [.newlwp true, .sent 28]]
      (p := fun _ s => stores s.srv = [⟨2, some 2⟩, ⟨2, some 2⟩] ∧ s.srv.spc.inexec = false)
      (by decide)
    rw [decide_eq_true_eq] at hp
    exact ⟨tr, s, hr, hp⟩
  · obtain ⟨tr, s, hr, hp⟩ := exists_run (f := houseStep)
      (s := house freshServer (stream [helloNobody]) [.upto 99]) [.round ⟨true, []⟩]
      (p := fun _ s => stores s.srv = [⟨0, none⟩] ∧ s.status = .crashed) (by decide)
    rw [decide_eq_true_eq] at hp
    exact ⟨tr, s, hr, hp⟩

end Frankenlibc.Sysproxy

import Frankenlibc.Sysproxy.Dispatch

/-!
# Where the bytes of a fork token come from

A token is sixteen bytes. `handlereq` declares an array of that size, hands it
to `rumpuser_getrandom`, and copies it to the list of preforks and into the
reply; neither the result of the call nor the count it stores is looked at. The
`getrandom` of a platform may fail or store fewer bytes than it was asked for.
What it does not store keeps the value the stack had.
-/
namespace Frankenlibc.Sysproxy

open Frankenlibc.Lib

variable {w w' : Server}

/-! ## `getrandom` -/

/-- `__linux_randsrc`. -/
inductive RandSrc
  | rndAt
  | rndGr
  | rndFd
deriving DecidableEq, Repr

/-- What a call to the host for `size` bytes gives: nothing, or at most so
many bytes. -/
abbrev Reading (size : Nat) : Type := Option { bs : List UInt8 // bs.length ≤ size }

/-- Sixteen bytes. -/
abbrev Sixteen : Type := { bs : List UInt8 // bs.length = 16 }

/-- The calls to the host a `getrandom` may make. -/
structure Source where
  read : (size : Nat) → Reading size
  syscall : (size : Nat) → Reading size
  sysctl : Reading 4

/-- The platforms with their state. On Linux that is the source whose turn it
is, the bytes at `__random`, and whether `__platform_random_fd` is a
descriptor. -/
inductive Platform
  | linux (randsrc : RandSrc) (random : Option Sixteen) (fd : Bool)
  /-- FreeBSD and NetBSD. -/
  | bsd
  /-- Darwin, `deterministic`, `qemu-arm` and `spike`. -/
  | bare

/-- `getrandom`: the bytes it has stored, or `none` for -1. -/
def getrandom (p : Platform) (h : Source) (size : Nat) : Option (List UInt8) × Platform :=
  match p with
  | .linux .rndAt random fd =>
    match random with
    | none => (some [], .linux .rndFd random fd)
    | some r => (some (r.1.take (if size > 16 then 16 else size)), .linux .rndFd random fd)
  | .linux .rndFd random fd =>
    if fd then ((h.read size).map Subtype.val, .linux .rndFd random fd)
    else ((h.syscall size).map Subtype.val, .linux .rndGr random fd)
  | .linux .rndGr random fd => ((h.syscall size).map Subtype.val, .linux .rndGr random fd)
  | .bsd =>
    match h.sysctl with
    | none => (none, .bsd)
    | some rand =>
      if rand.1.length ≠ 4 then (none, .bsd)
      else (some (rand.1.take (if size > 4 then 4 else size)), .bsd)
  | .bare => (none, .bare)

/-- `rumpuser_getrandom`: the buffer and `*retp` afterwards. -/
def rumpuserGetrandom (p : Platform) (h : Source) (buf : List UInt8) (buflen : Nat) :
    (List UInt8 × Option Nat) × Platform :=
  let buflen := if buflen > 32 then 32 else buflen
  match getrandom p h buflen with
  | (none, p) => ((buf, none), p)
  | (some bs, p) => ((bs ++ buf.drop bs.length, some bs.length), p)

/-- The source whose turn it is has all sixteen bytes. -/
def fullRead : Platform → Source → Bool
  | .linux .rndAt random _, _ => random.isSome
  | .linux .rndFd _ true, h => (h.read 16).any fun bs => bs.1.length = 16
  | .linux .rndFd _ false, h => (h.syscall 16).any fun bs => bs.1.length = 16
  | .linux .rndGr _ _, h => (h.syscall 16).any fun bs => bs.1.length = 16
  | .bsd, _ => false
  | .bare, _ => false

theorem reading_full {size n : Nat} {r : Reading size} :
    (r.any fun bs => decide (bs.1.length = n)) = true ↔
      ∃ bs, r.map Subtype.val = some bs ∧ bs.length = n := by
  cases r with
  | none => simp
  | some bs => simp

theorem fullRead_iff {p : Platform} {h : Source} :
    fullRead p h = true ↔ ∃ bs, (getrandom p h 16).1 = some bs ∧ bs.length = 16 := by
  cases p with
  | linux randsrc random fd =>
    cases randsrc with
    | rndAt =>
      cases random with
      | none => simp [fullRead, getrandom]
      | some r => simp [fullRead, getrandom, r.2]
    | rndGr => exact reading_full
    | rndFd =>
      cases fd with
      | true => exact reading_full
      | false => exact reading_full
  | bsd =>
    cases hs : h.sysctl with
    | none => simp [fullRead, getrandom, hs]
    | some rand =>
      by_cases hl : rand.1.length = 4
      · simp [fullRead, getrandom, hs, hl]
      · simp [fullRead, getrandom, hs, hl]
  | bare => simp [fullRead, getrandom]

/-- All bytes of a token are from the call. -/
def Produced (r : Option (List UInt8)) (auth : List UInt8) : Prop :=
  r = some auth ∧ auth.length = 16

/-- What `rumpuser_getrandom` leaves in the array is a token exactly if the
source had all of it. -/
theorem produced_iff {p : Platform} {h : Source} {stack : Sixteen} :
    Produced (getrandom p h 16).1 (rumpuserGetrandom p h stack.1 16).1.1 ↔
      fullRead p h = true := by
  rw [fullRead_iff]
  have harr : rumpuserGetrandom p h stack.1 16 = match getrandom p h 16 with
      | (none, p) => ((stack.1, none), p)
      | (some bs, p) => ((bs ++ stack.1.drop bs.length, some bs.length), p) := rfl
  rw [harr]
  generalize getrandom p h 16 = g
  obtain ⟨r, p'⟩ := g
  cases r with
  | none => simp [Produced]
  | some bs =>
    constructor
    · rintro ⟨hr, hlen⟩
      rw [← Option.some.inj hr] at hlen
      exact ⟨bs, rfl, hlen⟩
    · rintro ⟨bs', hr, hlen⟩
      cases hr
      have hnone : stack.1.drop bs.length = [] := by
        rw [List.drop_eq_nil_iff, stack.2, hlen]
      simp only [hnone, List.append_nil]
      exact ⟨rfl, hlen⟩

/-! ## The request -/

/-- The host was offered `m` and took some of it. -/
def Told (m : List UInt8) (w w' : Server) : Prop := ∃ bs, bs <+: m ∧ w'.wire = w.wire ++ bs

/-- No token: the list is as before, and the answer is an error. -/
def Refused (reqno : Nat) (w w' : Server) : Prop :=
  w'.preforks = w.preforks ∧
    ∃ e : RspErr, Told (rspHdr HDRSZ reqno RUMPSP_ERROR 0 e.code) w w'

/-- The token is on the list, and it is what the answer carries. -/
def Granted (reqno : Nat) (auth : List UInt8) (w w' : Server) : Prop :=
  (∃ l, w'.preforks = ⟨auth, l⟩ :: w.preforks) ∧
    Told (rspHdr (HDRSZ + 16) reqno RUMPSP_RESP RUMPSP_PREFORK 0 ++ auth) w w'

/-- The request gets as far as `rumpuser_getrandom`: the client is not in an
exec, and there are memory and a new process. -/
def Forks (w : Server) : Prop :=
  w.spc.inexec = false ∧ ∃ os, w.script = .malloc true :: .rfork true :: os

theorem told_of_map {iov : List (List UInt8)} (h : (dosend iov w).map Prod.snd = .ok w') :
    Told iov.flatten w w' := by
  obtain ⟨⟨r, u⟩, hd, rfl⟩ := map_ok_iff.mp h
  obtain ⟨ok, hs, bs, _, hpre, hsent⟩ := dosend_sent hd
  exact ⟨bs, hpre.1, hsent.wire⟩

theorem refused_of_error {reqno : Nat} {e : RspErr} (h : sendErrorResp reqno e w = .ok w') :
    Refused reqno w w' := by
  have htold := told_of_map h
  simp only [List.flatten_cons, List.flatten_nil, List.append_nil] at htold
  exact ⟨(replied_of_map h).preforks, e, htold⟩

theorem preforkWith_cases {reqno : Nat} (h : preforkWith reqno w = .ok w') :
    (∃ auth os, w.script = .rfork true :: .random auth :: os ∧ Granted reqno auth w w') ∨
      (∃ os, w.script = .rfork false :: os) ∧ Refused reqno w w' := by
  obtain ⟨ok, w₁, hf, hw⟩ := preforkWith_inv h
  obtain ⟨os, hos, rfl⟩ := rfork_inv hf
  cases ok with
  | true =>
    obtain ⟨auth, os', l, hscript, _, hu⟩ := hw
    have hos' : os = .random auth :: os' := hscript
    have htold := told_of_map hu
    simp only [List.flatten_cons, List.flatten_nil, List.append_nil] at htold
    exact .inl ⟨auth, os', by rw [← hos']; exact hos, ⟨l, (replied_of_map hu).preforks⟩, htold⟩
  | false =>
    obtain ⟨u, hu, rfl⟩ := hw
    exact .inr ⟨⟨os, hos⟩, (refused_of_error hu :)⟩

theorem prefork_cases {reqno : Nat} (h : prefork reqno w = .ok w') :
    (Forks w ∧ ∃ auth, .random auth ∈ w.script ∧ Granted reqno auth w w') ∨
      ¬ Forks w ∧ Refused reqno w w' := by
  obtain ⟨hexec, u, hu, rfl⟩ | ⟨hexec, ok, os, hos, hw⟩ := prefork_inv h
  · refine .inr ⟨fun hf => ?_, (refused_of_error hu :)⟩
    exact absurd (hexec.symm.trans hf.1) (by decide)
  · cases ok with
    | true =>
      rcases preforkWith_cases hw with ⟨auth, os', hos', hg⟩ | ⟨⟨os', hos'⟩, hr⟩
      · have hall : w.script = .malloc true :: .rfork true :: .random auth :: os' := by
          rw [hos]
          exact congrArg _ hos'
        exact .inl ⟨⟨hexec, _, hall⟩, auth, by rw [hall]; simp, hg⟩
      · have hall : w.script = .malloc true :: .rfork false :: os' := by
          rw [hos]
          exact congrArg _ hos'
        refine .inr ⟨?_, hr⟩
        rintro ⟨_, os'', hfork⟩
        rw [hall] at hfork
        cases hfork
    | false =>
      refine .inr ⟨?_, (refused_of_error hw :)⟩
      rintro ⟨_, os'', hfork⟩
      rw [hos] at hfork
      cases hfork

/-- Where the script says what is in the array, it says what
`rumpuser_getrandom` leaves there. -/
def Drawn (p : Platform) (h : Source) (stack : Sixteen) (w : Server) : Prop :=
  ∀ auth, .random auth ∈ w.script → auth = (rumpuserGetrandom p h stack.1 16).1.1

/-- A request for a token is refused, or granted with sixteen bytes that this
call of `getrandom` has produced, exactly if the source in turn has sixteen
bytes whenever the request gets as far as to ask it. -/
theorem fork_token_iff {p : Platform} {h : Source} {stack : Sixteen} (hstate : w.spc.state ≠ .new)
    (htype : rspType w.spc.hdr = RUMPSP_PREFORK) (hdrawn : Drawn p h stack w)
    (hrun : handlereq w = .ok w') :
    (Refused (rspReqno w.spc.hdr) w w' ∨ ∃ auth, Granted (rspReqno w.spc.hdr) auth w w' ∧
      Produced (getrandom p h 16).1 auth) ↔ (Forks w → fullRead p h = true) := by
  have hpre : prefork (rspReqno w.spc.hdr) w = .ok w' := by
    unfold handlereq at hrun
    simpa only [if_neg hstate, if_pos htype] using hrun
  rcases prefork_cases hpre with ⟨hforks, auth, hmem, hgrant⟩ | ⟨hnot, href⟩
  · have hauth := hdrawn auth hmem
    obtain ⟨l, hl⟩ := hgrant.1
    constructor
    · rintro (href | ⟨auth', ⟨⟨l', hl'⟩, _⟩, hprod⟩) _
      · rw [href.1] at hl
        exact absurd hl.symm (List.cons_ne_self _ _)
      · rw [hl] at hl'
        cases hl'
        rw [hauth] at hprod
        exact produced_iff.mp hprod
    · intro hfull
      refine .inr ⟨auth, hgrant, ?_⟩
      rw [hauth]
      exact produced_iff.mpr (hfull hforks)
  · exact ⟨fun _ hforks => absurd hforks hnot, fun _ => .inl href⟩

/-- A running client that asks for a token, and finds `auth` in the array. -/
def asking (auth : List UInt8) : Server :=
  { freshServer with
    spc := { freshServer.spc with
      state := .running
      hdr := Bytes.ofList (rspHdr 24 7 RUMPSP_REQ RUMPSP_PREFORK 0) }
    script := [.malloc true, .rfork true, .random auth, .newlwp true, .sent 40] }

/-- A host on which every call for random bytes fails, but for `sysctl`. -/
def quietHost : Source := ⟨fun _ => none, fun _ => none, some ⟨[1, 2, 3, 4], by decide⟩⟩

theorem drawn_asking {p : Platform} {stack : Sixteen} {auth : List UInt8}
    (h : (rumpuserGetrandom p quietHost stack.1 16).1.1 = auth) :
    Drawn p quietHost stack (asking auth) := by
  intro auth' hmem
  simp only [asking, List.mem_cons, List.not_mem_nil, or_false, reduceCtorEq, false_or,
    Outcome.random.injEq] at hmem
  rw [hmem, h]

/-- The first token on Linux: the bytes the kernel has passed. -/
theorem fork_token_iff_first : ∃ w', handlereq (asking (List.replicate 16 7)) = .ok w' ∧
    (Refused 7 (asking (List.replicate 16 7)) w' ∨
      ∃ auth, Granted 7 auth (asking (List.replicate 16 7)) w' ∧
        Produced (getrandom (.linux .rndAt (some ⟨List.replicate 16 7, rfl⟩) false)
          quietHost 16).1 auth) := by
  obtain ⟨w', h⟩ : ∃ w', handlereq (asking (List.replicate 16 7)) = .ok w' := ⟨_, rfl⟩
  have hd : Drawn (.linux .rndAt (some ⟨List.replicate 16 7, rfl⟩) false) quietHost
      ⟨List.replicate 16 0, rfl⟩ (asking (List.replicate 16 7)) := drawn_asking rfl
  exact ⟨w', h, (fork_token_iff (by decide) (by decide) hd h).mpr fun _ => rfl⟩

/-- On FreeBSD four bytes of the token are produced, and twelve are what was on
the stack. -/
theorem fork_token_stack : ∃ w',
    Drawn .bsd quietHost ⟨List.replicate 16 9, rfl⟩
      (asking ([1, 2, 3, 4] ++ List.replicate 12 9)) ∧
    handlereq (asking ([1, 2, 3, 4] ++ List.replicate 12 9)) = .ok w' ∧
    w'.preforks = [⟨[1, 2, 3, 4] ++ List.replicate 12 9, 2⟩] ∧
    w'.wire.drop 24 = [1, 2, 3, 4] ++ List.replicate 12 9 ∧
    ¬ (Refused 7 (asking ([1, 2, 3, 4] ++ List.replicate 12 9)) w' ∨
      ∃ auth, Granted 7 auth (asking ([1, 2, 3, 4] ++ List.replicate 12 9)) w' ∧
        Produced (getrandom .bsd quietHost 16).1 auth) := by
  refine ⟨_, drawn_asking rfl, rfl, rfl, by decide, ?_⟩
  rintro (⟨hsame, _⟩ | ⟨auth, _, hsome, hlen⟩)
  · cases hsame
  · have hauth : auth = [1, 2, 3, 4] := (Option.some.inj hsome).symm
    rw [hauth] at hlen
    cases hlen

end Frankenlibc.Sysproxy

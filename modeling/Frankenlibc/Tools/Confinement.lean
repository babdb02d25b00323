import Frankenlibc.Tools.Sandbox

/-!
# What the sandbox confines

The kernel as far as the sandbox is about it: a process holds descriptors, a
system call has effects, and a call that the loaded filter does not admit kills
the process. The start is the moment behind `seccomp_load`; the call that
executes the program is the first to pass the filter.

The kernel takes a descriptor, a command or a signal from the low half of an
argument, while a filter compares the whole of it.
-/
namespace Frankenlibc.Tools.Sandbox

open Frankenlibc.Lib

/-! ## The kernel -/

/-- What a system call does to the world outside of the process's own memory. -/
inductive Effect
  | reads (fd : Nat)
  | writes (fd : Nat)
  | flushes (fd : Nat)
  | inspects (fd : Nat)
  | names (fd : Nat)
  | controls (fd : Nat) (request : Nat)
  | configures (fd : Nat) (cmd : Nat)
  | seeks (fd : Nat)
  | maps (fd : Nat)
  | closes (fd : Nat)
  | opens
  | executable
  | signals (pid sig : Nat)
  | thread (code : Nat)
  | executes (fd : Nat)
  | executesPath
  | unknown (n : Nat)
deriving DecidableEq, Repr

/-- An `int` in the register of an argument. -/
def low (v : UInt64) : Nat := v.toNat % 4294967296

/-- A call with arguments; the other registers hold what they held. -/
def syscall (junk : Fin 6 → UInt64) (no : Sysno) (args : List UInt64) : Trap Sysno :=
  ⟨no, fun i => args.getD i (junk i)⟩

abbrev MAP_ANONYMOUS : UInt64 := 0x20

/-- The effects of `mmap` on a file and of both calls on page protection. -/
def mapped (c : Trap Sysno) : List Effect :=
  if c.arg A3 &&& MAP_ANONYMOUS = 0 then [.maps (low (c.arg A4))] else []

def protection (c : Trap Sysno) : List Effect :=
  if c.arg A2 &&& PROT_EXEC = 0 then [] else [.executable]

def effects (c : Trap Sysno) : List Effect :=
  match c.no with
  | .read | .pread64 | .readv | .preadv => [.reads (low (c.arg A0))]
  | .write | .pwrite64 | .writev | .pwritev => [.writes (low (c.arg A0))]
  | .fsync => [.flushes (low (c.arg A0))]
  | .fstat => [.inspects (low (c.arg A0))]
  | .getsockname => [.names (low (c.arg A0))]
  | .ioctl => [.controls (low (c.arg A0)) (low (c.arg A1))]
  | .fcntl =>
    if low (c.arg A1) = F_GETFL.toNat then [.inspects (low (c.arg A0))]
    else [.configures (low (c.arg A0)) (low (c.arg A1))]
  | .lseek => [.seeks (low (c.arg A0))]
  | .close => [.closes (low (c.arg A0))]
  | .open | .socket | .dup => [.opens]
  | .mmap => mapped c ++ protection c
  | .mprotect => protection c
  | .kill => [.signals (low (c.arg A0)) (low (c.arg A1))]
  | .archPrctl => [.thread (low (c.arg A0))]
  | .execve => [.executesPath]
  | .execveat => [.executes (low (c.arg A0))]
  | .other n => [.unknown n]
  | .exit | .exitGroup | .clockGettime | .clockGetres | .clockNanosleep | .getrandom | .munmap
  | .ppoll | .poll => []

/-- The descriptor an effect needs. -/
def Effect.fd? : Effect → Option Nat
  | .reads fd | .writes fd | .flushes fd | .inspects fd | .names fd | .controls fd _
  | .configures fd _ | .seeks fd | .maps fd | .closes fd | .executes fd => some fd
  | _ => none

structure Process where
  fds : Nat → Option File
  done : List Effect
  alive : Bool

/-- A descriptor that is not open is `EBADF`, and nothing happens. -/
def Process.can (p : Process) (x : Effect) : Bool :=
  match x.fd? with
  | some fd => (p.fds fd).isSome
  | none => true

/-- A system call, whether it succeeds, and the descriptor and file it makes if
it is one that does. -/
structure Move where
  trap : Trap Sysno
  succeeds : Bool
  fd : Nat
  file : File

/-- What an effect does to the descriptors. -/
def Effect.apply (m : Move) (fds : Nat → Option File) : Effect → Nat → Option File
  | .opens => Function.update fds m.fd (some m.file)
  | .closes fd => Function.update fds fd none
  | .executes _ | .executesPath => fun n => (fds n).filter (fun f => !f.cloexec)
  | _ => fds

/-- What a call does that the filter lets through. -/
def Process.happens (p : Process) (m : Move) : List Effect :=
  if m.succeeds then (effects m.trap).filter p.can else []

def Process.perform (p : Process) (m : Move) : Process where
  fds := (p.happens m).foldl (Effect.apply m) p.fds
  done := p.done ++ p.happens m
  alive := !(m.trap.no = .exit ∨ m.trap.no = .exitGroup)

def step (rules : List (Rule Sysno)) (p : Process) (m : Move) : Option Process :=
  if p.alive then
    if Admitted rules m.trap then some (p.perform m) else some { p with alive := false }
  else none

def start (t : Table) : Process where
  fds := t.file
  done := []
  alive := true

/-! ## What is granted -/

/-- The table `main` counts: its numbers are of type `int`, and with `execveat`
the program has been opened with `O_CLOEXEC`. -/
structure Ready (build : Build) (t : Table) : Prop where
  size : t.length < 4294967296
  opened : ∀ pfd e a v, build = .execveat pfd e a v → ∃ f, t.file pfd = some f ∧ f.cloexec = true

/-- The files in front of the first free descriptor: those `filter_fd` is called for. -/
def Table.granted (t : Table) (fd : Nat) : Option File := if fd < t.nfds then t.file fd else none

/-- What a program in the sandbox may do. -/
def Granted (build : Build) (nx : Bool) (t : Table) : Effect → Prop
  | .reads fd => ∃ f, t.granted fd = some f ∧ f.readable = true
  | .writes fd => ∃ f, t.granted fd = some f ∧ f.writable = true
  | .flushes fd => ∃ f, t.granted fd = some f
  | .inspects fd => ∃ f, t.file fd = some f
  | .names fd => ∃ f, t.granted fd = some f ∧ f.type = .sock
  | .controls fd request =>
    ∃ f, t.granted fd = some f ∧ ∃ v ∈ f.type.requests, request = v.toNat
  | .executable => nx = false
  | .signals pid sig => pid = 0 ∧ sig = SIGABRT.toNat
  | .thread code => code = ARCH_SET_FS.toNat
  | .executes fd => ∃ e a v, build = .execveat fd e a v
  | .executesPath => build = .execve
  | .configures _ _ | .seeks _ | .maps _ | .closes _ | .opens | .unknown _ => False

/-! ## The policy grants nothing else -/

section Policy

variable {build : Build} {nx : Bool} {t : Table} {c : Trap Sysno} {x : Effect}

theorem low_ofNat {n : Nat} (hn : n < 4294967296) : low (UInt64.ofNat n) = n := by
  have hlt : n < 18446744073709551616 := by omega
  rw [low, UInt64.toNat_ofNat', Nat.mod_eq_of_lt hlt, Nat.mod_eq_of_lt hn]

theorem fdRule_admits {no : Sysno} {fd : Nat} :
    (fdRule no fd).Admits c ↔ c.no = no ∧ c.arg A0 = UInt64.ofNat fd := by
  simp [fdRule, Rule.Admits, Test.holds, eq_comm]

theorem fdRule2_admits {no : Sysno} {fd : Nat} {v : UInt64} :
    (fdRule2 no fd v).Admits c ↔ c.no = no ∧ c.arg A0 = UInt64.ofNat fd ∧ c.arg A1 = v := by
  simp [fdRule2, Rule.Admits, Test.holds, eq_comm]

/-- A rule that is checked is loaded. -/
theorem admitted_of_policy {script : List Int} {rules : List (Rule Sysno)} {r : Rule Sysno}
    (hload : lockDown build nx t script = .ok rules) (hr : r ∈ policy build nx t)
    (hsure : r.no.positioned = false) (ha : r.Admits c) : Admitted rules c :=
  ⟨r, (lockDown_added hload).2 r hr hsure, ha⟩

theorem mem_policy_of_granted {fd : Nat} {f : File} {r : Rule Sysno} (hf : t.granted fd = some f)
    (hr : r ∈ fdRules fd f) : r ∈ policy build nx t := by
  unfold Table.granted at hf
  split at hf
  · rename_i hlt
    have hrules : r ∈ t.rules := by
      apply List.mem_flatMap.mpr
      refine ⟨fd, List.mem_range.mpr hlt, ?_⟩
      rw [hf]
      exact hr
    simp [policy, hrules]
  · cases hf

/-- The granted descriptors are those with nothing free in front of them. -/
theorem Table.granted_of_dense {fd : Nat} (h : ∀ k ≤ fd, (t.file k).isSome = true) :
    t.granted fd = t.file fd := by
  rw [Table.granted, if_pos (Table.lt_nfds_iff.mpr h)]

/-- The calls a table's rules admit are those of one granted file. -/
theorem admitted_rules (h : Admitted t.rules c) :
    ∃ fd f, t.granted fd = some f ∧ Admitted (fdRules fd f) c := by
  obtain ⟨fd, hfd, ha⟩ := admitted_flatMap.mp h
  cases hf : t.file fd with
  | none =>
    rw [hf] at ha
    obtain ⟨r, hr, _⟩ := ha
    cases hr
  | some f =>
    rw [hf] at ha
    exact ⟨fd, f, by rw [Table.granted, if_pos (List.mem_range.mp hfd), hf], ha⟩

theorem Table.lt_of_granted {fd : Nat} {f : File} (h : t.granted fd = some f) :
    fd < t.length ∧ t.file fd = some f := by
  unfold Table.granted at h
  split at h
  · rename_i hlt
    have hle : t.nfds ≤ t.length := (List.takeWhile_prefix _).length_le
    exact ⟨by omega, h⟩
  · cases h

theorem fdRules_grant (ht : t.length < 4294967296) {fd : Nat} {f : File} (hf : t.granted fd = some f)
    (h : Admitted (fdRules fd f) c) (hx : x ∈ effects c) : Granted build nx t x := by
  obtain ⟨hlt, hfile⟩ := Table.lt_of_granted hf
  have hlow := low_ofNat (Nat.lt_trans hlt ht)
  obtain ⟨r, hr, ha⟩ := h
  rcases mem_fdRules.mp hr with ⟨hm, no, hno, rfl⟩ | ⟨hm, no, hno, rfl⟩ | rfl | rfl |
    ⟨v, hv, rfl⟩ | ⟨hm, rfl⟩
  · obtain ⟨hc, h0⟩ := fdRule_admits.mp ha
    have hxe : x = .reads fd := by
      simp only [readCalls, List.mem_cons, List.not_mem_nil, or_false] at hno
      rcases hno with rfl | rfl | rfl | rfl <;> simpa [effects, hc, h0, hlow] using hx
    rw [hxe]
    exact ⟨f, hf, hm⟩
  · obtain ⟨hc, h0⟩ := fdRule_admits.mp ha
    have hxe : x = .writes fd := by
      simp only [writeCalls, List.mem_cons, List.not_mem_nil, or_false] at hno
      rcases hno with rfl | rfl | rfl | rfl <;> simpa [effects, hc, h0, hlow] using hx
    rw [hxe]
    exact ⟨f, hf, hm⟩
  · obtain ⟨hc, h0⟩ := fdRule_admits.mp ha
    have hxe : x = .flushes fd := by simpa [effects, hc, h0, hlow] using hx
    rw [hxe]
    exact ⟨f, hf⟩
  · obtain ⟨hc, h0, h1⟩ := fdRule2_admits.mp ha
    have hcmd : low F_GETFL = F_GETFL.toNat := rfl
    have hxe : x = .inspects fd := by simpa [effects, hc, h0, h1, hlow, hcmd] using hx
    rw [hxe]
    exact ⟨f, hfile⟩
  · obtain ⟨hc, h0, h1⟩ := fdRule2_admits.mp ha
    have hreq : low v = v.toNat := by
      cases hty : f.type <;> rw [hty] at hv <;>
        simp only [FileType.requests, List.mem_cons, List.not_mem_nil, or_false] at hv <;>
        rcases hv with rfl | rfl | rfl <;> rfl
    have hxe : x = .controls fd v.toNat := by simpa [effects, hc, h0, h1, hlow, hreq] using hx
    rw [hxe]
    exact ⟨f, hf, v, hv, rfl⟩
  · obtain ⟨hc, h0⟩ := fdRule_admits.mp ha
    have hxe : x = .names fd := by simpa [effects, hc, h0, hlow] using hx
    rw [hxe]
    exact ⟨f, hf, hm⟩

theorem Table.lt_of_file {fd : Nat} {f : File} (h : t.file fd = some f) : fd < t.length := by
  by_contra hge
  rw [Table.file, List.getD_eq_getElem?_getD, List.getElem?_eq_none (by omega)] at h
  cases h

/-- What is held is what was handed over. -/
def Held (t : Table) (p : Process) : Prop := ∀ fd f, p.fds fd = some f → t.file fd = some f

theorem Held.of_can {p : Process} (hp : Held t p) {fd : Nat} (hfd : x.fd? = some fd)
    (hcan : p.can x = true) : ∃ f, p.fds fd = some f ∧ t.file fd = some f := by
  unfold Process.can at hcan
  rw [hfd] at hcan
  obtain ⟨f, hf⟩ := Option.isSome_iff_exists.mp hcan
  exact ⟨f, hf, hp fd f hf⟩

theorem protection_granted (hno : nx = true → c.arg A2 &&& PROT_EXEC = 0)
    (hx : x ∈ protection c) : Granted build nx t x := by
  unfold protection at hx
  split at hx
  · cases hx
  · rename_i hexec
    rw [List.mem_singleton.mp hx]
    cases nx with
    | false => rfl
    | true => exact absurd (hno rfl) hexec

theorem initRules_grant (ht : t.length < 4294967296) {p : Process} (hp : Held t p)
    (h : Admitted (initRules nx) c) (hx : x ∈ effects c) (hcan : p.can x = true) :
    Granted build nx t x := by
  obtain ⟨r, hr, hno, htests⟩ := h
  simp only [initRules, List.mem_cons, List.not_mem_nil, or_false] at hr
  rcases hr with rfl | rfl | rfl | rfl | rfl | rfl | rfl | rfl | hr | hr | rfl | rfl | rfl
  · have h0 : c.arg A0 = ARCH_SET_FS := by simpa [Test.holds] using htests
    have hxe : x = .thread (low ARCH_SET_FS) := by simpa [effects, ← hno, h0] using hx
    rw [hxe]
    rfl
  · simp [effects, ← hno] at hx
  · simp [effects, ← hno] at hx
  · simp [effects, ← hno] at hx
  · simp [effects, ← hno] at hx
  · simp [effects, ← hno] at hx
  · simp [effects, ← hno] at hx
  · have hargs : c.arg A0 = 0 ∧ c.arg A1 = SIGABRT := by simpa [Test.holds] using htests
    have hxe : x = .signals (low 0) (low SIGABRT) := by
      simpa [effects, ← hno, hargs.1, hargs.2] using hx
    rw [hxe]
    exact ⟨rfl, rfl⟩
  · have hc : c.no = .mmap := by
      rw [← hno, hr]
      cases nx <;> rfl
    have h4 : c.arg A4 = minusOne := by
      rw [hr] at htests
      cases nx <;> simp_all [Test.holds]
    have h2 : nx = true → c.arg A2 &&& PROT_EXEC = 0 := by
      rintro rfl
      rw [hr] at htests
      simp_all [Test.holds]
    rw [effects, hc] at hx
    rcases List.mem_append.mp hx with hx | hx
    · -- without `MAP_ANONYMOUS` the call needs a descriptor that no table has
      unfold mapped at hx
      split at hx
      · rw [List.mem_singleton.mp hx, h4] at hcan
        obtain ⟨f, _, hfile⟩ := hp.of_can rfl hcan
        have hlt := Table.lt_of_file hfile
        have hlow : low minusOne = 4294967295 := rfl
        omega
      · cases hx
    · exact protection_granted h2 hx
  · have hc : c.no = .mprotect := by
      rw [← hno, hr]
      cases nx <;> rfl
    have h2 : nx = true → c.arg A2 &&& PROT_EXEC = 0 := by
      rintro rfl
      rw [hr] at htests
      simp_all [Test.holds]
    rw [effects, hc] at hx
    exact protection_granted h2 hx
  · simp [effects, ← hno] at hx
  · have hxe : x = .inspects (low (c.arg A0)) := by simpa [effects, ← hno] using hx
    rw [hxe] at hcan ⊢
    obtain ⟨f, _, hfile⟩ := hp.of_can rfl hcan
    exact ⟨f, hfile⟩
  · simp [effects, ← hno] at hx

theorem build_grants (hb : Ready build t) (h : build.rule.Admits c) (hx : x ∈ effects c) :
    Granted build nx t x := by
  obtain ⟨hno, htests⟩ := h
  cases build with
  | execve =>
    have hxe : x = .executesPath := by simpa [effects, ← hno, Build.rule] using hx
    rw [hxe]
    rfl
  | execveat pfd e a v =>
    obtain ⟨f, hf, _⟩ := hb.opened pfd e a v rfl
    have hlow := low_ofNat (Nat.lt_trans (Table.lt_of_file hf) hb.size)
    have h0 : c.arg A0 = UInt64.ofNat pfd := htests (.eq A0 _) (by simp [Build.rule])
    have hxe : x = .executes pfd := by simpa [effects, ← hno, Build.rule, h0, hlow] using hx
    rw [hxe]
    exact ⟨e, a, v, rfl⟩

theorem policy_grants (hb : Ready build t) {p : Process} (hp : Held t p)
    (h : Admitted (policy build nx t) c) (hx : x ∈ effects c) (hcan : p.can x = true) :
    Granted build nx t x := by
  rcases admitted_append.mp h with h | ⟨r, hr, ha⟩
  · rcases admitted_append.mp h with h | h
    · exact initRules_grant hb.size hp h hx hcan
    · obtain ⟨fd, f, hf, ha⟩ := admitted_rules h
      exact fdRules_grant hb.size hf ha hx
  · rw [List.mem_singleton.mp hr] at ha
    exact build_grants hb ha hx

end Policy

/-! ## Whole runs -/

/-- The effect that replaces the program. -/
def Effect.isExec : Effect → Bool
  | .executes _ | .executesPath => true
  | _ => false

/-- An effect that replaces the program is the only one of its call. -/
theorem effects_exec {c : Trap Sysno} {x : Effect} (hx : x ∈ effects c) (he : x.isExec = true) :
    effects c = [x] := by
  have hmem : x ∉ mapped c ∧ x ∉ protection c := by
    unfold mapped protection
    constructor
    · split <;> simp
      rintro rfl
      cases he
    · split <;> simp
      rintro rfl
      cases he
  unfold effects at hx ⊢
  cases hno : c.no <;> simp only [hno] at hx ⊢ <;> try simp_all
  split at hx <;> simp_all [Effect.isExec]

/-- What a process in the sandbox has done so far, and what it can still do. -/
structure Confined (build : Build) (nx : Bool) (t : Table) (p : Process) : Prop where
  held : Held t p
  granted : ∀ x ∈ p.done, Granted build nx t x
  once : ∀ pfd e a v, build = .execveat pfd e a v →
    p.done.countP Effect.isExec ≤ 1 ∧ (0 < p.done.countP Effect.isExec → p.fds pfd = none)

section Runs

variable {build : Build} {nx : Bool} {t : Table} {p : Process} {m : Move}

/-- A granted effect makes no descriptor. -/
theorem apply_granted {fds : Nat → Option File} {x : Effect} (hx : Granted build nx t x)
    {fd : Nat} {f : File} (h : x.apply m fds fd = some f) : fds fd = some f := by
  cases x <;> try exact h
  all_goals first | exact hx.elim | exact (Option.filter_eq_some_iff.mp h).1

theorem foldl_granted {xs : List Effect} (hxs : ∀ x ∈ xs, Granted build nx t x)
    {fds : Nat → Option File} {fd : Nat} {f : File}
    (h : xs.foldl (Effect.apply m) fds fd = some f) : fds fd = some f := by
  induction xs generalizing fds with
  | nil => exact h
  | cons x xs ih =>
    have hrest := ih (fun y hy => hxs y (List.mem_cons_of_mem _ hy)) h
    exact apply_granted (hxs x List.mem_cons_self) hrest

theorem foldl_apply_nil {xs : List Effect} (hxs : ∀ x ∈ xs, Granted build nx t x)
    {fds : Nat → Option File} {fd : Nat} (h : fds fd = none) :
    xs.foldl (Effect.apply m) fds fd = none := by
  cases hf : xs.foldl (Effect.apply m) fds fd with
  | none => rfl
  | some f => rw [← foldl_granted hxs hf, h]

theorem mem_happens {x : Effect} (hx : x ∈ p.happens m) :
    x ∈ effects m.trap ∧ p.can x = true := by
  unfold Process.happens at hx
  split at hx
  · exact List.mem_filter.mp hx
  · cases hx

/-- A call that replaces the program does nothing else, and it needs the file
that `os_init` has opened. -/
theorem happens_exec {pfd : Nat} {e a v : UInt64} {x : Effect}
    (hx : x ∈ p.happens m) (he : x.isExec = true)
    (hg : Granted (.execveat pfd e a v) nx t x) :
    x = .executes pfd ∧ p.happens m = [.executes pfd] := by
  have hxe : x = .executes pfd := by
    cases x <;> try cases he
    · obtain ⟨_, _, _, hg⟩ := hg
      cases hg
      rfl
    · cases hg
  subst hxe
  obtain ⟨hmem, hcan⟩ := mem_happens hx
  refine ⟨rfl, ?_⟩
  unfold Process.happens at hx ⊢
  rw [effects_exec hmem he] at hx ⊢
  split at hx
  · rw [if_pos ‹_›, List.filter_cons_of_pos hcan, List.filter_nil]
  · cases hx

theorem confined_perform (hb : Ready build t) (hp : Confined build nx t p)
    (ha : Admitted (policy build nx t) m.trap) : Confined build nx t (p.perform m) := by
  have hxs : ∀ x ∈ p.happens m, Granted build nx t x := by
    intro x hx
    obtain ⟨hx, hcan⟩ := mem_happens hx
    exact policy_grants hb hp.held ha hx hcan
  refine ⟨?_, ?_, ?_⟩
  · intro fd f hf
    exact hp.held fd f (foldl_granted hxs hf)
  · intro x hx
    rcases List.mem_append.mp hx with hx | hx
    · exact hp.granted x hx
    · exact hxs x hx
  · intro pfd e a v hbuild
    obtain ⟨hcount, hgone⟩ := hp.once pfd e a v hbuild
    show (p.done ++ p.happens m).countP Effect.isExec ≤ 1 ∧
      (0 < (p.done ++ p.happens m).countP Effect.isExec →
        (p.happens m).foldl (Effect.apply m) p.fds pfd = none)
    rw [List.countP_append]
    by_cases hex : ∃ x ∈ p.happens m, x.isExec = true
    · obtain ⟨x, hx, hexec⟩ := hex
      obtain ⟨rfl, hlist⟩ := happens_exec hx hexec (hbuild ▸ hxs x hx)
      obtain ⟨f, hopen, hfile⟩ := hp.held.of_can rfl (mem_happens hx).2
      have hfirst : p.done.countP Effect.isExec = 0 := by
        by_contra hne
        rw [hgone (by omega)] at hopen
        cases hopen
      obtain ⟨f', hf', hclo⟩ := hb.opened pfd e a v hbuild
      rw [hfile] at hf'
      cases hf'
      rw [hlist, hfirst]
      refine ⟨by simp [Effect.isExec], fun _ => ?_⟩
      show (p.fds pfd).filter (fun f => !f.cloexec) = none
      rw [hopen]
      simp [hclo]
    · have hzero : (p.happens m).countP Effect.isExec = 0 := by
        apply List.countP_eq_zero.mpr
        intro x hx hexec
        exact hex ⟨x, hx, hexec⟩
      rw [hzero]
      exact ⟨hcount, fun hpos => foldl_apply_nil hxs (hgone hpos)⟩

theorem confined_start : Confined build nx t (start t) where
  held := fun _ _ h => h
  granted := fun _ h => (List.not_mem_nil h).elim
  once := fun _ _ _ _ _ => ⟨by simp [start], by simp [start]⟩

theorem confined_step {rules : List (Rule Sysno)} (hb : Ready build t)
    (hr : rules ⊆ policy build nx t) {p' : Process} (hp : Confined build nx t p)
    (h : step rules p m = some p') : Confined build nx t p' := by
  unfold step at h
  split at h
  · split at h
    · rename_i hadm
      cases h
      exact confined_perform hb hp (hadm.mono hr)
    · cases h
      exact ⟨hp.held, hp.granted, hp.once⟩
  · cases h

end Runs

/-- What the loaded rules confine, over any run. -/
theorem confined_run {build : Build} {nx : Bool} {t : Table} {script : List Int}
    {rules : List (Rule Sysno)} (hb : Ready build t)
    (hload : lockDown build nx t script = .ok rules) {tr : List (Process × Move)} {p : Process}
    (hr : Run (step rules) (start t) tr p) : Confined build nx t p := by
  have hrules := (lockDown_added hload).1
  apply Run.always confined_start _ hr
  intro p m p' hp hstep
  exact confined_step hb hrules hp hstep

/-- Whatever a program does behind the filter that `rexec` has loaded, and
whichever rules could not be added: it never holds a descriptor it was not
given, everything it has done is granted, and with `execveat` the program is
executed at most once. -/
theorem sandbox_confines {build : Build} {nx : Bool} {t : Table} {script : List Int}
    {rules : List (Rule Sysno)} (hb : Ready build t)
    (hload : lockDown build nx t script = .ok rules) {tr : List (Process × Move)} {p : Process}
    (hr : Run (step rules) (start t) tr p) :
    (∀ fd f, p.fds fd = some f → t.file fd = some f) ∧
    (∀ x ∈ p.done, Granted build nx t x) ∧
    ∀ pfd e a v, build = .execveat pfd e a v → p.done.countP Effect.isExec ≤ 1 := by
  have hp := confined_run hb hload hr
  exact ⟨hp.held, hp.granted, fun pfd e a v h => (hp.once pfd e a v h).1⟩

/-- A file on descriptor 0, and the program on descriptor 1. -/
def demoTable : Table :=
  [some ⟨O_RDONLY, .reg, (0, 0), false, none, false⟩,
    some ⟨O_RDONLY, .reg, (0, 0), false, none, true⟩]

def demoBuild : Build := .execveat 1 0x1000 0x2000 0x3000

def demoMove (no : Sysno) (args : List UInt64) : Move :=
  ⟨syscall (fun _ => 0) no args, true, 2, ⟨O_RDWR, .reg, (0, 0), false, none, false⟩⟩

/-- The addition of the rule for `preadv` has failed. -/
def demoRules : List (Rule Sysno) := (policy demoBuild true demoTable).eraseIdx 16

/-- The program is executed and reads from its file, and is killed when it opens
another. -/
theorem sandbox_confines_reader : ∃ tr p,
    lockDown demoBuild true demoTable (List.replicate 16 0 ++ [-12]) = .ok demoRules ∧
    Run (step demoRules) (start demoTable) tr p ∧
    p.done = [.executes 1, .reads 0] ∧ p.alive = false ∧
    (∀ fd f, p.fds fd = some f → demoTable.file fd = some f) ∧
    (∀ x ∈ p.done, Granted demoBuild true demoTable x) ∧
    ∀ pfd e a v, demoBuild = .execveat pfd e a v → p.done.countP Effect.isExec ≤ 1 := by
  have hb : Ready demoBuild demoTable := by
    refine ⟨by decide, ?_⟩
    intro pfd e a v h
    cases h
    exact ⟨_, rfl, rfl⟩
  have hload : lockDown demoBuild true demoTable (List.replicate 16 0 ++ [-12]) =
      .ok demoRules := by rfl
  obtain ⟨tr, p, hr, hp⟩ := exists_run (f := step demoRules) (s := start demoTable)
    (p := fun _ p => decide (p.done = [.executes 1, .reads 0] ∧ p.alive = false))
    [demoMove .execveat [1, 0x1000, 0x2000, 0x3000, AT_EMPTY_PATH], demoMove .read [0],
      demoMove .open []] (by decide)
  obtain ⟨hdone, halive⟩ := of_decide_eq_true hp
  exact ⟨tr, p, hload, hr, hdone, halive, sandbox_confines hb hload hr⟩

end Frankenlibc.Tools.Sandbox

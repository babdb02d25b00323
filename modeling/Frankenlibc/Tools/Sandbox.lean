import Frankenlibc.Lib.Run
import Frankenlibc.Lib.Seccomp

/-!
# The sandbox of `rexec` on Linux

`rexec` collects the rules of a seccomp filter while it sets the program up: some
for every program, and some for each open descriptor, by the mode it was opened
in and by the type of its file. Whatever is not in a rule kills the program. The
64-bit build for x86 is modelled, with and without `execveat`.

A call of `seccomp_rule_add` can fail. `main` gives up when it is told; the
results for `preadv` and `pwritev` are not looked at.
-/
namespace Frankenlibc.Tools.Sandbox

open Frankenlibc.Lib

/-! ## System calls and files -/

/-- The system calls that the policy is about, those that would make, change or
pass descriptors, and the rest. -/
inductive Sysno
  | archPrctl
  | exit
  | exitGroup
  | clockGettime
  | clockGetres
  | clockNanosleep
  | getrandom
  | kill
  | mmap
  | mprotect
  | munmap
  | fstat
  | ppoll
  | read
  | pread64
  | readv
  | preadv
  | write
  | pwrite64
  | writev
  | pwritev
  | fsync
  | fcntl
  | ioctl
  | getsockname
  | execve
  | execveat
  | open
  | socket
  | dup
  | close
  | lseek
  | poll
  | other (n : Nat)
deriving DecidableEq, Repr

inductive FileType
  | reg
  | dir
  | chr
  | blk
  | fifo
  | sock
deriving DecidableEq, Repr

/-- An open file as the kernel shows it: the flags `F_GETFL` returns, its type,
the major and minor number of a device, whether a socket is one of `AF_PACKET`,
what `TUNGETIFF` returns (and then whether `IFF_VNET_HDR` is set), and
`FD_CLOEXEC`. -/
structure File where
  flags : Nat
  type : FileType
  rdev : Nat × Nat
  packet : Bool
  tap : Option Bool
  cloexec : Bool
deriving DecidableEq, Repr

abbrev O_RDONLY : Nat := 0
abbrev O_WRONLY : Nat := 1
abbrev O_RDWR : Nat := 2
abbrev O_ACCMODE : Nat := 3
abbrev F_GETFL : UInt64 := 3
abbrev PROT_EXEC : UInt64 := 4
abbrev SIGABRT : UInt64 := 6
abbrev ARCH_SET_FS : UInt64 := 0x1002
abbrev AT_EMPTY_PATH : UInt64 := 0x1000
abbrev BLKGETSIZE64 : UInt64 := 0x80081272
abbrev TUNGETIFF : UInt64 := 0x800454d2
abbrev TUNSETIFF : UInt64 := 0x400454ca
abbrev SIOCGIFHWADDR : UInt64 := 0x8927
abbrev SIOCGIFNAME : UInt64 := 0x8910

/-- The value -1 of an `int` that is passed as an argument. -/
abbrev minusOne : UInt64 := 0xffffffffffffffff

def File.readable (f : File) : Bool :=
  f.flags &&& O_ACCMODE = O_RDONLY ∨ f.flags &&& O_ACCMODE = O_RDWR

def File.writable (f : File) : Bool :=
  f.flags &&& O_ACCMODE = O_WRONLY ∨ f.flags &&& O_ACCMODE = O_RDWR

/-! ## Adding rules -/

/-- The filter under construction, and what the next calls of
`seccomp_rule_add` return; behind the end of `script` they succeed. -/
structure Ctx where
  rules : List (Rule Sysno)
  script : List Int
deriving DecidableEq

def seccompRuleAdd (r : Rule Sysno) (c : Ctx) : Int × Ctx :=
  match c.script with
  | [] => (0, { c with rules := c.rules ++ [r] })
  | ret :: rest => (ret, ⟨if ret < 0 then c.rules else c.rules ++ [r], rest⟩)

/-- `if (ret < 0) return ret;` behind a call. -/
def checked (c : Ctx) (r : Rule Sysno) : Except Int Ctx :=
  let (ret, c) := seccompRuleAdd r c
  if ret < 0 then .error ret else .ok c

/-- A call whose result is overwritten. -/
def unchecked (c : Ctx) (r : Rule Sysno) : Ctx := (seccompRuleAdd r c).2

/-- A rule about the descriptor in the first argument. -/
def fdRule (no : Sysno) (fd : Nat) : Rule Sysno := ⟨no, [.eq A0 (UInt64.ofNat fd)]⟩

def fdRule2 (no : Sysno) (fd : Nat) (v : UInt64) : Rule Sysno :=
  ⟨no, [.eq A0 (UInt64.ofNat fd), .eq A1 v]⟩

/-- The rules of `os_init`, in its order. -/
def initRules (nx : Bool) : List (Rule Sysno) :=
  [⟨.archPrctl, [.eq A0 ARCH_SET_FS]⟩,
    ⟨.exit, []⟩,
    ⟨.exitGroup, []⟩,
    ⟨.clockGettime, []⟩,
    ⟨.clockGetres, []⟩,
    ⟨.clockNanosleep, []⟩,
    ⟨.getrandom, []⟩,
    ⟨.kill, [.eq A0 0, .eq A1 SIGABRT]⟩,
    if nx then ⟨.mmap, [.masked A2 PROT_EXEC 0, .eq A4 minusOne]⟩ else ⟨.mmap, [.eq A4 minusOne]⟩,
    if nx then ⟨.mprotect, [.masked A2 PROT_EXEC 0]⟩ else ⟨.mprotect, []⟩,
    ⟨.munmap, []⟩,
    ⟨.fstat, []⟩,
    ⟨.ppoll, []⟩]

def osInit (nx : Bool) (c : Ctx) : Except Int Ctx := (initRules nx).foldlM checked c

/-- The part of `filter_fd` for one mode: three calls are checked, the last is not. -/
def addFamily (rs : List (Rule Sysno)) (r : Rule Sysno) (c : Ctx) : Except Int Ctx := do
  let c ← rs.foldlM checked c
  return unchecked c r

def filterFd (fd : Nat) (f : File) (c : Ctx) : Except Int Ctx := do
  let c ← (if f.readable then
      addFamily [fdRule .read fd, fdRule .pread64 fd, fdRule .readv fd] (fdRule .preadv fd) c
    else pure c)
  let c ← (if f.writable then
      addFamily [fdRule .write fd, fdRule .pwrite64 fd, fdRule .writev fd] (fdRule .pwritev fd) c
    else pure c)
  let c ← [fdRule .fsync fd, fdRule2 .fcntl fd F_GETFL].foldlM checked c
  let c ← (if f.type = .blk then [fdRule2 .ioctl fd BLKGETSIZE64].foldlM checked c else pure c)
  let c ← (if f.type = .chr then
      [fdRule2 .ioctl fd TUNGETIFF, fdRule2 .ioctl fd TUNSETIFF,
        fdRule2 .ioctl fd SIOCGIFHWADDR].foldlM checked c
    else pure c)
  if f.type = .sock then
    [fdRule2 .ioctl fd SIOCGIFHWADDR, fdRule2 .ioctl fd SIOCGIFNAME,
      fdRule .getsockname fd].foldlM checked c
  else pure c

/-- The two builds: with `execveat` the program is opened beforehand, and the
pointers of the one call are part of its rule. -/
inductive Build
  | execve
  | execveat (pfd : Nat) (emptystring argv envp : UInt64)
deriving DecidableEq

def Build.rule : Build → Rule Sysno
  | .execve => ⟨.execve, []⟩
  | .execveat pfd emptystring argv envp =>
    ⟨.execveat, [.eq A0 (UInt64.ofNat pfd), .eq A1 emptystring, .eq A2 argv, .eq A3 envp,
      .eq A4 AT_EMPTY_PATH]⟩

/-! ## `main` -/

/-- The open descriptors of a process, from 0 on. -/
abbrev Table := List (Option File)

def Table.file (t : Table) (fd : Nat) : Option File := t.getD fd none

/-- `socket` returns the lowest number that is free. -/
def Table.nfds (t : Table) : Nat := (t.takeWhile Option.isSome).length

/-- A new file takes the lowest number that is free. -/
def Table.place : Table → File → Table
  | [], f => [some f]
  | none :: t, f => some f :: t
  | some g :: t, f => some g :: Table.place t f

def Table.close (t : Table) (fd : Nat) : Table := t.set fd none

/-- The program as the build with `execveat` opens it: `O_RDONLY | O_CLOEXEC`. -/
def programFile : File := ⟨O_RDONLY, .reg, (0, 0), false, none, true⟩

def urandomFile : File := ⟨O_RDONLY, .chr, (1, 9), false, none, false⟩

/-- A socket of `AF_INET` or `AF_UNIX`. -/
def socketFile : File := ⟨O_RDWR, .sock, (0, 0), false, none, false⟩

/-- What `os_init` opens; the number is `pfd`. -/
def osInitOpen (execveat : Bool) (t : Table) : Table :=
  if execveat then t.place programFile else t

def open9pfsSocket (spec : Bool) (t : Table) : Table := if spec then t.place socketFile else t

/-- `os_extrafiles`: one end of the pair is closed again. -/
def osExtrafiles (getrandom : Bool) (t : Table) : Table :=
  let t := if getrandom then t else t.place urandomFile
  let t := t.place socketFile
  (t.place socketFile).close t.nfds

/-- The table `main` counts, from the one the options have left. -/
def opened (execveat spec getrandom : Bool) (t : Table) : Table :=
  osExtrafiles getrandom (open9pfsSocket spec (osInitOpen execveat t))

/-- What a program has left of a table when it is executed. -/
def Table.executed (t : Table) (fd : Nat) : Option File :=
  (t.file fd).filter fun f => !f.cloexec

/-- The loop over `filter_fd`: below `nfds`, `fcntl` and `fstat` succeed. -/
def filterFds (t : Table) (c : Ctx) : Except Int Ctx :=
  (List.range t.nfds).foldlM (fun c fd => match t.file fd with
    | some f => filterFd fd f c
    | none => .error (-1)) c

/-- What `main` does about the filter, up to `seccomp_load`. `t` are the
descriptors when they are counted. -/
def lockDown (build : Build) (nx : Bool) (t : Table) (script : List Int) :
    Except Int (List (Rule Sysno)) := do
  let c ← osInit nx ⟨[], script⟩
  let c ← filterFds t c
  let c ← checked c build.rule
  return c.rules

/-! ## Tables -/

theorem Table.file_cons_succ (x : Option File) (t : Table) (k : Nat) :
    Table.file (x :: t) (k + 1) = t.file k := by
  simp [Table.file]

/-- The lowest free number has only numbers in use below it. -/
theorem Table.lt_nfds_iff {t : Table} {fd : Nat} :
    fd < t.nfds ↔ ∀ k ≤ fd, (t.file k).isSome = true := by
  unfold Table.nfds
  induction t generalizing fd with
  | nil =>
    constructor
    · intro h
      simp at h
    · intro h
      simpa [Table.file] using h 0 (by omega)
  | cons x t ih =>
    cases x with
    | none =>
      constructor
      · intro h
        simp at h
      · intro h
        simpa [Table.file] using h 0 (by omega)
    | some g =>
      rw [List.takeWhile_cons_of_pos rfl, List.length_cons]
      constructor
      · intro h k hk
        cases k with
        | zero => rfl
        | succ k =>
          rw [Table.file_cons_succ]
          exact ih.mp (by omega : k < _) k k.le_refl
      · intro h
        cases fd with
        | zero => omega
        | succ fd =>
          have hrest := (@ih fd).mpr fun k hk => by
            rw [← Table.file_cons_succ (some g)]
            exact h (k + 1) (by omega)
          omega

theorem Table.file_nfds (t : Table) : t.file t.nfds = none := by
  by_contra hne
  have hlt : t.nfds < t.nfds := by
    apply Table.lt_nfds_iff.mpr
    intro k hk
    rcases Nat.lt_or_eq_of_le hk with hk | rfl
    · exact Table.lt_nfds_iff.mp hk k k.le_refl
    · exact Option.isSome_iff_ne_none.mpr hne
  omega

theorem Table.file_place (t : Table) (f : File) (k : Nat) :
    (t.place f).file k = if k = t.nfds then some f else t.file k := by
  induction t generalizing k with
  | nil => cases k <;> simp [Table.place, Table.file, Table.nfds]
  | cons x t ih =>
    cases x with
    | none => cases k <;> simp [Table.place, Table.file, Table.nfds]
    | some g =>
      cases k with
      | zero => simp [Table.place, Table.file, Table.nfds]
      | succ k =>
        have hn : Table.nfds (some g :: t) = Table.nfds t + 1 := by simp [Table.nfds]
        rw [Table.place, Table.file_cons_succ, Table.file_cons_succ, ih, hn]
        simp

/-- A new file leaves the numbers in use below it, and its own is in use. -/
theorem Table.nfds_lt_place (t : Table) (f : File) : t.nfds < (t.place f).nfds := by
  apply Table.lt_nfds_iff.mpr
  intro k hk
  rw [Table.file_place]
  split
  · rfl
  · exact Table.lt_nfds_iff.mp (by omega : k < t.nfds) k k.le_refl

theorem Table.file_close (t : Table) (fd k : Nat) :
    (t.close fd).file k = if k = fd then none else t.file k := by
  unfold Table.close Table.file
  rw [List.getD_eq_getElem?_getD, List.getD_eq_getElem?_getD, List.getElem?_set]
  by_cases hk : fd = k
  · subst hk
    by_cases hlt : fd < t.length <;> simp [hlt]
  · simp [hk, Ne.symm hk]

/-! ## The rules that are loaded -/

/-- The calls whose rule may be missing although nothing was reported. -/
def Sysno.positioned (no : Sysno) : Bool := no = .preadv ∨ no = .pwritev

/-- What has been added to a filter: nothing but `rs`, and all of it except for
the additions nobody checks. -/
structure Added (c c' : Ctx) (rs : List (Rule Sysno)) : Prop where
  keeps : c.rules ⊆ c'.rules
  sure : ∀ r ∈ rs, r.no.positioned = false → r ∈ c'.rules
  only : c'.rules ⊆ c.rules ++ rs

theorem Added.refl (c : Ctx) : Added c c [] := ⟨List.Subset.refl _, by simp, by simp⟩

theorem Added.trans {c₁ c₂ c₃ : Ctx} {rs rs' : List (Rule Sysno)} (h : Added c₁ c₂ rs)
    (h' : Added c₂ c₃ rs') : Added c₁ c₃ (rs ++ rs') := by
  refine ⟨List.Subset.trans h.keeps h'.keeps, ?_, ?_⟩
  · intro r hr hp
    rcases List.mem_append.mp hr with hr | hr
    · exact h'.keeps (h.sure r hr hp)
    · exact h'.sure r hr hp
  · intro r hr
    rcases List.mem_append.mp (h'.only hr) with hr | hr
    · rw [← List.append_assoc]
      exact List.mem_append_left _ (h.only hr)
    · exact List.mem_append_right _ (List.mem_append_right _ hr)

theorem Added.rule {c : Ctx} {r : Rule Sysno} {rest : List Int} :
    Added c ⟨c.rules ++ [r], rest⟩ [r] :=
  ⟨by simp, by simp, List.Subset.refl _⟩

theorem checked_added {c c' : Ctx} {r : Rule Sysno} (h : checked c r = .ok c') :
    Added c c' [r] := by
  unfold checked seccompRuleAdd at h
  cases hs : c.script with
  | nil =>
    rw [hs] at h
    cases h
    exact .rule
  | cons ret rest =>
    rw [hs] at h
    simp only at h
    split at h
    · cases h
    · cases h
      exact .rule

theorem unchecked_added (c : Ctx) {r : Rule Sysno} (hr : r.no.positioned = true) :
    Added c (unchecked c r) [r] := by
  unfold unchecked seccompRuleAdd
  cases c.script with
  | nil => exact .rule
  | cons ret rest =>
    by_cases hneg : ret < 0
    · simp only [if_pos hneg]
      exact ⟨List.Subset.refl _, by simp [hr], by simp⟩
    · simp only [if_neg hneg]
      exact .rule

theorem foldlM_added {α : Type} {f : Ctx → α → Except Int Ctx} {g : α → List (Rule Sysno)}
    {l : List α} (hf : ∀ c a c', a ∈ l → f c a = .ok c' → Added c c' (g a)) {c c' : Ctx}
    (h : l.foldlM f c = .ok c') : Added c c' (l.flatMap g) := by
  induction l generalizing c with
  | nil =>
    cases h
    exact .refl _
  | cons a l ih =>
    rw [List.foldlM_cons] at h
    obtain ⟨c₁, h₁, h₂⟩ := bind_ok_iff.mp h
    rw [List.flatMap_cons]
    apply (hf c a c₁ List.mem_cons_self h₁).trans
    exact ih (fun c a c' ha => hf c a c' (List.mem_cons_of_mem _ ha)) h₂

theorem all_checked_added {rs : List (Rule Sysno)} {c c' : Ctx}
    (h : rs.foldlM checked c = .ok c') : Added c c' rs := by
  have hadded := foldlM_added (fun c r c' _ => @checked_added c c' r) h
  simpa using hadded

/-- The rules for one descriptor. -/
def fdRules (fd : Nat) (f : File) : List (Rule Sysno) :=
  (if f.readable then
    [fdRule .read fd, fdRule .pread64 fd, fdRule .readv fd, fdRule .preadv fd] else []) ++
  (if f.writable then
    [fdRule .write fd, fdRule .pwrite64 fd, fdRule .writev fd, fdRule .pwritev fd] else []) ++
  [fdRule .fsync fd, fdRule2 .fcntl fd F_GETFL] ++
  (if f.type = .blk then [fdRule2 .ioctl fd BLKGETSIZE64] else []) ++
  (if f.type = .chr then
    [fdRule2 .ioctl fd TUNGETIFF, fdRule2 .ioctl fd TUNSETIFF, fdRule2 .ioctl fd SIOCGIFHWADDR]
    else []) ++
  (if f.type = .sock then
    [fdRule2 .ioctl fd SIOCGIFHWADDR, fdRule2 .ioctl fd SIOCGIFNAME, fdRule .getsockname fd]
    else [])

/-- The requests `filter_fd` allows on a file. -/
def FileType.requests : FileType → List UInt64
  | .blk => [BLKGETSIZE64]
  | .chr => [TUNGETIFF, TUNSETIFF, SIOCGIFHWADDR]
  | .sock => [SIOCGIFHWADDR, SIOCGIFNAME]
  | _ => []

def readCalls : List Sysno := [.read, .pread64, .readv, .preadv]

def writeCalls : List Sysno := [.write, .pwrite64, .writev, .pwritev]

/-- The rules of a descriptor, by what they are for. -/
theorem mem_fdRules {fd : Nat} {f : File} {r : Rule Sysno} : r ∈ fdRules fd f ↔
    (f.readable = true ∧ ∃ no ∈ readCalls, r = fdRule no fd) ∨
    (f.writable = true ∧ ∃ no ∈ writeCalls, r = fdRule no fd) ∨
    r = fdRule .fsync fd ∨ r = fdRule2 .fcntl fd F_GETFL ∨
    (∃ v ∈ f.type.requests, r = fdRule2 .ioctl fd v) ∨
    (f.type = .sock ∧ r = fdRule .getsockname fd) := by
  have hread : r ∈ (if f.readable = true then
      [fdRule .read fd, fdRule .pread64 fd, fdRule .readv fd, fdRule .preadv fd] else []) ↔
      f.readable = true ∧ ∃ no ∈ readCalls, r = fdRule no fd := by
    by_cases hf : f.readable = true <;> simp [hf, readCalls]
  have hwrite : r ∈ (if f.writable = true then
      [fdRule .write fd, fdRule .pwrite64 fd, fdRule .writev fd, fdRule .pwritev fd] else []) ↔
      f.writable = true ∧ ∃ no ∈ writeCalls, r = fdRule no fd := by
    by_cases hf : f.writable = true <;> simp [hf, writeCalls]
  simp only [fdRules, List.mem_append, hread, hwrite]
  cases f.type <;> simp [FileType.requests, or_assoc]

/-- A part of `filter_fd` that is skipped unless `b`. -/
theorem added_if {b : Prop} [Decidable b] {c c' : Ctx} {x : Except Int Ctx}
    {rs : List (Rule Sysno)} (hx : x = .ok c' → Added c c' rs)
    (h : (if b then x else pure c) = .ok c') : Added c c' (if b then rs else []) := by
  by_cases hb : b
  · rw [if_pos hb] at h ⊢
    exact hx h
  · rw [if_neg hb] at h ⊢
    cases h
    exact .refl _

theorem addFamily_added {rs : List (Rule Sysno)} {r : Rule Sysno} (hr : r.no.positioned = true)
    {c c' : Ctx} (h : addFamily rs r c = .ok c') : Added c c' (rs ++ [r]) := by
  obtain ⟨c₁, h₁, h₂⟩ := bind_ok_iff.mp h
  cases h₂
  exact (all_checked_added h₁).trans (unchecked_added c₁ hr)

theorem filterFd_added {fd : Nat} {f : File} {c c' : Ctx} (h : filterFd fd f c = .ok c') :
    Added c c' (fdRules fd f) := by
  unfold filterFd at h
  obtain ⟨c₁, h₁, h⟩ := bind_ok_iff.mp h
  obtain ⟨c₂, h₂, h⟩ := bind_ok_iff.mp h
  obtain ⟨c₃, h₃, h⟩ := bind_ok_iff.mp h
  obtain ⟨c₄, h₄, h⟩ := bind_ok_iff.mp h
  obtain ⟨c₅, h₅, h₆⟩ := bind_ok_iff.mp h
  have hread := added_if (addFamily_added rfl) h₁
  have hwrite := added_if (addFamily_added rfl) h₂
  have hblk := added_if all_checked_added h₄
  have hchr := added_if all_checked_added h₅
  have hsock := added_if all_checked_added h₆
  exact ((((hread.trans hwrite).trans (all_checked_added h₃)).trans hblk).trans hchr).trans hsock

/-- The rules for the descriptors in front of the first that is free. -/
def Table.rules (t : Table) : List (Rule Sysno) :=
  (List.range t.nfds).flatMap fun fd => match t.file fd with
    | some f => fdRules fd f
    | none => []

theorem filterFds_added {t : Table} {c c' : Ctx} (h : filterFds t c = .ok c') :
    Added c c' t.rules := by
  apply foldlM_added _ h
  intro c fd c' _ hfd
  cases hf : t.file fd with
  | none =>
    rw [hf] at hfd
    cases hfd
  | some f =>
    rw [hf] at hfd
    exact filterFd_added hfd

/-- The policy: every rule `main` tries to add. -/
def policy (build : Build) (nx : Bool) (t : Table) : List (Rule Sysno) :=
  initRules nx ++ t.rules ++ [build.rule]

theorem lockDown_added {build : Build} {nx : Bool} {t : Table} {script : List Int}
    {rules : List (Rule Sysno)} (h : lockDown build nx t script = .ok rules) :
    rules ⊆ policy build nx t ∧
      ∀ r ∈ policy build nx t, r.no.positioned = false → r ∈ rules := by
  obtain ⟨c₁, h₁, h⟩ := bind_ok_iff.mp h
  obtain ⟨c₂, h₂, h⟩ := bind_ok_iff.mp h
  obtain ⟨c₃, h₃, h⟩ := bind_ok_iff.mp h
  cases h
  have hadded := ((all_checked_added h₁).trans (filterFds_added h₂)).trans (checked_added h₃)
  exact ⟨hadded.only, hadded.sure⟩

end Frankenlibc.Tools.Sandbox

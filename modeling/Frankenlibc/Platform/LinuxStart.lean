import Frankenlibc.Init.Fdinit
import Frankenlibc.Tools.Confinement

/-!
# The start of a program on Linux

`__libc_start_main` walks over the descriptors from 0 on, up to the first that
is not open, and picks up the special ones: a source of random numbers, a socket
for requests, and the devices to poll. `fstat` asks for more by the type of the
file. Both run behind the filter that `rexec` has loaded.

`rexec` opens files that are meant for this walk. The build with `execveat` has
opened the program before them, and the kernel closes it when it is executed.
-/
namespace Frankenlibc.Linux.Start

open Frankenlibc.Lib Frankenlibc.Tools.Sandbox Frankenlibc.Init

/-- The variables the walk sets; `none` is -1. -/
structure Found where
  randomFd : Option Nat
  socketFd : Option Nat
  pollfd : List Nat
deriving DecidableEq, Repr

def Found.none : Found := ⟨.none, .none, []⟩

section Code

-- registers that a call leaves alone, and the addresses of the local variables
variable (junk : Fin 6 → UInt64) (lst ifr sa slen : UInt64)

def sysFstat (fd : Nat) : Trap Sysno := syscall junk .fstat [UInt64.ofNat fd, lst]

def sysGetsockname (fd : Nat) : Trap Sysno :=
  syscall junk .getsockname [UInt64.ofNat fd, sa, slen, 0, 0, 0]

def sysIoctl (fd : Nat) (request : UInt64) : Trap Sysno :=
  syscall junk .ioctl [UInt64.ofNat fd, request, ifr]

def Found.poll (s : Found) (fd : Nat) : Found := { s with pollfd := s.pollfd ++ [fd] }

/-- One round of the walk, with the calls it makes. -/
def examine (fd : Nat) (f : File) (s : Found) : List (Trap Sysno) × Found :=
  match f.type with
  | .sock =>
    let s := { s with socketFd := some fd }
    ([sysGetsockname junk sa slen fd], if f.packet then s.poll fd else s)
  | .chr =>
    if f.rdev = (1, 9) then ([], { s with randomFd := some fd })
    else if f.rdev ≠ (10, 200) ∧ f.rdev.1 < 138 then ([], s)
    else match f.tap with
      | .none => ([sysIoctl junk ifr fd TUNGETIFF], s)
      | some vnet =>
        (sysIoctl junk ifr fd TUNGETIFF ::
          (if vnet then [sysIoctl junk ifr fd TUNSETIFF] else []), s.poll fd)
  | _ => ([], s)

/-- The rounds from `fd` on, at most `n` of them. -/
def walkFrom (fds : Nat → Option File) : Nat → Nat → Found → List (Trap Sysno) × Found
  | 0, _, s => ([], s)
  | n + 1, fd, s =>
    match fds fd with
    | .none => ([sysFstat junk lst fd], s)
    | some f =>
      let (calls, s) := examine junk ifr sa slen fd f s
      let (rest, s) := walkFrom fds n (fd + 1) s
      (sysFstat junk lst fd :: calls ++ rest, s)

def walk (fds : Nat → Option File) : List (Trap Sysno) × Found :=
  walkFrom junk lst ifr sa slen fds MAXFD 0 .none

/-- The calls of `fstat`; `hwaddr` is whether the device itself knows its address. -/
def fstat (fds : Nat → Option File) (socketFd : Option Nat) (hwaddr : Bool) (fd : Nat) :
    List (Trap Sysno) :=
  sysFstat junk lst fd :: match fds fd with
    | .none => []
    | some f => match f.type with
      | .sock => sysGetsockname junk sa slen fd ::
          if f.packet then [sysIoctl junk ifr fd SIOCGIFNAME, sysIoctl junk ifr fd SIOCGIFHWADDR]
          else []
      | .blk => [sysIoctl junk ifr fd BLKGETSIZE64]
      | .chr =>
        if f.rdev ≠ (10, 200) ∧ f.rdev.1 < 138 then []
        else sysIoctl junk ifr fd TUNGETIFF :: if f.tap.isSome then
            sysIoctl junk ifr fd SIOCGIFHWADDR :: match hwaddr, socketFd with
              | false, some sock => [sysIoctl junk ifr sock SIOCGIFHWADDR]
              | _, _ => []
          else []
      | _ => []

end Code

/-! ## What the walk finds -/

def isRandom (f : File) : Bool := f.type = .chr ∧ f.rdev = (1, 9)

def isSocket (f : File) : Bool := f.type = .sock

/-- A packet socket, or a device that answers as a tap device. -/
def isNetwork (f : File) : Bool :=
  match f.type with
  | .sock => f.packet
  | .chr => f.rdev ≠ (1, 9) ∧ (f.rdev = (10, 200) ∨ 138 ≤ f.rdev.1) ∧ f.tap.isSome
  | _ => false

/-- The descriptors from `fd` on, at most `n`, up to the first that is not open. -/
def ahead (fds : Nat → Option File) (fd n : Nat) : List Nat :=
  (List.range' fd n).takeWhile fun k => (fds k).isSome

/-- The open descriptors in `l` whose file is `q`. -/
def those (fds : Nat → Option File) (q : File → Bool) (l : List Nat) : List Nat :=
  l.filter fun fd => (fds fd).any q

/-- The variables after `l` has been walked over. -/
def Found.after (s : Found) (fds : Nat → Option File) (l : List Nat) : Found where
  randomFd := (those fds isRandom l).getLast?.or s.randomFd
  socketFd := (those fds isSocket l).getLast?.or s.socketFd
  pollfd := s.pollfd ++ those fds isNetwork l

section Walk

variable {junk : Fin 6 → UInt64} {lst ifr sa slen : UInt64} {fds : Nat → Option File}

theorem examine_found (fd : Nat) (f : File) (s : Found) :
    (examine junk ifr sa slen fd f s).2 =
      ⟨if isRandom f then some fd else s.randomFd, if isSocket f then some fd else s.socketFd,
        s.pollfd ++ if isNetwork f then [fd] else []⟩ := by
  unfold examine isRandom isSocket isNetwork
  cases hty : f.type with
  | sock => cases hp : f.packet <;> simp [Found.poll]
  | chr =>
    by_cases hr : f.rdev = (1, 9)
    · simp [hr]
    · by_cases hmaj : f.rdev ≠ (10, 200) ∧ f.rdev.1 < 138
      · have hlt : ¬138 ≤ f.rdev.1 := by omega
        simp [hr, hmaj, hlt]
      · have his : f.rdev = (10, 200) ∨ 138 ≤ f.rdev.1 := by
          by_cases h : f.rdev = (10, 200)
          · exact .inl h
          · exact .inr (by
              by_contra hlt
              exact hmaj ⟨h, by omega⟩)
        cases ht : f.tap <;> simp [hr, hmaj, his, Found.poll]
  | _ => simp

theorem getLast?_filter_or {q : Nat → Bool} (fd : Nat) (l : List Nat) (r : Option Nat) :
    ((fd :: l).filter q).getLast?.or r =
      (l.filter q).getLast?.or (if q fd then some fd else r) := by
  cases hq : q fd with
  | false => rw [List.filter_cons_of_neg (by simp [hq]), if_neg (by simp)]
  | true =>
    rw [List.filter_cons_of_pos hq, List.getLast?_cons, if_pos rfl]
    cases (l.filter q).getLast? <;> simp

/-- The variables after one round. -/
theorem Found.after_cons {fd : Nat} {f : File} (hf : fds fd = some f) (s : Found) (l : List Nat) :
    s.after fds (fd :: l) = Found.after (examine junk ifr sa slen fd f s).2 fds l := by
  rw [examine_found]
  unfold Found.after those
  simp only [getLast?_filter_or, hf, Option.any_some, List.append_assoc, Found.mk.injEq, true_and]
  cases hq : isNetwork f with
  | false => rw [List.filter_cons_of_neg (by simp [hf, hq]), if_neg (by simp), List.nil_append]
  | true => rw [List.filter_cons_of_pos (by simp [hf, hq]), if_pos rfl, List.singleton_append]

theorem walkFrom_found (n fd : Nat) (s : Found) :
    (walkFrom junk lst ifr sa slen fds n fd s).2 = s.after fds (ahead fds fd n) := by
  induction n generalizing fd s with
  | zero => simp [walkFrom, ahead, Found.after, those]
  | succ n ih =>
    unfold walkFrom ahead
    rw [List.range'_succ]
    cases hf : fds fd with
    | none => simp [hf, Found.after, those]
    | some f =>
      rw [List.takeWhile_cons_of_pos (by simp [hf])]
      rw [Found.after_cons hf]
      exact ih _ _

theorem walk_found : (walk junk lst ifr sa slen fds).2 = Found.none.after fds (ahead fds 0 MAXFD) :=
  walkFrom_found _ _ _

end Walk

/-! ## Behind the filter -/

section Filter

variable {build : Build} {nx : Bool} {t : Table} {script : List Int} {rules : List (Rule Sysno)}
variable {junk : Fin 6 → UInt64} {lst ifr sa slen : UInt64} {p : Process} {fd : Nat} {f : File}

theorem sysFstat_admitted (hload : lockDown build nx t script = .ok rules) :
    Admitted rules (sysFstat junk lst fd) := by
  apply admitted_of_policy hload (r := ⟨.fstat, []⟩)
  · simp [policy, initRules]
  · rfl
  · simp [Rule.Admits, sysFstat, syscall]

theorem sysIoctl_admitted (hload : lockDown build nx t script = .ok rules)
    (hf : t.granted fd = some f) {v : UInt64} (hv : v ∈ f.type.requests) :
    Admitted rules (sysIoctl junk ifr fd v) := by
  apply admitted_of_policy hload (r := fdRule2 .ioctl fd v)
  · exact mem_policy_of_granted hf (mem_fdRules.mpr (by simp [hv, fdRule, fdRule2]))
  · rfl
  · exact fdRule2_admits.mpr ⟨rfl, rfl, rfl⟩

theorem sysGetsockname_admitted (hload : lockDown build nx t script = .ok rules)
    (hf : t.granted fd = some f) (hty : f.type = .sock) :
    Admitted rules (sysGetsockname junk sa slen fd) := by
  apply admitted_of_policy hload (r := fdRule .getsockname fd)
  · exact mem_policy_of_granted hf (mem_fdRules.mpr (by simp [hty]))
  · rfl
  · exact fdRule_admits.mpr ⟨rfl, rfl⟩

theorem examine_admitted (hload : lockDown build nx t script = .ok rules)
    (hf : t.granted fd = some f) (s : Found) :
    ∀ c ∈ (examine junk ifr sa slen fd f s).1, Admitted rules c := by
  intro c hc
  unfold examine at hc
  cases hty : f.type with
  | sock =>
    simp only [hty, List.mem_singleton] at hc
    rw [hc]
    exact sysGetsockname_admitted hload hf hty
  | chr =>
    have hreq : ∀ v ∈ [TUNGETIFF, TUNSETIFF], Admitted rules (sysIoctl junk ifr fd v) := by
      intro v hv
      apply sysIoctl_admitted hload hf
      rw [hty]
      simp only [FileType.requests, List.mem_cons, List.not_mem_nil, or_false] at hv ⊢
      tauto
    simp only [hty] at hc
    split at hc
    · cases hc
    · split at hc
      · cases hc
      · cases ht : f.tap with
        | none =>
          simp only [ht, List.mem_singleton] at hc
          rw [hc]
          exact hreq _ (by simp)
        | some vnet =>
          simp only [ht, List.mem_cons] at hc
          rcases hc with rfl | hc
          · exact hreq _ (by simp)
          · split at hc
            · rw [List.mem_singleton.mp hc]
              exact hreq _ (by simp)
            · cases hc
  | _ => simp [hty] at hc

/-- The walk has only open descriptors behind it, so the filter knows the file
it looks at. -/
theorem walkFrom_admitted (hload : lockDown build nx t script = .ok rules) (hp : Held t p)
    (n : Nat) (hbelow : ∀ k < fd, (t.file k).isSome = true) (s : Found) :
    ∀ c ∈ (walkFrom junk lst ifr sa slen p.fds n fd s).1, Admitted rules c := by
  induction n generalizing fd s with
  | zero => simp [walkFrom]
  | succ n ih =>
    intro c hc
    unfold walkFrom at hc
    cases hf : p.fds fd with
    | none =>
      simp only [hf, List.mem_singleton] at hc
      rw [hc]
      exact sysFstat_admitted hload
    | some f =>
      have hfile := hp fd f hf
      have hdense : ∀ k ≤ fd, (t.file k).isSome = true := by
        intro k hk
        rcases Nat.lt_or_eq_of_le hk with hk | rfl
        · exact hbelow k hk
        · rw [hfile, Option.isSome_some]
      simp only [hf, List.cons_append, List.mem_cons, List.mem_append] at hc
      rcases hc with rfl | hc | hc
      · exact sysFstat_admitted hload
      · exact examine_admitted hload ((Table.granted_of_dense hdense).trans hfile) s c hc
      · exact ih (fun k hk => hdense k (by omega)) _ c hc

/-- What `fstat` asks of a file that the filter knows. -/
theorem fstat_admitted (hload : lockDown build nx t script = .ok rules) (hp : Held t p)
    {socketFd : Option Nat} (hsock : ∀ k, socketFd = some k → ∃ g, t.granted k = some g ∧ g.type = .sock)
    (hfd : p.fds fd = none ∨ fd < t.nfds) (hwaddr : Bool) :
    ∀ c ∈ fstat junk lst ifr sa slen p.fds socketFd hwaddr fd, Admitted rules c := by
  intro c hc
  unfold fstat at hc
  rcases List.mem_cons.mp hc with rfl | hc
  · exact sysFstat_admitted hload
  cases hf : p.fds fd with
  | none =>
    rw [hf] at hc
    cases hc
  | some f =>
    have hgranted : t.granted fd = some f := by
      rcases hfd with hfd | hfd
      · rw [hfd] at hf
        cases hf
      · rw [Table.granted, if_pos hfd, hp fd f hf]
    have hreq : ∀ v ∈ f.type.requests, Admitted rules (sysIoctl junk ifr fd v) :=
      fun v hv => sysIoctl_admitted hload hgranted hv
    rw [hf] at hc
    cases hty : f.type with
    | sock =>
      rw [hty] at hreq
      simp only [hty, List.mem_cons] at hc
      rcases hc with rfl | hc
      · exact sysGetsockname_admitted hload hgranted hty
      · split at hc
        · simp only [List.mem_cons, List.not_mem_nil, or_false] at hc
          rcases hc with rfl | rfl <;> exact hreq _ (by simp [FileType.requests])
        · cases hc
    | blk =>
      rw [hty] at hreq
      simp only [hty, List.mem_singleton] at hc
      rw [hc]
      exact hreq _ (by simp [FileType.requests])
    | chr =>
      rw [hty] at hreq
      simp only [hty] at hc
      split at hc
      · cases hc
      rcases List.mem_cons.mp hc with rfl | hc
      · exact hreq _ (by simp [FileType.requests])
      split at hc
      · rcases List.mem_cons.mp hc with rfl | hc
        · exact hreq _ (by simp [FileType.requests])
        · split at hc
          · obtain ⟨g, hg, hgty⟩ := hsock _ rfl
            rw [List.mem_singleton.mp hc]
            exact sysIoctl_admitted hload hg (by simp [hgty, FileType.requests])
          · cases hc
      · cases hc
    | _ => simp [hty] at hc

end Filter

/-- Everything in front of a descriptor the walk comes to is open. -/
theorem ahead_dense {fds : Nat → Option File} {fd n k : Nat} (hk : k ∈ ahead fds fd n) :
    fd ≤ k ∧ ∀ j, fd ≤ j → j ≤ k → (fds j).isSome = true := by
  unfold ahead at hk
  induction n generalizing fd with
  | zero => cases hk
  | succ n ih =>
    rw [List.range'_succ] at hk
    cases hf : (fds fd).isSome with
    | false =>
      rw [List.takeWhile_cons_of_neg (by simp [hf])] at hk
      cases hk
    | true =>
      rw [List.takeWhile_cons_of_pos (by simp [hf])] at hk
      rcases List.mem_cons.mp hk with rfl | hk
      · refine ⟨le_refl _, fun j h₁ h₂ => ?_⟩
        rw [Nat.le_antisymm h₂ h₁, hf]
      · obtain ⟨hle, hdense⟩ := ih hk
        refine ⟨by omega, fun j h₁ h₂ => ?_⟩
        rcases Nat.lt_or_eq_of_le h₁ with h₁ | rfl
        · exact hdense j h₁ h₂
        · exact hf

theorem mem_those {fds : Nat → Option File} {q : File → Bool} {l : List Nat} {k : Nat} :
    k ∈ those fds q l ↔ k ∈ l ∧ ∃ f, fds k = some f ∧ q f = true := by
  simp [those, Option.any_eq_true]

/-- Behind the filter of `rexec`, in any state the program can get into: no call
of the walk is killed; the walk finds the last source of random numbers, the last
socket and all network devices among the descriptors in front of the first gap,
which fit into the table for `ppoll`; and with the socket it has found, no call
of `fstat` is killed on a descriptor that was counted or is not open. -/
theorem start_survives {build : Build} {nx : Bool} {t : Table} {script : List Int}
    {rules : List (Rule Sysno)} (hb : Ready build t)
    (hload : lockDown build nx t script = .ok rules) {tr : List (Process × Move)} {p : Process}
    (hr : Run (step rules) (start t) tr p) (junk : Fin 6 → UInt64) (lst ifr sa slen : UInt64)
    {calls : List (Trap Sysno)} {s : Found} (hw : walk junk lst ifr sa slen p.fds = (calls, s)) :
    (∀ c ∈ calls, Admitted rules c) ∧
    s = Found.none.after p.fds (ahead p.fds 0 MAXFD) ∧ s.pollfd.length ≤ MAXFD ∧
    ∀ fd hwaddr, p.fds fd = none ∨ fd < t.nfds →
      ∀ c ∈ fstat junk lst ifr sa slen p.fds s.socketFd hwaddr fd, Admitted rules c := by
  have hp := (confined_run hb hload hr).held
  have hcalls : calls = (walk junk lst ifr sa slen p.fds).1 := by rw [hw]
  have hs : s = Found.none.after p.fds (ahead p.fds 0 MAXFD) := by
    rw [← @walk_found junk lst ifr sa slen, hw]
  refine ⟨?_, hs, ?_, ?_⟩
  · rw [hcalls]
    exact walkFrom_admitted hload hp MAXFD (by omega) .none
  · have hsub : (ahead p.fds 0 MAXFD).length ≤ MAXFD := by
      have hle := (List.takeWhile_prefix (l := List.range' 0 MAXFD)
        (p := fun k => (p.fds k).isSome)).length_le
      simpa [ahead] using hle
    rw [hs]
    exact (List.length_filter_le _ _).trans hsub
  · intro fd hwaddr hfd
    apply fstat_admitted hload hp _ hfd
    intro k hk
    rw [hs] at hk
    have hmem : k ∈ those p.fds isSocket (ahead p.fds 0 MAXFD) := by
      apply List.mem_of_getLast?
      simpa [Found.after, Found.none] using hk
    obtain ⟨hk, g, hg, hty⟩ := mem_those.mp hmem
    have hdense : ∀ j ≤ k, (t.file j).isSome = true := by
      intro j hj
      obtain ⟨f, hf⟩ := Option.isSome_iff_exists.mp ((ahead_dense hk).2 j (by omega) hj)
      rw [hp j f hf, Option.isSome_some]
    exact ⟨g, (Table.granted_of_dense hdense).trans (hp k g hg), by simpa [isSocket] using hty⟩

/-- A packet socket, a tap device and a source of random numbers. -/
def netTable : Table :=
  [some ⟨O_RDWR, .sock, (0, 0), true, none, false⟩,
    some ⟨O_RDWR, .chr, (10, 200), false, some true, false⟩, some urandomFile]

theorem start_survives_network : ∃ rules calls,
    lockDown .execve false netTable [] = .ok rules ∧
    walk (fun _ => 0) 1 2 3 4 netTable.file = (calls, ⟨some 2, some 0, [0, 1]⟩) ∧
    calls.length = 7 ∧ (∀ c ∈ calls, Admitted rules c) ∧
    ∀ fd hwaddr, netTable.file fd = none ∨ fd < 3 →
      ∀ c ∈ fstat (fun _ => 0) 1 2 3 4 netTable.file (some 0) hwaddr fd, Admitted rules c := by
  have hb : Ready .execve netTable := by
    refine ⟨by decide, ?_⟩
    intro pfd e a v h
    cases h
  have hload : lockDown .execve false netTable [] = .ok (policy .execve false netTable) := by rfl
  obtain ⟨calls, hw, hlen⟩ : ∃ calls,
      walk (fun _ => 0) 1 2 3 4 netTable.file = (calls, ⟨some 2, some 0, [0, 1]⟩) ∧
        calls.length = 7 := ⟨_, rfl, rfl⟩
  obtain ⟨hcalls, _, _, hstat⟩ := start_survives hb hload .nil (fun _ => 0) 1 2 3 4 hw
  exact ⟨_, calls, hload, hw, hlen, hcalls, hstat⟩

/-! ## The files that are opened for the walk -/

section Extra

variable {junk : Fin 6 → UInt64} {lst ifr sa slen : UInt64}

/-- The walk does not see past the first gap. -/
theorem walkFrom_congr {fds fds' : Nat → Option File} {m : Nat} (h : ∀ k ≤ m, fds k = fds' k)
    (hm : fds m = none) (n : Nat) {fd : Nat} (hfd : fd ≤ m) (s : Found) :
    walkFrom junk lst ifr sa slen fds n fd s = walkFrom junk lst ifr sa slen fds' n fd s := by
  induction n generalizing fd s with
  | zero => rfl
  | succ n ih =>
    unfold walkFrom
    rw [← h fd hfd]
    cases hf : fds fd with
    | none => rfl
    | some f =>
      have hne : fd ≠ m := by
        rintro rfl
        rw [hf] at hm
        cases hm
      simp only [ih (by omega : fd + 1 ≤ m)]

/-- What `main` opens later has higher numbers. -/
theorem file_opened {t : Table} {spec getrandom : Bool} {k : Nat} (hk : k < t.nfds) :
    (osExtrafiles getrandom (open9pfsSocket spec t)).file k = t.file k := by
  have hplace : ∀ (t : Table) (f : File), k < t.nfds →
      k < (t.place f).nfds ∧ (t.place f).file k = t.file k := by
    intro t f hk
    rw [Table.file_place, if_neg (by omega)]
    exact ⟨Nat.lt_trans hk (t.nfds_lt_place f), rfl⟩
  have hopt : ∀ (b : Bool) (t : Table) (f : File), k < t.nfds →
      k < (if b then t.place f else t).nfds ∧ (if b then t.place f else t).file k = t.file k := by
    intro b t f hk
    cases b with
    | false => exact ⟨hk, rfl⟩
    | true => exact hplace t f hk
  obtain ⟨h₁, e₁⟩ := hopt spec t socketFile hk
  obtain ⟨h₂, e₂⟩ := hopt (!getrandom) _ urandomFile h₁
  obtain ⟨h₃, e₃⟩ := hplace _ socketFile h₂
  obtain ⟨h₄, e₄⟩ := hplace _ socketFile h₃
  have hrandom : (if getrandom then open9pfsSocket spec t
      else (open9pfsSocket spec t).place urandomFile) =
      if !getrandom then (open9pfsSocket spec t).place urandomFile else open9pfsSocket spec t := by
    cases getrandom <;> rfl
  unfold osExtrafiles
  rw [hrandom, Table.file_close, if_neg (by unfold open9pfsSocket; omega)]
  exact e₄.trans (e₃.trans (e₂.trans e₁))

/-- With `execveat`, the walk of the program is the one it would be had nothing
been opened for it. -/
theorem walk_execveat (spec getrandom : Bool) (t : Table) :
    walk junk lst ifr sa slen (opened true spec getrandom t).executed =
      walk junk lst ifr sa slen t.executed := by
  have hfile : ∀ k ≤ t.nfds, (opened true spec getrandom t).file k =
      (t.place programFile).file k := by
    intro k hk
    exact file_opened (Nat.lt_of_le_of_lt hk (t.nfds_lt_place programFile))
  have hgap : (opened true spec getrandom t).executed t.nfds = none := by
    rw [Table.executed, hfile _ (le_refl _), Table.file_place, if_pos rfl]
    rfl
  apply walkFrom_congr _ hgap MAXFD (Nat.zero_le _)
  intro k hk
  rcases Nat.lt_or_eq_of_le hk with hlt | rfl
  · rw [Table.executed, hfile k hk, Table.file_place, if_neg (by omega), Table.executed]
  · rw [hgap, Table.executed, Table.file_nfds]
    rfl

theorem place_map (l : List File) (f : File) :
    Table.place (l.map some) f = (l ++ [f]).map some := by
  induction l with
  | nil => rfl
  | cons g l ih => rw [List.map_cons, Table.place, ih, List.cons_append, List.map_cons]

/-- The files of the build without `execveat`, in the order of their numbers. -/
def handedOver (spec getrandom : Bool) (files : List File) : List File :=
  files ++ (if spec then [socketFile] else []) ++ (if getrandom then [] else [urandomFile]) ++
    [socketFile]

theorem file_map (l : List File) (k : Nat) : Table.file (l.map some) k = l[k]? := by
  unfold Table.file
  rw [List.getD_eq_getElem?_getD, List.getElem?_map]
  cases l[k]? <;> rfl

theorem nfds_map (l : List File) : Table.nfds (l.map some) = l.length := by
  unfold Table.nfds
  rw [List.takeWhile_eq_self_iff.mpr (by simp), List.length_map]

theorem file_opened_plain (spec getrandom : Bool) (files : List File) (k : Nat) :
    (opened false spec getrandom (files.map some)).file k =
      (handedOver spec getrandom files)[k]? := by
  have hopened : opened false spec getrandom (files.map some) =
      Table.close ((handedOver spec getrandom files ++ [socketFile]).map some)
        (handedOver spec getrandom files).length := by
    cases spec <;> cases getrandom <;>
      simp only [opened, osInitOpen, open9pfsSocket, osExtrafiles, place_map, nfds_map, handedOver,
        if_true, Bool.false_eq_true, if_false, List.append_nil]
  rw [hopened, Table.file_close, file_map]
  split
  · rename_i heq
    rw [heq, List.getElem?_eq_none (le_refl _)]
  · rename_i hne
    by_cases hlt : k < (handedOver spec getrandom files).length
    · rw [List.getElem?_append_left hlt]
    · rw [List.getElem?_eq_none (by simp; omega), List.getElem?_eq_none (by omega)]

/-- Over a table without gaps the walk goes to its end. -/
theorem ahead_full {l : List File} {n : Nat} (hn : l.length ≤ n) :
    ahead (fun k => l[k]?) 0 n = List.range' 0 l.length := by
  obtain ⟨d, rfl⟩ := Nat.exists_eq_add_of_le hn
  unfold ahead
  rw [← List.range'_append_1, List.takeWhile_append_of_pos]
  · cases d with
    | zero => simp
    | succ d => rw [List.range'_succ, List.takeWhile_cons_of_neg (by simp), List.append_nil]
  · intro k hk
    simpa using hk

/-- The last file of a kind is the one that is found. -/
theorem getLast?_those {q : File → Bool} {a b : List File} {f : File} (hq : q f = true)
    (hb : ∀ g ∈ b, q g = false) :
    (those (fun k => (a ++ f :: b)[k]?) q (List.range' 0 (a ++ f :: b).length)).getLast? =
      some a.length := by
  have hrange : List.range' 0 (a ++ f :: b).length =
      List.range' 0 a.length ++ (a.length :: List.range' (a.length + 1) b.length) := by
    rw [List.length_append, List.length_cons, ← List.range'_append_1, Nat.zero_add,
      List.range'_succ]
  have hhead : Option.any q (a ++ f :: b)[a.length]? = true := by simp [hq]
  have htail : (List.range' (a.length + 1) b.length).filter
      (fun k => Option.any q (a ++ f :: b)[k]?) = [] := by
    apply List.filter_eq_nil_iff.mpr
    intro k hk
    obtain ⟨hge, hlt⟩ := List.mem_range'_1.mp hk
    obtain ⟨i, rfl⟩ := Nat.exists_eq_add_of_le hge
    have hget : (a ++ f :: b)[a.length + 1 + i]? = b[i]? := by
      rw [List.getElem?_append_right (by omega), show a.length + 1 + i - a.length = i + 1 by omega,
        List.getElem?_cons_succ]
    rw [hget, List.getElem?_eq_getElem (by omega), Option.any_some, hb _ (List.getElem_mem _)]
    exact Bool.false_ne_true
  rw [those, hrange, List.filter_append, List.filter_cons, if_pos hhead, htail,
    List.getLast?_append_of_ne_nil _ (by simp)]
  rfl

theorem walk_plain {spec getrandom : Bool} {files : List File}
    (hclo : ∀ f ∈ files, f.cloexec = false)
    (hmax : (handedOver spec getrandom files).length ≤ MAXFD) :
    (walk junk lst ifr sa slen (opened false spec getrandom (files.map some)).executed).2 =
      Found.none.after (fun k => (handedOver spec getrandom files)[k]?)
        (List.range' 0 (handedOver spec getrandom files).length) := by
  have hfds : (opened false spec getrandom (files.map some)).executed =
      fun k => (handedOver spec getrandom files)[k]? := by
    funext k
    rw [Table.executed, file_opened_plain]
    cases hf : (handedOver spec getrandom files)[k]? with
    | none => rfl
    | some f =>
      have hmem : f ∈ handedOver spec getrandom files := List.mem_of_getElem? hf
      have hextra : f ∈ files ∨ f = socketFile ∨ f = urandomFile := by
        cases spec <;> cases getrandom <;> simp [handedOver] at hmem <;> tauto
      rcases hextra with hf | rfl | rfl
      · simp [hclo f hf]
      · rfl
      · rfl
  rw [hfds, walk_found, ahead_full hmax]

end Extra

/-- The files `rexec` opens for the program's walk. Without `execveat` the walk
finds the socket, and the source of random numbers if there is one. With
`execveat` the program's own descriptor, which lies in front of them, is closed
when it is executed, and the walk does not get past it: all its calls and all it
finds are as if nothing had been opened. -/
theorem extra_files_found (spec getrandom : Bool) (junk : Fin 6 → UInt64)
    (lst ifr sa slen : UInt64) :
    (∀ (files : List File) (s : Found), (∀ f ∈ files, f.cloexec = false) →
      (handedOver spec getrandom files).length ≤ MAXFD →
      (walk junk lst ifr sa slen (opened false spec getrandom (files.map some)).executed).2 = s →
      s.socketFd = some ((handedOver spec getrandom files).length - 1) ∧
      (getrandom = false → s.randomFd = some ((handedOver spec getrandom files).length - 2))) ∧
    ∀ t : Table, walk junk lst ifr sa slen (opened true spec getrandom t).executed =
      walk junk lst ifr sa slen t.executed := by
  refine ⟨?_, walk_execveat spec getrandom⟩
  intro files s hclo hmax hs
  rw [walk_plain hclo hmax] at hs
  subst hs
  constructor
  · have hlast := getLast?_those (q := isSocket) (b := [])
      (a := files ++ (if spec then [socketFile] else []) ++
        (if getrandom then [] else [urandomFile])) (f := socketFile) rfl (by simp)
    simp only [Found.after, Found.none, Option.or_none]
    rw [handedOver, hlast]
    simp only [List.length_append, List.length_singleton, Nat.add_sub_cancel]
  · rintro rfl
    have hlast := getLast?_those (q := isRandom) (b := [socketFile])
      (a := files ++ (if spec then [socketFile] else [])) (f := urandomFile) rfl
      (by simp [isRandom, socketFile])
    have hsplit : handedOver spec false files =
        (files ++ (if spec then [socketFile] else [])) ++ urandomFile :: [socketFile] := by
      simp [handedOver]
    simp only [Found.after, Found.none, Option.or_none]
    rw [hsplit, hlast]
    simp only [List.length_append, List.length_cons, List.length_nil, Nat.add_sub_cancel]

/-- One regular file: its program finds the two extra files, but not if it was
executed with `execveat`. -/
theorem extra_files_found_regular :
    (walk (fun _ => 0) 1 2 3 4
      (opened false false false [some ⟨O_RDWR, .reg, (0, 0), false, none, false⟩]).executed).2 =
      ⟨some 1, some 2, []⟩ ∧
    (walk (fun _ => 0) 1 2 3 4
      (opened true false false [some ⟨O_RDWR, .reg, (0, 0), false, none, false⟩]).executed).2 =
      ⟨none, none, []⟩ := by
  obtain ⟨hplain, hexec⟩ := extra_files_found false false (fun _ => 0) 1 2 3 4
  obtain ⟨hsock, hrandom⟩ := hplain [⟨O_RDWR, .reg, (0, 0), false, none, false⟩] _
    (by decide) (by decide) rfl
  refine ⟨?_, by rw [hexec]; rfl⟩
  exact congrArg₂ (fun r k => (⟨r, k, []⟩ : Found)) (hrandom rfl) hsock

end Frankenlibc.Linux.Start

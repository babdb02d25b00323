import Frankenlibc.Init.Fdinit

/-!
# What the loop over the environment does

A round is defined if the descriptor of its entry is in the table (`Ready`).
What it does then is said field by field: the calls it makes, the entries it
marks, and where the disk number comes from. The loop is taken round by round.
-/
namespace Frankenlibc.Init

open Frankenlibc.Lib

/-- The descriptor an entry names. -/
def fdOf (env : CStr) : Int := atoi ((valueOf env).getD [])

/-- An entry the code takes for one of its own. -/
def passed (env : CStr) : Bool := (valueOf env).isSome && isPassed env

variable {h : Host} {environ : List CStr} {n k : Nat} {env : CStr} {s s' : Fdinit} {fd : Int}

/-! ## Prefixes -/

theorem strncmp_of_le {a b c : CStr} {m n : Nat} (h : strncmp a b n = true) (hm : m ≤ n)
    (hc : b.take m = c.take m) : strncmp a c m = true := by
  rw [strncmp, beq_iff_eq] at h ⊢
  calc a.take m = (a.take n).take m := by rw [List.take_take, Nat.min_eq_left hm]
    _ = b.take m := by rw [h, List.take_take, Nat.min_eq_left hm]
    _ = c.take m := hc

theorem isPassed_of_isConfig (he : isConfig env = true) : isPassed env = true := by
  rw [isPassed, strncmp_of_le he (by decide) (by decide), Bool.true_or]

theorem isPassed_of_isDisk (he : isDisk env = true) : isPassed env = true := by
  rw [isPassed]
  rcases Bool.or_eq_true_iff.mp he with he | he
  · rw [strncmp_of_le he (by decide) (by decide), Bool.true_or]
  · rw [strncmp_of_le he (by decide) (by decide), Bool.true_or]

theorem isPassed_of_isNet (he : isNet env = true) : isPassed env = true := by
  rw [isPassed, strncmp_of_le he (by decide) (by decide), Bool.true_or]

theorem isPassed_of_isNinep (he : isNinep env = true) : isPassed env = true := by
  rw [isPassed]
  exact Bool.or_eq_true_iff.mpr (.inr he)

/-! ## One round -/

@[simp] theorem modify_fd (s : Fdinit) (n : Nat) (f : Fdtable → Fdtable) (k : Nat) :
    (s.modify n f).fd k = if k = n then f (s.fd k) else s.fd k := by
  show Function.update s.fd n (f (s.fd n)) k = _
  rw [Function.update_apply]
  split
  · rename_i hk
    rw [hk]
  · rfl

theorem store_of_inTable {f : Fdtable → Fdtable} (hfd : 0 ≤ fd ∧ fd < MAXFD) :
    s.store fd f = some (s.modify fd.toNat f) := if_pos hfd

theorem store_outside {f : Fdtable → Fdtable} (hfd : ¬(0 ≤ fd ∧ fd < MAXFD)) :
    s.store fd f = none := if_neg hfd

/-- What `mark` does where it is defined. -/
def marked (h : Host) (n : Nat) (fd : Int) (s : Fdinit) : Fdinit :=
  let s := s.modify fd.toNat fun e => { e with valid := true, flags := h.getfl fd }
  match h.fstat fd with
  | none =>
    (s.modify n fun e => { e with valid := false }).modify fd.toNat fun e => { e with st := .zero }
  | some st => s.modify fd.toNat fun e => { e with st := st }

theorem mark_eq (h : Host) (n : Nat) (fd : Int) (s : Fdinit) :
    mark h n fd s =
      if (0 ≤ fd ∧ fd < MAXFD) ∧ (h.fstat fd = none → n < MAXFD) then some (marked h n fd s)
      else none := by
  unfold mark marked
  by_cases hfd : 0 ≤ fd ∧ fd < MAXFD
  · rw [store_of_inTable hfd]
    cases hst : h.fstat fd with
    | none =>
      by_cases hn : n < MAXFD
      · rw [if_pos ⟨hfd, fun _ => hn⟩]
        have hn' : 0 ≤ (n : Int) ∧ (n : Int) < MAXFD := ⟨Int.natCast_nonneg n, by exact_mod_cast hn⟩
        simp [store_of_inTable hfd, store_of_inTable hn']
      · rw [if_neg fun hx => hn (hx.2 rfl)]
        have hn' : ¬(0 ≤ (n : Int) ∧ (n : Int) < MAXFD) := fun hx => hn (by exact_mod_cast hx.2)
        simp [store_outside hn']
    | some st =>
      rw [if_pos ⟨hfd, fun hx => by cases hx⟩]
      simp [store_of_inTable hfd]
  · rw [if_neg fun hx => hfd hx.1]
    simp [store_outside hfd]

/-- The round of an entry is defined. -/
def Ready (h : Host) (environ : List CStr) (n : Nat) (env : CStr) : Prop :=
  passed env = true →
    (0 ≤ fdOf env ∧ fdOf env < MAXFD) ∧ (h.fstat (fdOf env) = none → n < MAXFD) ∧
      (isNinep env = true → getenv environ "9PFS_FD".toList ≠ none)

/-- The calls of a round. -/
def issued (environ : List CStr) (env : CStr) : List Call :=
  if (valueOf env).isSome then
    (if isConfig env then [.config (fdOf env)] else []) ++
      (if isDisk env then [.disk (fdOf env)] else []) ++
      (if isNet env then [.net (fdOf env)] else []) ++
      if isNinep env then [.ninep (atoi ((getenv environ "9PFS_FD".toList).getD []))] else []
  else []

/-- What a round does where it is defined. -/
def round (h : Host) (environ : List CStr) (n : Nat) (env : CStr) (s : Fdinit) : Fdinit :=
  if (valueOf env).isSome then
    let fd := fdOf env
    let s := addConfig env fd (if isPassed env then marked h n fd s else s)
    let s := if isDisk env then
        (s.modify fd.toNat fun e => { e with seek := true }).diskAdd h fd else s
    let s := if isNet env then
        (s.modify fd.toNat fun e => { e with seek := false }).call (.net fd) else s
    if isNinep env then
      (s.modify fd.toNat fun e => { e with seek := false }).call
        (.ninep (atoi ((getenv environ "9PFS_FD".toList).getD [])))
    else s
  else s

theorem addDisk_of_inTable (he : isDisk env = true → 0 ≤ fd ∧ fd < MAXFD) :
    addDisk h env fd s = some (if isDisk env then
      (s.modify fd.toNat fun e => { e with seek := true }).diskAdd h fd else s) := by
  unfold addDisk
  split
  · rw [store_of_inTable (he ‹_›)]
    rfl
  · rfl

theorem addNet_of_inTable (he : isNet env = true → 0 ≤ fd ∧ fd < MAXFD) :
    addNet env fd s = some (if isNet env then
      (s.modify fd.toNat fun e => { e with seek := false }).call (.net fd) else s) := by
  unfold addNet
  split
  · rw [store_of_inTable (he ‹_›)]
    rfl
  · rfl

theorem addNinep_of_inTable (he : isNinep env = true →
      (0 ≤ fd ∧ fd < MAXFD) ∧ getenv environ "9PFS_FD".toList ≠ none) :
    addNinep environ env fd s = some (if isNinep env then
      (s.modify fd.toNat fun e => { e with seek := false }).call
        (.ninep (atoi ((getenv environ "9PFS_FD".toList).getD []))) else s) := by
  unfold addNinep
  split
  · obtain ⟨hfd, hg⟩ := he ‹_›
    obtain ⟨tmpfd, hg⟩ := Option.ne_none_iff_exists'.mp hg
    rw [store_of_inTable hfd, hg]
    rfl
  · rfl

theorem fdOf_eq {var : CStr} (hv : valueOf env = some var) : fdOf env = atoi var := by
  rw [fdOf, hv]
  rfl

theorem addPassed_of_inTable (hr : isPassed env = true →
      (0 ≤ fd ∧ fd < MAXFD) ∧ (h.fstat fd = none → n < MAXFD)) :
    addPassed h n env fd s = some (if isPassed env then marked h n fd s else s) := by
  unfold addPassed
  split
  · rw [mark_eq, if_pos (hr ‹_›)]
  · rfl

theorem scan_ready (hr : Ready h environ n env) :
    scan h environ n env s = some (round h environ n env s) := by
  unfold scan round
  cases hv : valueOf env with
  | none => rfl
  | some var =>
    have hin : isPassed env = true → _ := fun hp => hr (by rw [passed, hv, hp]; rfl)
    rw [fdOf_eq hv] at hin ⊢
    simp only [addPassed_of_inTable fun hp => ⟨(hin hp).1, (hin hp).2.1⟩, Option.bind_eq_bind,
      Option.bind_some, Option.isSome_some, if_true,
      addDisk_of_inTable fun hd => (hin (isPassed_of_isDisk hd)).1,
      addNet_of_inTable fun hd => (hin (isPassed_of_isNet hd)).1,
      addNinep_of_inTable fun hd => ⟨(hin (isPassed_of_isNinep hd)).1,
        (hin (isPassed_of_isNinep hd)).2.2 hd⟩]

theorem scan_unready (hr : ¬Ready h environ n env) : scan h environ n env s = none := by
  unfold Ready at hr
  obtain ⟨hp, hr⟩ := Classical.not_imp.mp hr
  obtain ⟨hv, hp⟩ := (Bool.and_eq_true_iff ..).mp hp
  obtain ⟨var, hv⟩ := Option.isSome_iff_exists.mp hv
  unfold scan
  rw [fdOf_eq hv] at hr
  simp only [addPassed, hv, hp, if_true, mark_eq, Option.bind_eq_bind]
  split
  · rename_i hm
    have hnine : isNinep env = true ∧ getenv environ "9PFS_FD".toList = none := by
      by_contra hx
      exact hr ⟨hm.1, hm.2, fun he hg => hx ⟨he, hg⟩⟩
    simp only [Option.bind_some, addDisk_of_inTable fun _ => hm.1, addNet_of_inTable fun _ => hm.1]
    rw [addNinep, if_pos hnine.1, store_of_inTable hm.1, hnine.2]
    rfl
  · rfl

/-! ## What a round changes -/

@[simp] theorem modify_calls (s : Fdinit) (n : Nat) (f : Fdtable → Fdtable) :
    (s.modify n f).calls = s.calls := rfl

@[simp] theorem modify_diskId (s : Fdinit) (n : Nat) (f : Fdtable → Fdtable) :
    (s.modify n f).diskId = s.diskId := rfl

@[simp] theorem call_fd (s : Fdinit) (c : Call) : (s.call c).fd = s.fd := rfl

@[simp] theorem call_calls (s : Fdinit) (c : Call) : (s.call c).calls = s.calls ++ [c] := rfl

@[simp] theorem call_diskId (s : Fdinit) (c : Call) : (s.call c).diskId = s.diskId := rfl

@[simp] theorem diskAdd_fd (s : Fdinit) (h : Host) (fd : Int) : (s.diskAdd h fd).fd = s.fd := rfl

@[simp] theorem diskAdd_calls (s : Fdinit) (h : Host) (fd : Int) :
    (s.diskAdd h fd).calls = s.calls ++ [.disk fd] := rfl

@[simp] theorem diskAdd_diskId (s : Fdinit) (h : Host) (fd : Int) :
    (s.diskAdd h fd).diskId = h.diskAdd (s.calls.countP Call.isDisk) := rfl

@[simp] theorem addConfig_fd (env : CStr) (fd : Int) (s : Fdinit) :
    (addConfig env fd s).fd = s.fd := by
  unfold addConfig
  split <;> rfl

@[simp] theorem addConfig_diskId (env : CStr) (fd : Int) (s : Fdinit) :
    (addConfig env fd s).diskId = s.diskId := by
  unfold addConfig
  split <;> rfl

@[simp] theorem addConfig_calls (env : CStr) (fd : Int) (s : Fdinit) :
    (addConfig env fd s).calls = s.calls ++ if isConfig env then [.config fd] else [] := by
  unfold addConfig
  split
  · rfl
  · rw [List.append_nil]

theorem marked_frame (h : Host) (n : Nat) (fd : Int) (s : Fdinit) :
    (marked h n fd s).calls = s.calls ∧ (marked h n fd s).diskId = s.diskId := by
  unfold marked
  cases h.fstat fd <;> exact ⟨rfl, rfl⟩

theorem marked_fd (h : Host) (n : Nat) (fd : Int) (s : Fdinit) (k : Nat) :
    ((marked h n fd s).fd k).valid =
        (if h.fstat fd = none ∧ k = n then false else if k = fd.toNat then true else (s.fd k).valid) ∧
      ((marked h n fd s).fd k).seek = (s.fd k).seek := by
  unfold marked
  cases hst : h.fstat fd with
  | none =>
    simp only [modify_fd, true_and]
    split_ifs <;> exact ⟨rfl, rfl⟩
  | some st =>
    simp only [modify_fd, reduceCtorEq, false_and, if_false]
    split_ifs <;> exact ⟨rfl, rfl⟩

theorem round_calls (h : Host) (environ : List CStr) (n : Nat) (env : CStr) (s : Fdinit) :
    (round h environ n env s).calls = s.calls ++ issued environ env := by
  have hm : (if isPassed env then marked h n (fdOf env) s else s).calls = s.calls := by
    split
    · exact (marked_frame ..).1
    · rfl
  unfold round issued
  split
  · simp only
    cases isDisk env <;> cases isNet env <;> cases isNinep env <;>
      simp [hm]
  · rw [List.append_nil]

theorem round_diskId (h : Host) (environ : List CStr) (n : Nat) (env : CStr) (s : Fdinit) :
    (round h environ n env s).diskId = if (valueOf env).isSome ∧ isDisk env then
      h.diskAdd (s.calls.countP Call.isDisk) else s.diskId := by
  have hm : (if isPassed env then marked h n (fdOf env) s else s).diskId = s.diskId ∧
      (if isPassed env then marked h n (fdOf env) s else s).calls = s.calls := by
    split
    · exact ⟨(marked_frame ..).2, (marked_frame ..).1⟩
    · exact ⟨rfl, rfl⟩
  have hc : (if isConfig env then [Call.config (fdOf env)] else []).countP Call.isDisk = 0 := by
    split <;> rfl
  unfold round
  split
  · rename_i hv
    simp only
    cases isDisk env <;> cases isNet env <;> cases isNinep env <;>
      simp [hm.1, hm.2, hc, hv]
  · rename_i hv
    rw [if_neg fun hx => hv hx.1]

/-- A round marks the descriptor of its entry, and unmarks the one with the
number of the round if `fstat` fails. -/
theorem round_valid (h : Host) (environ : List CStr) (n : Nat) (env : CStr) (s : Fdinit) (k : Nat) :
    ((round h environ n env s).fd k).valid =
      if passed env ∧ h.fstat (fdOf env) = none ∧ k = n then false
      else if passed env ∧ k = (fdOf env).toNat then true else (s.fd k).valid := by
  unfold round passed
  cases hv : (valueOf env).isSome with
  | false => simp
  | true =>
    have hm := (marked_fd h n (fdOf env) s k).1
    cases isPassed env <;> cases isDisk env <;> cases isNet env <;> cases isNinep env <;>
      by_cases hk : k = (fdOf env).toNat <;> simp [hk] at hm ⊢ <;> simp [hm]

/-- A disk can be sought in; a network device and a 9p socket cannot. -/
theorem round_seek (h : Host) (environ : List CStr) (n : Nat) (env : CStr) (s : Fdinit) (k : Nat) :
    ((round h environ n env s).fd k).seek =
      if (valueOf env).isSome ∧ k = (fdOf env).toNat then
        if isNet env ∨ isNinep env then false else if isDisk env then true else (s.fd k).seek
      else (s.fd k).seek := by
  unfold round
  cases hv : (valueOf env).isSome with
  | false => simp
  | true =>
    have hm := (marked_fd h n (fdOf env) s k).2
    cases isPassed env <;> cases isDisk env <;> cases isNet env <;> cases isNinep env <;>
      by_cases hk : k = (fdOf env).toNat <;> simp [hk] at hm ⊢ <;> simp [hm]

/-! ## The whole loop -/

def ReadyFrom (h : Host) (environ : List CStr) : Nat → List CStr → Prop
  | _, [] => True
  | n, env :: rest => Ready h environ n env ∧ ReadyFrom h environ (n + 1) rest

/-- Every round is defined. -/
def Defined (h : Host) (environ : List CStr) : Prop :=
  ∀ n env, (rounds environ)[n]? = some env → Ready h environ n env

def roundsFrom (h : Host) (environ : List CStr) : Nat → List CStr → Fdinit → Fdinit
  | _, [], s => s
  | n, env :: rest, s => roundsFrom h environ (n + 1) rest (round h environ n env s)

theorem readyFrom_iff {es : List CStr} :
    ReadyFrom h environ n es ↔ ∀ i env, es[i]? = some env → Ready h environ (n + i) env := by
  induction es generalizing n with
  | nil => simp [ReadyFrom]
  | cons e es ih =>
    rw [ReadyFrom, ih]
    constructor
    · rintro ⟨hr, hrest⟩ i env hi
      cases i with
      | zero =>
        cases hi
        exact hr
      | succ i =>
        rw [← Nat.succ_add_eq_add_succ]
        exact hrest i env hi
    · intro hall
      refine ⟨hall 0 e rfl, fun i env hi => ?_⟩
      rw [Nat.succ_add_eq_add_succ]
      exact hall (i + 1) env hi

theorem scanFrom_ready {es : List CStr} (hr : ReadyFrom h environ n es) :
    scanFrom h environ n es s = some (roundsFrom h environ n es s) := by
  induction es generalizing n s with
  | nil => rfl
  | cons e es ih => rw [scanFrom, scan_ready hr.1, Option.bind_some, ih hr.2, roundsFrom]

theorem scanFrom_unready {es : List CStr} (hr : ¬ReadyFrom h environ n es) :
    scanFrom h environ n es s = none := by
  induction es generalizing n s with
  | nil => exact absurd trivial hr
  | cons e es ih =>
    by_cases he : Ready h environ n e
    · rw [scanFrom, scan_ready he, Option.bind_some]
      exact ih fun hx => hr ⟨he, hx⟩
    · rw [scanFrom, scan_unready he, Option.bind_none]

/-- The state the loop starts from. -/
def start (h : Host) : Fdinit := stdio h (stdio h (stdio h .zero 0) 1) 2

/-- `__franken_fdinit` is defined if every round is, and then it is all the
rounds. -/
theorem frankenFdinit_eq_some : frankenFdinit h environ = some s ↔
    Defined h environ ∧ s = roundsFrom h environ 0 (rounds environ) (start h) := by
  have hdef : Defined h environ ↔ ReadyFrom h environ 0 (rounds environ) := by
    rw [readyFrom_iff]
    simp only [Nat.zero_add]
    exact Iff.rfl
  rw [hdef]
  by_cases hr : ReadyFrom h environ 0 (rounds environ)
  · rw [frankenFdinit, scanFrom_ready hr, Option.some.injEq]
    exact ⟨fun hs => ⟨hr, hs.symm⟩, fun hs => hs.2.symm⟩
  · rw [frankenFdinit, scanFrom_unready hr]
    exact ⟨fun hs => absurd hs (by simp), fun hs => absurd hs.1 hr⟩

theorem mem_rounds {environ : List CStr} : env ∈ rounds environ ↔ env ∈ environ := by
  cases environ with
  | nil => exact Iff.rfl
  | cons e es => simp [rounds]

/-- The table has the descriptor of an entry that is passed. -/
theorem Defined.inTable (hd : Defined h environ) (he : env ∈ environ) (hp : passed env = true) :
    0 ≤ fdOf env ∧ fdOf env < MAXFD := by
  obtain ⟨i, hi⟩ := List.getElem?_of_mem (mem_rounds.mpr he)
  exact (hd i env hi hp).1

theorem defined_iff (hst : ∀ fd, h.fstat fd ≠ none) : Defined h environ ↔
    ∀ env ∈ environ, passed env = true → (0 ≤ fdOf env ∧ fdOf env < MAXFD) ∧
      (isNinep env = true → getenv environ "9PFS_FD".toList ≠ none) := by
  constructor
  · intro hd env he hp
    obtain ⟨i, hi⟩ := List.getElem?_of_mem (mem_rounds.mpr he)
    exact ⟨(hd i env hi hp).1, (hd i env hi hp).2.2⟩
  · intro hall n env hi hp
    obtain ⟨hin, hg⟩ := hall env (mem_rounds.mp (List.mem_of_getElem? hi)) hp
    exact ⟨hin, fun hx => absurd hx (hst _), hg⟩

theorem roundsFrom_calls {es : List CStr} :
    (roundsFrom h environ n es s).calls = s.calls ++ es.flatMap (issued environ) := by
  induction es generalizing n s with
  | nil => simp [roundsFrom]
  | cons e es ih => rw [roundsFrom, ih, round_calls, List.flatMap_cons, List.append_assoc]

/-- What an entry says about `seek` of a descriptor. -/
def seeks (k : Nat) (env : CStr) : Option Bool :=
  if (valueOf env).isSome ∧ k = (fdOf env).toNat then
    if isNet env ∨ isNinep env then some false else if isDisk env then some true else none
  else none

/-- What the entries say about it in the end. -/
def lastWord (k : Nat) (es : List CStr) : Option Bool := (es.filterMap (seeks k)).getLast?

theorem lastWord_cons {es : List CStr} {b : Bool} :
    (lastWord k (env :: es)).getD b = (lastWord k es).getD ((seeks k env).getD b) := by
  unfold lastWord
  rw [List.filterMap_cons]
  cases seeks k env with
  | none => rfl
  | some v => exact congrArg (Option.getD · b) List.getLast?_cons

theorem roundsFrom_seek {es : List CStr} :
    ((roundsFrom h environ n es s).fd k).seek = (lastWord k es).getD (s.fd k).seek := by
  induction es generalizing n s with
  | nil => rfl
  | cons e es ih =>
    have hround : ((round h environ n e s).fd k).seek = (seeks k e).getD (s.fd k).seek := by
      rw [round_seek, seeks]
      split_ifs <;> rfl
    rw [roundsFrom, ih, hround, lastWord_cons]

theorem lastWord_rounds {b : Bool} :
    (lastWord k (rounds environ)).getD b = (lastWord k environ).getD b := by
  cases environ with
  | nil => rfl
  | cons e es =>
    rw [rounds, lastWord_cons, lastWord_cons, lastWord_cons]
    cases seeks k e <;> rfl

theorem stdio_frame (h : Host) (s : Fdinit) (n : Nat) :
    (stdio h s n).calls = s.calls ∧ (stdio h s n).diskId = s.diskId := by
  unfold stdio
  split <;> exact ⟨rfl, rfl⟩

theorem start_calls (h : Host) : (start h).calls = [] := by
  rw [start, (stdio_frame ..).1, (stdio_frame ..).1, (stdio_frame ..).1]
  rfl

theorem stdio_fd (hst : ∀ fd, h.fstat fd ≠ none) :
    ((stdio h s n).fd k).valid = (if k = n then true else (s.fd k).valid) ∧
      ((stdio h s n).fd k).seek = (if k = n then false else (s.fd k).seek) := by
  obtain ⟨st, hx⟩ := Option.ne_none_iff_exists'.mp (hst n)
  unfold stdio
  rw [hx]
  simp only [modify_fd]
  split <;> exact ⟨rfl, rfl⟩

/-- The loop starts with the first three descriptors marked. -/
theorem start_fd (hst : ∀ fd, h.fstat fd ≠ none) :
    (((start h).fd k).valid = true ↔ k ≤ 2) ∧ ((start h).fd k).seek = false := by
  unfold start
  rw [(stdio_fd hst).1, (stdio_fd hst).2, (stdio_fd hst).1, (stdio_fd hst).2, (stdio_fd hst).1,
    (stdio_fd hst).2]
  constructor
  · split_ifs <;> simp [Fdinit.zero] <;> omega
  · split_ifs <;> rfl

end Frankenlibc.Init

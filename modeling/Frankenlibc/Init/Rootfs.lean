import Frankenlibc.Init.Devices
import Frankenlibc.Init.Marks

/-!
# The root file system

`register_block` mounts `disk_id`, which is what the last `lkl_disk_add` of the
loop returned, whatever disk that was for. So the root that is mounted is the
disk of the last entry for one. Whether the root is mounted at all depends on
its mark in the table, which a failing `fstat` takes from the descriptor with
the number of the round.
-/
namespace Frankenlibc.Init

open Frankenlibc.Lib

variable {h : Host} {environ : List CStr} {n k : Nat} {env e : CStr} {s : Fdinit}

/-- An entry for which a disk is added. -/
def disk (env : CStr) : Bool := (valueOf env).isSome && isDisk env

def Call.diskFd : Call → Option Int
  | .disk fd => some fd
  | _ => none

/-- The descriptors for which a disk was added, with what `lkl_disk_add`
returned. -/
def added (h : Host) (s : Fdinit) : List (Int × Int) :=
  (s.calls.filterMap Call.diskFd).mapIdx fun i fd => (fd, h.diskAdd i)

def Effect.isBlock : Effect → Bool
  | .block _ => true
  | _ => false

/-! ## The disk number -/

theorem issued_disks : (issued environ env).filterMap Call.diskFd =
    if disk env then [fdOf env] else [] := by
  unfold issued disk
  cases (valueOf env).isSome with
  | false => rfl
  | true => cases isConfig env <;> cases isDisk env <;> cases isNet env <;> cases isNinep env <;> rfl

theorem flatMap_disks (es : List CStr) :
    (es.flatMap (issued environ)).filterMap Call.diskFd = (es.filter disk).map fdOf := by
  induction es with
  | nil => rfl
  | cons e es ih =>
    rw [List.flatMap_cons, List.filterMap_append, ih, issued_disks, List.filter_cons]
    split <;> rfl

theorem countP_isDisk (l : List Call) : l.countP Call.isDisk = (l.filterMap Call.diskFd).length := by
  induction l with
  | nil => rfl
  | cons c l ih =>
    rw [List.countP_cons, List.filterMap_cons, ih]
    cases c <;> rfl

/-- `disk_id` is what the last `lkl_disk_add` returned. -/
def LastDisk (h : Host) (s : Fdinit) : Prop :=
  s.calls.filterMap Call.diskFd ≠ [] →
    s.diskId = h.diskAdd ((s.calls.filterMap Call.diskFd).length - 1)

theorem round_lastDisk (hl : LastDisk h s) : LastDisk h (round h environ n env s) := by
  unfold LastDisk at hl ⊢
  rw [round_calls, round_diskId, List.filterMap_append, issued_disks, countP_isDisk]
  by_cases hd : disk env = true
  · intro _
    rw [if_pos ((Bool.and_eq_true_iff ..).mp hd), if_pos hd, List.length_append]
    rfl
  · rw [if_neg fun hx => hd ((Bool.and_eq_true_iff ..).mpr hx), if_neg hd, List.append_nil]
    exact hl

theorem roundsFrom_lastDisk {es : List CStr} (hl : LastDisk h s) :
    LastDisk h (roundsFrom h environ n es s) := by
  induction es generalizing n s with
  | nil => exact hl
  | cons e es ih => exact ih (round_lastDisk hl)

/-- The disk with that number is the one of a descriptor exactly if the last
disk was added for it. -/
theorem added_lastDisk (hids : Function.Injective h.diskAdd) (hl : LastDisk h s) {fd : Int}
    (hne : s.calls.filterMap Call.diskFd ≠ []) :
    (fd, s.diskId) ∈ added h s ↔ (s.calls.filterMap Call.diskFd).getLast? = some fd := by
  rw [hl hne, added, List.mem_mapIdx, List.getLast?_eq_getElem?, List.getElem?_eq_some_iff]
  constructor
  · rintro ⟨i, hi, heq⟩
    obtain ⟨hfd, hid⟩ := Prod.mk.inj heq
    obtain rfl := hids hid
    exact ⟨hi, hfd⟩
  · rintro ⟨hi, hfd⟩
    exact ⟨_, hi, by rw [hfd]⟩

theorem rounds_last (p : CStr → Bool) (environ : List CStr) :
    ((rounds environ).filter p).getLast? = (environ.filter p).getLast? := by
  cases environ with
  | nil => rfl
  | cons e es =>
    rw [rounds, List.filter_cons, List.filter_cons]
    split
    · rw [List.getLast?_cons_cons]
    · rfl

/-! ## The mount -/

theorem createRest_root {m : Mount} {fd : Nat} (hm : .block m ∈ createRest h s n fd) :
    m.root = false := by
  induction n generalizing fd with
  | zero => cases hm
  | succ n ih =>
    rw [createRest] at hm
    split at hm
    · split at hm
      · exact ih hm
      · rcases List.mem_cons.mp hm with hm | hm
        · cases hm
          rfl
        · exact ih hm
      · rcases List.mem_cons.mp hm with hm | hm
        · cases hm
        · exact ih hm
      · exact ih hm
    · cases hm

theorem createStdio_block {m : Mount} : .block m ∉ createStdio h s n := by
  have hreg : .block m ∉ (registerReg h s n).2 := by
    unfold registerReg
    split <;> simp
  unfold createStdio
  split
  · simp only
    split
    · simp [hreg]
    · exact hreg
  · simp

theorem createRoot_eq (hv : getenv environ "__RUMP_FDINFO_ROOT".toList = some env)
    (hfd : 0 ≤ atoi env ∧ atoi env < MAXFD) : ∃ u, createRoot h environ s =
      some (u, if (s.fd (atoi env).toNat).valid then
        [.block (registerBlock h s (atoi env).toNat true)] else []) := by
  unfold createRoot
  simp only [hv, if_pos hfd]
  split <;> exact ⟨_, rfl⟩

/-- The one thing `register_block` is called for as the root. -/
theorem create_root (hv : getenv environ "__RUMP_FDINFO_ROOT".toList = some env)
    (hfd : 0 ≤ atoi env ∧ atoi env < MAXFD) (m : Mount) :
    (∃ s' log, frankenFdinitCreate h environ s = some (s', log) ∧ .block m ∈ log ∧ m.root = true) ↔
      (s.fd (atoi env).toNat).valid = true ∧ m = registerBlock h s (atoi env).toNat true := by
  obtain ⟨u, hu⟩ := createRoot_eq (h := h) (s := s) hv hfd
  have hlog : ∀ m : Mount, m.root = true → ∀ ninep : List Effect, .block m ∉ ninep →
      (.block m ∈ createStdio h s 0 ++ createStdio h s 1 ++ createStdio h s 2 ++
        (if (s.fd (atoi env).toNat).valid then
          [.block (registerBlock h s (atoi env).toNat true)] else []) ++
        createRest h u (MAXFD - 5) 5 ++ ninep ++ [.tmpfs, .proc, .sysfs] ↔
      (s.fd (atoi env).toNat).valid = true ∧ m = registerBlock h s (atoi env).toNat true) := by
    intro m hm ninep hnine
    have hrest : .block m ∉ createRest h u (MAXFD - 5) 5 := fun hx => by
      rw [createRest_root hx] at hm
      cases hm
    simp only [List.mem_append, createStdio_block, hrest, hnine, false_or, or_false]
    split
    · rename_i hvalid
      simp [hvalid]
    · rename_i hvalid
      simp [hvalid]
  unfold frankenFdinitCreate
  simp only [hu, Option.bind_eq_bind, Option.bind_some, Option.some.injEq, Prod.mk.injEq]
  constructor
  · rintro ⟨s', log, ⟨-, rfl⟩, hmem, hroot⟩
    refine (hlog m hroot _ ?_).mp hmem
    split <;> simp
  · rintro ⟨hvalid, rfl⟩
    refine ⟨_, _, ⟨rfl, rfl⟩, (hlog _ rfl _ ?_).mpr ⟨hvalid, rfl⟩, rfl⟩
    split <;> simp

theorem registerBlock_tries {fd : Nat} {root : Bool} {x : Int} {l : List (Int × Int)} :
    (∀ t ∈ (registerBlock h s fd root).tries, (x, t.1) ∈ l) ↔ (x, s.diskId) ∈ l := by
  unfold registerBlock
  simp only
  split <;> simp

/-- The entry for the root, if there is one: it is what `getenv` finds, and an
entry for a disk. -/
theorem root_entry
    (hroot : (environ.filter fun e => (valueFor "__RUMP_FDINFO_ROOT".toList e).isSome) = [e]) :
    ∃ var, e ∈ environ ∧ getenv environ "__RUMP_FDINFO_ROOT".toList = some var ∧
      fdOf e = atoi var ∧ disk e = true ∧ passed e = true := by
  have hmem : e ∈ environ.filter fun e => (valueFor "__RUMP_FDINFO_ROOT".toList e).isSome := by
    rw [hroot]
    exact List.mem_singleton_self e
  obtain ⟨he, hv⟩ := List.mem_filter.mp hmem
  obtain ⟨var, hv⟩ := Option.isSome_iff_exists.mp hv
  obtain ⟨hname, hval⟩ := valueFor_eq_some.mp hv
  have hget : getenv environ "__RUMP_FDINFO_ROOT".toList = some var := by
    rw [getenv_eq_head, hroot]
    exact hv
  have hsome : (valueOf e).isSome = true := by
    rw [hval]
    rfl
  have hisDisk : isDisk e = true := begins_of_named (k := .disk) (by rw [hname]; decide)
  refine ⟨var, he, hget, fdOf_eq hval, ?_, ?_⟩
  · rw [disk, hsome, hisDisk]
    rfl
  · rw [passed, hsome, isPassed_of_isDisk hisDisk]
    rfl

/-- The loop leaves the number of the last disk, and it is that of a descriptor
if the last entry for a disk is for it. -/
theorem loop_disk (hids : Function.Injective h.diskAdd) (he : e ∈ environ) (hd : disk e = true) :
    (fdOf e, (roundsFrom h environ 0 (rounds environ) (start h)).diskId) ∈
        added h (roundsFrom h environ 0 (rounds environ) (start h)) ↔
      ((environ.filter disk).getLast?.map fdOf) = some (fdOf e) := by
  have hlast : LastDisk h (roundsFrom h environ 0 (rounds environ) (start h)) := by
    refine roundsFrom_lastDisk fun hx => ?_
    rw [start_calls] at hx
    exact absurd rfl hx
  have hcalls : (roundsFrom h environ 0 (rounds environ) (start h)).calls.filterMap Call.diskFd =
      ((rounds environ).filter disk).map fdOf := by
    rw [roundsFrom_calls, start_calls, List.nil_append, flatMap_disks]
  have hne : ((rounds environ).filter disk).map fdOf ≠ [] :=
    List.ne_nil_of_mem (List.mem_map_of_mem (List.mem_filter.mpr ⟨mem_rounds.mpr he, hd⟩))
  rw [← hcalls] at hne
  rw [added_lastDisk hids hlast hne, hcalls, List.getLast?_map, rounds_last]

theorem loop_valid (he : e ∈ environ) (hp : passed e = true) :
    ((roundsFrom h environ 0 (rounds environ) (start h)).fd (fdOf e).toNat).valid = true ↔
      clears h (fdOf e).toNat 0 (rounds environ) = false := by
  rw [roundsFrom_valid]
  refine and_iff_left (.inl (List.any_eq_true.mpr ⟨e, mem_rounds.mpr he, ?_⟩))
  rw [names, hp]
  simp

/-- The disk that is mounted as the root is the one the kernel library has for
the descriptor in `__RUMP_FDINFO_ROOT` exactly if the loop stays in its table,
the mark of that descriptor lasts, and the last entry for a disk is for it. -/
theorem root_mounted_iff (hids : Function.Injective h.diskAdd)
    (hroot : (environ.filter fun e => (valueFor "__RUMP_FDINFO_ROOT".toList e).isSome) = [e]) :
    (∃ s, frankenFdinit h environ = some s ∧ ∃ s' log m,
      frankenFdinitCreate h environ s = some (s', log) ∧ .block m ∈ log ∧ m.root = true ∧
        m.fd = (fdOf e).toNat ∧ ∀ t ∈ m.tries, (fdOf e, t.1) ∈ added h s) ↔
      Defined h environ ∧ clears h (fdOf e).toNat 0 (rounds environ) = false ∧
        ((environ.filter disk).getLast?.map fdOf) = some (fdOf e) := by
  obtain ⟨var, he, hget, hfd, hdisk, hpassed⟩ := root_entry hroot
  rw [← loop_valid he hpassed, ← loop_disk hids he hdisk]
  have hmount : Defined h environ → ∀ m, _ := fun hd m => create_root (h := h)
    (s := roundsFrom h environ 0 (rounds environ) (start h)) hget
    (hfd ▸ hd.inTable he hpassed) m
  rw [← hfd] at hmount
  constructor
  · rintro ⟨s, hs, s', log, m, hc, hm, hr, hmfd, ht⟩
    obtain ⟨hd, rfl⟩ := frankenFdinit_eq_some.mp hs
    obtain ⟨hmark, rfl⟩ := (hmount hd m).mp ⟨s', log, hc, hm, hr⟩
    exact ⟨hd, hmark, registerBlock_tries.mp ht⟩
  · rintro ⟨hd, hmark, hadd⟩
    obtain ⟨s', log, hc, hm, hr⟩ := (hmount hd _).mpr ⟨hmark, rfl⟩
    exact ⟨_, frankenFdinit_eq_some.mpr ⟨hd, rfl⟩, s', log, _, hc, hm, hr, rfl,
      registerBlock_tries.mpr hadd⟩

def rootThenDisk : List CStr :=
  ["A=1".toList, "__RUMP_FDINFO_ROOT=3".toList, "__RUMP_FDINFO_DISK_data.img=4".toList]

theorem root_mounted_iff_last : ∃ s, frankenFdinit plainHost
      ["A=1".toList, "__RUMP_FDINFO_DISK_data.img=4".toList, "__RUMP_FDINFO_ROOT=3".toList] = some s ∧
    ∃ s' log m, frankenFdinitCreate plainHost
      ["A=1".toList, "__RUMP_FDINFO_DISK_data.img=4".toList, "__RUMP_FDINFO_ROOT=3".toList] s =
        some (s', log) ∧ .block m ∈ log ∧ m.root = true ∧
      m.fd = (fdOf "__RUMP_FDINFO_ROOT=3".toList).toNat ∧
        ∀ t ∈ m.tries, (fdOf "__RUMP_FDINFO_ROOT=3".toList, t.1) ∈ added plainHost s := by
  refine (root_mounted_iff (fun _ _ hx => Int.ofNat.inj hx) (by decide)).mpr ⟨?_, by decide, by decide⟩
  exact (defined_iff fun fd hx => by cases hx).mpr (by decide)

/-- A root and one more disk after it: the second is mounted for the root. -/
theorem root_not_mounted :
    (frankenFdinit plainHost rootThenDisk).map (added plainHost) = some [(3, 0), (4, 1)] ∧
      ((frankenFdinit plainHost rootThenDisk).bind fun s =>
        (frankenFdinitCreate plainHost rootThenDisk s).map fun r => r.2.filter Effect.isBlock) =
          some [.block ⟨3, true, [(1, .ext4)], 0⟩] := by
  decide

end Frankenlibc.Init

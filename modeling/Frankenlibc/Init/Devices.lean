import Frankenlibc.Lib.Roster
import Frankenlibc.Init.Scan

/-!
# Devices are registered once

What the environment asks for is said by the names of its variables
(`registers`). What the code does is said by how an entry begins (`issued`), and
for one entry more, since the first is looked at twice. The two agree if the
first entry is of no device and every entry that begins like one of a device
also has its name.
-/
namespace Frankenlibc.Init

open Frankenlibc.Lib

inductive Kind
  | config
  | disk
  | net
  | ninep
deriving DecidableEq, Repr

def Kind.call : Kind → Int → Call
  | .config => .config
  | .disk => .disk
  | .net => .net
  | .ninep => .ninep

/-! ## What is asked for -/

/-- The kind of device a variable stands for. -/
def named (name : CStr) : Option Kind :=
  if name = "__RUMP_FDINFO_ROOT".toList ∨ "__RUMP_FDINFO_DISK_".toList <+: name then some .disk
  else if "__RUMP_FDINFO_NET_".toList <+: name then some .net
  else if name = "__RUMP_FDINFO_CONFIGJSON".toList then some .config
  else if name = "9PFS_FD".toList then some .ninep
  else none

/-- What is to be done for an entry. -/
def registers (env : CStr) : List Call :=
  match valueOf env, named (nameOf env) with
  | some var, some k => [k.call (atoi var)]
  | _, _ => []

/-! ## What is done -/

/-- The test of the source for a kind. -/
def Kind.begins : Kind → CStr → Bool
  | .config => isConfig
  | .disk => isDisk
  | .net => isNet
  | .ninep => isNinep

/-- An entry for which the code calls the kernel library. -/
def device (env : CStr) : Bool :=
  (valueOf env).isSome && (isConfig env || isDisk env || isNet env || isNinep env)

/-- What the source compares the beginning of an entry with. -/
def Kind.heads : Kind → List CStr
  | .config => ["__RUMP_FDINFO_CONFIGJSON".toList]
  | .disk => ["__RUMP_FDINFO_ROOT".toList, "__RUMP_FDINFO_DISK".toList]
  | .net => ["__RUMP_FDINFO_NET_".toList]
  | .ninep => ["9PFS_FD".toList]

variable {h : Host} {environ : List CStr} {env var : CStr} {k k' : Kind} {s : Fdinit}

theorem begins_iff : k.begins env = true ↔ ∃ a ∈ k.heads, a <+: env := by
  cases k with
  | config =>
    rw [Kind.begins, isConfig, strncmp_iff (by decide)]
    simp only [Kind.heads, List.mem_singleton, exists_eq_left]
    exact Iff.rfl
  | disk =>
    rw [Kind.begins, isDisk, Bool.or_eq_true, strncmp_iff (by decide), strncmp_iff (by decide)]
    simp only [Kind.heads, List.mem_cons, List.not_mem_nil, or_false, exists_eq_or_imp,
      exists_eq_left]
    exact Iff.rfl
  | net =>
    rw [Kind.begins, isNet, strncmp_iff (by decide)]
    simp only [Kind.heads, List.mem_singleton, exists_eq_left]
    exact Iff.rfl
  | ninep =>
    rw [Kind.begins, isNinep, strncmp_iff (by decide)]
    simp only [Kind.heads, List.mem_singleton, exists_eq_left]
    exact Iff.rfl

/-- No text of one kind begins a text of another. -/
theorem heads_apart (hk : k ≠ k') : ∀ a ∈ k.heads, ∀ b ∈ k'.heads, ¬a <+: b := by
  cases k <;> cases k' <;> first | exact absurd rfl hk | decide

/-- The tests exclude each other. -/
theorem begins_unique (hk : k.begins env = true) (hk' : k'.begins env = true) : k = k' := by
  by_contra hne
  obtain ⟨a, ha, hae⟩ := begins_iff.mp hk
  obtain ⟨b, hb, hbe⟩ := begins_iff.mp hk'
  rcases List.prefix_or_prefix_of_prefix hae hbe with hab | hba
  · exact heads_apart hne a ha b hb hab
  · exact heads_apart (Ne.symm hne) b hb a ha hba

theorem device_iff : device env = true ↔ (valueOf env).isSome = true ∧ ∃ k : Kind, k.begins env = true := by
  rw [device, Bool.and_eq_true]
  refine and_congr_right fun _ => ?_
  simp only [Bool.or_eq_true]
  constructor
  · rintro (((hk | hk) | hk) | hk)
    · exact ⟨.config, hk⟩
    · exact ⟨.disk, hk⟩
    · exact ⟨.net, hk⟩
    · exact ⟨.ninep, hk⟩
  · rintro ⟨k, hk⟩
    cases k with
    | config => exact .inl (.inl (.inl hk))
    | disk => exact .inl (.inl (.inr hk))
    | net => exact .inl (.inr hk)
    | ninep => exact .inr hk

/-- The descriptor the code passes on. -/
def Kind.fd (k : Kind) (environ : List CStr) (env : CStr) : Int :=
  if k = .ninep then atoi ((getenv environ "9PFS_FD".toList).getD []) else fdOf env

theorem begins_eq (hk : k.begins env = true) (k' : Kind) : k'.begins env = decide (k' = k) := by
  by_cases he : k' = k
  · subst he
    simpa using hk
  · rw [decide_eq_false he]
    exact Bool.eq_false_iff.mpr fun hk' => he (begins_unique hk' hk)

/-- Exactly one of the tests of the loop succeeds. -/
theorem tests_of_begins (hk : k.begins env = true) :
    isConfig env = decide (.config = k) ∧ isDisk env = decide (.disk = k) ∧
      isNet env = decide (.net = k) ∧ isNinep env = decide (.ninep = k) :=
  ⟨begins_eq hk .config, begins_eq hk .disk, begins_eq hk .net, begins_eq hk .ninep⟩

theorem issued_of_begins (hv : (valueOf env).isSome = true) (hk : k.begins env = true) :
    issued environ env = [k.call (k.fd environ env)] := by
  obtain ⟨hc, hd, hn, hp⟩ := tests_of_begins hk
  rw [issued, if_pos hv, hc, hd, hn, hp]
  cases k <;> rfl

theorem isPassed_of_begins (hk : k.begins env = true) : isPassed env = true := by
  cases k with
  | config => exact isPassed_of_isConfig hk
  | disk => exact isPassed_of_isDisk hk
  | net => exact isPassed_of_isNet hk
  | ninep => exact isPassed_of_isNinep hk

/-- What a device says about `seek`. -/
def Kind.seek : Kind → Option Bool
  | .config => none
  | .disk => some true
  | .net => some false
  | .ninep => some false

theorem seeks_of_begins {n : Nat} (hv : (valueOf env).isSome = true) (hk : k.begins env = true) :
    seeks n env = if n = (fdOf env).toNat then k.seek else none := by
  obtain ⟨_, hd, hn, hp⟩ := tests_of_begins hk
  simp only [seeks, hv, true_and, hd, hn, hp]
  split
  · cases k <;> rfl
  · rfl

/-- An entry that says something is of a device. -/
theorem passed_of_seeks {n : Nat} {b : Bool} (hs : seeks n env = some b) :
    passed env = true ∧ n = (fdOf env).toNat := by
  unfold seeks at hs
  split_ifs at hs with hv hk hd
  · refine ⟨?_, hv.2⟩
    rw [passed, hv.1]
    exact hk.elim isPassed_of_isNet isPassed_of_isNinep
  · refine ⟨?_, hv.2⟩
    rw [passed, hv.1]
    exact isPassed_of_isDisk hd

theorem lastWord_append {n : Nat} (l₁ l₂ : List CStr) :
    lastWord n (l₁ ++ l₂) = (lastWord n l₂).or (lastWord n l₁) := by
  rw [lastWord, List.filterMap_append, List.getLast?_append]
  rfl

theorem lastWord_filter {n : Nat} (l : List CStr) :
    lastWord n (l.filter isPassed) = lastWord n l := by
  rw [lastWord, List.filterMap_filter]
  refine congrArg List.getLast? (List.filterMap_congr fun e _ => ?_)
  split
  · rfl
  · rename_i hp
    cases hs : seeks n e with
    | none => rfl
    | some v => exact absurd ((Bool.and_eq_true_iff ..).mp (passed_of_seeks hs).1).2 hp

theorem issued_of_not_device (hd : device env = false) : issued environ env = [] := by
  unfold issued
  split
  · rename_i hv
    rw [device, hv, Bool.true_and] at hd
    simp only [Bool.or_eq_false_iff] at hd
    obtain ⟨⟨⟨hc, hk⟩, hn⟩, hp⟩ := hd
    rw [hc, hk, hn, hp]
    rfl
  · rfl

/-- A variable of a kind is taken for one by the code. -/
theorem begins_of_named (hk : named (nameOf env) = some k) : k.begins env = true := by
  have hhead : ∃ a ∈ k.heads, a <+: nameOf env ∧ '=' ∉ a := by
    unfold named at hk
    split_ifs at hk with hd hn hc hp
    · cases hk
      rcases hd with hd | hd
      · exact ⟨_, List.mem_cons_self, hd ▸ List.prefix_rfl, by decide⟩
      · exact ⟨_, List.mem_cons_of_mem _ List.mem_cons_self,
          (by decide : "__RUMP_FDINFO_DISK".toList <+: "__RUMP_FDINFO_DISK_".toList).trans hd, by decide⟩
    · cases hk
      exact ⟨_, List.mem_cons_self, hn, by decide⟩
    · cases hk
      exact ⟨_, List.mem_cons_self, hc ▸ List.prefix_rfl, by decide⟩
    · cases hk
      exact ⟨_, List.mem_cons_self, hp ▸ List.prefix_rfl, by decide⟩
  obtain ⟨a, ha, hpre, heq⟩ := hhead
  exact begins_iff.mpr ⟨a, ha, (prefix_nameOf heq).mp hpre⟩

theorem named_ninep : named (nameOf env) = some .ninep ↔ nameOf env = "9PFS_FD".toList := by
  constructor
  · intro hk
    unfold named at hk
    split_ifs at hk with hd hn hc hp
    · cases hk
    · cases hk
    · cases hk
    · exact hp
  · intro hk
    rw [hk]
    decide

theorem registers_of_named (hv : (valueOf env).isSome = true) (hk : named (nameOf env) = some k) :
    registers env = [k.call (fdOf env)] := by
  obtain ⟨var, hv⟩ := Option.isSome_iff_exists.mp hv
  rw [registers, fdOf, hv, hk]
  rfl

theorem registers_of_not_named (hk : named (nameOf env) = none) : registers env = [] := by
  unfold registers
  rw [hk]
  split
  · rename_i hx
    cases hx
  · rfl

theorem device_of_named (hv : (valueOf env).isSome = true) (hk : named (nameOf env) = some k) :
    device env = true :=
  device_iff.mpr ⟨hv, k, begins_of_named hk⟩

theorem registers_of_not_device (hd : device env = false) : registers env = [] := by
  cases hk : named (nameOf env) with
  | none => exact registers_of_not_named hk
  | some k =>
    cases hv : valueOf env with
    | none => rw [registers, hv]
    | some var =>
      rw [device_of_named (by rw [hv]; rfl) hk] at hd
      cases hd

theorem call_inj {x y : Int} : k.call x = k.call y ↔ x = y := by
  cases k <;> simp [Kind.call]

/-- For one entry the code does what is asked for, unless the entry only begins
like one of a device, or is one of several for the 9p socket. -/
theorem issued_eq_registers : issued environ env = registers env ↔
    (device env = true → named (nameOf env) ≠ none) ∧
      (valueOf env ≠ none → nameOf env = "9PFS_FD".toList →
        fdOf env = atoi ((getenv environ "9PFS_FD".toList).getD [])) := by
  cases hd : device env with
  | false =>
    rw [issued_of_not_device hd, registers_of_not_device hd]
    refine ⟨fun _ => ⟨fun hx => absurd hx (by simp), fun hv hn => ?_⟩, fun _ => rfl⟩
    rw [device_of_named (Option.isSome_iff_ne_none.mpr hv) (named_ninep.mpr hn)] at hd
    cases hd
  | true =>
    obtain ⟨hv, k, hk⟩ := device_iff.mp hd
    rw [issued_of_begins hv hk]
    cases hn : named (nameOf env) with
    | none =>
      rw [registers_of_not_named hn]
      exact ⟨fun hx => absurd hx (by simp), fun hx => absurd rfl (hx.1 rfl)⟩
    | some k' =>
      obtain rfl : k' = k := begins_unique (begins_of_named hn) hk
      rw [registers_of_named hv hn, List.singleton_inj, call_inj, Kind.fd, ← named_ninep, hn]
      simp only [Option.some.injEq]
      split
      · rename_i hp
        exact ⟨fun hx => ⟨fun _ => by simp, fun _ _ => hx.symm⟩,
          fun hx => (hx.2 (Option.isSome_iff_ne_none.mp hv) hp).symm⟩
      · rename_i hp
        exact ⟨fun _ => ⟨fun _ => by simp, fun _ hx => absurd hx hp⟩, fun _ => rfl⟩

theorem registers_length_le : (registers env).length ≤ (issued environ env).length := by
  cases hd : device env with
  | false => rw [registers_of_not_device hd]; exact Nat.zero_le _
  | true =>
    obtain ⟨hv, k, hk⟩ := device_iff.mp hd
    rw [issued_of_begins hv hk]
    cases hn : named (nameOf env) with
    | none => rw [registers_of_not_named hn]; exact Nat.zero_le _
    | some k' => rw [registers_of_named hv hn]; exact Nat.le_refl _

/-! ## Whole environments -/

theorem issued_eq_nil : issued environ env = [] ↔ device env = false := by
  constructor
  · intro hi
    by_contra hd
    obtain ⟨hv, k, hk⟩ := device_iff.mp (by simpa using hd)
    rw [issued_of_begins hv hk] at hi
    cases hi
  · exact issued_of_not_device

theorem rounds_flatMap {β : Type} (f : CStr → List β) (environ : List CStr) :
    (rounds environ).flatMap f = environ.head?.toList.flatMap f ++ environ.flatMap f := by
  cases environ with
  | nil => rfl
  | cons e es => simp [rounds]

/-- Every device that the environment passes is registered once, and nothing
else is, exactly if the loop stays in its table, the first entry is of no
device, every entry that begins like one of a device is one, and the variable of
the 9p socket is not there with two values. -/
theorem devices_once_iff (h : Host) (environ : List CStr) :
    (∃ s, frankenFdinit h environ = some s ∧ s.calls = environ.flatMap registers) ↔
      Defined h environ ∧ (∀ env, environ.head? = some env → device env = false) ∧
        ∀ env ∈ environ, (device env = true → named (nameOf env) ≠ none) ∧
          (valueOf env ≠ none → nameOf env = "9PFS_FD".toList →
            fdOf env = atoi ((getenv environ "9PFS_FD".toList).getD [])) := by
  have hcalls : (roundsFrom h environ 0 (rounds environ) (start h)).calls =
      environ.head?.toList.flatMap (issued environ) ++ environ.flatMap (issued environ) := by
    rw [roundsFrom_calls, start_calls, List.nil_append, rounds_flatMap]
  have hfirst : environ.head?.toList.flatMap (issued environ) = [] ↔
      ∀ env, environ.head? = some env → device env = false := by
    rw [List.flatMap_eq_nil_iff]
    simp only [Option.mem_toList, issued_eq_nil]
  have hagree : environ.head?.toList.flatMap (issued environ) ++ environ.flatMap (issued environ) =
        environ.flatMap registers ↔ environ.head?.toList.flatMap (issued environ) = [] ∧
          ∀ env ∈ environ, issued environ env = registers env :=
    flatMap_agree fun _ _ => registers_length_le
  constructor
  · rintro ⟨s, hs, hc⟩
    obtain ⟨hdef, rfl⟩ := frankenFdinit_eq_some.mp hs
    rw [hcalls] at hc
    obtain ⟨hpre, hall⟩ := hagree.mp hc
    exact ⟨hdef, hfirst.mp hpre, fun env henv => issued_eq_registers.mp (hall env henv)⟩
  · rintro ⟨hdef, hhead, hall⟩
    refine ⟨_, frankenFdinit_eq_some.mpr ⟨hdef, rfl⟩, ?_⟩
    rw [hcalls]
    exact hagree.mpr ⟨hfirst.mpr hhead, fun env henv => issued_eq_registers.mpr (hall env henv)⟩

/-- A host on which everything succeeds. -/
def plainHost : Host where
  getfl _ := 0
  fstat _ := some ⟨.reg, 0⟩
  diskAdd n := n
  mountDev _ _ := 0
  mknod := 0
  console := 3

example : (frankenFdinit plainHost ["A=1".toList, "__RUMP_FDINFO_DISK_disk.img=3".toList]).map
    Fdinit.calls = some [.disk 3] := by decide

/-- The disk is the first entry, and is added twice. -/
theorem devices_twice : (frankenFdinit plainHost ["__RUMP_FDINFO_DISK_disk.img=3".toList]).map
      Fdinit.calls = some [.disk 3, .disk 3] ∧
    ["__RUMP_FDINFO_DISK_disk.img=3".toList].flatMap registers = [.disk 3] := by
  decide

end Frankenlibc.Init

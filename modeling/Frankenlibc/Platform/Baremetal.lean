import Frankenlibc.Lib.Arena
import Frankenlibc.Lib.Run
import Frankenlibc.Lib.Words

/-!
# Memory on the bare-metal platforms

`mmap` of qemu-arm and of spike carves the array `__core` from below and never
gets anything back. Its arithmetic is that of a machine word: rounding
`core_base` up can wrap to 0, and the test for room can be passed by a sum that
wraps. Where nothing wraps the array is an arena.
-/
namespace Frankenlibc.Baremetal

open Frankenlibc.Lib

inductive Platform
  | qemuArm
  | spike
deriving DecidableEq, Repr

/-- Bits of `uintptr_t`, `size_t` and `unsigned long`. -/
def Platform.bits : Platform → Nat
  | .qemuArm => 32
  | .spike => 64

def Platform.coresize : Platform → Nat
  | .qemuArm => 16777216 * 8
  | .spike => 16777216

variable {p : Platform}

/-- Where the linker has put `__core`. The end of an array has an address too. -/
structure Core (p : Platform) where
  start : Nat
  pos : 0 < start
  fits : start + p.coresize < 2 ^ p.bits

def Core.top (c : Core p) : BitVec p.bits := BitVec.ofNat _ (c.start + p.coresize)

/-- The arguments of `mmap`; `shift` is the exponent in the flags, 0 if there is none. -/
structure Request (p : Platform) where
  addr : BitVec p.bits
  length : BitVec p.bits
  shift : Fin p.bits
  fd : Int
  offset : Int

inductive Fail
  | EINVAL
  | ENOMEM
deriving DecidableEq, Repr

/-- A mapping that was returned, with the alignment it was asked for. -/
structure Grant extends Span where
  align : Nat
deriving DecidableEq, Repr

/-- `core_base`, and the history of what was returned. -/
structure State (p : Platform) where
  coreBase : BitVec p.bits
  grants : List Grant

def getpagesize : Nat := 4096

def align (r : Request p) : BitVec p.bits :=
  if r.shift.val = 0 then BitVec.ofNat _ getpagesize else 1#_ <<< r.shift.val

/-- `core_base` behind the rounding. -/
def rounded (r : Request p) (base : BitVec p.bits) : BitVec p.bits :=
  if base &&& (align r - 1#_) ≠ 0#_ then (base &&& ~~~(align r - 1#_)) + align r else base

def mmap (c : Core p) (r : Request p) (s : State p) : Except Fail (BitVec p.bits) × State p :=
  if r.fd ≠ -1 ∨ r.offset ≠ 0 ∨ r.addr ≠ 0#_ then (.error .EINVAL, s)
  else
    let base := rounded r s.coreBase
    if c.top < base + r.length then (.error .ENOMEM, { s with coreBase := base })
    else
      (.ok base,
        { coreBase := base + r.length
          grants := s.grants ++ [⟨⟨base.toNat, r.length.toNat⟩, (align r).toNat⟩] })

def boot (c : Core p) : State p := ⟨BitVec.ofNat _ c.start, []⟩

def step (c : Core p) (s : State p) (r : Request p) : Option (State p) := some (mmap c r s).2

/-! ## Words -/

/-- The exponent of the alignment. -/
def exponent (r : Request p) : Nat := if r.shift.val = 0 then 12 else r.shift.val

theorem exponent_lt (r : Request p) : exponent r < p.bits := by
  unfold exponent
  split
  · cases p <;> decide
  · exact r.shift.isLt

theorem align_toNat (r : Request p) : (align r).toNat = 2 ^ exponent r := by
  have hlt := Nat.pow_lt_pow_right (by decide : 1 < 2) (exponent_lt r)
  unfold align
  unfold exponent at hlt ⊢
  split
  next h =>
    rw [if_pos h] at hlt
    rw [BitVec.toNat_ofNat]
    exact Nat.mod_eq_of_lt hlt
  next h =>
    rw [if_neg h] at hlt
    rw [BitVec.toNat_shiftLeft, BitVec.toNat_ofNat, Nat.shiftLeft_eq,
      Nat.mod_eq_of_lt (Nat.one_lt_two_pow (by have := r.shift.isLt; omega)), Nat.one_mul]
    exact Nat.mod_eq_of_lt hlt

/-- The rounding is `roundUp` in the word. -/
theorem rounded_toNat (r : Request p) (base : BitVec p.bits) :
    (rounded r base).toNat = roundUp base.toNat (2 ^ exponent r) % 2 ^ p.bits := by
  have he := exponent_lt r
  have hlt := Nat.pow_lt_pow_right (by decide : 1 < 2) he
  have hpos := Nat.two_pow_pos (exponent r)
  have hb := base.isLt
  have hmask : (align r - 1#_).toNat = 2 ^ exponent r - 1 := by
    have hone : (1#p.bits).toNat = 1 :=
      Nat.mod_eq_of_lt (Nat.one_lt_two_pow (by omega))
    rw [BitVec.toNat_sub_of_le, align_toNat, hone]
    rw [BitVec.le_def, align_toNat, hone]
    exact hpos
  have hdvd : base &&& (align r - 1#_) = 0#_ ↔ 2 ^ exponent r ∣ base.toNat := by
    rw [← BitVec.toNat_inj, BitVec.toNat_and, hmask, Nat.and_two_pow_sub_one_eq_mod,
      BitVec.toNat_ofNat, Nat.zero_mod, Nat.dvd_iff_mod_eq_zero]
  unfold rounded
  split
  next h =>
    have hnot : ¬ 2 ^ exponent r ∣ base.toNat := fun hd => h (hdvd.mpr hd)
    rw [BitVec.toNat_add, BitVec.toNat_and, BitVec.toNat_not, hmask, align_toNat,
      and_not_mask hb he.le, roundUp_of_not_dvd hpos hnot]
  next h =>
    rw [not_not] at h
    rw [roundUp_of_dvd hpos (hdvd.mp h), Nat.mod_eq_of_lt hb]

theorem start_lt (c : Core p) : c.start < 2 ^ p.bits := by
  have := c.fits
  omega

theorem top_toNat (c : Core p) : c.top.toNat = c.start + p.coresize :=
  Nat.mod_eq_of_lt c.fits

/-- Rounding up leaves the word only for its end. -/
theorem roundUp_word (r : Request p) (base : BitVec p.bits) :
    roundUp base.toNat (2 ^ exponent r) ≤ 2 ^ p.bits := by
  have hsplit : 2 ^ p.bits = 2 ^ (p.bits - exponent r) * 2 ^ exponent r := by
    rw [← Nat.pow_add, Nat.sub_add_cancel (exponent_lt r).le]
  have hb := base.isLt.le
  rw [hsplit] at hb ⊢
  exact roundUp_le (Nat.two_pow_pos _) hb

/-! ## The specification -/

/-- What was returned is disjoint, inside of `__core` and aligned. -/
structure Sound (c : Core p) (s : State p) : Prop where
  apart : s.grants.Pairwise fun g h => g.toSpan.Apart h.toSpan
  within : ∀ g ∈ s.grants, c.start ≤ g.start ∧ g.stop ≤ c.start + p.coresize
  aligned : ∀ g ∈ s.grants, g.align ∣ g.start

/-- What a call has to keep. -/
def Kept (c : Core p) (s s' : State p) : Prop := s.coreBase ≤ s'.coreBase ∧ Sound c s'

/-- The request gets past the test of its arguments. -/
def Accepted (r : Request p) : Prop := r.fd = -1 ∧ r.offset = 0 ∧ r.addr = 0#_

/-- Rounding `core_base` up leaves the address space, or the sum with the
length does and comes out below the end of `__core`. -/
def Wraps (c : Core p) (s : State p) (r : Request p) : Prop :=
  Accepted r ∧ (2 ^ p.bits ≤ roundUp s.coreBase.toNat (2 ^ exponent r) ∨
    2 ^ p.bits ≤ roundUp s.coreBase.toNat (2 ^ exponent r) + r.length.toNat ∧
      roundUp s.coreBase.toNat (2 ^ exponent r) + r.length.toNat - 2 ^ p.bits ≤
        c.start + p.coresize)

/-- The code's state stands for an arena. -/
structure Mirrors (c : Core p) (s : State p) (A : Arena c.start (c.start + p.coresize)) : Prop where
  next : s.coreBase.toNat = A.next
  spans : s.grants.map Grant.toSpan = A.spans
  aligned : ∀ g ∈ s.grants, g.align ∣ g.start

theorem Mirrors.sound {c : Core p} {s : State p} {A : Arena c.start (c.start + p.coresize)}
    (h : Mirrors c s A) : Sound c s where
  apart := by
    have ha := A.apart
    rwa [← h.spans, List.pairwise_map] at ha
  within g hg := by
    have hmem : g.toSpan ∈ A.spans := by
      rw [← h.spans]
      exact List.mem_map_of_mem hg
    exact ⟨(A.within _ hmem).1, (A.within _ hmem).2.2⟩
  aligned := h.aligned

theorem boot_mirrors (c : Core p) : Mirrors c (boot c) (Arena.empty _ _) :=
  ⟨Nat.mod_eq_of_lt (start_lt c), rfl, by simp [boot]⟩

/-! ## One call -/

/-- The ways through `mmap`. -/
inductive Called (c : Core p) (r : Request p) (s : State p) : State p → Prop
  | invalid (ha : ¬ Accepted r) : Called c r s s
  | full (ha : Accepted r)
      (hfull : c.start + p.coresize <
        ((rounded r s.coreBase).toNat + r.length.toNat) % 2 ^ p.bits) :
      Called c r s { s with coreBase := rounded r s.coreBase }
  | granted (ha : Accepted r)
      (hroom : ((rounded r s.coreBase).toNat + r.length.toNat) % 2 ^ p.bits ≤
        c.start + p.coresize) :
      Called c r s ⟨rounded r s.coreBase + r.length, s.grants ++
        [⟨⟨(rounded r s.coreBase).toNat, r.length.toNat⟩, (align r).toNat⟩]⟩

theorem mmap_called (c : Core p) (r : Request p) (s : State p) : Called c r s (mmap c r s).2 := by
  unfold mmap
  split
  next h =>
    refine .invalid ?_
    rintro ⟨h₁, h₂, h₃⟩
    rcases h with h | h | h
    · exact h h₁
    · exact h h₂
    · exact h h₃
  next h =>
    simp only [not_or, not_not] at h
    dsimp only
    split
    next hlt =>
      rw [BitVec.lt_def, top_toNat, BitVec.toNat_add] at hlt
      exact .full h hlt
    next hlt =>
      rw [BitVec.lt_def, top_toNat, BitVec.toNat_add, Nat.not_lt] at hlt
      exact .granted h hlt

/-- A call in which nothing wraps is one of the arena's operations. -/
theorem mmap_mirrors {c : Core p} {r : Request p} {s : State p}
    {A : Arena c.start (c.start + p.coresize)} (h : Mirrors c s A) (hw : ¬ Wraps c s r) :
    ∃ A', Mirrors c (mmap c r s).2 A' ∧ A.next ≤ A'.next := by
  have hc := mmap_called c r s
  generalize (mmap c r s).2 = s' at hc ⊢
  by_cases ha : Accepted r
  · have hq : roundUp s.coreBase.toNat (2 ^ exponent r) < 2 ^ p.bits := by
      by_contra hn
      exact hw ⟨ha, .inl (by omega)⟩
    have hround := rounded_toNat r s.coreBase
    rw [Nat.mod_eq_of_lt hq] at hround
    have hup : A.next ≤ (rounded r s.coreBase).toNat := by
      rw [hround, ← h.next]
      exact le_roundUp (Nat.two_pow_pos _)
    cases hc with
    | invalid hn => exact absurd ha hn
    | full => exact ⟨A.skip _ hup, ⟨rfl, h.spans, h.aligned⟩, hup⟩
    | granted _ hroom =>
      -- the sum does not wrap, or it would have come out as no room
      have hsum : (rounded r s.coreBase).toNat + r.length.toNat < 2 ^ p.bits := by
        by_contra hn
        refine hw ⟨ha, .inr ⟨by omega, ?_⟩⟩
        have hlen := r.length.isLt
        rwa [Nat.mod_eq_sub_mod (by omega), Nat.mod_eq_of_lt (by omega), hround] at hroom
      rw [Nat.mod_eq_of_lt hsum] at hroom
      refine ⟨A.carve ⟨(rounded r s.coreBase).toNat, r.length.toNat⟩ hup hroom,
        ⟨?_, ?_, ?_⟩, hup.trans (Nat.le_add_right _ _)⟩
      · rw [BitVec.toNat_add, Nat.mod_eq_of_lt hsum]
        rfl
      · rw [List.map_append, h.spans]
        rfl
      · intro g hg
        rcases List.mem_append.mp hg with hg | hg
        · exact h.aligned g hg
        · rw [List.mem_singleton.mp hg, align_toNat, hround]
          exact dvd_roundUp _ _
  · cases hc with
    | invalid => exact ⟨A, h, le_rfl⟩
    | full ha' => exact absurd ha' ha
    | granted ha' => exact absurd ha' ha

/-- A call in which something wraps returns memory outside of `__core` or
moves `core_base` back. -/
theorem wraps_breaks {c : Core p} {r : Request p} {s : State p}
    (hlow : c.start ≤ s.coreBase.toNat) (hw : Wraps c s r) : ¬ Kept c s (mmap c r s).2 := by
  obtain ⟨ha, hw⟩ := hw
  rintro ⟨hup, hsound⟩
  have hc := mmap_called c r s
  generalize (mmap c r s).2 = s' at hc hup hsound
  have hpos := c.pos
  have hfits := c.fits
  have hround := rounded_toNat r s.coreBase
  have hzero : 2 ^ p.bits ≤ roundUp s.coreBase.toNat (2 ^ exponent r) →
      (rounded r s.coreBase).toNat = 0 := by
    intro hq
    rw [hround, Nat.le_antisymm (roundUp_word r s.coreBase) hq, Nat.mod_self]
  cases hc with
  | invalid hn => exact hn ha
  | full _ hfull =>
    rw [BitVec.le_def] at hup
    change s.coreBase.toNat ≤ (rounded r s.coreBase).toNat at hup
    by_cases hq : 2 ^ p.bits ≤ roundUp s.coreBase.toNat (2 ^ exponent r)
    · have := hzero hq
      omega
    · -- a sum that wraps is not taken for too large
      obtain ⟨hsum, hlow⟩ := hw.resolve_left hq
      have hlen := r.length.isLt
      rw [Nat.mod_eq_of_lt (by omega)] at hround
      rw [hround, Nat.mod_eq_sub_mod hsum, Nat.mod_eq_of_lt (by omega)] at hfull
      omega
  | granted _ hroom =>
    obtain ⟨hstart, hstop⟩ :=
      hsound.within _ (List.mem_append_right _ (List.mem_singleton_self _))
    change c.start ≤ (rounded r s.coreBase).toNat at hstart
    change (rounded r s.coreBase).toNat + r.length.toNat ≤ _ at hstop
    by_cases hq : 2 ^ p.bits ≤ roundUp s.coreBase.toNat (2 ^ exponent r)
    · have := hzero hq
      omega
    · obtain ⟨hsum, _⟩ := hw.resolve_left hq
      rw [Nat.mod_eq_of_lt (by omega)] at hround
      omega

/-! ## Whole runs -/

/-- What a run of calls reaches is an arena, as long as nothing wraps. -/
theorem run_mirrors {c : Core p} {tr : List (State p × Request p)} {s : State p}
    (hr : Run (step c) (boot c) tr s) (hg : Guarded (fun s r => ¬ Wraps c s r) tr) :
    ∃ A, Mirrors c s A := by
  refine Run.invariant (I := fun s => ∃ A, Mirrors c s A) ⟨_, boot_mirrors c⟩ ?_ hr hg
  rintro s r s' ⟨A, h⟩ hw hs
  cases hs
  obtain ⟨A', h', _⟩ := mmap_mirrors h hw
  exact ⟨A', h'⟩

/-- On both platforms, wherever `__core` lies and whatever the calls ask for:
every call of a run keeps the mappings disjoint, inside of `__core` and
aligned, and `core_base` from going back, exactly if no call wraps. -/
theorem mmap_sound_iff {c : Core p} {tr : List (State p × Request p)} {s : State p}
    (hr : Run (step c) (boot c) tr s) :
    (∀ q ∈ tr, Kept c q.1 (mmap c q.2 q.1).2) ↔ Guarded (fun s r => ¬ Wraps c s r) tr := by
  constructor
  · intro hkept
    induction hr with
    | nil => exact Guarded.nil _
    | @snoc tr s s' r hr _ ih =>
      have hg := ih fun q hq => hkept q (List.mem_append_left _ hq)
      refine guarded_snoc.mpr ⟨hg, fun hw => ?_⟩
      obtain ⟨A, h⟩ := run_mirrors hr hg
      have hlow : c.start ≤ s.coreBase.toNat := by
        rw [h.next]
        exact A.low
      exact wraps_breaks hlow hw (hkept (s, r) (by simp))
  · intro hg q hq
    obtain ⟨l, hl, hpre⟩ := hr.reaches_mem hq
    obtain ⟨A, h⟩ := run_mirrors hl (hg.prefix_of hpre)
    obtain ⟨A', h', hup⟩ := mmap_mirrors h (hg q hq)
    refine ⟨?_, h'.sound⟩
    rw [BitVec.le_def, h.next, h'.next]
    exact hup

/-- `__core` of qemu-arm behind 64 KiB of code. -/
def low : Core .qemuArm := ⟨65536, by decide, by decide⟩

/-- An anonymous mapping. -/
def anon (length : BitVec 32) (shift : Fin 32) : Request .qemuArm := ⟨0#32, length, shift, -1, 0⟩

theorem mmap_sound_low : ∃ tr s, Run (step low) (boot low) tr s ∧
    tr.map Prod.snd = [anon 8192 0, anon 100 16] ∧
    ((∀ q ∈ tr, Kept low q.1 (mmap low q.2 q.1).2) ↔ Guarded (fun s r => ¬ Wraps low s r) tr) :=
  ⟨_, _, .snoc (.snoc .nil rfl) rfl, rfl, mmap_sound_iff (.snoc (.snoc .nil rfl) rfl)⟩

/-- A length near `2^32` passes the test for room and moves `core_base` back,
and the next call returns memory that is in use. -/
theorem mmap_twice : ∃ tr s, Run (step low) (boot low) tr s ∧
    tr.map Prod.snd = [anon 8192 0, anon 4294959104 0, anon 4096 0] ∧
    s.grants.map Grant.toSpan = [⟨65536, 8192⟩, ⟨73728, 4294959104⟩, ⟨65536, 4096⟩] ∧
    ¬ Sound low s := by
  refine ⟨_, _, .snoc (.snoc (.snoc .nil rfl) rfl) rfl, rfl, by decide +kernel, fun h => ?_⟩
  exact absurd h.apart (by decide +kernel)

end Frankenlibc.Baremetal

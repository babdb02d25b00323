import Frankenlibc.Malloc.Morecore

/-!
# What the calls do to the pool

`aligned_alloc` may grow the pool and takes a block that is large enough for
the request at its alignment; `free` puts back the block the pointer came
from. Both leave the bytes of the other blocks alone.
-/
namespace Frankenlibc.Malloc

open Frankenlibc.Lib

variable {page : PageSize} {s : State} {p : Pool} {mmap : Nat → Option Nat}

/-- A call that returns is followed by the rest of the code. -/
theorem ok_bind {α β : Type} (a : α) (f : α → Except Fault β) : (Except.ok a >>= f) = f a := rfl

/-! ## The header -/

theorem setHeader_outside {m : Bytes} {op i pad x : Nat} (h : x < op ∨ op + 16 ≤ x) :
    setHeader m op i pad x = m x := by
  unfold setHeader
  rw [Bytes.store_outside (by omega), Function.update_of_ne (by omega),
    Function.update_of_ne (by omega)]

theorem header_setHeader (m : Bytes) {l : Live} (h : l.start + 16 ≤ l.ptr)
    (hlt : l.ptr < 18446744073709551616) (hi : l.index ≤ 26) :
    Header (setHeader m (l.ptr - 16) l.index (l.ptr - l.start)) l := by
  refine ⟨?_, ?_, ?_⟩
  · unfold ovAlignpad setHeader
    rw [Bytes.load_store]
    refine Nat.mod_eq_of_lt (?_ : l.ptr - l.start < 18446744073709551616)
    omega
  · unfold ovMagic setHeader
    rw [Bytes.store_outside (by omega), Function.update_of_ne (by omega), Function.update_self]
  · unfold ovIndex setHeader
    have hm : (UInt8.ofNat l.index).toNat = l.index % 256 := UInt8.toNat_ofNat'
    rw [Bytes.store_outside (by omega), Function.update_self, hm]
    omega

theorem setHeader_within (m : Bytes) {l : Live} (hl : Placed l) (i pad : Nat) :
    Within l.toBlock m (setHeader m (l.ptr - 16) i pad) := by
  have h₁ : l.start + 16 ≤ l.ptr := hl.header
  have h₂ := hl.inside
  intro x hx
  exact setHeader_outside (by omega)

/-! ## `aligned_alloc` -/

theorem setup_rep (h : Rep page s p) :
    ∃ s', setup page s = .ok s' ∧ Rep page s' p ∧ Ready page s' ∧ s'.mem = s.mem ∧
      s'.nextf = s.nextf := by
  by_cases h0 : s.pagesz = 0
  · have hpos : page.bytes > 0 := by
      rw [page.pow]
      exact Nat.two_pow_pos _
    have hb : findPagebucket page.bytes 33 (2 ^ MINSHIFT) 0 = .ok (page.shift - 5) := by
      have hlo : 5 ≤ page.shift := page.low
      have hhi := page.high
      rw [page.pow]
      exact findPagebucket_eq (b := 0) (by omega) (by omega) (by omega)
    refine ⟨{ s with pagesz := page.bytes, pagebucket := page.shift - 5 }, ?_, ?_, ⟨rfl, rfl⟩, rfl,
      rfl⟩
    · unfold setup
      rw [if_pos h0, if_pos hpos, hb]
      rfl
    · exact ⟨.inr ⟨rfl, rfl⟩, h.lists, h.header, h.live, h.carved, h.regions⟩
  · refine ⟨s, if_neg h0, h, ?_, rfl, rfl⟩
    exact h.ready.resolve_left h0

/-- The heap once a block has been unlinked and its header written. -/
def stamped (s : State) (l : Live) : State :=
  { s with
    nextf := Function.update s.nextf l.index (ovNext s.mem l.start)
    mem := setHeader s.mem (l.ptr - 16) l.index (l.ptr - l.start)
    live := l :: s.live }

theorem stamped_same {l : Live} {b : Block} (hl : Placed l) (hc : l.toBlock ∈ p.carved)
    (hb : b ∈ p.carved) (hne : l.toBlock ≠ b) : Same b s.mem (stamped s l).mem :=
  (setHeader_within s.mem hl _ _).same (Pool.carved_apart hc hb hne)

theorem stamped_rep (h : Rep page s p) {l : Live} {rest : List Nat} (hi : l.index < NBUCKETS)
    (hf : p.free l.index = l.start :: rest) (hl : Placed l)
    (htail : Chain (ovNext s.mem) NULL (ovNext s.mem l.start) rest) :
    Rep page (stamped s l) (p.take l rest hi hf hl) := by
  have hop : l.start ∈ p.free l.index := hf ▸ List.mem_cons_self
  have hc : l.toBlock ∈ p.carved := Pool.free_carved hi hop
  have hw := setHeader_within s.mem hl l.index (l.ptr - l.start)
  refine ⟨h.ready, ?_, ?_, congrArg (l :: ·) h.live, h.carved, h.regions⟩
  · intro k hk
    by_cases hki : k = l.index
    · subst hki
      simp only [Pool.take, stamped, Function.update_self]
      have hnd := p.free_nodup hk
      rw [hf, List.nodup_cons] at hnd
      refine htail.congr fun a ha => ?_
      have hne : l.start ≠ a := fun he => hnd.1 (he ▸ ha)
      have ha' : a ∈ p.free l.index := hf ▸ List.mem_cons_of_mem _ ha
      exact (hw.same (Pool.free_apart_free hk hk hop ha' hne)).next
    · simp only [Pool.take, stamped, Function.update_of_ne hki]
      refine (h.lists k hk).congr fun a ha => ?_
      have hne : l.toBlock ≠ ⟨a, k⟩ := fun he => hki (congrArg Block.index he).symm
      exact (hw.same (Pool.carved_apart hc (Pool.free_carved hk ha) hne)).next
  · intro m hm
    rcases List.mem_cons.mp hm with rfl | hm
    · have hlt := Pool.block_stop hc
      have hin := hl.inside
      exact header_setHeader s.mem hl.header (by omega) (p.sited _ hc).index
    · have hne : l.toBlock ≠ m.toBlock := (Pool.live_apart_free hm hi hop).symm.ne
      exact (h.header m hm).same (p.placed m hm) (stamped_same hl hc (Pool.live_carved hm) hne)

theorem take_eq {l : Live} {j : Nat} (hi : l.index < NBUCKETS)
    (hptr : l.ptr = place (2 ^ j) l.start)
    (hl : Placed l) (hlt : l.ptr < 18446744073709551616) :
    take l.align (2 ^ j) l.nbytes l.index l.start s = .ok (l.ptr, stamped s l) := by
  have hhd : 16 ≤ l.ptr := Nat.le_of_add_left_le hl.header
  have hst : l.start ≤ l.ptr := Nat.le_of_add_right_le hl.header
  have hpad : sub64 l.ptr l.start = l.ptr - l.start := sub64_of_le hst hlt
  have hop : sub64 l.ptr OVERHEAD = l.ptr - 16 := sub64_of_le hhd hlt
  simp only [take, nextfSet, if_pos hi, ← hptr, hpad, hop]
  rfl

/-- Unlinking a block that is large enough. -/
theorem take_rep (h : Rep page s p) {i j asked nbytes : Nat} (hi : i ≤ 26)
    (h0 : s.nextf i ≠ NULL) (hj : 4 ≤ j) (hal : max MINALIGN asked = 2 ^ j)
    (hfit : nbytes + 2 ^ j ≤ 2 ^ (i + 5)) :
    ∃ l s' p', take asked (2 ^ j) nbytes i (s.nextf i) s = .ok (l.ptr, s') ∧ Rep page s' p' ∧
      p'.live = l :: p.live ∧ l.nbytes = nbytes ∧ l.align = asked ∧ l.ptr + nbytes ≤ l.stop ∧
      p'.carved = p.carved ∧
      (∀ m ∈ p.live, l.toBlock ≠ m.toBlock) ∧
      ∀ b ∈ p.carved, l.toBlock ≠ b → Same b s.mem s'.mem := by
  have hib : i < NBUCKETS := Nat.lt_of_le_of_lt hi (by decide)
  obtain ⟨rest, hfree, htail⟩ := (h.lists i hib).of_ne h0
  have hop : s.nextf i ∈ p.free i := hfree ▸ List.mem_cons_self
  have hc := Pool.free_carved hib hop
  have hstop : s.nextf i + 2 ^ (i + 5) < 18446744073709551616 := Pool.block_stop hc
  have hdvd : 32 ∣ s.nextf i := (p.sited _ hc).aligned
  have hdvd' : 32 ∣ s.nextf i + 2 ^ (i + 5) :=
    (Nat.dvd_add_right hdvd).mpr (thirtytwo_dvd_pow (Nat.le_add_left 5 i))
  obtain ⟨h₁, h₂, h₃⟩ := place_eq hj hdvd hdvd' (by omega) hstop
  obtain ⟨l, hl⟩ : ∃ l : Live, l = ⟨⟨s.nextf i, i⟩, place (2 ^ j) (s.nextf i), nbytes, asked⟩ :=
    ⟨_, rfl⟩
  have hfits : l.ptr + nbytes ≤ l.stop := by
    rw [hl]
    show place (2 ^ j) (s.nextf i) + nbytes ≤ s.nextf i + 2 ^ (i + 5)
    omega
  have hplaced : Placed l := by
    refine ⟨?_, Nat.le_of_add_right_le hfits, ?_⟩
    · rw [hl]
      exact h₁
    · rw [hl, hal]
      exact h₃
  have hlt : l.ptr < 18446744073709551616 := by
    rw [hl]
    exact Nat.lt_of_le_of_lt (h₂.trans (by omega)) hstop
  have hi' : l.index < NBUCKETS := by rw [hl]; exact hib
  have hf' : p.free l.index = l.start :: rest := by rw [hl]; exact hfree
  have hop' : l.start ∈ p.free l.index := hf' ▸ List.mem_cons_self
  refine ⟨l, stamped s l, p.take l rest hi' hf' hplaced, ?_, ?_, rfl, ?_, ?_, hfits, rfl,
    fun m hm => (Pool.live_apart_free hm hi' hop').symm.ne,
    fun b hb hne => stamped_same hplaced (Pool.free_carved hi' hop') hb hne⟩
  · have ht := take_eq (s := s) (j := j) hi' (by rw [hl]) hplaced hlt
    rw [hl] at ht ⊢
    exact ht
  · exact stamped_rep h hi' hf' hplaced (by rw [hl]; exact htail)
  · rw [hl]
  · rw [hl]

/-- What a call of `aligned_alloc` comes to. -/
structure Alloc (asked nbytes : Nat) (s : State) (p : Pool) (rv : Nat) (s' : State) (p' : Pool) :
    Prop where
  kept : ∀ m ∈ p.live, Same m.toBlock s.mem s'.mem
  result : (rv = NULL ∧ p'.live = p.live) ∨
    ∃ l : Live, rv = l.ptr ∧ p'.live = l :: p.live ∧ l.nbytes = nbytes ∧ l.align = asked ∧
      l.ptr + nbytes ≤ l.stop

/-- What a call leaves alone: the blocks it does not hand out. -/
structure Beside (s : State) (p : Pool) (s' : State) (p' : Pool) : Prop where
  same : ∀ b ∈ p.carved, (∀ m ∈ p'.live, m.toBlock = b → m ∈ p.live) → Same b s.mem s'.mem
  carved : ∀ b ∈ p.carved, b ∈ p'.carved

theorem alignment {asked : Nat} (h : asked &&& sub64 asked 1 = 0)
    (hlt : asked < 18446744073709551616) :
    ∃ j, 4 ≤ j ∧ (if asked < MINALIGN then MINALIGN else asked) = 2 ^ j ∧
      max MINALIGN asked = 2 ^ j := by
  by_cases hs : asked < 16
  · exact ⟨4, le_rfl, if_pos hs, Nat.max_eq_left (by show asked ≤ 16; omega)⟩
  · rw [sub64_of_le (by omega) hlt] at h
    obtain ⟨j, hj⟩ := pow_two_of_and_pred (by omega) h
    refine ⟨j, ?_, (if_neg hs).trans hj, (Nat.max_eq_right (by show 16 ≤ asked; omega)).trans hj⟩
    by_contra hlt4
    have hle : 2 ^ j ≤ 2 ^ 3 := Nat.pow_le_pow_right (by decide) (by omega)
    omega

theorem exponent_le {j : Nat} (h : 2 ^ j < 18446744073709551616) : j ≤ 63 := by
  by_contra hc
  have h64 : 2 ^ 64 ≤ 2 ^ j := Nat.pow_le_pow_right (by decide) (by omega)
  omega

/-- The search starts from the page size for what does not fit in a page. -/
theorem bucketFor_eq (hr : Ready page s) (n : Nat) :
    bucketFor s n = .ok (if n ≤ 2 ^ 31 then some (bucketOf n) else none) := by
  have hlo : 5 ≤ page.shift := page.low
  have hhi : page.shift ≤ 30 := page.high
  unfold bucketFor
  by_cases hs : n ≤ s.pagesz
  · rw [if_pos hs]
    have hfind := findBucket_eq n (m := 33) (b := 0) (by omega) (by omega)
    rwa [Nat.zero_max] at hfind
  · have hpow : u32 s.pagesz = 2 ^ (page.shift - 5 + 5) := by
      have hle : 2 ^ page.shift ≤ 2 ^ 30 := Nat.pow_le_pow_right (by decide) hhi
      rw [hr.1, page.pow, Nat.sub_add_cancel hlo]
      exact Nat.mod_eq_of_lt (by omega)
    have hpast : page.shift - 5 ≤ bucketOf n := by
      by_contra hlt
      have hle := le_bucketOf_iff.mp (Nat.le_of_not_le hlt)
      rw [Nat.sub_add_cancel hlo, ← page.pow, ← hr.1] at hle
      exact hs hle
    have hfind := findBucket_eq n (m := 33) (b := page.shift - 5) (by omega) (by omega)
    rw [Nat.max_eq_right hpast] at hfind
    rw [if_neg hs, hpow, hr.2]
    exact hfind

/-- The block a bucket has to give: the first of its list, or the first of a
region from the host. -/
def head (page : PageSize) (mmap : Nat → Option Nat) (s : State) (i : Nat) : Option Nat :=
  if s.nextf i = NULL then mmap (regionLen page i) else some (s.nextf i)

theorem refill_rep (h : Rep page s p) (hr : Ready page s) (hm : Maps page s.regions mmap) {i : Nat}
    (hi : i ≤ 26) :
    ∃ s' p', refill mmap i s = .ok s' ∧ Rep page s' p' ∧ Grows p p' ∧
      (∀ b ∈ p.carved, Same b s.mem s'.mem) ∧
      s'.nextf i = (head page mmap s i).getD NULL := by
  have hget : nextfGet s i = .ok (s.nextf i) := if_pos (Nat.lt_of_le_of_lt hi (by decide))
  simp only [refill, hget, ok_bind, head]
  by_cases h0 : s.nextf i = NULL
  · rw [if_pos h0, if_pos h0]
    exact morecore_rep h hr hm hi h0
  · rw [if_neg h0, if_neg h0]
    exact ⟨s, p, rfl, h, .refl, fun _ _ _ _ _ => rfl, rfl⟩

/-- A bucket gives its first block, if `morecore` leaves it one. -/
theorem allocFrom_eq (h : Rep page s p) (hr : Ready page s) (hm : Maps page s.regions mmap)
    (asked align nbytes : Nat) {i : Nat} (hi : i ≤ 26) :
    ∃ s' p', allocFrom mmap asked align nbytes i s = (if s'.nextf i = NULL then .ok (NULL, s')
        else take asked align nbytes i (s'.nextf i) s') ∧
      s'.nextf i = (head page mmap s i).getD NULL ∧ Rep page s' p' ∧ Grows p p' ∧
      ∀ b ∈ p.carved, Same b s.mem s'.mem := by
  have hget : ∀ s : State, nextfGet s i = .ok (s.nextf i) :=
    fun _ => if_pos (Nat.lt_of_le_of_lt hi (by decide))
  obtain ⟨s₁, p₁, hs₁, h₁, hg, hk, hnext⟩ := refill_rep h hr hm hi
  refine ⟨s₁, p₁, ?_, hnext, h₁, hg, hk⟩
  simp only [allocFrom, hs₁, hget, ok_bind]
  rfl

theorem allocFrom_rep (h : Rep page s p) (hr : Ready page s) (hm : Maps page s.regions mmap)
    (asked : Nat) {i j nbytes : Nat} (hi : i ≤ 26) (hj : 4 ≤ j) (hal : max MINALIGN asked = 2 ^ j)
    (hfit : nbytes + 2 ^ j ≤ 2 ^ (i + 5)) :
    ∃ rv s' p', allocFrom mmap asked (2 ^ j) nbytes i s = .ok (rv, s') ∧ Rep page s' p' ∧
      Alloc asked nbytes s p rv s' p' ∧ Beside s p s' p' := by
  obtain ⟨s₁, p₁, hs₁, _, h₁, hg, hk⟩ := allocFrom_eq h hr hm asked (2 ^ j) nbytes hi
  split at hs₁
  · exact ⟨NULL, s₁, p₁, hs₁, h₁, ⟨fun m hm => hk _ (Pool.live_carved hm), .inl ⟨rfl, hg.live⟩⟩,
      ⟨fun b hb _ => hk b hb, fun b hb => hg.carved hb⟩⟩
  next hne =>
    obtain ⟨l, s₂, p₂, ht, h₂, hl, hnb, ha, hf, hc₂, hnew, hk₂⟩ := take_rep h₁ hi hne hj hal hfit
    rw [hg.live] at hl hnew
    refine ⟨l.ptr, s₂, p₂, hs₁.trans ht, h₂, ⟨fun m hm => ?_, .inr ⟨l, rfl, hl, hnb, ha, hf⟩⟩,
      fun b hb hold => ?_, fun b hb => ?_⟩
    · have hc := Pool.live_carved hm
      exact (hk _ hc).trans (hk₂ _ (hg.carved hc) (hnew m hm))
    · refine (hk b hb).trans (hk₂ b (hg.carved hb) fun he => ?_)
      exact hnew l (hold l (hl ▸ List.mem_cons_self) he) rfl
    · rw [hc₂]
      exact hg.carved hb

/-- A heap in which a call allocates, or fails and changes nothing. -/
def Allocates (page : PageSize) (mmap : Nat → Option Nat) (asked nbytes : Nat) (s : State)
    (p : Pool) : Prop :=
  ∃ rv s' p', alignedAlloc page mmap asked nbytes s = .ok (rv, s') ∧ Rep page s' p' ∧
    Alloc asked nbytes s p rv s' p' ∧ Beside s p s' p'

/-- A call that fails leaves every block as it was. -/
def Fails (page : PageSize) (mmap : Nat → Option Nat) (asked nbytes : Nat) (s : State)
    (p : Pool) : Prop :=
  ∃ s' p', alignedAlloc page mmap asked nbytes s = .ok (NULL, s') ∧ Rep page s' p' ∧ Grows p p' ∧
    ∀ b ∈ p.carved, Same b s.mem s'.mem

theorem Fails.allocates {asked nbytes : Nat} (h : Fails page mmap asked nbytes s p) :
    Allocates page mmap asked nbytes s p := by
  obtain ⟨s', p', hs, hrep, hg, hk⟩ := h
  exact ⟨NULL, s', p', hs, hrep, ⟨fun m hm => hk _ (Pool.live_carved hm), .inl ⟨rfl, hg.live⟩⟩,
    ⟨fun b hb _ => hk b hb, fun b hb => hg.carved hb⟩⟩

/-- An alignment that is not a power of two is refused. -/
theorem alignedAlloc_refused (h : Rep page s p) {asked : Nat} (hpow : asked &&& sub64 asked 1 ≠ 0)
    (nbytes : Nat) : Fails page mmap asked nbytes s p := by
  obtain ⟨s₁, hs₁, h₁, _, hmem, _⟩ := setup_rep h
  refine ⟨s₁, p, ?_, h₁, .refl, fun _ _ _ _ _ => congrFun hmem _⟩
  unfold alignedAlloc
  rw [hs₁, ok_bind, if_pos hpow]
  rfl

/-- The code for a power of two: the first bucket that has the bytes, or none. -/
theorem alignedAlloc_eq (h : Rep page s p) {asked j : Nat} (hpow : asked &&& sub64 asked 1 = 0)
    (ha : (if asked < MINALIGN then MINALIGN else asked) = 2 ^ j) (nbytes : Nat) :
    ∃ s', Rep page s' p ∧ Ready page s' ∧ s'.mem = s.mem ∧ s'.nextf = s.nextf ∧
      alignedAlloc page mmap asked nbytes s =
        if allocbytes (2 ^ j) nbytes ≤ 2 ^ 31
        then allocFrom mmap asked (2 ^ j) nbytes (bucketOf (allocbytes (2 ^ j) nbytes)) s'
        else .ok (NULL, s') := by
  obtain ⟨s₁, hs₁, h₁, hr, hmem, hnext⟩ := setup_rep h
  refine ⟨s₁, h₁, hr, hmem, hnext, ?_⟩
  obtain ⟨r, hfind, hb⟩ : ∃ r, bucketFor s₁ (allocbytes (2 ^ j) nbytes) = .ok r ∧
      r = if allocbytes (2 ^ j) nbytes ≤ 2 ^ 31 then some (bucketOf (allocbytes (2 ^ j) nbytes))
        else none := ⟨_, bucketFor_eq hr _, rfl⟩
  unfold alignedAlloc
  rw [hs₁, ok_bind, if_neg (not_not.mpr hpow), ha]
  simp only [hfind, ok_bind]
  by_cases hle : allocbytes (2 ^ j) nbytes ≤ 2 ^ 31
  · rw [if_pos hle] at hb ⊢
    rw [hb]
  · rw [if_neg hle] at hb ⊢
    rw [hb]
    rfl

theorem alignedAlloc_rep (h : Rep page s p) (hm : Maps page s.regions mmap) (asked nbytes : Nat)
    (hn : nbytes + max MINALIGN asked < 18446744073709551616) :
    Allocates page mmap asked nbytes s p := by
  by_cases hpow : asked &&& sub64 asked 1 = 0
  · obtain ⟨j, hj, ha, hmax⟩ := alignment hpow
      (Nat.lt_of_le_of_lt (Nat.le_trans (Nat.le_max_right _ _) (Nat.le_add_left _ _)) hn)
    rw [hmax] at hn
    have hj63 := exponent_le (Nat.lt_of_le_of_lt (Nat.le_add_left _ _) hn)
    obtain ⟨s₁, h₁, hr, hmem, _, heq⟩ :=
      (alignedAlloc_eq h hpow ha nbytes : ∃ s₁, _ ∧ _ ∧ _ ∧ _ ∧ alignedAlloc page mmap _ _ s = _)
    rw [allocbytes_mod hj hj63, u64_of_lt hn] at heq
    have hfit := fit_first (nbytes + 2 ^ j)
    by_cases hle : nbytes + 2 ^ j ≤ 2 ^ 31
    · rw [if_pos hle] at heq hfit
      cases hfit with
      | some _ hi hsize =>
        have hreg : s₁.regions = s.regions := h₁.regions.trans h.regions.symm
        obtain ⟨rv, s₂, p₂, hs₂, h₂, halloc, hbes⟩ :=
          allocFrom_rep h₁ hr (hreg ▸ hm) asked hi hj hmax hsize
        refine ⟨rv, s₂, p₂, heq.trans hs₂, h₂, ⟨fun m hm => ?_, halloc.result⟩,
          fun b hb hold => ?_, hbes.carved⟩
        · rw [← hmem]
          exact halloc.kept m hm
        · rw [← hmem]
          exact hbes.same b hb hold
    · rw [if_neg hle] at heq
      exact Fails.allocates ⟨s₁, p, heq, h₁, .refl, fun _ _ _ _ _ => congrFun hmem _⟩
  · exact (alignedAlloc_refused h hpow nbytes).allocates

/-! ## `free` -/

theorem ptr_ne_null {l : Live} (hl : l ∈ p.live) : l.ptr ≠ NULL := by
  have h₁ : l.start + 16 ≤ l.ptr := (p.placed l hl).header
  show l.ptr ≠ 0
  omega

theorem eraseP_perm {l : Live} (hl : l ∈ p.live) :
    p.live.Perm (l :: p.live.eraseP (·.ptr = l.ptr)) := by
  obtain ⟨m, l₁, l₂, _, hm, hsplit, herase⟩ :=
    List.exists_of_eraseP (p := fun m : Live => decide (m.ptr = l.ptr)) hl (by simp)
  have hmem : m ∈ p.live := by
    rw [hsplit]
    exact List.mem_append_right _ List.mem_cons_self
  have hml : m = l := Pool.ptr_unique hmem hl (by simpa using hm)
  rw [herase, hsplit, hml]
  exact List.perm_middle

/-- The heap once the block of `l` is back on its list. -/
def released (s : State) (l : Live) : State :=
  { s with
    mem := setNext s.mem l.start (s.nextf l.index)
    nextf := Function.update s.nextf l.index l.start
    live := s.live.eraseP (·.ptr = l.ptr) }

/-- The heap once the code has put the block its header names on a list. -/
def pushed (s : State) (cp : Nat) : State :=
  let op := sub64 cp OVERHEAD
  let origp := sub64 cp (ovAlignpad s.mem op)
  { s with
    mem := setNext s.mem origp (s.nextf (ovIndex s.mem op))
    nextf := Function.update s.nextf (ovIndex s.mem op) origp
    live := s.live.eraseP (·.ptr = cp) }

/-- The code, whatever `cp` points to. -/
theorem free_cases {cp : Nat} (hcp : cp ≠ NULL) (s : State) :
    free cp s = if ovMagic s.mem (sub64 cp OVERHEAD) ≠ MAGIC then .ok s
      else if ovIndex s.mem (sub64 cp OVERHEAD) < NBUCKETS then .ok (pushed s cp)
      else .error .assertion := by
  unfold free
  rw [if_neg hcp]
  by_cases hi : ovIndex s.mem (sub64 cp OVERHEAD) < NBUCKETS
  · simp only [nextfGet, nextfSet, if_pos hi, ok_bind]
    rfl
  · simp only [if_neg hi]

theorem free_eq (h : Rep page s p) {l : Live} (hl : l ∈ p.live) :
    free l.ptr s = .ok (released s l) := by
  have hhd := h.header l hl
  have hp := p.placed l hl
  have h₁ : l.start + 16 ≤ l.ptr := hp.header
  have hlt : l.ptr < 18446744073709551616 :=
    Nat.lt_of_le_of_lt hp.inside (Pool.block_stop (Pool.live_carved hl))
  have hi : l.index < NBUCKETS :=
    Nat.lt_of_le_of_lt (p.sited _ (Pool.live_carved hl)).index (by decide)
  have hop : sub64 l.ptr OVERHEAD = l.ptr - 16 := sub64_of_le (Nat.le_of_add_left_le h₁) hlt
  have horig : sub64 l.ptr (l.ptr - l.start) = l.start := by
    rw [sub64_of_le (by omega) hlt]
    omega
  rw [free_cases (ptr_ne_null hl), hop, hhd.magic, hhd.index, if_neg (not_not.mpr rfl),
    if_pos hi]
  unfold pushed released
  simp only [hop, hhd.index, hhd.pad, horig]

theorem free_rep (h : Rep page s p) {l : Live} (hl : l ∈ p.live) :
    Rep page (released s l) (p.put l _ (eraseP_perm hl)) := by
  have hc := Pool.live_carved hl
  have hi : l.index < NBUCKETS := Nat.lt_of_le_of_lt (p.sited _ hc).index (by decide)
  have hw : Within l.toBlock s.mem (released s l).mem := setNext_within s.mem l.toBlock _
  have hnext : ∀ i < NBUCKETS, ∀ a ∈ p.free i, ovNext (released s l).mem a = ovNext s.mem a :=
    fun i hi a ha => (hw.same (Pool.live_apart_free hl hi ha)).next
  refine ⟨h.ready, ?_, ?_, ?_, h.carved, h.regions⟩
  · intro k hk
    by_cases hkl : k = l.index
    · subst hkl
      have hlink : ovNext (released s l).mem l.start = s.nextf l.index :=
        ovNext_setNext _ (h.nextf_lt hk)
      simp only [Pool.put, released, Function.update_self]
      refine .cons (Pool.block_pos hc).ne' ?_
      have ht := (h.lists _ hk).congr (hnext _ hk)
      rw [← hlink] at ht
      exact ht
    · simp only [Pool.put, released, Function.update_of_ne hkl]
      exact (h.lists k hk).congr (hnext k hk)
  · intro m hm
    have hml : m ∈ p.live := (eraseP_perm hl).mem_iff.mpr (List.mem_cons_of_mem _ hm)
    have hd := (List.pairwise_cons.mp ((eraseP_perm hl).pairwise_iff
      (fun h => Block.Apart.symm h) |>.mp p.live_apart)).1 m hm
    exact (h.header m hml).same (p.placed m hml) (hw.same hd)
  · show s.live.eraseP _ = p.live.eraseP _
    rw [h.live]

theorem stale_released (h : Rep page s p) {l : Live} (hl : l ∈ p.live) :
    Stale (released s l).mem l := by
  have h₁ : l.start + 16 ≤ l.ptr := (p.placed l hl).header
  exact (h.header l hl).stale.congr (by omega) fun x hlo _ => Bytes.store_outside (by omega)

end Frankenlibc.Malloc

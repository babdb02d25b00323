import Frankenlibc.Malloc.Heap

/-!
# Requests near the limits of `size_t`

Three sums and products can leave 64 bits on the way to a block: the product in
`calloc`, the room for the header, and the doubling of the block size. Only the
last one is looked at by the code. A request that wraps to a small number is
given a block if the bucket of that number has one, and the block is smaller
than the request by almost `2 ^ 64`.
-/
namespace Frankenlibc.Malloc

open Frankenlibc.Lib

variable {page : PageSize} {s : State} {p : Pool} {mmap : Nat → Option Nat}

/-! ## One allocation -/

/-- The request and its header do not fit in 64 bits, and a bucket has a block
for what is left of their sum. -/
def Overdrawn (page : PageSize) (mmap : Nat → Option Nat) (s : State) (asked bytes : Nat) : Prop :=
  asked &&& sub64 asked 1 = 0 ∧ 18446744073709551616 ≤ bytes + max MINALIGN asked ∧
    u64 (bytes + max MINALIGN asked) ≤ 2 ^ 31 ∧
    (head page mmap s (bucketOf (u64 (bytes + max MINALIGN asked)))).isSome

/-- What a caller may rely on: a block with the bytes asked for, or `NULL` and
no block. -/
def Served (s s' : State) (rv bytes : Nat) : Prop :=
  (rv = NULL ∧ s'.live = s.live) ∨
    rv ≠ NULL ∧ ∃ l : Live, s'.live = l :: s.live ∧ l.ptr = rv ∧ l.start ≤ rv ∧ rv + bytes ≤ l.stop

theorem getD_head (hm : Maps page s.regions mmap) {i : Nat} :
    (head page mmap s i).getD NULL ≠ NULL ↔ (head page mmap s i).isSome := by
  cases hh : head page mmap s i with
  | none => simp
  | some a =>
    refine iff_of_true ?_ rfl
    unfold head at hh
    split at hh
    · exact (hm _ a hh).2.1.1.ne'
    · rename_i hne
      cases hh
      exact hne

theorem dvd_place {j : Nat} (hj : j ≤ 63) (op : Nat) : 2 ^ j ∣ place (2 ^ j) op := by
  have hpos : 1 ≤ 2 ^ j := Nat.two_pow_pos j
  have hlt : 2 ^ j ≤ 2 ^ 63 := Nat.pow_le_pow_right (by decide) hj
  have hword : ∀ x, u64 x < 18446744073709551616 := fun x => Nat.mod_lt x (by decide)
  unfold place
  rw [sub64_of_le hpos (by omega), and_not64_mask (hword _) (by omega)]
  exact Nat.dvd_mul_left _ _

/-- An alignment the code accepts, as a power of two. -/
theorem max_align {asked : Nat} (hpow : asked &&& sub64 asked 1 = 0)
    (ha : asked < 18446744073709551616) : ∃ j, 4 ≤ j ∧ j ≤ 63 ∧
      (if asked < MINALIGN then MINALIGN else asked) = 2 ^ j ∧ max MINALIGN asked = 2 ^ j := by
  obtain ⟨j, hj, hal, hmax⟩ := alignment hpow ha
  refine ⟨j, hj, exponent_le ?_, hal, hmax⟩
  rw [← hmax]
  exact Nat.max_lt.mpr ⟨by decide, ha⟩

/-- The code for a power of two, by what is left of the request in 64 bits. -/
theorem alignedAlloc_mod (h : Rep page s p) (hm : Maps page s.regions mmap) {asked : Nat}
    (bytes : Nat) (hpow : asked &&& sub64 asked 1 = 0) (ha : asked < 18446744073709551616) :
    ∃ s', Rep page s' p ∧ Ready page s' ∧ s'.mem = s.mem ∧ Maps page s'.regions mmap ∧
      head page mmap s' = head page mmap s ∧
      alignedAlloc page mmap asked (u64 bytes) s =
        if u64 (bytes + max MINALIGN asked) ≤ 2 ^ 31
        then allocFrom mmap asked (max MINALIGN asked) (u64 bytes)
          (bucketOf (u64 (bytes + max MINALIGN asked))) s'
        else .ok (NULL, s') := by
  obtain ⟨j, hj, hj63, hal, hmax⟩ := max_align hpow ha
  obtain ⟨s₁, h₁, hr, hmem, hnext, heq⟩ := (alignedAlloc_eq h hpow hal (u64 bytes) :
    ∃ s₁, _ ∧ _ ∧ _ ∧ _ ∧ alignedAlloc page mmap _ _ s = _)
  have hreg : s₁.regions = s.regions := h₁.regions.trans h.regions.symm
  have hsum : u64 (u64 bytes + 2 ^ j) = u64 (bytes + 2 ^ j) := Nat.mod_add_mod bytes _ (2 ^ j)
  rw [allocbytes_mod hj hj63, hsum] at heq
  rw [hmax]
  refine ⟨s₁, h₁, hr, hmem, hreg ▸ hm, ?_, heq⟩
  unfold head
  rw [hnext]

/-- A request that wraps and finds no block fails. -/
theorem alignedAlloc_fails (h : Rep page s p) (hm : Maps page s.regions mmap) {asked bytes : Nat}
    (ha : asked < 18446744073709551616) (hbig : 18446744073709551616 ≤ bytes + max MINALIGN asked)
    (hno : ¬ Overdrawn page mmap s asked bytes) : Fails page mmap asked (u64 bytes) s p := by
  by_cases hpow : asked &&& sub64 asked 1 = 0
  · obtain ⟨s₁, h₁, hr, hmem, hm₁, hhead, heq⟩ := alignedAlloc_mod h hm bytes hpow ha
    by_cases hle : u64 (bytes + max MINALIGN asked) ≤ 2 ^ 31
    · have hnone : (head page mmap s₁ (bucketOf (u64 (bytes + max MINALIGN asked)))).getD NULL
          = NULL := by
        by_contra hne
        have hsome := (getD_head hm₁).mp hne
        rw [hhead] at hsome
        exact hno ⟨hpow, hbig, hle, hsome⟩
      obtain ⟨s₂, p₂, hs₂, hnext, h₂, hg, hk⟩ :=
        allocFrom_eq h₁ hr hm₁ asked (max MINALIGN asked) (u64 bytes) (bucketOf_le hle)
      rw [if_pos hle, hs₂, if_pos (hnext.trans hnone)] at heq
      exact ⟨s₂, p₂, heq, h₂, hg, fun b hb => hmem ▸ hk b hb⟩
    · rw [if_neg hle] at heq
      exact ⟨s₁, p, heq, h₁, .refl, fun _ _ _ _ _ => congrFun hmem _⟩
  · exact alignedAlloc_refused h hpow _

theorem take_live (s : State) (asked align nbytes op : Nat) {i : Nat} (hi : i < NBUCKETS) :
    ∃ s', take asked align nbytes i op s = .ok (place align op, s') ∧
      s'.live = ⟨⟨op, i⟩, place align op, nbytes, asked⟩ :: s.live := by
  simp only [take, nextfSet, if_pos hi, ok_bind]
  exact ⟨_, rfl, rfl⟩

/-- A request that wraps and finds a block gets it. -/
theorem alignedAlloc_overdrawn (h : Rep page s p) (hm : Maps page s.regions mmap)
    {asked bytes : Nat} (ha : asked < 18446744073709551616)
    (hover : Overdrawn page mmap s asked bytes) :
    ∃ (l : Live) (s' : State), alignedAlloc page mmap asked (u64 bytes) s = .ok (l.ptr, s') ∧
      s'.live = l :: s.live ∧ l.stop < 18446744073709551616 ∧ max MINALIGN asked ∣ l.ptr ∧
      (asked ≤ MINALIGN → l.ptr ≠ NULL) := by
  obtain ⟨hpow, _, hle, hsome⟩ := hover
  obtain ⟨s₁, h₁, hr, _, hm₁, hhead, heq⟩ := alignedAlloc_mod h hm bytes hpow ha
  obtain ⟨j, _, hj63, _, hmax⟩ := max_align hpow ha
  have hi := bucketOf_le hle
  rw [if_pos hle] at heq
  generalize bucketOf (u64 (bytes + max MINALIGN asked)) = i at hsome heq hi
  rw [← hhead, ← getD_head hm₁] at hsome
  obtain ⟨s₂, p₂, hs₂, hnext, h₂, hg, _⟩ :=
    allocFrom_eq h₁ hr hm₁ asked (max MINALIGN asked) (u64 bytes) hi
  have hne : s₂.nextf i ≠ NULL := hnext ▸ hsome
  rw [if_neg hne] at hs₂
  have hib : i < NBUCKETS := Nat.lt_of_le_of_lt hi (by decide)
  obtain ⟨rest, hfree, _⟩ := (h₂.lists i hib).of_ne hne
  have hc := Pool.free_carved hib (hfree ▸ List.mem_cons_self : s₂.nextf i ∈ p₂.free i)
  obtain ⟨s₃, hs₃, hlive⟩ := take_live s₂ asked (max MINALIGN asked) (u64 bytes) (s₂.nextf i) hib
  rw [h₂.live, hg.live, ← h.live] at hlive
  refine ⟨_, s₃, heq.trans (hs₂.trans hs₃), hlive, Pool.block_stop hc, ?_, fun hle => ?_⟩
  · rw [hmax]
    exact dvd_place hj63 _
  · -- with the smallest alignment the pointer stays in the block
    have hdvd : 32 ∣ s₂.nextf i := (p₂.sited _ hc).aligned
    have hdvd' : 32 ∣ s₂.nextf i + 2 ^ (i + 5) :=
      (Nat.dvd_add_right hdvd).mpr (thirtytwo_dvd_pow (Nat.le_add_left 5 i))
    have hroom : s₂.nextf i + 32 ≤ s₂.nextf i + 2 ^ (i + 5) := Block.room_for_link ⟨s₂.nextf i, i⟩
    have hplace := (place_eq (j := 4) le_rfl hdvd hdvd' (by omega) (Pool.block_stop hc)).1
    rw [Nat.max_eq_left hle]
    show place (2 ^ 4) (s₂.nextf i) ≠ 0
    omega

theorem Fails.served {asked n : Nat} (hf : Fails page mmap asked n s p) (h : Rep page s p)
    (bytes : Nat) :
    ∃ rv s', alignedAlloc page mmap asked n s = .ok (rv, s') ∧ Served s s' rv bytes := by
  obtain ⟨s', p', hs, h', hg, _⟩ := hf
  exact ⟨NULL, s', hs, .inl ⟨rfl, by rw [h'.live, hg.live, h.live]⟩⟩

theorem Allocates.served {asked n : Nat} (ha : Allocates page mmap asked n s p)
    (h : Rep page s p) :
    ∃ rv s', alignedAlloc page mmap asked n s = .ok (rv, s') ∧ Served s s' rv n := by
  obtain ⟨rv, s', p', hs, h', halloc, _⟩ := ha
  refine ⟨rv, s', hs, ?_⟩
  rcases halloc.result with ⟨hrv, hlive⟩ | ⟨l, rfl, hlive, _, _, hfit⟩
  · exact .inl ⟨hrv, by rw [h'.live, hlive, h.live]⟩
  · have hl : l ∈ p'.live := hlive ▸ List.mem_cons_self
    exact .inr ⟨ptr_ne_null hl, l, by rw [h'.live, hlive, h.live], rfl,
      Nat.le_of_add_right_le (p'.placed l hl).header, hfit⟩

/-- Any request, of any size and alignment: `aligned_alloc` returns, and it
keeps to what was asked for exactly if the request is not overdrawn. -/
theorem served_iff (h : Rep page s p) (hm : Maps page s.regions mmap) {asked : Nat}
    (ha : asked < 18446744073709551616) (bytes : Nat) :
    (∃ rv s', alignedAlloc page mmap asked (u64 bytes) s = .ok (rv, s') ∧ Served s s' rv bytes) ↔
      ¬ Overdrawn page mmap s asked bytes := by
  constructor
  · rintro ⟨rv, s', hs, hserved⟩ hover
    obtain ⟨l, s₁, hs₁, hlive, hstop, hdvd, _⟩ := alignedAlloc_overdrawn h hm ha hover
    obtain ⟨rfl, rfl⟩ := Prod.mk.inj (Except.ok.inj (hs.symm.trans hs₁))
    rcases hserved with ⟨_, hsame⟩ | ⟨hne, m, hm', _, _, hfit⟩
    · exact absurd (hsame.symm.trans hlive) (List.cons_ne_self l s.live).symm
    · obtain ⟨rfl, _⟩ := List.cons.inj (hlive.symm.trans hm')
      -- the pointer is a multiple of the alignment and not zero
      have hle := Nat.le_of_dvd (Nat.pos_of_ne_zero hne) hdvd
      have hbig := hover.2.1
      omega
  · intro hno
    by_cases hbig : 18446744073709551616 ≤ bytes + max MINALIGN asked
    · exact (alignedAlloc_fails h hm ha hbig hno).served h bytes
    · have hlt : bytes + max MINALIGN asked < 18446744073709551616 := Nat.lt_of_not_le hbig
      rw [u64_of_lt (Nat.lt_of_le_of_lt (Nat.le_add_right _ _) hlt)]
      exact (alignedAlloc_rep h hm asked bytes hlt).served h

/-- A request that is not overdrawn goes by the pool. -/
theorem allocates_of_not (h : Rep page s p) (hm : Maps page s.regions mmap) {asked bytes : Nat}
    (ha : asked < 18446744073709551616) (hno : ¬ Overdrawn page mmap s asked bytes) :
    Allocates page mmap asked (u64 bytes) s p := by
  by_cases hbig : 18446744073709551616 ≤ bytes + max MINALIGN asked
  · exact (alignedAlloc_fails h hm ha hbig hno).allocates
  · have hlt : bytes + max MINALIGN asked < 18446744073709551616 := Nat.lt_of_not_le hbig
    rw [u64_of_lt (Nat.lt_of_le_of_lt (Nat.le_add_right _ _) hlt)]
    exact alignedAlloc_rep h hm asked bytes hlt

/-! ## The calls -/

/-- Arguments of type `size_t`, regions the host may map, pointers that are
held and writes to blocks in use. -/
def Proper (page : PageSize) (s : State) : Event → Prop
  | .malloc offer size => Offered page s offer ∧ size < 18446744073709551616
  | .calloc offer nmemb size => Offered page s offer ∧ nmemb < 18446744073709551616 ∧
      size < 18446744073709551616
  | .memalign offer align size => Offered page s offer ∧ align < 18446744073709551616 ∧
      size < 18446744073709551616
  | .realloc offer cp nbytes => Offered page s offer ∧ Held s cp ∧ nbytes < 18446744073709551616
  | .free cp => Held s cp
  | .write a _ => ∃ l ∈ s.live, l.ptr ≤ a ∧ a < l.stop

instance (page : PageSize) (s : State) : (e : Event) → Decidable (Proper page s e)
  | .malloc _ _ => inferInstanceAs (Decidable (_ ∧ _))
  | .calloc _ _ _ => inferInstanceAs (Decidable (_ ∧ _ ∧ _))
  | .memalign _ _ _ => inferInstanceAs (Decidable (_ ∧ _ ∧ _))
  | .realloc _ _ _ => inferInstanceAs (Decidable (_ ∧ _ ∧ _))
  | .free _ => inferInstanceAs (Decidable (Held _ _))
  | .write a _ => inferInstanceAs (Decidable (∃ l ∈ s.live, l.ptr ≤ a ∧ a < l.stop))

/-- What the caller wants: of `calloc` the product itself, not what is left of
it in a `size_t`. -/
def wants (s : State) : Event → Option Ask
  | .calloc offer nmemb size => some ⟨offer, 8, nmemb * size⟩
  | e => asks s e

/-- A call whose request is overdrawn. -/
def undersized (page : PageSize) (s : State) (e : Event) : Prop :=
  ∃ a ∈ wants s e, Overdrawn page (answer a.offer) s a.align a.nbytes

theorem Proper.disciplined {e : Event} (h : Proper page s e) : Disciplined s e := by
  cases e with
  | realloc offer cp n => exact h.2.1
  | free cp => exact h
  | write a b => exact h
  | _ => trivial

theorem Proper.wants {e : Event} (h : Proper page s e) {a : Ask} (ha : a ∈ wants s e) :
    Maps page s.regions (answer a.offer) ∧ a.align < 18446744073709551616 := by
  cases e with
  | malloc offer size =>
    cases ha
    exact ⟨maps_answer h.1, Nat.two_pow_pos 64⟩
  | calloc offer nmemb size =>
    cases ha
    exact ⟨maps_answer h.1, (by decide : 8 < 18446744073709551616)⟩
  | memalign offer align size =>
    cases ha
    exact ⟨maps_answer h.1, h.2.1⟩
  | realloc offer cp n =>
    obtain ⟨_, rfl⟩ := mem_asks_realloc.mp ha
    exact ⟨maps_answer h.1, Nat.two_pow_pos 64⟩
  | free cp => cases ha
  | write a b => cases ha

/-- What the code asks for is what is wanted, in 64 bits. -/
theorem Proper.asks {e : Event} (h : Proper page s e) {a : Ask} (ha : a ∈ asks s e) :
    ∃ n, u64 n = a.nbytes ∧ ⟨a.offer, a.align, n⟩ ∈ Malloc.wants s e := by
  cases e with
  | malloc offer size =>
    cases ha
    exact ⟨size, u64_of_lt h.2, rfl⟩
  | calloc offer nmemb size =>
    cases ha
    exact ⟨nmemb * size, rfl, rfl⟩
  | memalign offer align size =>
    cases ha
    exact ⟨size, u64_of_lt h.2.2, rfl⟩
  | realloc offer cp n =>
    obtain ⟨hif, rfl⟩ := mem_asks_realloc.mp ha
    exact ⟨n, u64_of_lt h.2.2, mem_asks_realloc.mpr ⟨hif, rfl⟩⟩
  | free cp => cases ha
  | write a b => cases ha

theorem proper_carried (h : Rep page s p) {e : Event} (hp : Proper page s e)
    (hno : ¬ undersized page s e) : ∃ s' p', Carried page s p e s' p' := by
  refine call_carried h hp.disciplined fun a ha => ?_
  obtain ⟨n, hn, hw⟩ := hp.asks ha
  obtain ⟨hm, hal⟩ := hp.wants hw
  rw [← hn]
  exact allocates_of_not h hm hal fun hover => hno ⟨_, hw, hover⟩

/-- A call that allocates keeps to the size that is wanted; `realloc` does so
in the call of `malloc` it makes. -/
def Kept (page : PageSize) (s : State) : Event → Prop
  | .malloc offer size =>
    ∃ rv s', malloc page (answer offer) size s = .ok (rv, s') ∧ Served s s' rv size
  | .calloc offer nmemb size =>
    ∃ rv s', calloc page (answer offer) nmemb size s = .ok (rv, s') ∧
      Served s s' rv (nmemb * size)
  | .memalign offer align size =>
    ∃ err mem s', posixMemalign page (answer offer) align size s = .ok (err, mem, s') ∧
      (err = 0 ↔ mem.isSome) ∧ Served s s' (mem.getD NULL) size
  | .realloc offer cp nbytes =>
    cp = NULL ∨ nbytes ≠ 0 ∧ room s.mem cp < nbytes →
      ∃ rv s', malloc page (answer offer) nbytes s = .ok (rv, s') ∧ Served s s' rv nbytes
  | _ => True

theorem calloc_served {nmemb size bytes : Nat} :
    (∃ rv s', calloc page mmap nmemb size s = .ok (rv, s') ∧ Served s s' rv bytes) ↔
      ∃ rv s', alignedAlloc page mmap 8 (u64 (nmemb * size)) s = .ok (rv, s') ∧
        Served s s' rv bytes := by
  cases hs : alignedAlloc page mmap 8 (u64 (nmemb * size)) s with
  | error f => simp only [calloc, hs, bind, Except.bind, reduceCtorEq, false_and, exists_false]
  | ok r =>
    obtain ⟨rv, s₁⟩ := r
    simp only [calloc, hs, ok_bind]
    by_cases h0 : rv = NULL
    · subst h0
      rfl
    · simp only [if_neg h0]
      constructor
      · rintro ⟨_, _, heq, hserved⟩
        cases heq
        exact ⟨rv, s₁, rfl, hserved⟩
      · rintro ⟨_, _, heq, hserved⟩
        cases heq
        exact ⟨_, _, rfl, hserved⟩

theorem posixMemalign_served {align size : Nat} :
    (∃ err mem s', posixMemalign page mmap align size s = .ok (err, mem, s') ∧
      (err = 0 ↔ mem.isSome) ∧ Served s s' (mem.getD NULL) size) ↔
      ∃ rv s', alignedAlloc page mmap align size s = .ok (rv, s') ∧ Served s s' rv size := by
  cases hs : alignedAlloc page mmap align size s with
  | error f =>
    simp only [posixMemalign, hs, bind, Except.bind, reduceCtorEq, false_and, exists_false]
  | ok r =>
    obtain ⟨rv, s₁⟩ := r
    simp only [posixMemalign, hs, ok_bind]
    by_cases h0 : rv = NULL
    · subst h0
      constructor
      · rintro ⟨_, _, _, heq, _, hserved⟩
        cases heq
        exact ⟨NULL, s₁, rfl, hserved⟩
      · rintro ⟨_, _, heq, hserved⟩
        cases heq
        exact ⟨ENOMEM, none, _, rfl, by decide, hserved⟩
    · simp only [if_neg h0]
      constructor
      · rintro ⟨_, _, _, heq, _, hserved⟩
        cases heq
        exact ⟨rv, s₁, rfl, hserved⟩
      · rintro ⟨_, _, heq, hserved⟩
        cases heq
        exact ⟨0, some _, _, rfl, iff_of_true rfl rfl, hserved⟩

theorem kept_iff (h : Rep page s p) {e : Event} (hp : Proper page s e) :
    Kept page s e ↔ ¬ undersized page s e := by
  have hone : ∀ {a : Ask}, Malloc.wants s e = some a →
      ((∃ rv s', alignedAlloc page (answer a.offer) a.align (u64 a.nbytes) s = .ok (rv, s') ∧
        Served s s' rv a.nbytes) ↔ ¬ undersized page s e) := by
    intro a ha
    obtain ⟨hm, hal⟩ := hp.wants ha
    rw [served_iff h hm hal a.nbytes]
    refine not_congr ⟨fun hover => ⟨a, ha, hover⟩, ?_⟩
    rintro ⟨b, hb, hover⟩
    cases ha.symm.trans hb
    exact hover
  cases e with
  | malloc offer size =>
    rw [← hone rfl]
    show _ ↔ ∃ rv s', alignedAlloc page (answer offer) 0 (u64 size) s = .ok (rv, s') ∧ _
    rw [u64_of_lt hp.2]
    rfl
  | calloc offer nmemb size =>
    rw [← hone rfl]
    exact calloc_served
  | memalign offer align size =>
    rw [← hone rfl]
    show _ ↔ ∃ rv s', alignedAlloc page (answer offer) align (u64 size) s = .ok (rv, s') ∧ _
    rw [u64_of_lt hp.2.2]
    exact posixMemalign_served
  | realloc offer cp n =>
    by_cases hif : cp = NULL ∨ n ≠ 0 ∧ room s.mem cp < n
    · have hask : Malloc.wants s (.realloc offer cp n) = some ⟨offer, 0, n⟩ :=
        mem_asks_realloc.mpr ⟨hif, rfl⟩
      rw [← hone hask]
      show _ ↔ ∃ rv s', alignedAlloc page (answer offer) 0 (u64 n) s = .ok (rv, s') ∧ _
      rw [u64_of_lt hp.2.2]
      exact ⟨fun hk => hk hif, fun hk _ => hk⟩
    · refine iff_of_true (fun hc => absurd hc hif) ?_
      rintro ⟨a, ha, _⟩
      exact hif (mem_asks_realloc.mp ha).1
  | free cp =>
    refine iff_of_true trivial ?_
    rintro ⟨a, ha, _⟩
    cases ha
  | write a b =>
    refine iff_of_true trivial ?_
    rintro ⟨a, ha, _⟩
    cases ha

/-! ## Whole runs -/

instance (page : PageSize) (mmap : Nat → Option Nat) (s : State) (asked bytes : Nat) :
    Decidable (Overdrawn page mmap s asked bytes) :=
  inferInstanceAs (Decidable (_ ∧ _ ∧ _ ∧ _))

instance (page : PageSize) (s : State) (e : Event) : Decidable (undersized page s e) :=
  inferInstanceAs (Decidable (∃ a ∈ wants s e, Overdrawn page (answer a.offer) s a.align a.nbytes))

/-- What keeps the heap in one piece. -/
def Fair (page : PageSize) (s : State) (e : Event) : Prop :=
  Proper page s e ∧ ¬ undersized page s e

instance (page : PageSize) (s : State) (e : Event) : Decidable (Fair page s e) :=
  inferInstanceAs (Decidable (_ ∧ _))

theorem fair_step (h : Rep page s p) {e : Event} {s' : State} (hf : Fair page s e)
    (hs : step page s e = some s') : ∃ p', Carried page s p e s' p' :=
  step_carried hs (proper_carried h hf.1 hf.2)

/-- Every run without an overdrawn request represents a pool. -/
theorem rep_fair {mem : Bytes} {tr : List (State × Event)} (hr : Run (step page) (boot mem) tr s)
    (hg : Guarded (Fair page) tr) : ∃ p, Rep page s p := by
  refine Run.invariant (I := fun s => ∃ p, Rep page s p) ⟨_, rep_boot page mem⟩ ?_ hr hg
  rintro s e s' ⟨p, h⟩ hfair hs
  obtain ⟨p', hc⟩ := fair_step h hfair hs
  exact ⟨p', hc.rep⟩

/-- The first overdrawn request is not kept to. -/
theorem never_undersized {mem : Bytes} {tr : List (State × Event)}
    (hr : Run (step page) (boot mem) tr s) (hg : Guarded (Proper page) tr)
    (hall : ∀ q ∈ tr, Kept page q.1 q.2) : Guarded (fun s e => ¬ undersized page s e) tr := by
  induction hr with
  | nil => exact Guarded.nil _
  | @snoc tr s s' e hrun hs ih =>
    obtain ⟨hg', hp⟩ := guarded_snoc.mp hg
    have hno := ih hg' fun q hq => hall q (List.mem_append_left _ hq)
    obtain ⟨p, h⟩ := rep_fair hrun fun q hq => ⟨hg' q hq, hno q hq⟩
    have hk : Kept page s e := hall (s, e) (by simp)
    exact guarded_snoc.mpr ⟨hno, (kept_iff h hp).mp hk⟩

/-- Any page size, any memory to start from and any run of a proper program,
with sizes, counts and alignments from all of `size_t`: every call gets the
bytes it wants, or `NULL`, exactly if no request is overdrawn. -/
theorem sizes_kept_iff {mem : Bytes} {tr : List (State × Event)}
    (hr : Run (step page) (boot mem) tr s) (hg : Guarded (Proper page) tr) :
    (∀ q ∈ tr, Kept page q.1 q.2) ↔ Guarded (fun s e => ¬ undersized page s e) tr := by
  refine ⟨never_undersized hr hg, fun hno q hq => ?_⟩
  obtain ⟨l, hl, hle⟩ := hr.reaches_mem hq
  have hfair : Guarded (Fair page) tr := fun q hq => ⟨hg q hq, hno q hq⟩
  obtain ⟨p, h⟩ := rep_fair hl (hfair.prefix_of hle)
  exact (kept_iff h (hg q hq)).mpr (hno q hq)

/-- Requests that fit, one that is too large for any bucket, and products and
sums just below `2 ^ 64`. -/
theorem sizes_kept_limits : ∃ tr s, Run (step page64) (boot fun _ => 0) tr s ∧
    tr.map Prod.snd = [.malloc (some (4096, 64)) 16, .malloc none 18446744073709551599,
      .calloc none 4 4, .calloc none 4294967295 4294967296, .memalign none 9223372036854775808 1] ∧
    (∀ q ∈ tr, Kept page64 q.1 q.2) ∧
    s.live = [⟨⟨4128, 0⟩, 4144, 16, 8⟩, ⟨⟨4096, 0⟩, 4112, 16, 0⟩] := by
  obtain ⟨tr, s, hr, hp⟩ := exists_run (f := step page64) (s := boot fun _ => 0)
    [.malloc (some (4096, 64)) 16, .malloc none 18446744073709551599, .calloc none 4 4,
      .calloc none 4294967295 4294967296, .memalign none 9223372036854775808 1]
    (p := fun tr s => Guarded (Proper page64) tr ∧
      Guarded (fun s e => ¬ undersized page64 s e) tr ∧
      tr.map Prod.snd = [.malloc (some (4096, 64)) 16, .malloc none 18446744073709551599,
        .calloc none 4 4, .calloc none 4294967295 4294967296,
        .memalign none 9223372036854775808 1] ∧
      s.live = [⟨⟨4128, 0⟩, 4144, 16, 8⟩, ⟨⟨4096, 0⟩, 4112, 16, 0⟩]) (by decide)
  rw [decide_eq_true_eq] at hp
  obtain ⟨hg, hno, he, hl⟩ := hp
  exact ⟨tr, s, hr, he, (sizes_kept_iff hr hg).mpr hno, hl⟩

/-- `malloc` of the largest size gets a block of 32 bytes, and so does `calloc`
of `2 ^ 32` members of `2 ^ 32` bytes. -/
theorem size_wraps :
    (∃ s, call page64 (boot fun _ => 0) (.malloc (some (4096, 64)) 18446744073709551615) = .ok s ∧
      s.live = [⟨⟨4096, 0⟩, 4112, 18446744073709551615, 0⟩]) ∧
    ¬ Kept page64 (boot fun _ => 0) (.malloc (some (4096, 64)) 18446744073709551615) ∧
    (∃ s, call page64 (boot fun _ => 0) (.calloc (some (4096, 64)) 4294967296 4294967296) = .ok s ∧
      s.live = [⟨⟨4096, 0⟩, 4112, 0, 8⟩]) ∧
    ¬ Kept page64 (boot fun _ => 0) (.calloc (some (4096, 64)) 4294967296 4294967296) := by
  have hsmall : ∀ n, n ≤ 32 → bucketOf n = 0 := fun n hn => Nat.le_zero.mp (le_bucketOf_iff.mpr hn)
  refine ⟨⟨_, rfl, rfl⟩, fun hk => ?_, ⟨_, rfl, rfl⟩, fun hk => ?_⟩
  · refine (kept_iff (rep_boot page64 _) (by decide)).mp hk ⟨_, rfl, rfl, by decide, by decide, ?_⟩
    rw [hsmall _ (by decide)]
    rfl
  · refine (kept_iff (rep_boot page64 _) (by decide)).mp hk ⟨_, rfl, rfl, by decide, by decide, ?_⟩
    rw [hsmall _ (by decide)]
    rfl

end Frankenlibc.Malloc

import Frankenlibc.Malloc.Rep

/-!
# `morecore` grows the pool

Whatever the bucket, the region asked from the host is a whole number of
blocks, and the linking loop threads them in order of address.
-/
namespace Frankenlibc.Malloc

open Frankenlibc.Lib

variable {page : PageSize} {s : State} {p : Pool} {mmap : Nat → Option Nat}

/-! ## The linking loop -/

/-- The starts of `n + 1` blocks of `sz` bytes from `op` on. -/
def starts (sz : Nat) : Nat → Nat → List Nat
  | 0, op => [op]
  | n + 1, op => op :: starts sz n (op + sz)

theorem mem_starts {sz n op a : Nat} (h : a ∈ starts sz n op) :
    op ≤ a ∧ a ≤ op + n * sz ∧ sz ∣ a - op := by
  induction n generalizing op with
  | zero =>
    rw [starts, List.mem_singleton] at h
    subst h
    simp
  | succ n ih =>
    rw [starts, List.mem_cons] at h
    rw [Nat.add_mul]
    rcases h with rfl | h
    · simp
    · obtain ⟨hlo, hhi, hd⟩ := ih h
      refine ⟨by omega, by omega, ?_⟩
      have he : a - op = (a - (op + sz)) + sz := by omega
      rw [he]
      exact Nat.dvd_add_self_right.mpr hd

theorem starts_apart {i n op : Nat} :
    (starts (2 ^ (i + 5)) n op).Pairwise fun a c => Block.Apart ⟨a, i⟩ ⟨c, i⟩ := by
  induction n generalizing op with
  | zero => exact List.pairwise_singleton _ _
  | succ n ih =>
    refine List.pairwise_cons.mpr ⟨fun c hc => ?_, ih⟩
    exact .inl (mem_starts hc).1

/-- What the loop leaves behind: the blocks are recorded and linked, and
memory is otherwise as it was. -/
structure Carved (i : Nat) (s s' : State) (op stop : Nat) (l : List Nat) : Prop where
  frame : ∀ x, x < op ∨ stop ≤ x → s'.mem x = s.mem x
  chain : Chain (ovNext s'.mem) NULL op l
  rest : s' = { s with mem := s'.mem, carved := s.carved ++ l.map fun a => ⟨a, i⟩ }

theorem carve_spec {i n : Nat} : ∀ {op : Nat} {s : State}, 0 < op →
    op + (n + 1) * 2 ^ (i + 5) < 18446744073709551616 →
      Carved i s (carve i (2 ^ (i + 5)) n op s) op (op + (n + 1) * 2 ^ (i + 5))
        (starts (2 ^ (i + 5)) n op) := by
  have hsz : 2 ^ 5 ≤ 2 ^ (i + 5) := Nat.pow_le_pow_right (by decide) (Nat.le_add_left _ _)
  induction n with
  | zero =>
    intro op s hop _
    have hz : ovNext (setNext s.mem op NULL) op = NULL := ovNext_setNext _ (by decide)
    refine ⟨fun x hx => Bytes.store_outside (by omega), ?_, rfl⟩
    refine .cons hop.ne' ?_
    show Chain _ NULL (ovNext (setNext s.mem op NULL) op) []
    rw [hz]
    exact .nil
  | succ n ih =>
    intro op s hop hlt
    rw [Nat.add_mul] at hlt
    have hn : ovNext (setNext s.mem op (op + 2 ^ (i + 5))) op = op + 2 ^ (i + 5) :=
      ovNext_setNext _ (by omega)
    have h := @ih (op + 2 ^ (i + 5)) { s with
      mem := setNext s.mem op (op + 2 ^ (i + 5)), carved := s.carved ++ [⟨op, i⟩] }
      (by omega) (by omega)
    have hc : carve i (2 ^ (i + 5)) (n + 1) op s =
        carve i (2 ^ (i + 5)) n (op + 2 ^ (i + 5)) { s with
          mem := setNext s.mem op (op + 2 ^ (i + 5)), carved := s.carved ++ [⟨op, i⟩] } := by
      rw [carve]
      simp only [hn]
    rw [hc]
    generalize carve i (2 ^ (i + 5)) n _ _ = s' at h ⊢
    refine ⟨fun x hx => ?_, ?_, ?_⟩
    · rw [Nat.add_mul] at hx
      rw [h.frame x (by omega)]
      exact Bytes.store_outside (by omega)
    · -- the rest of the loop writes behind this block
      have hl : ovNext s'.mem op = op + 2 ^ (i + 5) := by
        rw [← hn]
        exact Bytes.load_congr fun x _ hhi => h.frame x (by omega)
      refine .cons hop.ne' ?_
      rw [hl]
      exact h.chain
    · rw [h.rest]
      simp [starts]

/-! ## The request to the host -/

/-- What is known of `mmap`: a region it returns starts at a page, not at
`NULL`, ends below the last address, and overlaps no earlier one. -/
def Maps (page : PageSize) (regions : List (Nat × Nat)) (mmap : Nat → Option Nat) : Prop :=
  ∀ len a, mmap len = some a → page.bytes ∣ a ∧ Mappable (a, len) ∧
    ∀ q ∈ regions, q.1 + q.2 ≤ a ∨ a + len ≤ q.1

theorem block_count {k i : Nat} (h : i + 5 ≤ k) :
    2 ^ k / 2 ^ (i + 5) = 2 ^ (k - (i + 5)) ∧ 2 ^ k / 2 ^ (k - (i + 5)) = 2 ^ (i + 5) :=
  ⟨Nat.pow_div h (by decide), by
    rw [Nat.pow_div (Nat.sub_le _ _) (by decide), Nat.sub_sub_self h]⟩

/-- The bytes asked from the host for a bucket: a page, or a block that is larger. -/
def regionLen (page : PageSize) (i : Nat) : Nat := max page.bytes (2 ^ (i + 5))

/-- The code as one case: `n + 1` blocks of the bucket's size. -/
theorem morecore_eq (hr : Ready page s) {i : Nat} (hi : i ≤ 26) :
    ∃ n, (n + 1) * 2 ^ (i + 5) = regionLen page i ∧ morecore mmap i s =
      (match mmap ((n + 1) * 2 ^ (i + 5)) with
       | none => .ok s
       | some op =>
          if op = NULL then .ok { s with regions := s.regions ++ [(op, (n + 1) * 2 ^ (i + 5))] }
          else .ok (carve i (2 ^ (i + 5)) n op
            { s with regions := s.regions ++ [(op, (n + 1) * 2 ^ (i + 5))]
                     nextf := Function.update s.nextf i op })) := by
  obtain ⟨hsz, hbk⟩ := hr
  have hlo : 5 ≤ page.shift := page.low
  have hhi : page.shift ≤ 30 := page.high
  have hib : i < NBUCKETS := Nat.lt_of_le_of_lt hi (by decide)
  by_cases hlt : i < page.shift - 5
  · -- a page is cut into blocks
    obtain ⟨h₁, h₂⟩ := block_count (k := page.shift) (i := i) (by omega)
    have hlen : u64 (toSize (intShl 0) * page.bytes) = page.bytes := by
      have hle : 2 ^ page.shift ≤ 2 ^ 30 := Nat.pow_le_pow_right (by decide) hhi
      rw [intShl_small (by decide), page.pow, Nat.pow_zero, Nat.one_mul]
      exact u64_of_lt (by omega)
    have hpos : 0 < 2 ^ (page.shift - (i + 5)) := Nat.two_pow_pos _
    have hcnt : (2 ^ (page.shift - (i + 5)) - 1 + 1) * 2 ^ (i + 5) = page.bytes := by
      rw [Nat.sub_add_cancel hpos, ← Nat.pow_add, page.pow]
      congr 1
      omega
    have hregion : regionLen page i = page.bytes := by
      rw [regionLen, page.pow]
      exact Nat.max_eq_left (Nat.pow_le_pow_right (by decide) (by omega))
    refine ⟨2 ^ (page.shift - (i + 5)) - 1, hcnt.trans hregion.symm, ?_⟩
    rw [hcnt]
    simp only [morecore, corealloc, hbk, hsz, if_pos hlt, hlen]
    cases mmap page.bytes with
    | none => rfl
    | some op =>
      simp only [nextfSet, hib, if_true]
      rw [intShl_small (n := i + 5) (by omega), page.pow, h₁, h₂]
      rfl
  · -- one block of one or more pages
    have hlen : u64 (toSize (intShl (i - (page.shift - 5))) * page.bytes) = 2 ^ (i + 5) := by
      have hle : 2 ^ (i + 5) ≤ 2 ^ 31 := Nat.pow_le_pow_right (by decide) (by omega)
      have he : i - (page.shift - 5) + page.shift = i + 5 := by omega
      rw [intShl_small (by omega), page.pow, ← Nat.pow_add, he]
      exact u64_of_lt (by omega)
    have hregion : regionLen page i = 2 ^ (i + 5) := by
      rw [regionLen, page.pow]
      exact Nat.max_eq_right (Nat.pow_le_pow_right (by decide) (by omega))
    refine ⟨0, by rw [hregion, Nat.zero_add, Nat.one_mul], ?_⟩
    simp only [morecore, corealloc, hbk, hsz, if_neg hlt, hlen, Nat.zero_add, Nat.one_mul]
    cases mmap (2 ^ (i + 5)) with
    | none => rfl
    | some op =>
      simp only [nextfSet, hib, if_true]
      rfl

/-- A pool with at most one more region. -/
inductive Grows (p : Pool) : Pool → Prop
  | refl : Grows p p
  | grow {r : Nat × Nat} {i : Nat} {starts : List Nat} (h : p.Fresh r i starts) :
      Grows p (p.grow r i starts h)

theorem Grows.live {p' : Pool} (h : Grows p p') : p'.live = p.live := by
  cases h <;> rfl

theorem Grows.carved {p' : Pool} (h : Grows p p') {b : Block} (hb : b ∈ p.carved) :
    b ∈ p'.carved := by
  cases h with
  | refl => exact hb
  | grow _ => exact List.mem_append_left _ hb

theorem thirtytwo_dvd_pow {k : Nat} (h : 5 ≤ k) : 32 ∣ 2 ^ k := Nat.pow_dvd_pow 2 h

/-- The blocks cut from a new region may be added to the pool. -/
theorem fresh_starts {op n i : Nat} (hi : i ≤ 26) (ha : page.bytes ∣ op)
    (hm : Mappable (op, (n + 1) * 2 ^ (i + 5)))
    (hap : ∀ q ∈ p.regions, q.1 + q.2 ≤ op ∨ op + (n + 1) * 2 ^ (i + 5) ≤ q.1) :
    p.Fresh (op, (n + 1) * 2 ^ (i + 5)) i (starts (2 ^ (i + 5)) n op) where
  mappable := hm
  apart := hap
  index := hi
  aligned := by
    intro a h
    obtain ⟨hle, _, hd⟩ := mem_starts h
    have h₁ : 32 ∣ op := ((page.pow ▸ thirtytwo_dvd_pow page.low : 32 ∣ page.bytes)).trans ha
    have h₂ : 32 ∣ a - op := (thirtytwo_dvd_pow (Nat.le_add_left 5 i)).trans hd
    omega
  inside := by
    intro a h
    obtain ⟨hlo, hhi, _⟩ := mem_starts h
    refine ⟨hlo, ?_⟩
    show a + 2 ^ (i + 5) ≤ op + (n + 1) * 2 ^ (i + 5)
    rw [Nat.add_mul]
    omega
  cut := starts_apart

theorem morecore_rep (h : Rep page s p) (hr : Ready page s) (hm : Maps page s.regions mmap)
    {i : Nat} (hi : i ≤ 26) (h0 : s.nextf i = NULL) :
    ∃ s' p', morecore mmap i s = .ok s' ∧ Rep page s' p' ∧ Grows p p' ∧
      (∀ b ∈ p.carved, Same b s.mem s'.mem) ∧
      s'.nextf i = (mmap (regionLen page i)).getD NULL := by
  obtain ⟨n, hlen, hn⟩ := (morecore_eq hr hi : ∃ n, _ ∧ morecore mmap i s = _)
  rw [← hlen]
  have hib : i < NBUCKETS := Nat.lt_of_le_of_lt hi (by decide)
  cases hmm : mmap ((n + 1) * 2 ^ (i + 5)) with
  | none =>
    rw [hmm] at hn
    exact ⟨s, p, hn, h, .refl, fun _ _ _ _ _ => rfl, h0⟩
  | some op =>
    obtain ⟨ha, hmap, hap⟩ := hm _ _ hmm
    rw [h.regions] at hap
    have hfresh := fresh_starts (p := p) (n := n) hi ha hmap hap
    simp only [hmm, if_neg hmap.1.ne'] at hn
    have hc := carve_spec (i := i) (n := n) (s := { s with
      regions := s.regions ++ [(op, (n + 1) * 2 ^ (i + 5))]
      nextf := Function.update s.nextf i op }) hmap.1 hmap.2
    generalize carve i (2 ^ (i + 5)) n op _ = s' at hn hc
    have hsame : ∀ b ∈ p.carved, Same b s.mem s'.mem := by
      intro b hb x hlo hhi
      obtain ⟨q, hq, hq₁, hq₂⟩ := (p.sited b hb).mapped
      have := hap q hq
      exact hc.frame x (by omega)
    have hrest := hc.rest
    refine ⟨s', p.grow _ i _ hfresh, hn, ?_, .grow hfresh, hsame,
      by rw [hrest]; exact Function.update_self ..⟩
    refine ⟨?_, ?_, ?_, ?_, ?_, ?_⟩
    · rw [hrest]
      exact .inr hr
    · intro j hj
      have hnext : s'.nextf j = Function.update s.nextf i op j := by rw [hrest]
      rw [hnext]
      by_cases hji : j = i
      · subst hji
        have hnil : p.free j = [] := Chain.of_null (h0 ▸ h.lists j hj)
        simp only [Pool.grow, Function.update_self, hnil, List.append_nil]
        exact hc.chain
      · simp only [Pool.grow, Function.update_of_ne hji]
        exact (h.lists j hj).congr fun a ha => (hsame _ (Pool.free_carved hj ha)).next
    · intro l hl
      exact (h.header l hl).same (p.placed l hl) (hsame _ (Pool.live_carved hl))
    · rw [hrest]
      exact h.live
    · rw [hrest]
      exact congrArg (· ++ _) h.carved
    · rw [hrest]
      exact congrArg (· ++ _) h.regions

end Frankenlibc.Malloc

import Frankenlibc.Malloc.Sizes

/-!
# What `realloc` promises

`realloc` goes by the size it computes from the header: it keeps the block if
that size is enough, and otherwise allocates, copies that many bytes and frees.
The promise fails in two ways. The size of the largest blocks comes out far too
large, so they are kept when they should move; and a request that wraps in
`malloc` moves the block to one that is too small.
-/
namespace Frankenlibc.Malloc

open Frankenlibc.Lib

variable {page : PageSize} {s : State} {p : Pool} {offer : Option (Nat × Nat)} {l : Live} {n : Nat}

/-- Nobody holds the block and it is first on its list. -/
def Freed (s : State) (l : Live) : Prop :=
  (∀ m ∈ s.live, m.toBlock ≠ l.toBlock) ∧ s.nextf l.index = l.start

/-- `NULL`: the block is held as before, with what is in it. -/
def Refused (s s' : State) (l : Live) (rv : Nat) : Prop :=
  rv = NULL ∧ l ∈ s'.live ∧ ∀ x, l.ptr ≤ x → x < l.stop → s'.mem x = s.mem x

/-- The block `l'` in place of `l`. -/
structure Grant (s s' : State) (l : Live) (n : Nat) (l' : Live) : Prop where
  usable : l'.ptr + n ≤ l'.stop
  bytes : ∀ k < min (l.stop - l.ptr) n, s'.mem (l'.ptr + k) = s.mem (l.ptr + k)
  freed : Freed s' l ↔ l'.toBlock ≠ l.toBlock
  copy : l'.toBlock ≠ l.toBlock → l'.ptr + room s.mem l.ptr ≤ l'.stop

def Contract (page : PageSize) (offer : Option (Nat × Nat)) (s : State) (l : Live) (n : Nat) :
    Prop :=
  ∃ rv s', realloc page (answer offer) l.ptr n s = .ok (rv, s') ∧
    (Refused s s' l rv ∨ ∃ l' ∈ s'.live, l'.ptr = rv ∧ Grant s s' l n l')

/-! ## The block stays -/

theorem contract_inPlace (h : Rep page s p) (hl : l ∈ p.live) (h0 : n ≠ 0)
    (hroom : n ≤ room s.mem l.ptr) : Contract page offer s l n ↔ l.ptr + n ≤ l.stop := by
  have hs : realloc page (answer offer) l.ptr n s = _ := realloc_inPlace (ptr_ne_null hl) h0 hroom
  constructor
  · rintro ⟨rv, s', hs', hcase⟩
    obtain ⟨rfl, rfl⟩ := Prod.mk.inj (Except.ok.inj (hs'.symm.trans hs))
    rcases hcase with ⟨hnull, _⟩ | ⟨l', hl', hptr, hgrant⟩
    · exact absurd hnull (ptr_ne_null hl)
    · obtain ⟨k, hk, rfl⟩ := List.mem_map.mp hl'
      have hfit := hgrant.usable
      have hkl : k = l := by
        refine Pool.ptr_unique (h.live ▸ hk) hl ?_
        split at hptr <;> exact hptr
      subst hkl
      rw [if_pos rfl] at hfit
      exact hfit
  · intro hfit
    have hmem : { l with nbytes := n } ∈
        s.live.map fun m => if m.ptr = l.ptr then { m with nbytes := n } else m :=
      List.mem_map.mpr ⟨l, h.live ▸ hl, if_pos rfl⟩
    refine ⟨_, _, hs, .inr ⟨_, hmem, rfl, hfit, fun _ _ => rfl, ?_, fun hne => absurd rfl hne⟩⟩
    exact iff_of_false (fun hf => hf.1 _ hmem rfl) (fun hne => hne rfl)

/-! ## The block moves -/

theorem freed_released (h : Rep page s p) (hl : l ∈ p.live) : Freed (released s l) l := by
  have hr := free_rep h hl
  have hi : l.index < NBUCKETS :=
    Nat.lt_of_le_of_lt (p.sited _ (Pool.live_carved hl)).index (by decide)
  have hfree : l.start ∈ (p.put l _ (eraseP_perm hl)).free l.index := by
    simp only [Pool.put, Function.update_self]
    exact List.mem_cons_self
  refine ⟨fun m hm => ?_, Function.update_self ..⟩
  exact (Pool.live_apart_free (hr.live ▸ hm) hi hfree).ne

/-- The bytes of the old block arrive, and freeing it leaves them alone. -/
theorem copied_bytes {s₁ : State} {p₁ : Pool} {l' : Live} (hl : l ∈ p₁.live) (hl' : l' ∈ p₁.live)
    (hne : l' ≠ l) (hsame : Same l.toBlock s.mem s₁.mem) (hp : l.start ≤ l.ptr)
    (hroom : room s.mem l.ptr < n) (hfit : l'.ptr + n ≤ l'.stop) {k : Nat}
    (hk : k < l.stop - l.ptr) (hk' : k < room s.mem l.ptr) :
    (released (copied s₁ l'.ptr l.ptr (room s.mem l.ptr)) l).mem (l'.ptr + k) =
      s.mem (l.ptr + k) := by
  have hap := Pool.live_apart_live hl hl' hne.symm
  have hst : l'.start + 16 ≤ l'.ptr := (p₁.placed l' hl').header
  calc (released (copied s₁ l'.ptr l.ptr (room s.mem l.ptr)) l).mem (l'.ptr + k)
      = (copied s₁ l'.ptr l.ptr (room s.mem l.ptr)).mem (l'.ptr + k) :=
        (setNext_within _ l.toBlock _).same hap _ (by omega) (by omega)
    _ = s₁.mem (l.ptr + k) := Bytes.copy_inside hk'
    _ = s.mem (l.ptr + k) := hsame _ (by omega) (by omega)

theorem contract_moved (h : Rep page s p) (hl : l ∈ p.live) (h0 : n ≠ 0)
    (hroom : room s.mem l.ptr < n) (ha : Allocates page (answer offer) 0 n s p) :
    Contract page offer s l n := by
  obtain ⟨rv, s₁, p₁, hs₁, h₁, halloc, _⟩ := ha
  have hsame := halloc.kept l hl
  have hp : l.start ≤ l.ptr := Nat.le_of_add_right_le (p.placed l hl).header
  rcases halloc.result with ⟨rfl, hlive⟩ | ⟨l', rfl, hlive, _, _, hfit⟩
  · refine ⟨NULL, s₁, realloc_failed (ptr_ne_null hl) h0 hroom hs₁, .inl ⟨rfl, ?_, ?_⟩⟩
    · rw [h₁.live, hlive]
      exact hl
    · exact fun x hlo hhi => hsame x (by omega) hhi
  · have hmem' : l' ∈ p₁.live := hlive ▸ List.mem_cons_self
    have hmem : l ∈ p₁.live := hlive ▸ List.mem_cons_of_mem _ hl
    have hap : l'.toBlock.Apart l.toBlock := (List.pairwise_cons.mp (hlive ▸ p₁.live_apart)).1 l hl
    have hne : l' ≠ l := fun he => hap.ne (congrArg Live.toBlock he)
    obtain ⟨h₂, hs₂⟩ := realloc_copied h₁ hmem hmem' h0 hroom hfit hs₁
    have hin : l' ∈ (released (copied s₁ l'.ptr l.ptr (room s.mem l.ptr)) l).live := by
      rw [(free_rep h₂ hmem).live]
      exact (List.mem_cons.mp ((eraseP_perm hmem).mem_iff.mp hmem')).resolve_left hne
    refine ⟨l'.ptr, _, hs₂, .inr ⟨l', hin, rfl, hfit, fun k hk => ?_, ?_, fun _ => by omega⟩⟩
    · have hle := usable_le_room h hl
      exact copied_bytes hmem hmem' hne hsame hp hroom hfit (by omega) (by omega)
    · exact iff_of_true (freed_released h₂ hmem) hap.ne

/-! ## The block moves to one that is too small -/

theorem free_live {cp : Nat} {s' : State} (hcp : cp ≠ NULL) (hs : free cp s = .ok s') :
    ∀ m ∈ s'.live, m ∈ s.live := by
  rw [free_cases hcp] at hs
  split at hs
  · cases hs
    exact fun m hm => hm
  · split at hs
    · cases hs
      exact fun m hm => List.mem_of_mem_eraseP hm
    · cases hs

theorem contract_overdrawn (h : Rep page s p) (hm : Maps page s.regions (answer offer))
    (hl : l ∈ p.live) (h0 : n ≠ 0) (hn : n < 18446744073709551616) (hroom : room s.mem l.ptr < n)
    (hover : Overdrawn page (answer offer) s 0 n) : ¬ Contract page offer s l n := by
  rintro ⟨rv, s', hs', hcase⟩
  obtain ⟨l', s₁, hs₁, hlive, hstop, hdvd, hne⟩ := alignedAlloc_overdrawn h hm (by decide) hover
  have hnull := hne (by decide)
  rw [u64_of_lt hn] at hs₁
  rw [realloc_moved (ptr_ne_null hl) h0 hroom hs₁ hnull, map_ok_iff] at hs'
  obtain ⟨s₂, hfree, heq⟩ := hs'
  obtain ⟨rfl, rfl⟩ := Prod.mk.inj heq
  rcases hcase with ⟨hz, _⟩ | ⟨m, hm', hptr, hgrant⟩
  · exact hnull hz
  · have hle : MINALIGN ≤ l'.ptr := Nat.le_of_dvd (Nat.pos_of_ne_zero hnull) hdvd
    have hbig : 18446744073709551616 ≤ n + 16 := hover.2.1
    have hfit := hgrant.usable
    have hend : m.stop < 18446744073709551616 := by
      have hmem := free_live (ptr_ne_null hl) hfree m hm'
      rcases List.mem_cons.mp (hlive ▸ hmem) with rfl | hold
      · exact hstop
      · exact Pool.block_stop (Pool.live_carved (h.live ▸ hold))
    have h16 : 16 ≤ m.ptr := hptr ▸ hle
    omega

/-- On a heap any fair run has led to, for any block in use, any nonzero size
and whatever the host offers: `realloc` keeps its promise exactly if it is not
misled about the size of the block and its request is not overdrawn. -/
theorem realloc_contract_iff {mem : Bytes} {tr : List (State × Event)}
    (hr : Run (step page) (boot mem) tr s) (hg : Guarded (Fair page) tr)
    (hl : l ∈ s.live) (hpos : 0 < n) (hn : n < 18446744073709551616)
    (ho : Offered page s offer) :
    Contract page offer s l n ↔ overlong s (.realloc offer l.ptr n) = false ∧
      ¬ undersized page s (.realloc offer l.ptr n) := by
  obtain ⟨p, h⟩ := rep_fair hr hg
  rw [h.live] at hl
  have h0 : n ≠ 0 := hpos.ne'
  have hlong := overlong_realloc offer h hl (n := n)
  have hm := maps_answer ho
  have hwants : undersized page s (.realloc offer l.ptr n) ↔
      room s.mem l.ptr < n ∧ Overdrawn page (answer offer) s 0 n := by
    constructor
    · rintro ⟨a, ha, hover⟩
      obtain ⟨hif, rfl⟩ := mem_asks_realloc.mp ha
      exact ⟨(hif.resolve_left (ptr_ne_null hl)).2, hover⟩
    · rintro ⟨hroom, hover⟩
      exact ⟨_, mem_asks_realloc.mpr ⟨.inr ⟨h0, hroom⟩, rfl⟩, hover⟩
  rw [hwants, ← Bool.not_eq_true, hlong]
  by_cases hroom : n ≤ room s.mem l.ptr
  · rw [contract_inPlace h hl h0 hroom]
    omega
  · have hlt : room s.mem l.ptr < n := Nat.lt_of_not_le hroom
    by_cases hover : Overdrawn page (answer offer) s 0 n
    · exact iff_of_false (contract_overdrawn h hm hl h0 hn hlt hover) fun hc => hc.2 ⟨hlt, hover⟩
    · have hall := allocates_of_not h hm (by decide) hover
      rw [u64_of_lt hn] at hall
      refine iff_of_true (contract_moved h hl h0 hlt hall)
        ⟨fun hc => hroom hc.2, fun hc => hover hc.2⟩

/-- A block of 16 bytes with something in it grows to 40 bytes. -/
theorem realloc_contract_grows : ∃ tr s, Run (step page64) (boot fun _ => 0) tr s ∧
    s.live = [⟨⟨4096, 0⟩, 4112, 16, 0⟩] ∧ s.mem 4113 = 7 ∧
    Contract page64 (some (8192, 4096)) s ⟨⟨4096, 0⟩, 4112, 16, 0⟩ 40 := by
  obtain ⟨tr, s, hr, hp⟩ := exists_run (f := step page64) (s := boot fun _ => 0)
    [.malloc (some (4096, 64)) 16, .write 4113 7]
    (p := fun tr s => Guarded (Fair page64) tr ∧ s.live = [⟨⟨4096, 0⟩, 4112, 16, 0⟩] ∧
      s.mem 4113 = 7 ∧ Offered page64 s (some (8192, 4096)) ∧
      overlong s (.realloc (some (8192, 4096)) 4112 40) = false ∧
      ¬ undersized page64 s (.realloc (some (8192, 4096)) 4112 40)) (by decide)
  rw [decide_eq_true_eq] at hp
  obtain ⟨hg, hl, hw, ho, hlong, hsize⟩ := hp
  have hin : ⟨⟨4096, 0⟩, 4112, 16, 0⟩ ∈ s.live := by rw [hl]; exact List.mem_cons_self
  exact ⟨tr, s, hr, hl, hw,
    (realloc_contract_iff hr hg hin (by decide) (by decide) ho).mpr ⟨hlong, hsize⟩⟩

/-- A block of `2 ^ 31` bytes, of which 16 are taken by the header, and a
`realloc` to one byte more than are left: the same pointer comes back. -/
theorem realloc_keeps_short_block : ∃ tr s, Run (step page64) (boot fun _ => 0) tr s ∧
    Guarded (Fair page64) tr ∧ s.live = [⟨⟨4096, 26⟩, 4112, 2147483632, 0⟩] ∧
    (realloc page64 (answer none) 4112 2147483633 s).map Prod.fst = .ok 4112 ∧
    ¬ Contract page64 none s ⟨⟨4096, 26⟩, 4112, 2147483632, 0⟩ 2147483633 := by
  obtain ⟨tr, s, hr, hp⟩ := exists_run (f := step page64) (s := boot fun _ => 0)
    [.malloc (some (4096, 2147483648)) 2147483632]
    (p := fun tr s => Guarded (Fair page64) tr ∧ s.live = [⟨⟨4096, 26⟩, 4112, 2147483632, 0⟩] ∧
      2147483633 ≤ room s.mem 4112) (by decide)
  rw [decide_eq_true_eq] at hp
  obtain ⟨hg, hl, hroom⟩ := hp
  obtain ⟨p, h⟩ := rep_fair hr hg
  have hin : ⟨⟨4096, 26⟩, 4112, 2147483632, 0⟩ ∈ p.live := by
    rw [← h.live, hl]
    exact List.mem_cons_self
  refine ⟨tr, s, hr, hg, hl, ?_, ?_⟩
  · rw [realloc_inPlace (by decide) (by decide) hroom]
    rfl
  · rw [contract_inPlace h hin (by decide) hroom]
    decide

end Frankenlibc.Malloc

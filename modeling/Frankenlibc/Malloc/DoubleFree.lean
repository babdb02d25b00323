import Frankenlibc.Malloc.Sizes

/-!
# A pointer freed twice

`free` tells a block in use by the magic number before the pointer, and counts
on the link of the free list to overwrite it. The link is a word at the start
of the block; the magic number is never in that word. So a second `free` of a
pointer finds the header of the first allocation, unless the block has been in
use since under another pointer and the bytes were written over.
-/
namespace Frankenlibc.Malloc

open Frankenlibc.Lib

variable {page : PageSize} {s : State} {p : Pool}

/-- A pointer `free` does nothing about: there is no magic number before it, or
the fields there name an empty list and a block at `NULL` that ends it. -/
def Inert (s : State) (cp : Nat) : Prop :=
  ovMagic s.mem (sub64 cp OVERHEAD) ≠ MAGIC ∨
    ovIndex s.mem (sub64 cp OVERHEAD) < NBUCKETS ∧ ovAlignpad s.mem (sub64 cp OVERHEAD) = cp ∧
      s.nextf (ovIndex s.mem (sub64 cp OVERHEAD)) = NULL ∧ ovNext s.mem NULL = NULL

instance (s : State) (cp : Nat) : Decidable (Inert s cp) := inferInstanceAs (Decidable (_ ∨ _))

/-- No block of a free list is linked to itself. -/
theorem Rep.next_ne (h : Rep page s p) {i : Nat} (hi : i < NBUCKETS) (h0 : s.nextf i ≠ NULL) :
    ovNext s.mem (s.nextf i) ≠ s.nextf i := by
  intro hloop
  obtain ⟨rest, hfree, htail⟩ := (h.lists i hi).of_ne h0
  rw [hloop] at htail
  obtain ⟨rest', hrest, _⟩ := htail.of_ne h0
  have hnd := p.free_nodup hi
  rw [hfree, hrest] at hnd
  exact (List.nodup_cons.mp hnd).1 List.mem_cons_self

theorem sub64_eq_zero {x y : Nat} (hx : x < 18446744073709551616) (hy : y < 18446744073709551616)
    (h : sub64 x y = 0) : y = x := by
  unfold sub64 u64 at h
  omega

theorem ovAlignpad_lt (m : Bytes) (op : Nat) : ovAlignpad m op < 18446744073709551616 :=
  m.load_lt op 8

/-- Putting a block on a list goes unnoticed only at `NULL`. -/
theorem pushed_eq_iff (h : Rep page s p) {cp : Nat} (hlt : cp < 18446744073709551616)
    (hnot : ∀ m ∈ s.live, m.ptr ≠ cp) (hi : ovIndex s.mem (sub64 cp OVERHEAD) < NBUCKETS) :
    pushed s cp = s ↔ ovAlignpad s.mem (sub64 cp OVERHEAD) = cp ∧
      s.nextf (ovIndex s.mem (sub64 cp OVERHEAD)) = NULL ∧ ovNext s.mem NULL = NULL := by
  generalize hk : ovIndex s.mem (sub64 cp OVERHEAD) = i at hi ⊢
  generalize ho : sub64 cp (ovAlignpad s.mem (sub64 cp OVERHEAD)) = origp
  have hpush : pushed s cp = { s with
      mem := setNext s.mem origp (s.nextf i), nextf := Function.update s.nextf i origp,
      live := s.live.eraseP (·.ptr = cp) } := by
    unfold pushed
    simp only [hk, ho]
  rw [hpush]
  constructor
  · intro heq
    have hnext : s.nextf i = origp := by
      have hn : Function.update s.nextf i origp = s.nextf := congrArg State.nextf heq
      rw [← hn]
      exact Function.update_self ..
    have hlink : ovNext s.mem origp = origp := by
      have hm : setNext s.mem origp (s.nextf i) = s.mem := congrArg State.mem heq
      rw [← hm, ovNext_setNext _ (h.nextf_lt hi), hnext]
    have h0 : origp = NULL := by
      by_contra hne
      rw [← hnext] at hne hlink
      exact h.next_ne hi hne hlink
    refine ⟨sub64_eq_zero hlt (ovAlignpad_lt _ _) (ho.trans h0), hnext.trans h0, ?_⟩
    rw [← h0, hlink]
  · rintro ⟨hpad, hnull, hlink⟩
    have h0 : origp = NULL := by
      rw [← ho, hpad, sub64_of_le le_rfl hlt]
      exact Nat.sub_self cp
    have hmem : setNext s.mem NULL NULL = s.mem := by
      have hload : s.mem.load NULL 8 = NULL := hlink
      have hst := Bytes.store_load s.mem NULL 8
      rw [hload] at hst
      exact hst
    have hlive : s.live.eraseP (·.ptr = cp) = s.live :=
      List.eraseP_of_forall_not fun m hm => by simpa using hnot m hm
    rw [h0, hnull, hmem, hlive, ← hnull, Function.update_eq_self]

theorem free_eq_self_iff (h : Rep page s p) {cp : Nat} (hcp : cp ≠ NULL)
    (hlt : cp < 18446744073709551616) (hnot : ∀ m ∈ s.live, m.ptr ≠ cp) :
    free cp s = .ok s ↔ Inert s cp := by
  rw [free_cases hcp]
  unfold Inert
  by_cases hmagic : ovMagic s.mem (sub64 cp OVERHEAD) ≠ MAGIC
  · rw [if_pos hmagic]
    exact iff_of_true rfl (.inl hmagic)
  · rw [if_neg hmagic]
    by_cases hi : ovIndex s.mem (sub64 cp OVERHEAD) < NBUCKETS
    · rw [if_pos hi, Except.ok.injEq, pushed_eq_iff h hlt hnot hi]
      exact ⟨fun hr => .inr ⟨hi, hr⟩, fun hr => (hr.resolve_left hmagic).2⟩
    · rw [if_neg hi]
      exact iff_of_false (fun he => nomatch he) fun hr => hi (hr.resolve_left hmagic).1

/-! ## What is left of a header -/

/-- The states from one state of a run on. -/
def since (tr : List (State × Event)) (s : State) : List State := tr.map Prod.fst ++ [s]

theorem since_snoc (tr : List (State × Event)) (s s' : State) (e : Event) :
    since (tr ++ [(s, e)]) s' = since tr s ++ [s'] := by
  simp [since]

theorem last_mem_since (tr : List (State × Event)) (s : State) : s ∈ since tr s :=
  List.mem_append_right _ List.mem_cons_self

theorem first_mem_since {q : State} {tr : List (State × Event)} (hr : Run (step page) q tr s) :
    q ∈ since tr s := by
  induction hr with
  | nil => exact last_mem_since [] q
  | snoc hrun hs ih =>
    rw [since_snoc]
    exact List.mem_append_left _ ih

/-- A block that is not in use is on its list. -/
theorem Rep.nextf_ne (h : Rep page s p) {b : Block} (hb : b ∈ p.carved)
    (hnot : ∀ m ∈ p.live, m.toBlock ≠ b) : s.nextf b.index ≠ NULL := by
  intro h0
  rcases List.mem_append.mp (p.whole.mem_iff.mp hb) with hfree | hlive
  · obtain ⟨i, hi, a, ha, rfl⟩ := mem_shelved.mp hfree
    have hchain := h.lists i hi
    rw [h0] at hchain
    rw [hchain.of_null] at ha
    exact absurd ha List.not_mem_nil
  · obtain ⟨m, hm, rfl⟩ := List.mem_map.mp hlive
    exact hnot m hm rfl

/-- What a block that was given back looks like until it is handed out again. -/
structure Idle (page : PageSize) (l : Live) (s : State) (p : Pool) : Prop where
  rep : Rep page s p
  carved : l.toBlock ∈ p.carved
  stale : Stale s.mem l

theorem idle_step {l : Live} (hpl : Placed l) (h : Idle page l s p) {e : Event} {s' : State}
    (hf : Fair page s e) (hs : step page s e = some s') (hnot : ∀ m ∈ s.live, m.toBlock ≠ l.toBlock)
    (hnot' : ∀ m ∈ s'.live, m.toBlock ≠ l.toBlock) : ∃ p', Idle page l s' p' := by
  obtain ⟨p', hc⟩ := fair_step h.rep hf hs
  rw [h.rep.live] at hnot
  rw [hc.rep.live] at hnot'
  exact ⟨p', hc.rep, hc.frame.carved _ h.carved,
    h.stale.same hpl (hc.frame.same _ h.carved hnot hnot')⟩

theorem idle_run {l : Live} (hpl : Placed l) {q' : State} {tr : List (State × Event)}
    (hr : Run (step page) q' tr s) (hg : Guarded (Fair page) tr) (h : ∃ p, Idle page l q' p)
    (hnot : ∀ r ∈ since tr s, ∀ m ∈ r.live, m.toBlock ≠ l.toBlock) : ∃ p, Idle page l s p := by
  induction hr with
  | nil => exact h
  | @snoc tr s s' e hrun hs ih =>
    obtain ⟨hg', hf⟩ := guarded_snoc.mp hg
    rw [since_snoc] at hnot
    obtain ⟨p, hidle⟩ := ih hg' fun r hr => hnot r (List.mem_append_left _ hr)
    refine idle_step hpl hidle hf hs ?_ ?_
    · exact hnot s (List.mem_append_left _ (last_mem_since tr s))
    · exact hnot s' (List.mem_append_right _ List.mem_cons_self)

theorem Idle.not_inert {l : Live} (hpl : Placed l) (hlt : l.ptr < 18446744073709551616)
    (h : Idle page l s p) (hnot : ∀ m ∈ s.live, m.toBlock ≠ l.toBlock) : ¬ Inert s l.ptr := by
  have h₁ : l.start + 16 ≤ l.ptr := hpl.header
  have hop : sub64 l.ptr OVERHEAD = l.ptr - 16 := sub64_of_le (Nat.le_of_add_left_le h₁) hlt
  unfold Inert
  rw [hop, h.stale.magic, h.stale.index]
  rintro (hne | ⟨_, _, h0, _⟩)
  · exact hne rfl
  · exact h.rep.nextf_ne h.carved (h.rep.live ▸ hnot) h0

/-- Any fair run, any pointer it has given up at some point, by `free` or by
`realloc`, and that has not been handed out since: a second `free` changes
nothing exactly if the block was in use again, under another pointer, and what
stands before the old one is no header any more. -/
theorem double_free_iff {mem : Bytes} {tr₁ tr₂ : List (State × Event)} {q q' : State} {e : Event}
    (hr₁ : Run (step page) (boot mem) tr₁ q) (hg₁ : Guarded (Fair page) tr₁) (hf : Fair page q e)
    (hs : step page q e = some q') (hr₂ : Run (step page) q' tr₂ s)
    (hg₂ : Guarded (Fair page) tr₂) {l : Live} (hl : l ∈ q.live)
    (hgone : ∀ r ∈ since tr₂ s, ∀ m ∈ r.live, m.ptr ≠ l.ptr) :
    free l.ptr s = .ok s ↔
      (∃ r ∈ since tr₂ s, ∃ m ∈ r.live, m.toBlock = l.toBlock) ∧ Inert s l.ptr := by
  obtain ⟨p, h⟩ := rep_fair hr₁ hg₁
  rw [h.live] at hl
  have hpl := p.placed l hl
  have hc := Pool.live_carved hl
  have hlt : l.ptr < 18446744073709551616 := Nat.lt_of_le_of_lt hpl.inside (Pool.block_stop hc)
  have hall : Guarded (Fair page) ((tr₁ ++ [(q, e)]) ++ tr₂) := by
    intro r hr
    rcases List.mem_append.mp hr with hr | hr
    · exact guarded_snoc.mpr ⟨hg₁, hf⟩ r hr
    · exact hg₂ r hr
  obtain ⟨ps, hrep⟩ := rep_fair ((hr₁.snoc hs).trans hr₂) hall
  have hlast := last_mem_since tr₂ s
  rw [free_eq_self_iff hrep (ptr_ne_null hl) hlt (hgone s hlast)]
  refine ⟨fun hinert => ⟨?_, hinert⟩, fun hr => hr.2⟩
  by_contra hno
  push Not at hno
  obtain ⟨p', hcar⟩ := fair_step h hf hs
  have hfirst : ∃ p', Idle page l q' p' := by
    refine ⟨p', hcar.rep, hcar.frame.carved _ hc, hcar.frame.stale l hl fun m hm => ?_⟩
    exact hgone q' (first_mem_since hr₂) m (hcar.rep.live ▸ hm)
  obtain ⟨pe, hidle⟩ := idle_run hpl hr₂ hg₂ hfirst hno
  exact hidle.not_inert hpl hlt (hno s hlast) hinert

/-- A block comes back under a smaller alignment and its new owner writes over
the old header: the old pointer is safe to free. -/
theorem double_free_overwritten : ∃ q s, q.live = [⟨⟨4096, 1⟩, 4128, 5, 32⟩] ∧
    (∃ q', step page64 q (.free 4128) = some q' ∧ ∃ tr, Run (step page64) q' tr s ∧
      tr.map Prod.snd = [.malloc none 40, .write 4120 0]) ∧
    s.live = [⟨⟨4096, 1⟩, 4112, 40, 0⟩] ∧ free 4128 s = .ok s := by
  obtain ⟨tr₁, q, hr₁, hp⟩ := exists_run (f := step page64) (s := boot fun _ => 0)
    [.memalign (some (4096, 64)) 32 5]
    (p := fun tr q => Guarded (Fair page64) tr ∧ q.live = [⟨⟨4096, 1⟩, 4128, 5, 32⟩] ∧
      Fair page64 q (.free 4128) ∧ (step page64 q (.free 4128)).any (fun q' =>
        (trace (step page64) q' [.malloc none 40, .write 4120 0]).any fun r =>
          decide (Guarded (Fair page64) r.1 ∧ r.1.map Prod.snd = [.malloc none 40, .write 4120 0] ∧
            (∀ x ∈ since r.1 r.2, ∀ m ∈ x.live, m.ptr ≠ 4128) ∧
            r.2.live = [⟨⟨4096, 1⟩, 4112, 40, 0⟩] ∧ Inert r.2 4128)) = true) (by decide +kernel)
  rw [decide_eq_true_eq] at hp
  obtain ⟨hg₁, hl, hf, hnext⟩ := hp
  obtain ⟨q', hs, hnext⟩ := (Option.any_eq_true _ _).mp hnext
  obtain ⟨tr₂, s, hr₂, hp⟩ := exists_run _ (p := fun tr r => decide (Guarded (Fair page64) tr ∧
    tr.map Prod.snd = [.malloc none 40, .write 4120 0] ∧
    (∀ x ∈ since tr r, ∀ m ∈ x.live, m.ptr ≠ 4128) ∧
    r.live = [⟨⟨4096, 1⟩, 4112, 40, 0⟩] ∧ Inert r 4128)) hnext
  rw [decide_eq_true_eq] at hp
  obtain ⟨hg₂, he, hgone, hlive, hinert⟩ := hp
  have hin : (⟨⟨4096, 1⟩, 4128, 5, 32⟩ : Live) ∈ q.live := by rw [hl]; exact List.mem_cons_self
  have hagain : ∃ r ∈ since tr₂ s, ∃ m ∈ r.live, m.toBlock = ⟨4096, 1⟩ :=
    ⟨s, last_mem_since tr₂ s, ⟨⟨4096, 1⟩, 4112, 40, 0⟩,
      by rw [hlive]; exact List.mem_cons_self, rfl⟩
  exact ⟨q, s, hl, ⟨q', hs, tr₂, hr₂, he⟩, hlive,
    (double_free_iff hr₁ hg₁ hf hs hr₂ hg₂ hin hgone).mpr ⟨hagain, hinert⟩⟩

/-- A pointer is freed twice in a row. The second time the block is linked to
itself, and the next two requests are given the same memory. -/
theorem double_free_shares : ∃ tr s, Run (step page64) (boot fun _ => 0) tr s ∧
    tr.map Prod.snd = [.memalign (some (4096, 64)) 32 5, .free 4128, .free 4128, .malloc none 40,
      .malloc none 40] ∧
    Guarded (Fair page64) (tr.take 2) ∧
    tr.map (fun q => (q.1.nextf 1, ovNext q.1.mem 4096)) =
      [(0, 0), (0, 0), (4096, 0), (4096, 4096), (4096, 16)] ∧
    s.live = [⟨⟨4096, 1⟩, 4112, 40, 0⟩, ⟨⟨4096, 1⟩, 4112, 40, 0⟩] := by
  obtain ⟨tr, s, hr, hp⟩ := exists_run (f := step page64) (s := boot fun _ => 0)
    [.memalign (some (4096, 64)) 32 5, .free 4128, .free 4128, .malloc none 40, .malloc none 40]
    (p := fun tr s => tr.map Prod.snd = [.memalign (some (4096, 64)) 32 5, .free 4128, .free 4128,
        .malloc none 40, .malloc none 40] ∧ Guarded (Fair page64) (tr.take 2) ∧
      tr.map (fun q => (q.1.nextf 1, ovNext q.1.mem 4096)) =
        [(0, 0), (0, 0), (4096, 0), (4096, 4096), (4096, 16)] ∧
      s.live = [⟨⟨4096, 1⟩, 4112, 40, 0⟩, ⟨⟨4096, 1⟩, 4112, 40, 0⟩]) (by decide +kernel)
  rw [decide_eq_true_eq] at hp
  exact ⟨tr, s, hr, hp⟩

end Frankenlibc.Malloc

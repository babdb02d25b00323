import Frankenlibc.Lib.Run
import Frankenlibc.Malloc.Calls

/-!
# The heap over whole runs of a program

A program that frees what it holds and writes where it may keeps every run of
the allocator inside the pool model. Only the size `realloc` promises can go
wrong: for the largest bucket the `int` shift is negative, and its conversion
to `size_t` makes the block look larger than it is.
-/
namespace Frankenlibc.Malloc

open Frankenlibc.Lib

variable {page : PageSize} {s : State} {p : Pool}

/-! ## What is asked of the program and of the host -/

/-- The host offers a region of whole pages that is mapped nowhere yet. -/
def Offered (page : PageSize) (s : State) (offer : Option (Nat × Nat)) : Prop :=
  ∀ r ∈ offer, page.bytes ∣ r.1 ∧ Mappable r ∧
    ∀ q ∈ s.regions, q.1 + q.2 ≤ r.1 ∨ r.1 + r.2 ≤ q.1

/-- `NULL` or a pointer in use. -/
def Held (s : State) (cp : Nat) : Prop := cp = NULL ∨ ∃ l ∈ s.live, l.ptr = cp

/-- Requests do not overflow with their header, only held pointers are given
back, and writes go to the usable part of a block in use. -/
def Lawful (page : PageSize) (s : State) : Event → Prop
  | .malloc offer size => Offered page s offer ∧ size + 16 < 18446744073709551616
  | .calloc offer nmemb size =>
    Offered page s offer ∧ u64 (nmemb * size) + 16 < 18446744073709551616
  | .memalign offer align size =>
    Offered page s offer ∧ size + max MINALIGN align < 18446744073709551616
  | .realloc offer cp nbytes =>
    Offered page s offer ∧ Held s cp ∧ nbytes + 16 < 18446744073709551616
  | .free cp => Held s cp
  | .write a _ => ∃ l ∈ s.live, l.ptr ≤ a ∧ a < l.stop

instance (r : Nat × Nat) : Decidable (Mappable r) := inferInstanceAs (Decidable (_ ∧ _))

instance (page : PageSize) (s : State) (offer : Option (Nat × Nat)) :
    Decidable (Offered page s offer) :=
  inferInstanceAs (Decidable (∀ r ∈ offer, page.bytes ∣ r.1 ∧ Mappable r ∧
    ∀ q ∈ s.regions, q.1 + q.2 ≤ r.1 ∨ r.1 + r.2 ≤ q.1))

instance (s : State) (cp : Nat) : Decidable (Held s cp) :=
  inferInstanceAs (Decidable (_ ∨ _))

instance (page : PageSize) (s : State) : (e : Event) → Decidable (Lawful page s e)
  | .malloc _ _ => inferInstanceAs (Decidable (_ ∧ _))
  | .calloc _ _ _ => inferInstanceAs (Decidable (_ ∧ _))
  | .memalign _ _ _ => inferInstanceAs (Decidable (_ ∧ _))
  | .realloc _ _ _ => inferInstanceAs (Decidable (_ ∧ _ ∧ _))
  | .free _ => inferInstanceAs (Decidable (Held _ _))
  | .write a _ => inferInstanceAs (Decidable (∃ l ∈ s.live, l.ptr ≤ a ∧ a < l.stop))

theorem maps_answer {offer : Option (Nat × Nat)} (h : Offered page s offer) :
    Maps page s.regions (answer offer) := by
  intro len a ha
  cases offer with
  | none => cases ha
  | some r =>
    obtain ⟨a', cap⟩ := r
    obtain ⟨hd, hm, hap⟩ := h _ rfl
    by_cases hle : len ≤ cap
    · simp only [answer, if_pos hle, Option.some.injEq] at ha
      subst ha
      refine ⟨hd, ⟨hm.1, ?_⟩, fun q hq => ?_⟩
      · have hend : a' + cap < 18446744073709551616 := hm.2
        show a' + len < 18446744073709551616
        omega
      · have h' : q.1 + q.2 ≤ a' ∨ a' + cap ≤ q.1 := hap q hq
        omega
    · simp [answer, if_neg hle] at ha

/-! ## The size `realloc` goes by -/

/-- The bytes of a block behind its pointer hold what was asked for. -/
def Fits (ls : List Live) : Prop := ∀ l ∈ ls, l.ptr + l.nbytes ≤ l.stop

/-- A `realloc` of a block of the largest bucket to a size the block does not
have, but that is below the sign-extended one. -/
def overlong (s : State) : Event → Bool
  | .realloc _ cp nbytes => s.live.any fun l =>
    l.ptr = cp ∧ l.index = topIndex ∧ l.stop < l.ptr + nbytes ∧
      nbytes ≤ 18446744071562067968 - (l.ptr - l.start)
  | _ => false

theorem room_eq (h : Rep page s p) {l : Live} (hl : l ∈ p.live) :
    room s.mem l.ptr =
      if l.index = topIndex then 18446744071562067968 - (l.ptr - l.start) else l.stop - l.ptr := by
  have hhd := h.header l hl
  have hp := p.placed l hl
  have hc := Pool.live_carved hl
  have h₁ : l.start + 16 ≤ l.ptr := hp.header
  have h₂ : l.ptr ≤ l.start + 2 ^ (l.index + 5) := hp.inside
  have hi : l.index ≤ 26 := (p.sited _ hc).index
  have hlt : l.start + 2 ^ (l.index + 5) < 18446744073709551616 := Pool.block_stop hc
  have hop : sub64 l.ptr OVERHEAD = l.ptr - 16 := sub64_of_le (by show 16 ≤ _; omega) (by omega)
  simp only [room, hop, hhd.index, hhd.pad]
  by_cases htop : l.index = topIndex
  · rw [htop] at h₂
    have hpad : l.ptr ≤ l.start + 2147483648 := h₂
    rw [if_pos htop, htop]
    have hv : toSize (intShl (topIndex + MINSHIFT)) = 18446744071562067968 := intShl_top
    rw [hv]
    exact sub64_of_le (by omega) (by decide)
  · have hne : l.index ≠ 26 := htop
    have hle : 2 ^ (l.index + 5) ≤ 2 ^ 30 := Nat.pow_le_pow_right (by decide) (by omega)
    rw [if_neg htop, intShl_small (n := l.index + 5) (by omega), sub64_of_le (by omega) (by omega)]
    show 2 ^ (l.index + 5) - (l.ptr - l.start) = l.start + 2 ^ (l.index + 5) - l.ptr
    omega

/-- The room is never too small, only too large. -/
theorem usable_le_room (h : Rep page s p) {l : Live} (hl : l ∈ p.live) :
    l.stop - l.ptr ≤ room s.mem l.ptr := by
  rw [room_eq h hl]
  by_cases htop : l.index = topIndex
  · have h₁ : l.start + 16 ≤ l.ptr := (p.placed l hl).header
    have h₂ := (p.placed l hl).inside
    have hstop : l.stop = l.start + 2 ^ (topIndex + 5) := by rw [Block.stop, htop]
    have hsize : 2 ^ (topIndex + 5) = 2147483648 := by decide
    rw [if_pos htop]
    omega
  · rw [if_neg htop]

theorem overlong_realloc (offer : Option (Nat × Nat)) (h : Rep page s p) {l : Live}
    (hl : l ∈ p.live) {n : Nat} :
    overlong s (.realloc offer l.ptr n) = true ↔
      l.stop < l.ptr + n ∧ n ≤ room s.mem l.ptr := by
  have hin := (p.placed l hl).inside
  have hany : overlong s (.realloc offer l.ptr n) = true ↔ l.index = topIndex ∧
      l.stop < l.ptr + n ∧ n ≤ 18446744071562067968 - (l.ptr - l.start) := by
    simp only [overlong, List.any_eq_true, decide_eq_true_eq, h.live]
    constructor
    · rintro ⟨m, hm, hptr, hrest⟩
      rw [Pool.ptr_unique hm hl hptr] at hrest
      exact hrest
    · exact fun hr => ⟨l, hl, rfl, hr⟩
  rw [hany, room_eq h hl]
  by_cases htop : l.index = topIndex
  · rw [if_pos htop]
    exact ⟨fun hr => hr.2, fun hr => ⟨htop, hr⟩⟩
  · rw [if_neg htop]
    exact ⟨fun hr => absurd hr.1 htop, fun hr => by omega⟩

/-! ## The calls, one by one -/

variable {mmap : Nat → Option Nat}

/-- The memory a call asks `aligned_alloc` for, and what the host offers it. -/
structure Ask where
  offer : Option (Nat × Nat)
  align : Nat
  nbytes : Nat

/-- `realloc` asks only if there is no block yet, or if it has too little room. -/
def asks (s : State) : Event → Option Ask
  | .malloc offer size => some ⟨offer, 0, size⟩
  | .calloc offer nmemb size => some ⟨offer, 8, u64 (nmemb * size)⟩
  | .memalign offer align size => some ⟨offer, align, size⟩
  | .realloc offer cp nbytes =>
    if cp = NULL ∨ nbytes ≠ 0 ∧ room s.mem cp < nbytes then some ⟨offer, 0, nbytes⟩ else none
  | _ => none

theorem mem_asks_realloc {a : Ask} {offer : Option (Nat × Nat)} {cp n : Nat} :
    a ∈ asks s (.realloc offer cp n) ↔
      (cp = NULL ∨ n ≠ 0 ∧ room s.mem cp < n) ∧ a = ⟨offer, 0, n⟩ := by
  simp only [asks, Option.mem_def, Option.ite_none_right_eq_some, Option.some.injEq]
  exact and_congr_right fun _ => eq_comm

/-- Only held pointers are given back, and writes go to blocks in use. -/
def Disciplined (s : State) : Event → Prop
  | .realloc _ cp _ => Held s cp
  | .free cp => Held s cp
  | .write a _ => ∃ l ∈ s.live, l.ptr ≤ a ∧ a < l.stop
  | _ => True

/-- What `realloc` of a block in use comes to. -/
inductive Resized (s : State) (p : Pool) (l : Live) (n : Nat) (p' : Pool) : Prop
  | freed : n = 0 → p'.live = p.live.eraseP (·.ptr = l.ptr) → Resized s p l n p'
  | inPlace : n ≤ room s.mem l.ptr → p' = p.resize l.ptr n → Resized s p l n p'
  | failed : room s.mem l.ptr < n → p'.live = p.live → Resized s p l n p'
  | moved {l' : Live} : room s.mem l.ptr < n → l'.ptr + l'.nbytes ≤ l'.stop →
      p'.live = (l' :: p.live).eraseP (·.ptr = l.ptr) → Resized s p l n p'

/-- What becomes of blocks that are in use neither before nor after a call, and
of those that the call gives back. -/
structure Frame (s : State) (p : Pool) (s' : State) (p' : Pool) : Prop where
  carved : ∀ b ∈ p.carved, b ∈ p'.carved
  same : ∀ b ∈ p.carved, (∀ m ∈ p.live, m.toBlock ≠ b) → (∀ m ∈ p'.live, m.toBlock ≠ b) →
    Same b s.mem s'.mem
  stale : ∀ l ∈ p.live, (∀ m ∈ p'.live, m.ptr ≠ l.ptr) → Stale s'.mem l

theorem Frame.of_alloc {asked n rv : Nat} {s' : State} {p' : Pool} (ha : Alloc asked n s p rv s' p')
    (hb : Beside s p s' p') : Frame s p s' p' where
  carved := hb.carved
  same := fun b hc _ hnew => hb.same b hc fun m hm he => absurd he (hnew m hm)
  stale := by
    intro l hl hgone
    refine absurd rfl (hgone l ?_)
    rcases ha.result with ⟨_, hlive⟩ | ⟨l', _, hlive, _⟩
    · exact hlive ▸ hl
    · exact hlive ▸ List.mem_cons_of_mem _ hl

/-- The memory behind the pointer of a new block is written. -/
theorem Frame.payload {s' : State} {p' : Pool} {l : Live} {m : Bytes} (h : Frame s p s' p')
    (hl : l ∈ p'.live) (hkeep : ∀ k ∈ p.live, k ∈ p'.live)
    (hm : ∀ x, x < l.ptr ∨ l.stop ≤ x → m x = s'.mem x) :
    Frame s p { s' with mem := m } p' where
  carved := h.carved
  same := by
    intro b hb hold hnew
    have h₁ : l.start + 16 ≤ l.ptr := (p'.placed l hl).header
    have hw : Within l.toBlock s'.mem m := fun x hx => hm x (by omega)
    have ha := Pool.carved_apart (Pool.live_carved hl) (h.carved b hb) (hnew l hl)
    exact (h.same b hb hold hnew).trans (hw.same ha)
  stale := fun k hk hgone => absurd rfl (hgone k (hkeep k hk))

theorem Frame.of_free (h : Rep page s p) {l : Live} (hl : l ∈ p.live) :
    Frame s p (released s l) (p.put l _ (eraseP_perm hl)) where
  carved := fun _ hb => hb
  same := by
    intro b hb hold _
    have ha := Pool.carved_apart (Pool.live_carved hl) hb (hold l hl)
    exact (setNext_within s.mem l.toBlock _).same ha
  stale := by
    intro k hk hgone
    by_cases hkl : k = l
    · subst hkl
      exact stale_released h hk
    · have hmem := (List.mem_cons.mp ((eraseP_perm hl).mem_iff.mp hk)).resolve_left hkl
      exact absurd rfl (hgone k hmem)

/-- A block is taken and then another one is given back. -/
theorem Frame.trans {s₁ s₂ : State} {p₁ p₂ : Pool} (h : Frame s p s₁ p₁) (h' : Frame s₁ p₁ s₂ p₂)
    (hkeep : ∀ l ∈ p.live, l ∈ p₁.live) (hnew : ∀ m ∈ p₁.live, m ∈ p.live ∨ m ∈ p₂.live) :
    Frame s p s₂ p₂ where
  carved := fun b hb => h'.carved b (h.carved b hb)
  same := by
    intro b hb hold hafter
    have hmid : ∀ m ∈ p₁.live, m.toBlock ≠ b :=
      fun m hm => (hnew m hm).elim (hold m) (hafter m)
    exact (h.same b hb hold hmid).trans (h'.same b (h.carved b hb) hmid hafter)
  stale := fun l hl hgone => h'.stale l (hkeep l hl) hgone

theorem realloc_null (n : Nat) : realloc page mmap NULL n s = malloc page mmap n s := if_pos rfl

theorem realloc_inPlace {cp n : Nat} (hcp : cp ≠ NULL) (h0 : n ≠ 0) (hroom : n ≤ room s.mem cp) :
    realloc page mmap cp n s = .ok (cp, { s with
      live := s.live.map fun l => if l.ptr = cp then { l with nbytes := n } else l }) := by
  unfold realloc
  rw [if_neg hcp, if_neg h0, if_pos hroom]

theorem realloc_failed {cp n : Nat} {s' : State} (hcp : cp ≠ NULL) (h0 : n ≠ 0)
    (hroom : room s.mem cp < n) (hs : malloc page mmap n s = .ok (NULL, s')) :
    realloc page mmap cp n s = .ok (NULL, s') := by
  unfold realloc
  rw [if_neg hcp, if_neg h0, if_neg (Nat.not_le.mpr hroom), hs, ok_bind]
  exact if_pos rfl

theorem realloc_moved {cp n np : Nat} {s' : State} (hcp : cp ≠ NULL) (h0 : n ≠ 0)
    (hroom : room s.mem cp < n) (hs : malloc page mmap n s = .ok (np, s')) (hnp : np ≠ NULL) :
    realloc page mmap cp n s =
      (free cp { s' with mem := s'.mem.copy np cp (room s.mem cp) }).map fun s'' => (np, s'') := by
  unfold realloc
  rw [if_neg hcp, if_neg h0, if_neg (Nat.not_le.mpr hroom), hs, ok_bind]
  exact if_neg hnp

theorem resize_rep (h : Rep page s p) (cp n : Nat) :
    Rep page { s with
      live := s.live.map fun l => if l.ptr = cp then { l with nbytes := n } else l }
      (p.resize cp n) := by
  refine ⟨h.ready, h.lists, ?_, ?_, h.carved, h.regions⟩
  · intro m hm
    obtain ⟨k, hk, rfl⟩ := List.mem_map.mp hm
    have hh := h.header k hk
    split
    · exact ⟨hh.pad, hh.magic, hh.index⟩
    · exact hh
  · rw [h.live]
    rfl

theorem Frame.of_resize (cp n : Nat) (m : List Live) :
    Frame s p { s with live := m } (p.resize cp n) where
  carved := fun _ hb => hb
  same := fun _ _ _ _ _ _ _ => rfl
  stale := by
    intro l hl hgone
    refine absurd ?_ (hgone _ (List.mem_map_of_mem hl))
    split <;> rfl

/-- The heap once `realloc` has copied. -/
def copied (s : State) (np cp onb : Nat) : State := { s with mem := s.mem.copy np cp onb }

theorem copied_outside {l : Live} (cp : Nat) {onb n x : Nat} (hlt : onb < n)
    (hfit : l.ptr + n ≤ l.stop)
    (hx : x < l.ptr ∨ l.stop ≤ x) : (copied s l.ptr cp onb).mem x = s.mem x :=
  Bytes.copy_outside (by omega)

/-- The copy ends inside the new block, because it is shorter than the request,
so the headers and links are as before when the old block is freed. -/
theorem realloc_copied {s₁ : State} {p₁ : Pool} {l l' : Live} {n : Nat} (h₁ : Rep page s₁ p₁)
    (hl : l ∈ p₁.live) (hl' : l' ∈ p₁.live) (h0 : n ≠ 0) (hroom : room s.mem l.ptr < n)
    (hfit : l'.ptr + n ≤ l'.stop) (hs : malloc page mmap n s = .ok (l'.ptr, s₁)) :
    Rep page (copied s₁ l'.ptr l.ptr (room s.mem l.ptr)) p₁ ∧
      realloc page mmap l.ptr n s =
        .ok (l'.ptr, released (copied s₁ l'.ptr l.ptr (room s.mem l.ptr)) l) := by
  have h₂ : Rep page (copied s₁ l'.ptr l.ptr (room s.mem l.ptr)) p₁ :=
    h₁.payload hl' fun x hx => copied_outside l.ptr hroom hfit hx
  refine ⟨h₂, ?_⟩
  have hfree := free_eq h₂ hl
  unfold copied at hfree
  rw [realloc_moved (ptr_ne_null hl) h0 hroom hs (ptr_ne_null hl'), hfree]
  rfl

theorem realloc_rep (h : Rep page s p) {l : Live} (hl : l ∈ p.live) {n : Nat}
    (ha : n ≠ 0 → room s.mem l.ptr < n → Allocates page mmap 0 n s p) :
    ∃ rv s' p', realloc page mmap l.ptr n s = .ok (rv, s') ∧ Rep page s' p' ∧
      Resized s p l n p' ∧ Frame s p s' p' := by
  have hnull := ptr_ne_null hl
  by_cases h0 : n = 0
  · refine ⟨NULL, _, _, ?_, free_rep h hl, .freed h0 rfl, .of_free h hl⟩
    unfold realloc
    rw [if_neg hnull, if_pos h0, free_eq h hl, ok_bind]
    rfl
  by_cases hroom : n ≤ room s.mem l.ptr
  · exact ⟨l.ptr, _, p.resize l.ptr n, realloc_inPlace hnull h0 hroom, resize_rep h _ n,
      .inPlace hroom rfl, .of_resize _ n _⟩
  · have hlt : room s.mem l.ptr < n := Nat.lt_of_not_le hroom
    obtain ⟨rv, s₁, p₁, hs₁, h₁, halloc, hbes⟩ := ha h0 hlt
    have hfr := Frame.of_alloc halloc hbes
    rcases halloc.result with ⟨rfl, hlive⟩ | ⟨l', rfl, hlive, hnb, _, hfit⟩
    · exact ⟨NULL, s₁, p₁, realloc_failed hnull h0 hlt hs₁, h₁, .failed hlt hlive, hfr⟩
    · have hmem' : l' ∈ p₁.live := hlive ▸ List.mem_cons_self
      have hkeep : ∀ k ∈ p.live, k ∈ p₁.live := fun k hk => hlive ▸ List.mem_cons_of_mem _ hk
      have hmem := hkeep l hl
      obtain ⟨h₂, hs₂⟩ := realloc_copied h₁ hmem hmem' h0 hlt hfit hs₁
      have hfr₂ := hfr.payload hmem' hkeep fun x hx => copied_outside l.ptr hlt (hnb ▸ hfit) hx
      refine ⟨l'.ptr, _, _, hs₂, free_rep h₂ hmem, .moved hlt (hnb ▸ hfit) ?_,
        hfr₂.trans (.of_free h₂ hmem) hkeep fun m hm => ?_⟩
      · show p₁.live.eraseP _ = _
        rw [hlive]
      · rcases List.mem_cons.mp (hlive ▸ hm) with rfl | hold
        · have hne : m ≠ l := fun he => (List.pairwise_cons.mp (hlive ▸ p₁.live_apart)).1 l hl |>.ne
            (congrArg Live.toBlock he)
          exact .inr ((List.mem_cons.mp ((eraseP_perm hmem).mem_iff.mp hm)).resolve_left hne)
        · exact .inl hold

theorem Alloc.fits {asked n rv : Nat} {s' : State} {p' : Pool} (h : Alloc asked n s p rv s' p')
    (hf : Fits p.live) : Fits p'.live := by
  rcases h.result with ⟨_, hl⟩ | ⟨l, _, hl, hn, _, hfit⟩
  · rw [hl]
    exact hf
  · rw [hl]
    intro m hm
    rcases List.mem_cons.mp hm with rfl | hm
    · rw [hn]
      exact hfit
    · exact hf m hm

theorem fits_eraseP {ls : List Live} {q : Live → Bool} (h : Fits ls) : Fits (ls.eraseP q) :=
  fun m hm => h m (List.mem_of_mem_eraseP hm)

theorem Resized.fits_iff {l : Live} {n : Nat} {p' : Pool} (h : Resized s p l n p')
    (hl : l ∈ p.live) (hf : Fits p.live) :
    Fits p'.live ↔ ¬ (l.stop < l.ptr + n ∧ n ≤ room s.mem l.ptr) := by
  have hin := (p.placed l hl).inside
  cases h with
  | freed h0 hlive =>
    rw [hlive]
    exact ⟨fun _ => by omega, fun _ => fits_eraseP hf⟩
  | inPlace hroom hp =>
    subst hp
    constructor
    · intro hfit hbad
      have := hfit { l with nbytes := n } (List.mem_map.mpr ⟨l, hl, if_pos rfl⟩)
      simp only at this
      omega
    · intro hok m hm
      obtain ⟨k, hk, rfl⟩ := List.mem_map.mp hm
      split
      · rename_i hptr
        have hkl := Pool.ptr_unique hk hl hptr
        subst hkl
        show k.ptr + n ≤ k.stop
        omega
      · exact hf k hk
  | failed hroom hlive =>
    rw [hlive]
    exact ⟨fun _ => by omega, fun _ => hf⟩
  | moved hroom hfit hlive =>
    rw [hlive]
    refine ⟨fun _ => by omega, fun _ => fits_eraseP ?_⟩
    intro m hm
    rcases List.mem_cons.mp hm with rfl | hm
    · exact hfit
    · exact hf m hm

/-- What an event comes to: it is carried out, blocks go on holding what was
asked for unless it is an overlong `realloc`, and other blocks stay as they are. -/
structure Carried (page : PageSize) (s : State) (p : Pool) (e : Event) (s' : State) (p' : Pool) :
    Prop where
  returns : call page s e = .ok s'
  rep : Rep page s' p'
  fits : Fits p.live → (Fits p'.live ↔ overlong s e = false)
  frame : Frame s p s' p'

/-- A call that does nothing but allocate. -/
theorem Carried.of_alloc {e : Event} {asked n rv : Nat} {s' : State} {p' : Pool}
    (hc : call page s e = .ok s') (h : Rep page s' p') (ha : Alloc asked n s p rv s' p')
    (hb : Beside s p s' p') (ho : overlong s e = false) : Carried page s p e s' p' :=
  ⟨hc, h, fun hf => ⟨fun _ => ho, fun _ => ha.fits hf⟩, .of_alloc ha hb⟩

theorem calloc_carried (offer : Option (Nat × Nat)) (nmemb size : Nat)
    (ha : Allocates page (answer offer) 8 (u64 (nmemb * size)) s p) :
    ∃ s' p', Carried page s p (.calloc offer nmemb size) s' p' := by
  obtain ⟨rv, s₁, p₁, hs₁, h₁, halloc, hbes⟩ := ha
  rcases halloc.result with ⟨hrv, _⟩ | ⟨l, rfl, hlive, _, _, hfit⟩
  · refine ⟨s₁, p₁, .of_alloc ?_ h₁ halloc hbes rfl⟩
    simp only [call, calloc, hs₁, ok_bind, if_pos hrv]
    rfl
  · have hl : l ∈ p₁.live := hlive ▸ List.mem_cons_self
    have hkeep : ∀ k ∈ p.live, k ∈ p₁.live := fun k hk => hlive ▸ List.mem_cons_of_mem _ hk
    have hfill : ∀ x, x < l.ptr ∨ l.stop ≤ x →
        s₁.mem.fill l.ptr (u64 (nmemb * size)) 0 x = s₁.mem x :=
      fun x hx => Bytes.fill_outside (by omega)
    refine ⟨_, p₁, ?_, h₁.payload hl hfill, fun hf => ⟨fun _ => rfl, fun _ => halloc.fits hf⟩,
      (Frame.of_alloc halloc hbes).payload hl hkeep hfill⟩
    simp only [call, calloc, hs₁, ok_bind, if_neg (ptr_ne_null hl)]
    rfl

theorem realloc_carried (h : Rep page s p) (offer : Option (Nat × Nat)) {cp : Nat}
    (hcp : cp = NULL ∨ ∃ l ∈ p.live, l.ptr = cp) {n : Nat}
    (ha : ∀ a ∈ asks s (.realloc offer cp n),
      Allocates page (answer a.offer) a.align a.nbytes s p) :
    ∃ s' p', Carried page s p (.realloc offer cp n) s' p' := by
  rcases hcp with rfl | ⟨l, hl, rfl⟩
  · obtain ⟨rv, s₁, p₁, hs₁, h₁, halloc, hbes⟩ := ha _ (mem_asks_realloc.mpr ⟨.inl rfl, rfl⟩)
    have hs₁' : realloc page (answer offer) NULL n s = .ok (rv, s₁) := (realloc_null n).trans hs₁
    refine ⟨s₁, p₁, .of_alloc (by rw [call, hs₁']; rfl) h₁ halloc hbes ?_⟩
    simp only [overlong, List.any_eq_false, decide_eq_true_eq, h.live]
    rintro l hl ⟨hptr, _⟩
    exact absurd hptr (ptr_ne_null hl)
  · have hask : n ≠ 0 → room s.mem l.ptr < n → Allocates page (answer offer) 0 n s p :=
      fun h0 hlt => ha _ (mem_asks_realloc.mpr ⟨.inr ⟨h0, hlt⟩, rfl⟩)
    obtain ⟨rv, s₁, p₁, hs₁, h₁, hr, hfr⟩ := realloc_rep h hl hask
    refine ⟨s₁, p₁, by rw [call, hs₁]; rfl, h₁, fun hf => ?_, hfr⟩
    rw [hr.fits_iff hl hf, ← overlong_realloc offer h hl, Bool.not_eq_true]

/-- A disciplined event whose allocation, if it makes one, goes by the pool. -/
theorem call_carried (h : Rep page s p) {e : Event} (hd : Disciplined s e)
    (ha : ∀ a ∈ asks s e, Allocates page (answer a.offer) a.align a.nbytes s p) :
    ∃ s' p', Carried page s p e s' p' := by
  have hheld : ∀ {cp}, Held s cp → cp = NULL ∨ ∃ l ∈ p.live, l.ptr = cp := fun hc => h.live ▸ hc
  cases e with
  | malloc offer size =>
    obtain ⟨rv, s₁, p₁, hs₁, h₁, halloc, hbes⟩ := ha _ rfl
    have hs₁' : malloc page (answer offer) size s = .ok (rv, s₁) := hs₁
    exact ⟨s₁, p₁, .of_alloc (by rw [call, hs₁']; rfl) h₁ halloc hbes rfl⟩
  | calloc offer nmemb size => exact calloc_carried offer nmemb size (ha _ rfl)
  | memalign offer align size =>
    obtain ⟨rv, s₁, p₁, hs₁, h₁, halloc, hbes⟩ := ha _ rfl
    refine ⟨s₁, p₁, .of_alloc ?_ h₁ halloc hbes rfl⟩
    simp only [call, posixMemalign, hs₁, ok_bind]
    split <;> rfl
  | realloc offer cp n => exact realloc_carried h offer (hheld hd) ha
  | free cp =>
    rcases hheld hd with rfl | ⟨l, hl, rfl⟩
    · exact ⟨s, p, rfl, h, fun hf => ⟨fun _ => rfl, fun _ => hf⟩,
        ⟨fun _ hb => hb, fun _ _ _ _ _ _ _ => rfl, fun l hl hgone => absurd rfl (hgone l hl)⟩⟩
    · exact ⟨_, _, free_eq h hl, free_rep h hl, fun hf => ⟨fun _ => rfl, fun _ => fits_eraseP hf⟩,
        .of_free h hl⟩
  | write a b =>
    obtain ⟨l, hl, hlo, hhi⟩ := hd
    have hl' : l ∈ p.live := h.live ▸ hl
    have hout : ∀ x, x < l.ptr ∨ l.stop ≤ x → Function.update s.mem a b x = s.mem x :=
      fun x hx => Function.update_of_ne (by omega) _ _
    exact ⟨_, p, rfl, h.payload hl' hout, fun hf => ⟨fun _ => rfl, fun _ => hf⟩,
      Frame.payload ⟨fun _ hb => hb, fun _ _ _ _ _ _ _ => rfl,
        fun l hl hgone => absurd rfl (hgone l hl)⟩ hl' (fun _ hk => hk) hout⟩

theorem Lawful.disciplined {e : Event} (h : Lawful page s e) : Disciplined s e := by
  cases e with
  | realloc offer cp n => exact h.2.1
  | free cp => exact h
  | write a b => exact h
  | _ => trivial

theorem Lawful.allocates (hr : Rep page s p) {e : Event} (h : Lawful page s e) :
    ∀ a ∈ asks s e, Allocates page (answer a.offer) a.align a.nbytes s p := by
  intro a ha
  cases e with
  | malloc offer size =>
    cases ha
    exact alignedAlloc_rep hr (maps_answer h.1) 0 size h.2
  | calloc offer nmemb size =>
    cases ha
    exact alignedAlloc_rep hr (maps_answer h.1) 8 _ h.2
  | memalign offer align size =>
    cases ha
    exact alignedAlloc_rep hr (maps_answer h.1) align size h.2
  | realloc offer cp n =>
    obtain ⟨_, rfl⟩ := mem_asks_realloc.mp ha
    exact alignedAlloc_rep hr (maps_answer h.1) 0 n h.2.2
  | free cp => cases ha
  | write a b => cases ha

theorem call_rep (h : Rep page s p) {e : Event} (hlaw : Lawful page s e) :
    ∃ s' p', Carried page s p e s' p' :=
  call_carried h hlaw.disciplined (hlaw.allocates h)

/-! ## Whole runs -/

/-- The heap invariant. -/
structure Sound (page : PageSize) (s : State) : Prop where
  /-- The blocks `morecore` cut do not overlap and lie in mapped memory. -/
  blocks : s.carved.Pairwise Block.Apart ∧ ∀ b ∈ s.carved, b.index < NBUCKETS ∧
    ∃ r ∈ s.regions, r.1 ≤ b.start ∧ b.stop ≤ r.1 + r.2
  /-- Blocks in use are such blocks, no two of them the same. -/
  live : s.live.Pairwise (fun l m => l.toBlock.Apart m.toBlock) ∧
    ∀ l ∈ s.live, l.toBlock ∈ s.carved
  /-- Pointers are aligned and the bytes asked for lie in the block. -/
  pointers : ∀ l ∈ s.live, max MINALIGN l.align ∣ l.ptr ∧ l.start ≤ l.ptr ∧
    l.ptr + l.nbytes ≤ l.stop
  /-- A free list ends, has no block twice, holds blocks of its size only, and
  none that is in use. -/
  lists : ∀ i < NBUCKETS, ∃ fl, Chain (ovNext s.mem) NULL (s.nextf i) fl ∧ fl.Nodup ∧
    ∀ a ∈ fl, (⟨a, i⟩ : Block) ∈ s.carved ∧ ∀ l ∈ s.live, l.toBlock.Apart ⟨a, i⟩
  /-- Lawful calls return: no loop hangs, no assertion fails, and no access to
  `nextf` is out of bounds. -/
  returns : ∀ e, Lawful page s e → ∃ s', call page s e = .ok s'
  /-- `free` puts the block that was taken in front of its list. -/
  putBack : ∀ l ∈ s.live, ∃ s', free l.ptr s = .ok s' ∧
    s'.nextf = Function.update s.nextf l.index l.start ∧
    ovNext s'.mem l.start = s.nextf l.index

theorem sound_of_rep (h : Rep page s p) (hf : Fits p.live) : Sound page s where
  blocks := by
    rw [h.carved, h.regions]
    refine ⟨p.apart, fun b hb => ⟨?_, (p.sited b hb).mapped⟩⟩
    exact Nat.lt_of_le_of_lt (p.sited b hb).index (by decide)
  live := by
    rw [h.carved, h.live]
    exact ⟨p.live_apart, fun l hl => Pool.live_carved hl⟩
  pointers := by
    rw [h.live]
    intro l hl
    have hp := p.placed l hl
    exact ⟨hp.aligned, Nat.le_of_add_right_le hp.header, hf l hl⟩
  lists := by
    rw [h.carved, h.live]
    intro i hi
    exact ⟨p.free i, h.lists i hi, p.free_nodup hi, fun a ha =>
      ⟨Pool.free_carved hi ha, fun l hl => Pool.live_apart_free hl hi ha⟩⟩
  returns := by
    intro e hlaw
    obtain ⟨s', _, hc⟩ := call_rep h hlaw
    exact ⟨s', hc.returns⟩
  putBack := by
    rw [h.live]
    intro l hl
    have hi := Nat.lt_of_le_of_lt (p.sited _ (Pool.live_carved hl)).index (by decide : _ < NBUCKETS)
    exact ⟨_, free_eq h hl, rfl, ovNext_setNext _ (h.nextf_lt hi)⟩

theorem Sound.fits (h : Sound page s) (hr : Rep page s p) : Fits p.live :=
  fun l hl => (h.pointers l (hr.live ▸ hl)).2.2

/-- The step an event that is carried out takes. -/
theorem step_carried {e : Event} {s' : State} (hs : step page s e = some s')
    (h : ∃ s₁ p₁, Carried page s p e s₁ p₁) : ∃ p', Carried page s p e s' p' := by
  obtain ⟨s₁, p₁, hc⟩ := h
  simp only [step, hc.returns, Except.toOption, Option.some.injEq] at hs
  exact hs ▸ ⟨p₁, hc⟩

/-- Every lawful run represents a pool, whatever `realloc` promised. -/
theorem rep_run {mem : Bytes} {tr : List (State × Event)} (hr : Run (step page) (boot mem) tr s)
    (hg : Guarded (Lawful page) tr) : ∃ p, Rep page s p := by
  refine Run.invariant (I := fun s => ∃ p, Rep page s p) ⟨_, rep_boot page mem⟩ ?_ hr hg
  rintro s e s' ⟨p, h⟩ hlaw hs
  obtain ⟨p', hc⟩ := step_carried hs (call_rep h hlaw)
  exact ⟨p', hc.rep⟩

theorem sound_run {mem : Bytes} {tr : List (State × Event)} (hr : Run (step page) (boot mem) tr s)
    (hg : Guarded (Lawful page) tr) (hn : Guarded (fun s e => overlong s e = false) tr) :
    Sound page s := by
  have hok : Guarded (fun s e => Lawful page s e ∧ overlong s e = false) tr :=
    fun q hq => ⟨hg q hq, hn q hq⟩
  have hinit : ∃ p, Rep page (boot mem) p ∧ Fits p.live :=
    ⟨_, rep_boot page mem, fun _ h => absurd h List.not_mem_nil⟩
  obtain ⟨p, h, hf⟩ := Run.invariant (I := fun s => ∃ p, Rep page s p ∧ Fits p.live) hinit (by
    rintro s e s' ⟨p, h, hf⟩ ⟨hlaw, hno⟩ hs
    obtain ⟨p', hc⟩ := step_carried hs (call_rep h hlaw)
    exact ⟨p', hc.rep, (hc.fits hf).mpr hno⟩) hr hok
  exact sound_of_rep h hf

/-- The first overlong `realloc` shows in the next state. -/
theorem never_overlong {mem : Bytes} {tr : List (State × Event)}
    (hr : Run (step page) (boot mem) tr s) (hg : Guarded (Lawful page) tr)
    (hall : ∀ q ∈ tr, Sound page q.1) (hlast : Sound page s) :
    Guarded (fun s e => overlong s e = false) tr := by
  induction hr with
  | nil => exact Guarded.nil _
  | @snoc tr s s' e hrun hs ih =>
    obtain ⟨hg', hlaw⟩ := guarded_snoc.mp hg
    have hsound : Sound page s := hall (s, e) (by simp)
    refine guarded_snoc.mpr ⟨ih hg' (fun q hq => hall q (List.mem_append_left _ hq)) hsound, ?_⟩
    obtain ⟨p, h⟩ := rep_run hrun hg'
    obtain ⟨p', hc⟩ := step_carried hs (call_rep h hlaw)
    exact (hc.fits (hsound.fits h)).mp (hlast.fits hc.rep)

/-- Any page size, any memory to start from, any lawful run: the heap is sound
in every state of the run exactly if no `realloc` of a block of the largest
bucket asks for more than the block has and less than the sign-extended size. -/
theorem heap_sound_iff {mem : Bytes} {tr : List (State × Event)}
    (hr : Run (step page) (boot mem) tr s) (hg : Guarded (Lawful page) tr) :
    ((∀ q ∈ tr, Sound page q.1) ∧ Sound page s) ↔
      Guarded (fun s e => overlong s e = false) tr := by
  refine ⟨fun h => never_overlong hr hg h.1 h.2, fun hn => ⟨fun q hq => ?_, sound_run hr hg hn⟩⟩
  obtain ⟨l, hl, hle⟩ := hr.reaches_mem hq
  exact sound_run hl (hg.prefix_of hle) (hn.prefix_of hle)

/-- Pages of 64 bytes, cut in two. -/
def page64 : PageSize := ⟨64, 6, rfl, by decide, by decide⟩

/-- One page serves two requests; a freed block comes back under a larger
alignment, and a `realloc` moves the other one to a page of its own. -/
theorem heap_sound_iff_reuse : ∃ tr s, Run (step page64) (boot fun _ => 0) tr s ∧
    s.live = [⟨⟨8192, 1⟩, 8208, 40, 0⟩, ⟨⟨4096, 0⟩, 4128, 0, 32⟩] ∧
    s.nextf 0 = 4128 ∧ (∀ q ∈ tr, Sound page64 q.1) ∧ Sound page64 s := by
  obtain ⟨tr, s, hr, hp⟩ := exists_run (f := step page64) (s := boot fun _ => 0)
    [.malloc (some (4096, 64)) 5, .calloc none 2 4, .write 4144 7, .free 4112, .memalign none 32 0,
      .realloc (some (8192, 4096)) 4144 40]
    (p := fun tr s => Guarded (Lawful page64) tr ∧
      Guarded (fun s e => overlong s e = false) tr ∧
      s.live = [⟨⟨8192, 1⟩, 8208, 40, 0⟩, ⟨⟨4096, 0⟩, 4128, 0, 32⟩] ∧ s.nextf 0 = 4128) (by decide)
  rw [decide_eq_true_eq] at hp
  obtain ⟨hg, hn, hl, hf⟩ := hp
  exact ⟨tr, s, hr, hl, hf, (heap_sound_iff hr hg).mpr hn⟩

/-- A block of `2 ^ 31` bytes, and a `realloc` of it to one byte more than lie
behind the pointer: the same pointer comes back. -/
theorem heap_sound_fails : ∃ tr s, Run (step page64) (boot fun _ => 0) tr s ∧
    Guarded (Lawful page64) tr ∧
    tr.map Prod.snd = [.malloc (some (4096, 2147483648)) 2147483632,
      .realloc none 4112 2147483633] ∧
    s.live = [⟨⟨4096, 26⟩, 4112, 2147483633, 0⟩] ∧ ¬ Sound page64 s := by
  obtain ⟨tr, s, hr, hp⟩ := exists_run (f := step page64) (s := boot fun _ => 0)
    [.malloc (some (4096, 2147483648)) 2147483632, .realloc none 4112 2147483633]
    (p := fun tr s => Guarded (Lawful page64) tr ∧
      tr.map Prod.snd = [.malloc (some (4096, 2147483648)) 2147483632,
        .realloc none 4112 2147483633] ∧
      s.live = [⟨⟨4096, 26⟩, 4112, 2147483633, 0⟩]) (by decide)
  rw [decide_eq_true_eq] at hp
  obtain ⟨hg, he, hl⟩ := hp
  refine ⟨tr, s, hr, hg, he, hl, fun hs => ?_⟩
  have hfit := (hs.pointers ⟨⟨4096, 26⟩, 4112, 2147483633, 0⟩ (by simp [hl])).2.2
  exact absurd hfit (by decide)

end Frankenlibc.Malloc

import Frankenlibc.Malloc.Realloc

/-!
# The heap as a store of objects

To a program the heap is a store: a pointer it holds stands for an object of the
size it asked for, and what it reads there is what it has put there, whatever
other calls have been made in between. `Store` is that view, without headers,
buckets or free lists; a byte the program has not been told about is unknown.
-/
namespace Frankenlibc.Malloc

open Frankenlibc.Lib

/-! ## Objects -/

/-- The objects a program holds, under their pointers. -/
abbrev Store := Nat → Option (List (Option UInt8))

namespace Store

/-- A new object, under a pointer that is not in use. -/
def new (st : Store) (cp : Nat) (bs : List (Option UInt8)) : Option Store :=
  if (st cp).isNone then some (Function.update st cp (some bs)) else none

def drop (st : Store) (cp : Nat) : Store := Function.update st cp none

/-- A byte goes to the object it is in. -/
def write (st : Store) (a : Nat) (b : UInt8) : Store := fun cp =>
  (st cp).map fun bs => if cp ≤ a then bs.set (a - cp) (some b) else bs

/-- The object with another size: it keeps what fits. -/
def resized (bs : List (Option UInt8)) (n : Nat) : List (Option UInt8) :=
  bs.take n ++ List.replicate (n - bs.length) none

/-- What a call that returns `rv` means. -/
def after (st : Store) (rv : Nat) : Event → Option Store
  | .malloc _ size => if rv = NULL then some st else st.new rv (List.replicate size none)
  | .memalign _ _ size => if rv = NULL then some st else st.new rv (List.replicate size none)
  | .calloc _ nmemb size =>
    if rv = NULL then some st else st.new rv (List.replicate (nmemb * size) (some 0))
  | .realloc _ cp n =>
    if cp = NULL then
      if rv = NULL then some st else st.new rv (List.replicate n none)
    else
      match st cp with
      | none => none
      | some bs =>
        if n = 0 then some (st.drop cp)
        else if rv = NULL then some st
        else (st.drop cp).new rv (resized bs n)
  | .free cp =>
    if cp = NULL then some st
    else if (st cp).isSome then some (st.drop cp)
    else none
  | .write a b => some (st.write a b)

end Store

/-- The pointer an event returns. -/
def returned (page : PageSize) (s : State) : Event → Nat
  | .malloc offer size => (malloc page (answer offer) size s).toOption.elim NULL Prod.fst
  | .calloc offer nmemb size =>
    (calloc page (answer offer) nmemb size s).toOption.elim NULL Prod.fst
  | .memalign offer align size =>
    (posixMemalign page (answer offer) align size s).toOption.elim NULL fun r => r.2.1.getD NULL
  | .realloc offer cp nbytes =>
    (realloc page (answer offer) cp nbytes s).toOption.elim NULL Prod.fst
  | _ => NULL

/-- What the calls of a run mean one after the other. -/
def believed (page : PageSize) (tr : List (State × Event)) : Option Store :=
  tr.foldlM (fun st q => st.after (returned page q.1 q.2) q.2) fun _ => none

/-- The program keeps to the bytes it asked for, asks `calloc` for no more bytes
than there are numbers, and does not meet the wrong size of the largest blocks. -/
def Careful (page : PageSize) (s : State) (e : Event) : Prop :=
  Lawful page s e ∧ overlong s e = false ∧
    match e with
    | .write a _ => ∃ l ∈ s.live, l.ptr ≤ a ∧ a < l.ptr + l.nbytes
    | .calloc _ nmemb size => nmemb * size < 18446744073709551616
    | _ => True

instance (page : PageSize) (s : State) : (e : Event) → Decidable (Careful page s e)
  | .malloc _ _ => inferInstanceAs (Decidable (_ ∧ _ ∧ True))
  | .calloc _ _ _ => inferInstanceAs (Decidable (_ ∧ _ ∧ _ < _))
  | .memalign _ _ _ => inferInstanceAs (Decidable (_ ∧ _ ∧ True))
  | .realloc _ _ _ => inferInstanceAs (Decidable (_ ∧ _ ∧ True))
  | .free _ => inferInstanceAs (Decidable (_ ∧ _ ∧ True))
  | .write a _ => inferInstanceAs
      (Decidable (_ ∧ _ ∧ ∃ l ∈ s.live, l.ptr ≤ a ∧ a < l.ptr + l.nbytes))

/-! ## A store that the heap agrees with -/

/-- The object has the size of the request, and its known bytes are in memory. -/
def Told (m : Bytes) (l : Live) (bs : List (Option UInt8)) : Prop :=
  bs.length = l.nbytes ∧ ∀ i b, bs[i]? = some (some b) → m (l.ptr + i) = b

structure Agrees (st : Store) (live : List Live) (m : Bytes) : Prop where
  held : ∀ cp, (st cp).isSome ↔ ∃ l ∈ live, l.ptr = cp
  told : ∀ l ∈ live, ∀ bs, st l.ptr = some bs → Told m l bs

variable {page : PageSize} {s s' : State} {p p' : Pool} {st : Store} {live : List Live}
  {m m' : Bytes} {l : Live} {n : Nat}

theorem Told.congr {bs : List (Option UInt8)} (h : Told m l bs)
    (hm : ∀ x, l.ptr ≤ x → x < l.ptr + l.nbytes → m' x = m x) : Told m' l bs := by
  refine ⟨h.1, fun i b hi => ?_⟩
  have hlt : i < bs.length := (List.getElem?_eq_some_iff.mp hi).1
  rw [hm _ (Nat.le_add_right _ _) (by have := h.1; omega)]
  exact h.2 i b hi

/-- The held objects as they are, and one more. -/
theorem Agrees.new (h : Agrees st live m) {bs : List (Option UInt8)}
    (hfresh : ∀ k ∈ live, k.ptr ≠ l.ptr)
    (hm : ∀ k ∈ live, ∀ x, k.ptr ≤ x → x < k.ptr + k.nbytes → m' x = m x) (hbs : Told m' l bs) :
    ∃ st', st.new l.ptr bs = some st' ∧ Agrees st' (l :: live) m' := by
  have hnone : (st l.ptr).isNone = true := by
    rw [Option.isNone_iff_eq_none, ← Option.not_isSome_iff_eq_none]
    intro hs
    obtain ⟨k, hk, hptr⟩ := (h.held l.ptr).mp hs
    exact hfresh k hk hptr
  refine ⟨_, if_pos hnone, ?_, ?_⟩
  · intro cp
    by_cases hcp : cp = l.ptr
    · subst hcp
      rw [Function.update_self]
      exact iff_of_true rfl ⟨l, List.mem_cons_self, rfl⟩
    · rw [Function.update_of_ne hcp, h.held cp]
      constructor
      · intro ⟨k, hk, hptr⟩
        exact ⟨k, List.mem_cons_of_mem _ hk, hptr⟩
      · intro ⟨k, hk, hptr⟩
        rcases List.mem_cons.mp hk with rfl | hk
        · exact absurd hptr.symm hcp
        · exact ⟨k, hk, hptr⟩
  · intro k hk bs' hbs'
    rcases List.mem_cons.mp hk with rfl | hk
    · rw [Function.update_self] at hbs'
      cases hbs'
      exact hbs
    · rw [Function.update_of_ne (hfresh k hk)] at hbs'
      exact (h.told k hk bs' hbs').congr (hm k hk)

/-- One object is given up. -/
theorem Agrees.drop (h : Agrees st live m) {cp : Nat}
    (hlive : ∀ k, k ∈ live.eraseP (·.ptr = cp) ↔ k ∈ live ∧ k.ptr ≠ cp)
    (hm : ∀ k ∈ live, k.ptr ≠ cp → ∀ x, k.ptr ≤ x → x < k.ptr + k.nbytes → m' x = m x) :
    Agrees (st.drop cp) (live.eraseP (·.ptr = cp)) m' := by
  constructor
  · intro c
    by_cases hc : c = cp
    · subst hc
      refine iff_of_false ?_ ?_
      · rw [Store.drop, Function.update_self]
        exact Bool.false_ne_true
      · intro ⟨k, hk, hptr⟩
        exact ((hlive k).mp hk).2 hptr
    · rw [Store.drop, Function.update_of_ne hc, h.held c]
      constructor
      · intro ⟨k, hk, hptr⟩
        exact ⟨k, (hlive k).mpr ⟨hk, by rw [hptr]; exact hc⟩, hptr⟩
      · intro ⟨k, hk, hptr⟩
        exact ⟨k, ((hlive k).mp hk).1, hptr⟩
  · intro k hk bs hbs
    obtain ⟨hk', hne⟩ := (hlive k).mp hk
    rw [Store.drop, Function.update_of_ne hne] at hbs
    exact (h.told k hk' bs hbs).congr (hm k hk' hne)

theorem Agrees.write (h : Agrees st live m) (a : Nat) (b : UInt8) :
    Agrees (st.write a b) live (Function.update m a b) := by
  constructor
  · intro cp
    rw [Store.write, Option.isSome_map]
    exact h.held cp
  · intro k hk bs hbs
    obtain ⟨old, hold, rfl⟩ := Option.map_eq_some_iff.mp hbs
    obtain ⟨hlen, hbytes⟩ := h.told k hk old hold
    by_cases hle : k.ptr ≤ a
    · rw [if_pos hle]
      refine ⟨by rw [List.length_set]; exact hlen, fun i c hi => ?_⟩
      by_cases hia : i = a - k.ptr
      · have hadd : k.ptr + i = a := by omega
        have hlt : i < old.length := by
          have := (List.getElem?_eq_some_iff.mp hi).1
          rwa [List.length_set] at this
        rw [← hia, List.getElem?_set_self hlt] at hi
        rw [hadd, Function.update_self]
        exact Option.some.inj (Option.some.inj hi)
      · rw [List.getElem?_set_ne (Ne.symm hia)] at hi
        rw [Function.update_of_ne (by omega)]
        exact hbytes i c hi
    · rw [if_neg hle]
      exact Told.congr ⟨hlen, hbytes⟩ fun x hx _ => Function.update_of_ne (by omega) _ _

/-- What is known of an object is known of its beginning. -/
theorem getElem_resized {bs : List (Option UInt8)} {n i : Nat} {b : UInt8}
    (h : (Store.resized bs n)[i]? = some (some b)) : bs[i]? = some (some b) := by
  unfold Store.resized at h
  by_cases hi : i < (bs.take n).length
  · rw [List.getElem?_append_left hi, List.getElem?_take_of_lt (by
      rw [List.length_take] at hi
      omega)] at h
    exact h
  · rw [List.getElem?_append_right (Nat.le_of_not_lt hi)] at h
    have hmem := List.eq_of_mem_replicate (List.mem_of_getElem? h)
    cases hmem

theorem length_resized (bs : List (Option UInt8)) (n : Nat) : (Store.resized bs n).length = n := by
  rw [Store.resized, List.length_append, List.length_take, List.length_replicate]
  omega

/-- Nothing is known of new memory. -/
theorem told_new (hn : l.nbytes = n) : Told m l (List.replicate n none) := by
  refine ⟨by rw [List.length_replicate, hn], fun i b hi => ?_⟩
  cases List.eq_of_mem_replicate (List.mem_of_getElem? hi)

/-! ## Steps -/

/-- A call of `aligned_alloc`, and what its caller then writes to the new block. -/
theorem agrees_alloc {asked rv : Nat} (h : Agrees st p.live s.mem) (hf : Fits p.live)
    (ha : Alloc asked n s p rv s' p') {bs : List (Option UInt8)} (hnull : rv = NULL → m = s'.mem)
    (hout : ∀ x, x < rv ∨ rv + n ≤ x → m x = s'.mem x)
    (hbs : rv ≠ NULL → ∀ l : Live, l.ptr = rv → l.nbytes = n → Told m l bs) :
    ∃ st', (if rv = NULL then some st else st.new rv bs) = some st' ∧ Agrees st' p'.live m := by
  have hkept : ∀ k ∈ p.live, ∀ x, k.ptr ≤ x → x < k.ptr + k.nbytes → s'.mem x = s.mem x := by
    intro k hk x hlo hhi
    have hp : k.start + 16 ≤ k.ptr := (p.placed k hk).header
    exact ha.kept k hk x (by omega) (Nat.lt_of_lt_of_le hhi (hf k hk))
  rcases ha.result with ⟨hrv, hlive⟩ | ⟨l, rfl, hlive, hn, _, hfit⟩
  · refine ⟨st, if_pos hrv, ?_⟩
    rw [hlive, hnull hrv]
    exact ⟨h.held, fun k hk bs hbs => (h.told k hk bs hbs).congr (hkept k hk)⟩
  · have hl : l ∈ p'.live := hlive ▸ List.mem_cons_self
    have hpl : l.start + 16 ≤ l.ptr := (p'.placed l hl).header
    have hap := (List.pairwise_cons.mp (hlive ▸ p'.live_apart)).1
    rw [if_neg (ptr_ne_null hl), hlive]
    refine h.new (fun k hk heq => ?_) (fun k hk x hlo hhi => ?_) (hbs (ptr_ne_null hl) l rfl hn)
    · have hk' : k ∈ p'.live := hlive ▸ List.mem_cons_of_mem _ hk
      rw [Pool.ptr_unique hk' hl heq] at hk
      exact (hap l hk).ne rfl
    · -- the new block is apart from the object
      have hp : k.start + 16 ≤ k.ptr := (p.placed k hk).header
      have hkfit := hf k hk
      have hd := hap k hk
      unfold Block.Apart at hd
      rw [hout x (by omega)]
      exact hkept k hk x hlo hhi

theorem mem_released (hl : l ∈ p.live) (k : Live) :
    k ∈ p.live.eraseP (·.ptr = l.ptr) ↔ k ∈ p.live ∧ k.ptr ≠ l.ptr := by
  have hperm := eraseP_perm hl
  have hap := (List.pairwise_cons.mp (hperm.pairwise_iff (fun h => Block.Apart.symm h) |>.mp
    p.live_apart)).1
  constructor
  · intro hk
    have hk' := List.mem_of_mem_eraseP hk
    refine ⟨hk', fun heq => ?_⟩
    rw [Pool.ptr_unique hk' hl heq] at hk
    exact (hap l hk).ne rfl
  · intro ⟨hk, hne⟩
    exact (List.mem_cons.mp (hperm.mem_iff.mp hk)).resolve_left fun heq => hne (heq ▸ rfl)

/-- The link in a freed block lies in nobody's object. -/
theorem agrees_free (h : Agrees st p.live s.mem) (hf : Fits p.live) (hl : l ∈ p.live) :
    Agrees (st.drop l.ptr) (p.live.eraseP (·.ptr = l.ptr)) (released s l).mem := by
  refine h.drop (mem_released hl) fun k hk hne x hlo hhi => ?_
  have hp : k.start + 16 ≤ k.ptr := (p.placed k hk).header
  have hap := Pool.live_apart_live hl hk fun heq => hne (heq ▸ rfl)
  exact (setNext_within s.mem l.toBlock _).same hap x (by omega)
    (Nat.lt_of_lt_of_le hhi (hf k hk))

theorem told_zero {rv : Nat} (hl : l.ptr = rv) (hn : l.nbytes = n) :
    Told (m.fill rv n 0) l (List.replicate n (some 0)) := by
  refine ⟨by rw [List.length_replicate, hn], fun i b hi => ?_⟩
  have hlt := (List.getElem?_eq_some_iff.mp hi).1
  rw [List.length_replicate] at hlt
  have hb : some b = some 0 := List.eq_of_mem_replicate (List.mem_of_getElem? hi)
  rw [Bytes.fill, if_pos ⟨by omega, by omega⟩]
  exact (Option.some.inj hb).symm

/-! ## `realloc` -/

/-- The block stays. -/
theorem agrees_inPlace (h : Agrees st live m) {cp : Nat} {bs : List (Option UInt8)}
    (hbs : st cp = some bs) (n : Nat) :
    ∃ st', (st.drop cp).new cp (Store.resized bs n) = some st' ∧
      Agrees st' (live.map fun k => if k.ptr = cp then { k with nbytes := n } else k) m := by
  have hnone : ((st.drop cp) cp).isNone = true := by
    rw [Store.drop, Function.update_self]
    rfl
  refine ⟨_, if_pos hnone, ?_, ?_⟩
  · intro c
    rw [Store.drop, Function.update_idem]
    have hptr (k : Live) : (if k.ptr = cp then { k with nbytes := n } else k).ptr = k.ptr := by
      split <;> rfl
    have hmap : (∃ k ∈ live.map fun k => if k.ptr = cp then { k with nbytes := n } else k,
        k.ptr = c) ↔ ∃ k ∈ live, k.ptr = c := by
      simp [hptr]
    rw [hmap, ← h.held c]
    by_cases hcp : c = cp
    · rw [hcp, Function.update_self, hbs]
      rfl
    · rw [Function.update_of_ne hcp]
  · intro k hk bs' hbs'
    obtain ⟨k₀, hk₀, rfl⟩ := List.mem_map.mp hk
    rw [Store.drop, Function.update_idem] at hbs'
    by_cases hkl : k₀.ptr = cp
    · rw [if_pos hkl] at hbs' ⊢
      rw [show ({ k₀ with nbytes := n } : Live).ptr = cp from hkl, Function.update_self] at hbs'
      cases hbs'
      refine ⟨length_resized bs n, fun i b hi => ?_⟩
      exact (h.told k₀ hk₀ bs (by rw [hkl]; exact hbs)).2 i b (getElem_resized hi)
    · rw [if_neg hkl] at hbs' ⊢
      rw [Function.update_of_ne hkl] at hbs'
      exact h.told k₀ hk₀ bs' hbs'

/-- The block moves: the copy brings what is known, and the old block goes. -/
theorem agrees_moved {s₁ : State} {p₁ : Pool} {l' : Live} (h : Rep page s p)
    (ha : Agrees st p.live s.mem) (hf : Fits p.live) (hl : l ∈ p.live)
    (halloc : Alloc 0 n s p l'.ptr s₁ p₁) (hl' : l' ∈ p₁.live) (hold : l ∈ p₁.live) (hne : l' ≠ l)
    (hroom : room s.mem l.ptr < n) {bs : List (Option UInt8)} (hbs : st l.ptr = some bs) :
    ∃ st', (st.drop l.ptr).new l'.ptr (Store.resized bs n) = some st' ∧
      Agrees st' (p₁.live.eraseP (·.ptr = l.ptr))
        (released (copied s₁ l'.ptr l.ptr (room s.mem l.ptr)) l).mem := by
  have hptr : l.ptr ≠ l'.ptr := fun heq => hne (Pool.ptr_unique hl' hold heq.symm)
  have hin : l.start + 16 ≤ l.ptr := (p.placed l hl).header
  have hbytes : Told (copied s₁ l'.ptr l.ptr (room s.mem l.ptr)).mem { l' with nbytes := n }
      (Store.resized bs n) := by
    refine ⟨length_resized bs n, fun i b hi => ?_⟩
    have hi' := getElem_resized hi
    obtain ⟨hlen, hknown⟩ := ha.told l hl bs hbs
    have hlt : i < l.nbytes := hlen ▸ (List.getElem?_eq_some_iff.mp hi').1
    have hfit := hf l hl
    have husable := usable_le_room h hl
    have hcopy : (copied s₁ l'.ptr l.ptr (room s.mem l.ptr)).mem (l'.ptr + i) =
        s₁.mem (l.ptr + i) := Bytes.copy_inside (by omega)
    show (copied s₁ l'.ptr l.ptr (room s.mem l.ptr)).mem (l'.ptr + i) = b
    rw [hcopy, halloc.kept l hl _ (by omega) (by omega)]
    exact hknown i b hi'
  obtain ⟨st₁, hst₁, h₁⟩ := agrees_alloc (m := (copied s₁ l'.ptr l.ptr (room s.mem l.ptr)).mem)
    ha hf halloc (fun hnull => absurd hnull (ptr_ne_null hl'))
    (fun x hx => Bytes.copy_outside (by omega)) fun _ k hk hn => by
      obtain ⟨hlen, hknown⟩ := hbytes
      exact ⟨hlen.trans hn.symm, fun i b hi => by rw [hk]; exact hknown i b hi⟩
  rw [if_neg (ptr_ne_null hl'), Store.new] at hst₁
  split at hst₁
  swap
  · cases hst₁
  rename_i hnone
  cases hst₁
  refine ⟨_, if_pos ?_, ?_⟩
  · rw [Store.drop, Function.update_of_ne hptr.symm]
    exact hnone
  · have hfree := agrees_free (s := copied s₁ l'.ptr l.ptr (room s.mem l.ptr)) h₁
      (halloc.fits hf) hold
    rw [Store.drop, Function.update_comm hptr.symm] at hfree
    rw [Store.drop]
    exact hfree

theorem agrees_realloc (h : Rep page s p) (ha : Agrees st p.live s.mem) (hf : Fits p.live)
    (hl : l ∈ p.live) {offer : Option (Nat × Nat)}
    (hall : n ≠ 0 → room s.mem l.ptr < n → Allocates page (answer offer) 0 n s p) :
    ∃ rv s', realloc page (answer offer) l.ptr n s = .ok (rv, s') ∧
      ∃ st', st.after rv (.realloc offer l.ptr n) = some st' ∧ Agrees st' s'.live s'.mem := by
  have hnull := ptr_ne_null hl
  obtain ⟨bs, hbs⟩ := Option.isSome_iff_exists.mp ((ha.held l.ptr).mpr ⟨l, hl, rfl⟩)
  simp only [Store.after, if_neg hnull, hbs]
  by_cases h0 : n = 0
  · refine ⟨NULL, released s l, ?_, st.drop l.ptr, if_pos h0, ?_⟩
    · unfold realloc
      rw [if_neg hnull, if_pos h0, free_eq h hl, ok_bind]
      rfl
    · rw [(free_rep h hl).live]
      exact agrees_free ha hf hl
  simp only [if_neg h0]
  by_cases hroom : n ≤ room s.mem l.ptr
  · obtain ⟨st', hst', hag⟩ := agrees_inPlace ha hbs n
    refine ⟨l.ptr, _, realloc_inPlace hnull h0 hroom, st', by rw [if_neg hnull]; exact hst', ?_⟩
    rw [h.live]
    exact hag
  · have hlt : room s.mem l.ptr < n := Nat.lt_of_not_le hroom
    obtain ⟨rv, s₁, p₁, hs₁, h₁, halloc, _⟩ := hall h0 hlt
    rcases halloc.result with ⟨rfl, _⟩ | ⟨l', rfl, hlive, _, _, hfit⟩
    · obtain ⟨st', hst', hag⟩ := agrees_alloc ha hf halloc (fun _ => rfl) (fun _ _ => rfl)
        fun _ k _ hn => told_new hn
      refine ⟨NULL, s₁, realloc_failed hnull h0 hlt hs₁, st', hst', ?_⟩
      rw [h₁.live]
      exact hag
    · have hmem' : l' ∈ p₁.live := hlive ▸ List.mem_cons_self
      have hmem : l ∈ p₁.live := hlive ▸ List.mem_cons_of_mem _ hl
      have hap := (List.pairwise_cons.mp (hlive ▸ p₁.live_apart)).1 l hl
      have hne : l' ≠ l := fun he => hap.ne (congrArg Live.toBlock he)
      obtain ⟨h₂, hs₂⟩ := realloc_copied h₁ hmem hmem' h0 hlt hfit hs₁
      obtain ⟨st', hst', hag⟩ := agrees_moved h ha hf hl halloc hmem' hmem hne hlt hbs
      refine ⟨l'.ptr, _, hs₂, st', by rw [if_neg (ptr_ne_null hmem')]; exact hst', ?_⟩
      rw [(free_rep h₂ hmem).live]
      exact hag

/-! ## Whole runs -/

/-- A call that allocates, from its return value on. -/
theorem agrees_call {asked rv : Nat} {e : Event} (ha : Agrees st p.live s.mem) (hf : Fits p.live)
    (h₁ : Rep page s' p') (halloc : Alloc asked n s p rv s' p')
    (hafter : st.after rv e =
      if rv = NULL then some st else st.new rv (List.replicate n none)) :
    ∃ st', st.after rv e = some st' ∧ Agrees st' s'.live s'.mem := by
  rw [hafter, h₁.live]
  exact agrees_alloc ha hf halloc (fun _ => rfl) (fun _ _ => rfl) fun _ k _ hn => told_new hn

/-- What an event returns is what the store makes of it. -/
theorem agrees_event (h : Rep page s p) (ha : Agrees st p.live s.mem) (hf : Fits p.live)
    {e : Event} (hc : Careful page s e) :
    ∃ s', call page s e = .ok s' ∧
      ∃ st', st.after (returned page s e) e = some st' ∧ Agrees st' s'.live s'.mem := by
  obtain ⟨hlaw, _, hown⟩ := hc
  have hall := hlaw.allocates h
  cases e with
  | malloc offer size =>
    obtain ⟨rv, s₁, p₁, hs₁, h₁, halloc, _⟩ := hall _ rfl
    have hs : malloc page (answer offer) size s = .ok (rv, s₁) := hs₁
    refine ⟨s₁, by rw [call, hs]; rfl, ?_⟩
    have hrv : returned page s (.malloc offer size) = rv := by rw [returned, hs]; rfl
    rw [hrv]
    exact agrees_call ha hf h₁ halloc rfl
  | memalign offer align size =>
    obtain ⟨rv, s₁, p₁, hs₁, h₁, halloc, _⟩ := hall _ rfl
    have hs : ∃ r, posixMemalign page (answer offer) align size s = .ok r ∧ r.2.2 = s₁ ∧
        r.2.1.getD NULL = rv := by
      simp only [posixMemalign, hs₁, ok_bind]
      by_cases hrv : rv = NULL
      · rw [if_pos hrv]
        exact ⟨_, rfl, rfl, hrv.symm⟩
      · rw [if_neg hrv]
        exact ⟨_, rfl, rfl, rfl⟩
    obtain ⟨r, hr, hrs, hrv⟩ := hs
    refine ⟨s₁, by rw [call, hr, ← hrs]; rfl, ?_⟩
    have hret : returned page s (.memalign offer align size) = rv := by
      rw [returned, hr]
      exact hrv
    rw [hret]
    exact agrees_call ha hf h₁ halloc rfl
  | calloc offer nmemb size =>
    obtain ⟨rv, s₁, p₁, hs₁, h₁, halloc, _⟩ := hall _ rfl
    have hprod : u64 (nmemb * size) = nmemb * size := u64_of_lt hown
    replace hs₁ : alignedAlloc page (answer offer) 8 (u64 (nmemb * size)) s = .ok (rv, s₁) := hs₁
    rw [hprod] at hs₁ halloc
    have hs : calloc page (answer offer) nmemb size s = .ok (rv, { s₁ with
        mem := if rv = NULL then s₁.mem else s₁.mem.fill rv (nmemb * size) 0 }) := by
      simp only [calloc, hprod, hs₁, ok_bind]
      by_cases hrv : rv = NULL
      · rw [if_pos hrv, if_pos hrv, hrv]
        rfl
      · rw [if_neg hrv, if_neg hrv]
        rfl
    refine ⟨_, by rw [call, hs]; rfl, ?_⟩
    have hret : returned page s (.calloc offer nmemb size) = rv := by rw [returned, hs]; rfl
    rw [hret]
    show ∃ st', _ ∧ Agrees st' s₁.live _
    rw [h₁.live]
    refine agrees_alloc ha hf halloc (fun hrv => if_pos hrv) (fun x hx => ?_)
      fun hrv k hk hn => by rw [if_neg hrv]; exact told_zero hk hn
    by_cases hrv : rv = NULL
    · rw [if_pos hrv]
    · rw [if_neg hrv]
      exact Bytes.fill_outside hx
  | realloc offer cp n =>
    rcases hlaw.2.1 with rfl | ⟨l, hl, rfl⟩
    · obtain ⟨rv, s₁, p₁, hs₁, h₁, halloc, _⟩ := hall _ (mem_asks_realloc.mpr ⟨.inl rfl, rfl⟩)
      have hs : realloc page (answer offer) NULL n s = .ok (rv, s₁) := (realloc_null n).trans hs₁
      refine ⟨s₁, by rw [call, hs]; rfl, ?_⟩
      have hret : returned page s (.realloc offer NULL n) = rv := by rw [returned, hs]; rfl
      rw [hret]
      exact agrees_call ha hf h₁ halloc (by rw [Store.after, if_pos rfl])
    · rw [h.live] at hl
      obtain ⟨rv, s₁, hs, hst⟩ := agrees_realloc h ha hf hl fun h0 hlt =>
        hall _ (mem_asks_realloc.mpr ⟨.inr ⟨h0, hlt⟩, rfl⟩)
      refine ⟨s₁, by rw [call, hs]; rfl, ?_⟩
      have hret : returned page s (.realloc offer l.ptr n) = rv := by rw [returned, hs]; rfl
      rw [hret]
      exact hst
  | free cp =>
    rcases hlaw with rfl | ⟨l, hl, rfl⟩
    · refine ⟨s, by rw [call, free, if_pos rfl], st, by rw [Store.after, if_pos rfl], ?_⟩
      rw [h.live]
      exact ha
    · rw [h.live] at hl
      refine ⟨_, free_eq h hl, st.drop l.ptr, ?_, ?_⟩
      · rw [Store.after, if_neg (ptr_ne_null hl), if_pos ((ha.held l.ptr).mpr ⟨l, hl, rfl⟩)]
      · rw [(free_rep h hl).live]
        exact agrees_free ha hf hl
  | write a b =>
    refine ⟨_, rfl, _, rfl, ?_⟩
    show Agrees _ s.live _
    rw [h.live]
    exact ha.write a b

theorem believed_snoc (tr : List (State × Event)) (q : State × Event) :
    believed page (tr ++ [q]) =
      (believed page tr).bind fun st => st.after (returned page q.1 q.2) q.2 := by
  rw [believed, List.foldlM_append]
  simp only [List.foldlM_cons, List.foldlM_nil, bind_pure]
  rfl

/-- Any page size, any memory to start from, any run of a careful program: every
call means what it means to a store, each new pointer is one that is not in use,
and the program finds in its objects what it has put there. -/
theorem heap_is_store {mem : Bytes} {tr : List (State × Event)}
    (hr : Run (step page) (boot mem) tr s) (hg : Guarded (Careful page) tr) :
    ∃ st, believed page tr = some st ∧ Agrees st s.live s.mem := by
  suffices hall : ∃ p st, Rep page s p ∧ Fits p.live ∧ believed page tr = some st ∧
      Agrees st s.live s.mem by
    obtain ⟨_, st, _, _, hst, hag⟩ := hall
    exact ⟨st, hst, hag⟩
  induction hr with
  | nil =>
    refine ⟨_, _, rep_boot page mem, fun _ h => absurd h List.not_mem_nil, rfl, ?_, ?_⟩
    · intro cp
      exact iff_of_false Bool.false_ne_true fun ⟨l, hl, _⟩ => List.not_mem_nil hl
    · intro l hl
      exact absurd hl List.not_mem_nil
  | @snoc tr s s' e _ hs ih =>
    obtain ⟨hg', hc⟩ := guarded_snoc.mp hg
    obtain ⟨p, st, h, hf, hst, hag⟩ := ih hg'
    obtain ⟨p', hcar⟩ := step_carried hs (call_rep h hc.1)
    rw [h.live] at hag
    obtain ⟨s₁, hs₁, st', hst', hag'⟩ := agrees_event h hag hf hc
    obtain rfl := Except.ok.inj (hs₁.symm.trans hcar.returns)
    refine ⟨p', st', hcar.rep, (hcar.fits hf).mpr hc.2.1, ?_, hag'⟩
    rw [believed_snoc, hst]
    exact hst'

/-- Two objects in one page; one of them is written to and grows, and its old
block is handed out again. -/
theorem heap_is_store_grows : ∃ tr s st, Run (step page64) (boot fun _ => 7) tr s ∧
    believed page64 tr = some st ∧ Agrees st s.live s.mem ∧
    st 8208 = some ([some 9, some 0] ++ List.replicate 38 none) ∧ st 4112 = none ∧
    st 4144 = some [none] := by
  obtain ⟨tr, s, hr, hp⟩ := exists_run (f := step page64) (s := boot fun _ => 7)
    [.malloc (some (4096, 64)) 5, .calloc none 1 2, .write 4144 9, .free 4112,
      .realloc (some (8192, 4096)) 4144 40, .malloc none 1]
    (p := fun tr _ => decide (Guarded (Careful page64) tr ∧
      (believed page64 tr).map (fun st => (st 8208, st 4112, st 4144)) = some
        (some ([some 9, some 0] ++ List.replicate 38 none), none, some [none]))) (by decide +kernel)
  obtain ⟨hg, hbel⟩ := of_decide_eq_true hp
  obtain ⟨st, hst, hag⟩ := heap_is_store hr hg
  rw [hst, Option.map_some, Option.some.injEq, Prod.mk.injEq, Prod.mk.injEq] at hbel
  exact ⟨tr, s, st, hr, hst, hag, hbel.1, hbel.2.1, hbel.2.2⟩

end Frankenlibc.Malloc

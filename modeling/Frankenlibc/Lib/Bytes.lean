import Mathlib.Algebra.Order.Ring.Nat
import Mathlib.Data.List.Basic
import Mathlib.Logic.Function.Basic
import Mathlib.Tactic.Common

/-!
# A byte memory and linked chains in it

Memory is a function from addresses to bytes. Words are stored with the least
significant byte first. A chain is a linked list: each node holds the address
of the next one, and a null address ends it.
-/
namespace Frankenlibc.Lib

/-- A byte memory. -/
abbrev Bytes := Nat → UInt8

namespace Bytes

/-- The `n`-byte word at `a`. -/
def load (m : Bytes) : Nat → Nat → Nat
  | _, 0 => 0
  | a, n + 1 => (m a).toNat + 256 * load m (a + 1) n

/-- Store `v` as an `n`-byte word at `a`. -/
def store : Bytes → Nat → Nat → Nat → Bytes
  | m, _, _, 0 => m
  | m, a, v, n + 1 => store (Function.update m a (UInt8.ofNat v)) (a + 1) (v / 256) n

/-- The `n` bytes from `a` on. -/
def slice (m : Bytes) (a n : Nat) : List UInt8 := (List.range n).map fun i => m (a + i)

/-- Write a list of bytes from `a` on. -/
def blit (m : Bytes) (a : Nat) (l : List UInt8) : Bytes :=
  fun x => if a ≤ x ∧ x < a + l.length then l.getD (x - a) 0 else m x

/-- A memory that starts with the given bytes. -/
def ofList (l : List UInt8) : Bytes := fun x => l.getD x 0

/-- The bytes of an `n`-byte word. -/
def word : Nat → Nat → List UInt8
  | 0, _ => []
  | n + 1, v => UInt8.ofNat v :: word n (v / 256)

/-- `memset`. -/
def fill (m : Bytes) (a n : Nat) (b : UInt8) : Bytes :=
  fun x => if a ≤ x ∧ x < a + n then b else m x

/-- `memcpy`. -/
def copy (m : Bytes) (dst src n : Nat) : Bytes :=
  fun x => if dst ≤ x ∧ x < dst + n then m (src + (x - dst)) else m x

variable {m m' : Bytes} {a n v x : Nat}

theorem store_outside (h : x < a ∨ a + n ≤ x) : store m a v n x = m x := by
  induction n generalizing m a v with
  | zero => rfl
  | succ n ih =>
    rw [store, ih (by omega), Function.update_of_ne (by omega)]

/-- A word is the same wherever its bytes lie. -/
theorem load_shift {b : Nat} (h : ∀ i < n, m' (b + i) = m (a + i)) : load m' b n = load m a n := by
  induction n generalizing a b with
  | zero => rfl
  | succ n ih =>
    have hbyte : m' b = m a := h 0 (Nat.succ_pos n)
    have hrest : load m' (b + 1) n = load m (a + 1) n := by
      apply ih
      intro i hi
      rw [Nat.add_assoc, Nat.add_assoc, Nat.add_comm 1]
      exact h (i + 1) (by omega)
    rw [load, load, hbyte, hrest]

theorem load_congr (h : ∀ x, a ≤ x → x < a + n → m' x = m x) : load m' a n = load m a n :=
  load_shift fun _ hi => h _ (by omega) (by omega)

theorem load_lt (m : Bytes) (a n : Nat) : load m a n < 256 ^ n := by
  induction n generalizing a with
  | zero => exact Nat.one_pos
  | succ n ih =>
    have hb := (m a).toNat_lt
    have ht := ih (a + 1)
    rw [load, Nat.pow_succ]
    omega

theorem load_store (m : Bytes) (a v n : Nat) : load (store m a v n) a n = v % 256 ^ n := by
  induction n generalizing m a v with
  | zero => rw [load, Nat.pow_zero, Nat.mod_one]
  | succ n ih =>
    have hb : (UInt8.ofNat v).toNat = v % 256 := UInt8.toNat_ofNat'
    rw [store, load, store_outside (by omega), Function.update_self, ih, hb, Nat.pow_succ',
      Nat.mod_mul]

/-- Storing what is there changes nothing. -/
theorem store_load (m : Bytes) (a n : Nat) : store m a (load m a n) n = m := by
  induction n generalizing a with
  | zero => rfl
  | succ n ih =>
    have hb := (m a).toNat_lt
    have hlow : UInt8.ofNat ((m a).toNat + 256 * load m (a + 1) n) = m a := by
      refine UInt8.toNat_inj.mp ?_
      rw [UInt8.toNat_ofNat']
      omega
    have hhigh : ((m a).toNat + 256 * load m (a + 1) n) / 256 = load m (a + 1) n := by omega
    rw [load, store, hlow, hhigh, Function.update_eq_self, ih]

@[simp] theorem length_slice (m : Bytes) (a n : Nat) : (slice m a n).length = n := by
  simp [slice]

theorem slice_congr (h : ∀ x, a ≤ x → x < a + n → m' x = m x) : slice m' a n = slice m a n :=
  List.map_congr_left fun i hi => h _ (by omega) (by rw [List.mem_range] at hi; omega)

theorem load_slice (m : Bytes) (a n : Nat) : load (ofList (slice m a n)) 0 n = load m a n := by
  apply load_shift
  intro i hi
  simp [ofList, slice, hi]

theorem slice_add (m : Bytes) (a n k : Nat) :
    slice m a (n + k) = slice m a n ++ slice m (a + n) k := by
  simp [slice, List.range_add, Nat.add_assoc]

theorem slice_blit (m : Bytes) (a : Nat) (l : List UInt8) : slice (blit m a l) a l.length = l := by
  refine List.ext_getElem (by simp) fun i h₁ h₂ => ?_
  simp [slice, blit, h₂]

theorem blit_outside {l : List UInt8} (h : x < a ∨ a + l.length ≤ x) : blit m a l x = m x :=
  if_neg (by omega)

/-- Writes that do not meet commute. -/
theorem blit_comm {b : Nat} {l k : List UInt8} (h : a + l.length ≤ b ∨ b + k.length ≤ a) :
    blit (blit m a l) b k = blit (blit m b k) a l := by
  funext x
  by_cases ha : a ≤ x ∧ x < a + l.length
  · rw [blit_outside (by omega), blit, if_pos ha, blit, if_pos ha]
  · rw [blit_outside (a := a) (by omega)]
    unfold blit
    rw [if_neg ha]

/-- Writing right behind what is known makes it longer. -/
theorem slice_blit_append {l k : List UInt8} (h : slice m a l.length = l) :
    slice (blit m (a + l.length) k) a (l.length + k.length) = l ++ k := by
  rw [slice_add, slice_blit, slice_congr (m := m) fun x _ hx => blit_outside (.inl hx), h]

theorem load_of_slice {l : List UInt8} (h : slice m 0 l.length = l) {k : Nat}
    (hk : a + k ≤ l.length) : load m a k = load (ofList l) a k := by
  refine load_congr fun x _ hx => ?_
  have hlt : x < l.length := by omega
  have hx' : l[x] = m x := by
    have hi : (slice m 0 l.length)[x]? = some (m x) := by simp [slice, hlt]
    rw [h] at hi
    simpa [hlt] using hi
  simp [ofList, hlt, hx']

@[simp] theorem length_word (n v : Nat) : (word n v).length = n := by
  induction n generalizing v with
  | zero => rfl
  | succ n ih => rw [word, List.length_cons, ih]

/-- What is read of a word is the word. -/
theorem load_word (pre l : List UInt8) (n v : Nat) :
    load (ofList (pre ++ (word n v ++ l))) pre.length n = v % 256 ^ n := by
  induction n generalizing pre v with
  | zero => rw [load, Nat.pow_zero, Nat.mod_one]
  | succ n ih =>
    have hb : ofList (pre ++ (word (n + 1) v ++ l)) pre.length = UInt8.ofNat v := by
      simp [ofList, word]
    have ht := ih (pre ++ [UInt8.ofNat v]) (v / 256)
    rw [List.length_append, List.length_singleton, List.append_assoc, List.singleton_append] at ht
    have hbyte : (UInt8.ofNat v).toNat = v % 256 := UInt8.toNat_ofNat'
    have hrest : pre ++ (word (n + 1) v ++ l) =
        pre ++ UInt8.ofNat v :: (word n (v / 256) ++ l) := rfl
    rw [load, hb, hbyte, hrest, ht, Nat.pow_succ', Nat.mod_mul]

theorem fill_outside {b : UInt8} (h : x < a ∨ a + n ≤ x) : fill m a n b x = m x :=
  if_neg (by omega)

/-- A list with another one written over it from `a` on. -/
def overlay (l : List UInt8) (a : Nat) (w : List UInt8) : List UInt8 :=
  l.take a ++ w ++ l.drop (a + w.length)

section Overlay

variable {l w : List UInt8}

theorem length_overlay (h : a + w.length ≤ l.length) : (overlay l a w).length = l.length := by
  unfold overlay
  rw [List.length_append, List.length_append, List.length_take, List.length_drop]
  omega

theorem getElem?_overlay (h : a + w.length ≤ l.length) (i : Nat) :
    (overlay l a w)[i]? = if a ≤ i ∧ i < a + w.length then w[i - a]? else l[i]? := by
  unfold overlay
  have htake : (l.take a).length = a := by rw [List.length_take]; omega
  split
  · rw [List.append_assoc, List.getElem?_append_right (by omega), htake,
      List.getElem?_append_left (by omega)]
  · by_cases hi : i < a
    · rw [List.append_assoc, List.getElem?_append_left (by omega), List.getElem?_take_of_lt hi]
    · rw [List.getElem?_append_right (by rw [List.length_append]; omega), List.length_append, htake,
        List.getElem?_drop]
      congr 1
      omega

theorem overlay_middle {b c : List UInt8} (h : a + w.length ≤ b.length) :
    overlay (l ++ (b ++ c)) (l.length + a) w = l ++ (overlay b a w ++ c) := by
  unfold overlay
  rw [List.take_append, List.drop_append, List.take_of_length_le (by omega),
    List.drop_eq_nil_of_le (by omega), List.take_append, List.drop_append,
    show l.length + a - l.length = a by omega,
    show l.length + a + w.length - l.length = a + w.length by omega,
    show a - b.length = 0 by omega, show a + w.length - b.length = 0 by omega]
  simp

theorem slice_blit_overlay (h : a + w.length ≤ n) :
    slice (blit m a w) 0 n = overlay (slice m 0 n) a w := by
  apply List.ext_getElem?
  intro i
  rw [getElem?_overlay (by rw [length_slice]; exact h)]
  by_cases hi : i < n
  · have hat : ∀ m' : Bytes, (slice m' 0 n)[i]? = some (m' i) := by
      intro m'
      simp [slice, hi]
    rw [hat, hat]
    unfold blit
    split
    · rename_i hin
      rw [List.getD_eq_getElem?_getD, List.getElem?_eq_getElem (by omega)]
      rfl
    · rfl
  · rw [if_neg (by omega), List.getElem?_eq_none (by rw [length_slice]; omega),
      List.getElem?_eq_none (by rw [length_slice]; omega)]

end Overlay

theorem copy_outside {src : Nat} (h : x < a ∨ a + n ≤ x) : copy m a src n x = m x :=
  if_neg (by omega)

theorem copy_inside {src k : Nat} (h : k < n) : copy m a src n (a + k) = m (src + k) := by
  unfold copy
  rw [if_pos ⟨Nat.le_add_right _ _, by omega⟩, Nat.add_sub_cancel_left]

end Bytes

/-! ## Chains -/

variable {α : Type*}

/-- `Chain next null a l`: following `next` from `a` visits `l` and ends in
`null`. -/
inductive Chain (next : α → α) (null : α) : α → List α → Prop
  | nil : Chain next null null []
  | cons {a : α} {l : List α} : a ≠ null → Chain next null (next a) l → Chain next null a (a :: l)

namespace Chain

variable {next next' : α → α} {null a : α} {l : List α}

theorem of_null (h : Chain next null null l) : l = [] := by
  cases h with
  | nil => rfl
  | cons hne _ => exact absurd rfl hne

theorem of_ne (h : Chain next null a l) (ha : a ≠ null) :
    ∃ l', l = a :: l' ∧ Chain next null (next a) l' := by
  cases h with
  | nil => exact absurd rfl ha
  | cons _ ht => exact ⟨_, rfl, ht⟩

/-- A chain survives any change that keeps the links of its nodes. -/
theorem congr (h : Chain next null a l) (hn : ∀ x ∈ l, next' x = next x) :
    Chain next' null a l := by
  induction h with
  | nil => exact .nil
  | @cons a l hne _ ih =>
    have ht := ih (fun x hx => hn x (List.mem_cons_of_mem _ hx))
    rw [← hn a List.mem_cons_self] at ht
    exact .cons hne ht

end Chain

end Frankenlibc.Lib

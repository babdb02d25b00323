import Mathlib.Data.List.TakeWhile
import Mathlib.Tactic.Common

/-!
# C strings and the environment

Strings are lists of characters without their NUL. An entry of the environment
is a string; its name is what stands before the first `=` and its value what
stands after it, and an entry without one defines nothing. `setenv` changes the
first entry with the name or appends one, and fails on a name that is empty or
has a `=`.
-/
namespace Frankenlibc.Lib

abbrev CStr := List Char

/-! ## Strings -/

/-- `strncmp` returns 0. -/
def strncmp (a b : CStr) (n : Nat) : Bool := a.take n == b.take n

def isspace (c : Char) : Bool := c.toNat = 32 || (9 ≤ c.toNat && c.toNat ≤ 13)

def digits (s : CStr) : Nat := Nat.ofDigitChars 10 (s.takeWhile Char.isDigit) 0

/-- `atoi`, of a number that is an `int`; the source is undefined for others. -/
def atoi (s : CStr) : Int :=
  match s.dropWhile isspace with
  | '-' :: s => -(digits s : Int)
  | s => digits s

/-- `%d` of a number that is not negative. -/
def showDec (n : Nat) : CStr := Nat.toDigits 10 n

theorem strncmp_iff {a b : CStr} {n : Nat} (hn : n ≤ b.length) :
    strncmp a b n = true ↔ b.take n <+: a := by
  rw [strncmp, beq_iff_eq, List.prefix_iff_eq_take, List.length_take, Nat.min_eq_left hn]
  exact eq_comm

theorem isDigit_range {c : Char} (h : c.isDigit = true) : 48 ≤ c.toNat ∧ c.toNat ≤ 57 := by
  simp only [Char.isDigit, Bool.and_eq_true, decide_eq_true_eq] at h
  exact ⟨h.1, h.2⟩

/-- A string of digits is read as what it says. -/
theorem atoi_of_digits {s : CStr} (h : ∀ c ∈ s, c.isDigit = true) :
    atoi s = Nat.ofDigitChars 10 s 0 := by
  have hall : digits s = Nat.ofDigitChars 10 s 0 := by
    rw [digits, List.takeWhile_eq_self_iff.mpr h]
  cases s with
  | nil => rfl
  | cons c s =>
    obtain ⟨hl, hu⟩ := isDigit_range (h c List.mem_cons_self)
    have hs : isspace c = false := by
      simp only [isspace, Bool.or_eq_false_iff, Bool.and_eq_false_iff, decide_eq_false_iff_not]
      omega
    have hminus : c ≠ '-' := by
      rintro rfl
      exact absurd hl (by decide)
    rw [atoi, List.dropWhile_cons_of_neg (by simp [hs])]
    split
    · rename_i heq
      exact absurd (List.cons.inj heq).1 hminus
    · rw [hall]

/-- A number that is printed is read back. -/
theorem atoi_showDec (n : Nat) : atoi (showDec n) = n := by
  have hd : ∀ c ∈ showDec n, c.isDigit = true :=
    fun c hc => Nat.isDigit_of_mem_toDigits (by decide) (by decide) hc
  rw [atoi_of_digits hd]
  exact congrArg Int.ofNat (Nat.ofDigitChars_toDigits (by decide) (by decide))

/-! ## The environment -/

def nameOf (e : CStr) : CStr := e.takeWhile (· ≠ '=')

def valueOf (e : CStr) : Option CStr := (e.dropWhile (· ≠ '=')).tail?

/-- The entry `name=value`. -/
def entry (name value : CStr) : CStr := name ++ '=' :: value

/-- The value an entry gives to a name, if it defines it. -/
def valueFor (name e : CStr) : Option CStr := if nameOf e = name then valueOf e else none

def getenv (environ : List CStr) (name : CStr) : Option CStr := environ.findSome? (valueFor name)

/-- Changes the first entry that defines the name, or appends one. -/
def put (name value : CStr) : List CStr → List CStr
  | [] => [entry name value]
  | e :: es => if (valueFor name e).isSome then entry name value :: es else e :: put name value es

def setenv (name value : CStr) (overwrite : Bool) (environ : List CStr) : List CStr :=
  if name = [] ∨ '=' ∈ name then environ
  else if (getenv environ name).isSome ∧ overwrite = false then environ
  else put name value environ

/-- No variable is defined twice. -/
def Distinct (environ : List CStr) : Prop :=
  ∀ name, environ.countP (fun e => (valueFor name e).isSome) ≤ 1

theorem valueFor_eq_some {name e v : CStr} :
    valueFor name e = some v ↔ nameOf e = name ∧ valueOf e = some v := by
  unfold valueFor
  split
  · rename_i hn
    exact ⟨fun hv => ⟨hn, hv⟩, And.right⟩
  · rename_i hn
    exact ⟨fun hv => absurd hv (by simp), fun hv => absurd hv.1 hn⟩

theorem getenv_eq_head (environ : List CStr) (name : CStr) : getenv environ name =
    (environ.filter fun e => (valueFor name e).isSome).head?.bind (valueFor name) := by
  induction environ with
  | nil => rfl
  | cons e es ih =>
    rw [getenv, List.findSome?_cons, List.filter_cons]
    cases hv : valueFor name e with
    | none => exact ih
    | some v => exact hv.symm

section Setenv

variable {name name' value : CStr} {environ : List CStr} {overwrite : Bool} {e : CStr}

theorem ne_eq_of_not_mem (hn : '=' ∉ name) : ∀ c ∈ name, decide (c ≠ '=') = true := by
  intro c hc
  simpa using fun hx : c = '=' => hn (hx ▸ hc)

theorem nameOf_entry (hn : '=' ∉ name) : nameOf (entry name value) = name := by
  rw [nameOf, entry, List.takeWhile_append_of_pos (ne_eq_of_not_mem hn),
    List.takeWhile_cons_of_neg (by simp), List.append_nil]

theorem valueOf_entry (hn : '=' ∉ name) : valueOf (entry name value) = some value := by
  rw [valueOf, entry, List.dropWhile_append_of_pos (ne_eq_of_not_mem hn),
    List.dropWhile_cons_of_neg (by simp)]
  rfl

/-- A text without `=` begins an entry if it begins its name. -/
theorem prefix_nameOf {a e : CStr} (ha : '=' ∉ a) : a <+: nameOf e ↔ a <+: e := by
  constructor
  · exact fun h => h.trans (List.takeWhile_prefix _)
  · rintro ⟨t, rfl⟩
    rw [nameOf, List.takeWhile_append_of_pos (ne_eq_of_not_mem ha)]
    exact List.prefix_append _ _

theorem getenv_put_ne (hn : '=' ∉ name) (hne : name ≠ name') :
    getenv (put name value environ) name' = getenv environ name' := by
  have hentry : valueFor name' (entry name value) = none := if_neg (by rwa [nameOf_entry hn])
  induction environ with
  | nil => rw [put, getenv, List.findSome?_cons, hentry, getenv]
  | cons e es ih =>
    rw [put]
    split
    · rename_i hv
      obtain ⟨v, hv⟩ := Option.isSome_iff_exists.mp hv
      have he : valueFor name' e = none := if_neg (by rwa [(valueFor_eq_some.mp hv).1])
      rw [getenv, getenv, List.findSome?_cons, List.findSome?_cons, hentry, he]
    · rw [getenv, getenv, List.findSome?_cons, List.findSome?_cons]
      cases valueFor name' e with
      | none => exact ih
      | some v => rfl

/-- A change of one variable is none of another. -/
theorem getenv_setenv_ne (hne : name ≠ name') :
    getenv (setenv name value overwrite environ) name' = getenv environ name' := by
  unfold setenv
  split_ifs with hbad hkeep
  · rfl
  · rfl
  · exact getenv_put_ne (fun hx => hbad (.inr hx)) hne

theorem mem_put_iff (hone : environ.countP (fun e => (valueFor name e).isSome) ≤ 1) :
    e ∈ put name value environ ↔ e = entry name value ∨ e ∈ environ ∧ valueFor name e = none := by
  induction environ with
  | nil => simp [put]
  | cons x es ih =>
    rw [List.countP_cons] at hone
    rw [put]
    split
    · rename_i hx
      have hnone : ∀ y ∈ es, valueFor name y = none := by
        rw [if_pos hx] at hone
        intro y hy
        simpa using List.countP_eq_zero.mp (Nat.le_zero.mp (Nat.le_of_succ_le_succ hone)) y hy
      rw [List.mem_cons]
      refine or_congr_right ⟨fun he => ⟨List.mem_cons_of_mem x he, hnone e he⟩, fun he => ?_⟩
      refine (List.mem_cons.mp he.1).resolve_left fun hex => ?_
      rw [← hex, he.2] at hx
      cases hx
    · rename_i hx
      rw [if_neg hx] at hone
      rw [List.mem_cons, ih hone, List.mem_cons]
      have hx' : valueFor name x = none := by simpa using hx
      constructor
      · rintro (rfl | he | he)
        · exact .inr ⟨.inl rfl, hx'⟩
        · exact .inl he
        · exact .inr ⟨.inr he.1, he.2⟩
      · rintro (he | ⟨rfl | he, hv⟩)
        · exact .inr (.inl he)
        · exact .inl rfl
        · exact .inr (.inr ⟨he, hv⟩)

/-- A variable that is there once is so after a change of it or of another. -/
theorem countP_put_le (hn : '=' ∉ name)
    (hone : environ.countP (fun e => (valueFor name' e).isSome) ≤ 1) :
    (put name value environ).countP (fun e => (valueFor name' e).isSome) ≤ 1 := by
  by_cases hne : name = name'
  · subst hne
    induction environ with
    | nil => exact List.countP_le_length
    | cons x es ih =>
      rw [List.countP_cons] at hone
      rw [put]
      split
      · rename_i hx
        rw [if_pos hx] at hone
        rw [List.countP_cons]
        split <;> omega
      · rename_i hx
        rw [if_neg hx] at hone
        rw [List.countP_cons, if_neg hx]
        exact ih hone
  · have hentry : valueFor name' (entry name value) = none := if_neg (by rwa [nameOf_entry hn])
    refine Nat.le_trans (Nat.le_of_eq ?_) hone
    clear hone
    induction environ with
    | nil => simp [put, hentry]
    | cons x es ih =>
      rw [put]
      split
      · rename_i hx
        obtain ⟨v, hv⟩ := Option.isSome_iff_exists.mp hx
        have hx' : valueFor name' x = none := if_neg (by rwa [(valueFor_eq_some.mp hv).1])
        rw [List.countP_cons, List.countP_cons, hentry, hx']
      · rw [List.countP_cons, List.countP_cons, ih]

theorem not_mem_nameOf (e : CStr) : '=' ∉ nameOf e :=
  fun hx => absurd (List.mem_takeWhile_imp hx) (by simp)

theorem valueFor_isSome :
    (valueFor name e).isSome = true ↔ nameOf e = name ∧ (valueOf e).isSome = true := by
  simp only [Option.isSome_iff_exists, valueFor_eq_some, exists_and_left]

theorem valueFor_entry (hn : '=' ∉ name) :
    (valueFor name' (entry name value)).isSome = true ↔ name = name' := by
  rw [valueFor_isSome, nameOf_entry hn, valueOf_entry hn]
  exact and_iff_left rfl

/-- A variable is there if an entry defines it. -/
theorem getenv_isSome : (getenv environ name).isSome = true ↔
    ∃ e ∈ environ, (valueFor name e).isSome = true :=
  List.findSome?_isSome_iff

/-! ### Where a variable is put -/

theorem setenv_overwrite (hgood : ¬(name = [] ∨ '=' ∈ name)) :
    setenv name value true environ = put name value environ := by
  rw [setenv, if_neg hgood, if_neg fun hx => absurd hx.2 (by simp)]

section Put

variable {l₁ l₂ : List CStr}

theorem put_append_left (hg : (getenv l₁ name).isSome = true) :
    put name value (l₁ ++ l₂) = put name value l₁ ++ l₂ := by
  induction l₁ with
  | nil => cases hg
  | cons x l₁ ih =>
    rw [List.cons_append, put, put]
    split
    · rfl
    · rename_i hx
      obtain ⟨e, he, hv⟩ := getenv_isSome.mp hg
      rw [ih (getenv_isSome.mpr ⟨e, (List.mem_cons.mp he).resolve_left ?_, hv⟩)]
      · rfl
      · rintro rfl
        exact hx hv

theorem put_append_right (hg : (getenv l₁ name).isSome = false) :
    put name value (l₁ ++ l₂) = l₁ ++ put name value l₂ := by
  have hno : ∀ e ∈ l₁, ¬(valueFor name e).isSome = true := by
    intro e he hv
    rw [getenv_isSome.mpr ⟨e, he, hv⟩] at hg
    cases hg
  clear hg
  induction l₁ with
  | nil => rfl
  | cons x l₁ ih =>
    obtain ⟨hx, hrest⟩ := List.forall_mem_cons.mp hno
    rw [List.cons_append, put, if_neg hx, ih hrest]
    rfl

theorem setenv_append_right (hg : (getenv l₁ name).isSome = false) :
    setenv name value true (l₁ ++ l₂) = l₁ ++ setenv name value true l₂ := by
  by_cases hbad : name = [] ∨ '=' ∈ name
  · rw [setenv, setenv, if_pos hbad, if_pos hbad]
  · rw [setenv_overwrite hbad, setenv_overwrite hbad, put_append_right hg]

/-- A variable that is there once changes in its place. -/
theorem put_eq_map (hone : environ.countP (fun e => (valueFor name e).isSome) ≤ 1)
    (hg : (getenv environ name).isSome = true) :
    put name value environ =
      environ.map fun e => if (valueFor name e).isSome then entry name value else e := by
  induction environ with
  | nil => cases hg
  | cons x es ih =>
    rw [List.countP_cons] at hone
    rw [put, List.map_cons]
    split
    · rename_i hx
      rw [if_pos hx] at hone
      have hzero := List.countP_eq_zero.mp (Nat.le_zero.mp (Nat.le_of_succ_le_succ hone))
      rw [List.map_congr_left fun e he => if_neg (hzero e he), List.map_id_fun']
      rfl
    · rename_i hx
      rw [if_neg hx] at hone
      obtain ⟨e, he, hv⟩ := getenv_isSome.mp hg
      rw [ih hone (getenv_isSome.mpr ⟨e, (List.mem_cons.mp he).resolve_left ?_, hv⟩)]
      rintro rfl
      exact hx hv

end Put

/-! ### What is asked of the name alone -/

section Filter

variable {p : CStr → Bool}

theorem filter_setenv_of_neg (hp : ∀ e, nameOf e = name → p e = false) :
    (setenv name value overwrite environ).filter p = environ.filter p := by
  unfold setenv
  split_ifs with hbad hkeep
  · rfl
  · rfl
  · have hentry : p (entry name value) = false := hp _ (nameOf_entry fun hx => hbad (.inr hx))
    clear hkeep
    induction environ with
    | nil => rw [put, List.filter_cons_of_neg (by rw [hentry]; simp)]
    | cons x es ih =>
      rw [put]
      split
      · rename_i hx
        rw [List.filter_cons_of_neg (by rw [hentry]; simp),
          List.filter_cons_of_neg (by rw [hp x (valueFor_isSome.mp hx).1]; simp)]
      · rw [List.filter_cons, List.filter_cons, ih]

theorem filter_setenv_of_pos (hp : ∀ e, nameOf e = name → p e = true) :
    (setenv name value true environ).filter p = setenv name value true (environ.filter p) := by
  by_cases hbad : name = [] ∨ '=' ∈ name
  · rw [setenv, setenv, if_pos hbad, if_pos hbad]
  · rw [setenv_overwrite hbad, setenv_overwrite hbad]
    have hentry : p (entry name value) = true := hp _ (nameOf_entry fun hx => hbad (.inr hx))
    induction environ with
    | nil =>
      rw [put, List.filter_cons_of_pos hentry]
      rfl
    | cons x es ih =>
      rw [put]
      split
      · rename_i hx
        rw [List.filter_cons_of_pos hentry, List.filter_cons_of_pos (hp x (valueFor_isSome.mp hx).1),
          put, if_pos hx]
      · rename_i hx
        rw [List.filter_cons, List.filter_cons]
        split
        · rw [put, if_neg hx, ih]
        · exact ih

theorem getenv_filter (hp : ∀ e, nameOf e = name → p e = true) :
    getenv (environ.filter p) name = getenv environ name := by
  induction environ with
  | nil => rfl
  | cons x es ih =>
    rw [List.filter_cons]
    split
    · rw [getenv, getenv, List.findSome?_cons, List.findSome?_cons]
      cases valueFor name x with
      | none => exact ih
      | some v => rfl
    · rename_i hx
      have hnone : valueFor name x = none := if_neg fun hn => hx (hp x hn)
      rw [ih, getenv, getenv, List.findSome?_cons, hnone]

end Filter

end Setenv

end Frankenlibc.Lib

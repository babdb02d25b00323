import Frankenlibc.Init.Scan

/-!
# The marks in the table

A round marks the descriptor of its entry. If `fstat` fails on it, the round
takes a mark away again, but from the descriptor that has the number of the
round: `n` counts rounds there, and the first entry has two of them. So after
the loop a descriptor has its mark because an entry names it, or from before,
unless the round with its number failed and no later round names it.
-/
namespace Frankenlibc.Init

open Frankenlibc.Lib

variable {h : Host} {environ : List CStr} {n k : Nat} {env e : CStr} {s : Fdinit}

/-- An entry that marks a descriptor. -/
def names (k : Nat) (env : CStr) : Bool := passed env && k = (fdOf env).toNat

theorem isPassed_of_names (hn : names k env = true) :
    isPassed env = true ∧ k = (fdOf env).toNat := by
  rw [names, Bool.and_eq_true, decide_eq_true_eq] at hn
  exact ⟨((Bool.and_eq_true_iff ..).mp hn.1).2, hn.2⟩

/-- The round with the number of a descriptor takes its mark, and no later round
gives it back. -/
def clears (h : Host) (k : Nat) : Nat → List CStr → Bool
  | _, [] => false
  | n, env :: rest =>
    if n = k then passed env && h.fstat (fdOf env) = none && !rest.any (names k)
    else clears h k (n + 1) rest

theorem clears_of_lt {es : List CStr} (hk : k < n) : clears h k n es = false := by
  induction es generalizing n with
  | nil => rfl
  | cons e es ih => rw [clears, if_neg (Nat.ne_of_gt hk), ih (Nat.lt_succ_of_lt hk)]

theorem clears_of_fstat {es : List CStr} (hst : ∀ fd, h.fstat fd ≠ none) :
    clears h k n es = false := by
  induction es generalizing n with
  | nil => rfl
  | cons e es ih =>
    rw [clears, ih]
    simp [hst (fdOf e)]

theorem roundsFrom_valid {es : List CStr} :
    ((roundsFrom h environ n es s).fd k).valid = true ↔
      clears h k n es = false ∧ (es.any (names k) = true ∨ (s.fd k).valid = true) := by
  induction es generalizing n s with
  | nil => simp [roundsFrom, clears]
  | cons e es ih =>
    rw [roundsFrom, ih, round_valid, clears, List.any_cons]
    by_cases hn : n = k
    · subst hn
      rw [clears_of_lt (Nat.lt_succ_self _), if_pos rfl]
      cases hp : passed e <;> cases hf : h.fstat (fdOf e) <;> cases ha : es.any (names n) <;>
        simp [names, hp]
    · rw [if_neg fun hx => hn hx.2.2.symm, if_neg hn]
      generalize es.any (names k) = later
      cases hp : passed e <;> cases later <;> simp [names, hp]

/-- The rounds are defined where the descriptors are in the table, if the rounds
that fail have numbers in the table too and `9PFS_FD` is there to be read. -/
theorem defined_of_inTable
    (hin : ∀ env ∈ environ, passed env = true → 0 ≤ fdOf env ∧ fdOf env < MAXFD) :
    Defined h environ ↔
      (∀ n env, (rounds environ)[n]? = some env → passed env = true →
        h.fstat (fdOf env) = none → n < MAXFD) ∧
      ∀ env ∈ environ, passed env = true → isNinep env = true →
        getenv environ "9PFS_FD".toList ≠ none := by
  constructor
  · intro hd
    refine ⟨fun n env hi hp => (hd n env hi hp).2.1, fun env he hp => ?_⟩
    obtain ⟨i, hi⟩ := List.getElem?_of_mem (mem_rounds.mpr he)
    exact (hd i env hi hp).2.2
  · rintro ⟨hfail, hnine⟩ n env hi hp
    have he := mem_rounds.mp (List.mem_of_getElem? hi)
    exact ⟨hin env he hp, hfail n env hi hp, hnine env he hp⟩

theorem any_rounds : (rounds environ).any (names k) = environ.any (names k) := by
  rw [Bool.eq_iff_iff, List.any_eq_true, List.any_eq_true]
  simp only [mem_rounds]

/-- The mark of one descriptor is as it should be. -/
theorem mark_right_iff :
    ((roundsFrom h environ 0 (rounds environ) (start h)).fd k).valid =
        (if environ.any (names k) then (h.fstat k).isSome else ((start h).fd k).valid) ↔
      if environ.any (names k) then
        (clears h k 0 (rounds environ) = true ↔ h.fstat k = none)
      else clears h k 0 (rounds environ) = true → ((start h).fd k).valid = false := by
  rw [Bool.eq_iff_iff, roundsFrom_valid, any_rounds]
  generalize clears h k 0 (rounds environ) = c
  generalize ((start h).fd k).valid = b
  cases environ.any (names k) with
  | true =>
    cases hst : h.fstat k <;> cases c <;> simp
  | false =>
    cases c <;> cases b <;> simp

/-- After the loop a descriptor named in the environment is valid exactly if
`fstat` works on it, and no other mark has changed, exactly if: the rounds that
fail have numbers in the table, and there is a `9PFS_FD` if something begins
with it; a named descriptor on which `fstat` fails, and no other, has a round of
its number that fails, and no name after that; and so does no other that was
valid before. -/
theorem fdinit_valid_iff
    (hin : ∀ env ∈ environ, passed env = true → 0 ≤ fdOf env ∧ fdOf env < MAXFD) :
    (∃ s, frankenFdinit h environ = some s ∧ ∀ k < MAXFD, (s.fd k).valid =
        if environ.any (names k) then (h.fstat k).isSome else ((start h).fd k).valid) ↔
      ((∀ n env, (rounds environ)[n]? = some env → passed env = true →
        h.fstat (fdOf env) = none → n < MAXFD) ∧
      ∀ env ∈ environ, passed env = true → isNinep env = true →
        getenv environ "9PFS_FD".toList ≠ none) ∧
      ∀ k < MAXFD, if environ.any (names k) then
          (clears h k 0 (rounds environ) = true ↔ h.fstat k = none)
        else clears h k 0 (rounds environ) = true → ((start h).fd k).valid = false := by
  rw [← defined_of_inTable hin]
  constructor
  · rintro ⟨s, hs, hall⟩
    obtain ⟨hd, rfl⟩ := frankenFdinit_eq_some.mp hs
    exact ⟨hd, fun k hk => mark_right_iff.mp (hall k hk)⟩
  · rintro ⟨hd, hall⟩
    exact ⟨_, frankenFdinit_eq_some.mpr ⟨hd, rfl⟩, fun k hk => mark_right_iff.mpr (hall k hk)⟩

/-- `fstat` fails on one descriptor. -/
def hostWithout (fd : Int) : Host where
  getfl _ := 0
  fstat x := if x = fd then none else some ⟨.reg, 0⟩
  diskAdd n := n
  mountDev _ _ := 0
  mknod := 0
  console := 3

/-- The entry for a bad descriptor 3 happens to be in the round with number 3. -/
theorem fdinit_valid_third : ∃ s, frankenFdinit (hostWithout 3)
      ["A=1".toList, "B=1".toList, "__RUMP_FDINFO_NET_tap=3".toList] = some s ∧
    ∀ k < MAXFD, (s.fd k).valid =
      if ["A=1".toList, "B=1".toList, "__RUMP_FDINFO_NET_tap=3".toList].any (names k) then
        ((hostWithout 3).fstat k).isSome else ((start (hostWithout 3)).fd k).valid := by
  refine (fdinit_valid_iff (by decide)).mpr ⟨⟨?_, by decide⟩, by decide⟩
  intro n env hn _ _
  exact lt_of_lt_of_le (List.getElem?_eq_some_iff.mp hn).1 (by decide)

/-- The entry for a bad descriptor 4 is the first: its mark stays, and standard
input and output lose theirs. -/
theorem fdinit_wrong_mark :
    (frankenFdinit (hostWithout 4) ["__RUMP_FDINFO_NET_tap=4".toList]).map
        (fun s => (List.range 5).map fun k => (s.fd k).valid) =
      some [false, false, true, false, true] ∧
    (List.range 5).map (fun k => ((start (hostWithout 4)).fd k).valid) =
      [true, true, true, false, false] := by
  decide

end Frankenlibc.Init

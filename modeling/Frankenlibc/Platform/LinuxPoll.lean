import Frankenlibc.Lib.Words
import Mathlib.Data.List.Basic

/-!
# `poll` on Linux

With a timeout of 0, `poll` is the host's. With another one it sleeps, and then
looks up in `__platform_pollfd` what has become of its descriptors. That table
belongs to the scheduler: while it idles, `clock_nanosleep` calls the host's
`ppoll` on it. So after the sleep the table says what the last `ppoll` that
succeeded has reported, and if there was none, what it said before.

`poll` copies what it finds and counts it; it clears nothing. The count and the
flags agree only as far as nothing was set before and nothing matches twice.
-/
namespace Frankenlibc.Linux

open Frankenlibc.Lib

/-- `struct pollfd`. -/
structure Pollfd where
  fd : Int
  events : Nat
  revents : Nat
deriving DecidableEq, Repr

/-- A call of `ppoll` on the table: a failure, or the `revents` of all entries. -/
abbrev Ppoll := Option (List Nat)

/-- The table after a call. -/
def ppoll (table : List Pollfd) : Ppoll → List Pollfd
  | none => table
  | some rs => table.mapIdx fun i p => { p with revents := rs.getD i 0 }

/-- The table after a sleep in which the scheduler has made these calls. -/
def slept (table : List Pollfd) (calls : List Ppoll) : List Pollfd := calls.foldl ppoll table

/-- The loop over `fds` for one entry of the table, with `ret`. -/
def copyRevents (p : Pollfd) : List Pollfd → Int → List Pollfd × Int
  | [], ret => ([], ret)
  | q :: fds, ret =>
    if p.fd = q.fd then
      let r := copyRevents p fds (i32 (ret + 1))
      ({ q with revents := p.revents } :: r.1, r.2)
    else
      let r := copyRevents p fds ret
      (q :: r.1, r.2)

/-- The loop over the table. -/
def lookUp : List Pollfd → List Pollfd → Int → List Pollfd × Int
  | [], fds, ret => (fds, ret)
  | p :: table, fds, ret =>
    if p.revents ≠ 0 then
      let r := copyRevents p fds ret
      lookUp table r.1 r.2
    else lookUp table fds ret

/-- What `poll` returns and leaves in `fds`, and the `sec` and `nsec` it has called
`clock_sleep` with. -/
structure Polled where
  ret : Int
  fds : List Pollfd
  sleep : Option (Int × Int)

/-- What `poll` asks `clock_sleep` for. -/
def sleepTime (timeout : Int) : Int × Int :=
  if timeout > 0 then (timeout.tdiv 1000, timeout.tmod 1000 * (1000 * 1000)) else (10, 0)

/-- How many entries of `fds` the loop looks at: `j < (int)n`. -/
def reach (fds : List Pollfd) : Nat := (i32 fds.length).toNat

/-- `poll`, where the host's own would return `now`, and with the calls of
`ppoll` during the sleep. -/
def poll (now : Int × List Pollfd) (table : List Pollfd) (calls : List Ppoll)
    (fds : List Pollfd) (timeout : Int) : Polled :=
  if timeout = 0 then ⟨now.1, now.2, none⟩
  else
    let r := lookUp (slept table calls) (fds.take (reach fds)) 0
    ⟨r.2, r.1 ++ fds.drop (reach fds), some (sleepTime timeout)⟩

/-! ## What the loops compute -/

/-- An entry of the table has something for a descriptor. -/
def Pollfd.has (fd : Int) (p : Pollfd) : Bool := p.revents ≠ 0 && p.fd = fd

/-- How often the loops come to an entry. -/
def hits (table : List Pollfd) (fd : Int) : Nat := table.countP (Pollfd.has fd)

/-- What the loops leave in an entry. -/
def copied (table : List Pollfd) (q : Pollfd) : Pollfd :=
  table.foldl (fun q p => if p.has q.fd then { q with revents := p.revents } else q) q

theorem copyRevents_eq {p : Pollfd} (hp : p.revents ≠ 0) (fds : List Pollfd) (r : Int) :
    copyRevents p fds (i32 r) =
      (fds.map (fun q => if p.has q.fd then { q with revents := p.revents } else q),
        i32 (r + fds.countP fun q => p.has q.fd)) := by
  induction fds generalizing r with
  | nil => simp [copyRevents]
  | cons q fds ih =>
    have hhas : p.has q.fd = decide (p.fd = q.fd) := by simp [Pollfd.has, hp]
    rw [copyRevents]
    by_cases hfd : p.fd = q.fd
    · have hyes : p.has q.fd = true := by simp [hhas, hfd]
      rw [if_pos hfd, i32_add_left, ih, List.map_cons, if_pos hyes, List.countP_cons,
        if_pos hyes]
      push_cast
      rw [Int.add_assoc, Int.add_comm 1]
    · have hno : ¬p.has q.fd = true := by simp [hhas, hfd]
      rw [if_neg hfd, ih, List.map_cons, if_neg hno, List.countP_cons, if_neg hno, Nat.add_zero]

theorem hits_cons (p : Pollfd) (table : List Pollfd) (fd : Int) :
    hits (p :: table) fd = hits table fd + if p.has fd then 1 else 0 := by
  rw [hits, List.countP_cons, hits]

/-- One more entry of the table adds its matches to the sum. -/
theorem sum_hits_cons (p : Pollfd) (table fds : List Pollfd) :
    (fds.map fun q => hits (p :: table) q.fd).sum =
      (fds.countP fun q => p.has q.fd) + (fds.map fun q => hits table q.fd).sum := by
  induction fds with
  | nil => rfl
  | cons q fds ih =>
    rw [List.map_cons, List.sum_cons, ih, hits_cons, List.countP_cons, List.map_cons,
      List.sum_cons]
    omega

theorem lookUp_eq (table fds : List Pollfd) (r : Int) :
    lookUp table fds (i32 r) =
      (fds.map (copied table), i32 (r + (fds.map fun q => hits table q.fd).sum)) := by
  induction table generalizing fds r with
  | nil =>
    have hcopied : copied [] = id := rfl
    have hsum : (fds.map fun q => hits [] q.fd).sum = 0 := by simp [hits]
    rw [lookUp, hcopied, List.map_id, hsum, Int.natCast_zero, Int.add_zero]
  | cons p table ih =>
    rw [lookUp, sum_hits_cons]
    by_cases hp : p.revents ≠ 0
    · rw [if_pos hp, copyRevents_eq hp, ih, List.map_map]
      have hfd : ∀ q : Pollfd,
          (if p.has q.fd then { q with revents := p.revents } else q).fd = q.fd := by
        intro q
        split <;> rfl
      have hhits : (fun q : Pollfd => hits table q.fd) ∘
          (fun q => if p.has q.fd then { q with revents := p.revents } else q) =
            fun q => hits table q.fd := funext fun q => congrArg (hits table) (hfd q)
      rw [List.map_map, hhits]
      push_cast
      rw [Int.add_assoc]
      rfl
    · have hhas : ∀ fd, p.has fd = false := fun fd => by simp [Pollfd.has, not_not.mp hp]
      have hcopied : copied (p :: table) = copied table := by
        funext q
        rw [copied, List.foldl_cons, hhas, if_neg Bool.false_ne_true]
        rfl
      have hcount : (fds.countP fun q => p.has q.fd) = 0 := by simp [hhas]
      rw [if_neg hp, ih, hcopied, hcount, Nat.zero_add]

theorem copied_fd (table : List Pollfd) (q : Pollfd) : (copied table q).fd = q.fd := by
  induction table generalizing q with
  | nil => rfl
  | cons p table ih =>
    rw [copied, List.foldl_cons]
    refine (ih _).trans ?_
    split <;> rfl

/-- An entry is marked in the end if the table has something for it, or if it
was marked before. -/
theorem copied_revents (table : List Pollfd) (q : Pollfd) :
    (copied table q).revents ≠ 0 ↔ hits table q.fd ≠ 0 ∨ q.revents ≠ 0 := by
  induction table generalizing q with
  | nil => simp [copied, hits]
  | cons p table ih =>
    rw [copied, List.foldl_cons]
    refine (ih _).trans ?_
    rw [hits_cons]
    cases hh : p.has q.fd with
    | true =>
      have hp : p.revents ≠ 0 := by
        simp only [Pollfd.has, Bool.and_eq_true, decide_eq_true_eq] at hh
        exact hh.1
      simp [hp]
    | false => simp

/-! ## What the sleep has reported -/

/-- A call of `ppoll` during the sleep has reported something for a descriptor. -/
def reported (table : List Pollfd) (calls : List Ppoll) (fd : Int) : Bool :=
  calls.any fun c => c.isSome && (ppoll table c).any (Pollfd.has fd)

/-- What an earlier call has reported is overwritten. -/
theorem ppoll_ppoll (table : List Pollfd) (c : Ppoll) (rs : List Nat) :
    ppoll (ppoll table c) (some rs) = ppoll table (some rs) := by
  cases c with
  | none => rfl
  | some rs' => simp [ppoll, List.mapIdx_mapIdx, Function.comp_def]

/-- The table after the sleep is from the last call that succeeded, or is as it
was before. -/
theorem slept_cases (table : List Pollfd) (calls : List Ppoll) :
    (∀ c ∈ calls, c = none) ∧ slept table calls = table ∨
      ∃ rs, some rs ∈ calls ∧ slept table calls = ppoll table (some rs) := by
  induction calls generalizing table with
  | nil => exact .inl ⟨nofun, rfl⟩
  | cons c calls ih =>
    have hslept : slept table (c :: calls) = slept (ppoll table c) calls := rfl
    rw [hslept]
    rcases ih (ppoll table c) with ⟨hnone, htable⟩ | ⟨rs, hrs, htable⟩
    · cases c with
      | none =>
        refine .inl ⟨fun c hc => ?_, htable⟩
        rcases List.mem_cons.mp hc with rfl | hc
        · rfl
        · exact hnone c hc
      | some rs => exact .inr ⟨rs, List.mem_cons_self, htable⟩
    · exact .inr ⟨rs, List.mem_cons_of_mem _ hrs, htable.trans (ppoll_ppoll table c rs)⟩

theorem hits_eq_zero {table : List Pollfd} {fd : Int} :
    hits table fd = 0 ↔ table.any (Pollfd.has fd) = false := by
  rw [hits, List.countP_eq_zero, List.any_eq_false]

/-- What the table has for a descriptor that was not reported is left over from
before the sleep, and no call has succeeded. -/
theorem hits_unreported {table : List Pollfd} {calls : List Ppoll} {fd : Int}
    (hr : reported table calls fd = false) :
    hits (slept table calls) fd = 0 ↔ ((∀ c ∈ calls, c = none) → hits table fd = 0) := by
  rcases slept_cases table calls with ⟨hnone, htable⟩ | ⟨rs, hrs, htable⟩
  · rw [htable]
    exact ⟨fun h _ => h, fun h => h hnone⟩
  · have hzero : hits (slept table calls) fd = 0 := by
      rw [htable, hits_eq_zero]
      unfold reported at hr
      simpa using List.any_eq_false.mp hr (some rs) hrs
    exact iff_of_true hzero fun hall => by cases hall _ hrs

/-! ## The result -/

variable {now : Int × List Pollfd} {table fds : List Pollfd} {calls : List Ppoll} {timeout : Int}

theorem poll_slow (ht : timeout ≠ 0) :
    (poll now table calls fds timeout).ret =
        i32 (((fds.take (reach fds)).map fun q => hits (slept table calls) q.fd).sum : Nat) ∧
      (poll now table calls fds timeout).fds =
        (fds.take (reach fds)).map (copied (slept table calls)) ++ fds.drop (reach fds) := by
  have hloop := lookUp_eq (slept table calls) (fds.take (reach fds)) 0
  rw [Int.zero_add, show i32 0 = 0 from rfl] at hloop
  simp only [poll, if_neg ht, hloop, and_self]

/-- The entries the loops come to. -/
def matched (table fds : List Pollfd) : Nat :=
  (fds.take (reach fds)).countP fun q => hits table q.fd ≠ 0

/-- How often they come to one again. -/
def again (table fds : List Pollfd) : Nat :=
  ((fds.take (reach fds)).map fun q => hits table q.fd - 1).sum

/-- The entries that were marked before and that they do not come to. -/
def stale (table fds : List Pollfd) : Nat :=
  (fds.take (reach fds)).countP (fun q => hits table q.fd = 0 ∧ q.revents ≠ 0) +
    (fds.drop (reach fds)).countP fun q => q.revents ≠ 0

theorem copied_marked (table l : List Pollfd) :
    (l.map (copied table)).countP (fun q => q.revents ≠ 0) =
      l.countP (fun q => hits table q.fd ≠ 0) +
        l.countP fun q => hits table q.fd = 0 ∧ q.revents ≠ 0 := by
  induction l with
  | nil => rfl
  | cons q l ih =>
    have hmark := copied_revents table q
    rw [List.map_cons, List.countP_cons, ih, List.countP_cons, List.countP_cons]
    by_cases hh : hits table q.fd = 0 <;> by_cases hq : q.revents = 0 <;> simp [hmark, hh, hq] <;>
      omega

theorem sum_hits (table l : List Pollfd) :
    (l.map fun q => hits table q.fd).sum =
      l.countP (fun q => hits table q.fd ≠ 0) + (l.map fun q => hits table q.fd - 1).sum := by
  induction l with
  | nil => rfl
  | cons q l ih =>
    rw [List.map_cons, List.sum_cons, ih, List.countP_cons, List.map_cons, List.sum_cons]
    by_cases hh : hits table q.fd = 0
    · simp [hh]
    · simp [hh]
      omega

/-- The result is the number of marked entries if as many matches are too many as
there are entries without one, where the number is one of an `int`. -/
theorem poll_counts (ht : timeout ≠ 0) :
    (poll now table calls fds timeout).ret =
        (poll now table calls fds timeout).fds.countP (fun q => q.revents ≠ 0) ↔
    matched (slept table calls) fds + stale (slept table calls) fds < 2147483648 ∧
      u32 (again (slept table calls) fds) = u32 (stale (slept table calls) fds) := by
  have hmod {x y z : Nat} : i32 ((x + y : Nat) : Int) = (x + z : Nat) ↔
      x + z < 2147483648 ∧ u32 y = u32 z := by
    rw [i32, Int.bmod_def, u32, u32]
    split <;> omega
  rw [(poll_slow ht).1, (poll_slow ht).2, List.countP_append, copied_marked, sum_hits,
    Nat.add_assoc]
  exact hmod

/-- For every array, table, timeout but 0 and all that `ppoll` reports during the
sleep: `poll` returns how many entries are marked, and no entry is marked without
a report during the sleep, exactly if as many matches are an entry's second or
later one as entries were marked before and have none, and an entry without a
report was not marked, nor left over in the table by a sleep without a `ppoll`
that succeeds. -/
theorem poll_consistent_iff (ht : timeout ≠ 0) :
    ((poll now table calls fds timeout).ret =
        (poll now table calls fds timeout).fds.countP (fun q => q.revents ≠ 0) ∧
      ∀ q ∈ (poll now table calls fds timeout).fds,
        reported table calls q.fd = false → q.revents = 0) ↔
    (matched (slept table calls) fds + stale (slept table calls) fds < 2147483648 ∧
        u32 (again (slept table calls) fds) = u32 (stale (slept table calls) fds)) ∧
      ∀ q ∈ fds, reported table calls q.fd = false → q.revents = 0 ∧
        (q ∈ fds.take (reach fds) → (∀ c ∈ calls, c = none) → hits table q.fd = 0) := by
  refine and_congr (poll_counts ht) ?_
  rw [(poll_slow ht).2]
  generalize reach fds = n
  have hzero : ∀ q : Pollfd, (copied (slept table calls) q).revents = 0 ↔
      hits (slept table calls) q.fd = 0 ∧ q.revents = 0 := by
    intro q
    have hmark := not_congr (copied_revents (slept table calls) q)
    rw [not_or, not_not, not_not, not_not] at hmark
    exact hmark
  constructor
  · intro hall q hq hr
    have htake : q ∈ fds.take n →
        hits (slept table calls) q.fd = 0 ∧ q.revents = 0 := by
      intro hq
      refine (hzero q).mp (hall _ (List.mem_append_left _ (List.mem_map_of_mem hq)) ?_)
      rw [copied_fd]
      exact hr
    refine ⟨?_, fun hq' => (hits_unreported hr).mp (htake hq').1⟩
    rw [← List.take_append_drop n fds] at hq
    rcases List.mem_append.mp hq with hq | hq
    · exact (htake hq).2
    · exact hall q (List.mem_append_right _ hq) hr
  · intro hall q hq hr
    rcases List.mem_append.mp hq with hq | hq
    · obtain ⟨q, hmem, rfl⟩ := List.mem_map.mp hq
      rw [copied_fd] at hr
      obtain ⟨hold, hleft⟩ := hall q (List.mem_of_mem_take hmem) hr
      exact (hzero q).mpr ⟨(hits_unreported hr).mpr (hleft hmem), hold⟩
    · exact (hall q (List.mem_of_mem_drop hq) hr).1

/-- One descriptor is watched and becomes ready. -/
theorem poll_consistent_ready :
    (poll (0, []) [⟨3, 3, 0⟩] [some [0], some [1]] [⟨3, 3, 0⟩] 100).ret =
        (poll (0, []) [⟨3, 3, 0⟩] [some [0], some [1]] [⟨3, 3, 0⟩] 100).fds.countP
          (fun q => q.revents ≠ 0) ∧
      ∀ q ∈ (poll (0, []) [⟨3, 3, 0⟩] [some [0], some [1]] [⟨3, 3, 0⟩] 100).fds,
        reported [⟨3, 3, 0⟩] [some [0], some [1]] q.fd = false → q.revents = 0 :=
  (poll_consistent_iff (by decide)).mpr ⟨by decide, by decide⟩

/-- Two entries marked by an earlier `poll`, and nothing happens: 0 is returned
and both stay marked. And a sleep without any `ppoll`: what was ready before the
sleep is reported again. -/
theorem poll_stale :
    ((poll (0, []) [⟨3, 3, 0⟩] [some [0]] [⟨3, 3, 1⟩, ⟨4, 3, 1⟩] 100).ret = 0 ∧
      (poll (0, []) [⟨3, 3, 0⟩] [some [0]] [⟨3, 3, 1⟩, ⟨4, 3, 1⟩] 100).fds.map Pollfd.revents =
        [1, 1]) ∧
    (poll (0, []) [⟨3, 3, 1⟩] [] [⟨3, 3, 0⟩] 100).ret = 1 ∧
      (poll (0, []) [⟨3, 3, 1⟩] [] [⟨3, 3, 0⟩] 100).fds.map Pollfd.revents = [1] ∧
      reported [⟨3, 3, 1⟩] [] 3 = false := by
  decide

end Frankenlibc.Linux

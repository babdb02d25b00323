import Frankenlibc.Threads.Rwlock

/-!
# Downgrade and upgrade of a reader/writer lock

`rw_downgrade` marks the lock with `v = -1` and leaves `o` as it is, and
`rw_tryupgrade` succeeds on that mark alone. But no other function knows the
mark: to `rw_held` and `rw_tryenter` a downgraded lock is still held by its
writer, and no reader that has come in through `rw_enter` leaves `v` at -1. As
long as nothing is converted, `v` counts all holders but the one `o` stands for.
-/
namespace Frankenlibc.Threads.Convert

open Frankenlibc.Lib
open Locks Rwlock

/-- The discipline of the locks, with the two conversions: a writer downgrades
and a reader upgrades. -/
def disciplined (s : State) : Event → Bool
  | .call (.rwDowngrade r) => s.current ∈ s.writers r
  | .call (.rwTryupgrade r) => s.current ∈ s.readers r
  | e => lawful s e

/-- The current thread is the only reader, and there is no writer. -/
def soleReader (s : State) (r : RwId) : Bool :=
  (s.readers r).all (· = s.current) && s.writers r = []

/-- What a conversion has to do. A downgrade leaves its caller a reader that
others may join; an upgrade succeeds for a sole reader. -/
def Converted (s : State) (e : Event) (s' : State) : Prop :=
  (∀ r, e = .call (.rwDowngrade r) → s'.mode = .user ∧ rwHeld .writer r s' = false ∧
    rwHeld .reader r s' = true ∧ (s'.waiters (.wwait r) = [] → RwOpen r s' .reader)) ∧
  (∀ r, e = .call (.rwTryupgrade r) → ((rwTryupgrade r s).1 = .ok ↔ soleReader s r = true))

/-- A lock without holders is free. -/
def Idle (s : State) : Prop :=
  ∀ r, s.readers r = [] → s.writers r = [] → s.rw r = ⟨0, none⟩

/-- A writer downgrades, or a sole reader upgrades. -/
def converts (s : State) : Event → Bool
  | .call (.rwDowngrade _) => true
  | .call (.rwTryupgrade r) => soleReader s r
  | _ => false

/-! ## The count -/

/-- `v` counts the holders but the one that `o` stands for. -/
def Counted (s : State) (r : RwId) : Prop :=
  (s.rw r).o = none ∧ (s.rw r).v = (s.readers r).length + (s.writers r).length ∨
  (s.rw r).o ≠ none ∧ (s.rw r).v + 1 = (s.readers r).length + (s.writers r).length ∧
    0 < (s.readers r).length + (s.writers r).length

theorem Counted.nonneg {s : State} {r : RwId} (h : Counted s r) : 0 ≤ (s.rw r).v := by
  rcases h with ⟨_, hv⟩ | ⟨_, hv, hpos⟩ <;> omega

theorem counted_idle {s : State} (h : ∀ r, Counted s r) : Idle s := by
  intro r hr hw
  rcases h r with ⟨ho, hv⟩ | ⟨_, _, hpos⟩
  · rw [hr, hw] at hv
    calc s.rw r = ⟨(s.rw r).v, (s.rw r).o⟩ := rfl
      _ = ⟨0, none⟩ := by rw [hv, ho]; rfl
  · simp [hr, hw] at hpos

theorem counted_boot (t : Tid) (ts : List Tid) (lwp : Tid → Option Lwp) (r : RwId) :
    Counted (boot t ts lwp) r := .inl ⟨rfl, rfl⟩

/-- A holder that leaves: either `o` or the count goes down with it. -/
theorem counted_released {s s' : State} {r : RwId} (h : Counted s r)
    (hrw : s'.rw r = rwRelease (s.rw r))
    (hlen : (s'.readers r).length + (s'.writers r).length + 1 =
      (s.readers r).length + (s.writers r).length) : Counted s' r := by
  rcases h with ⟨ho, hv⟩ | ⟨ho, hv, _⟩
  · have hrel : s'.rw r = { s.rw r with v := (s.rw r).v - 1 } := by simp [hrw, rwRelease, ho]
    refine .inl ⟨by rw [hrel]; exact ho, ?_⟩
    rw [hrel]
    show (s.rw r).v - 1 = _
    omega
  · have hrel : s'.rw r = { s.rw r with o := none } := by simp [hrw, rwRelease, ho]
    refine .inl ⟨by rw [hrel], ?_⟩
    rw [hrel]
    show (s.rw r).v = _
    omega

theorem counted_shift {s s' : State} {r : RwId} {tries : Prop} (h : Counted s r)
    (hcur : tries → s.curlwp ≠ none) (hs : Shift tries s s' r) : Counted s' r := by
  cases hs with
  | same hrw hr hw =>
    unfold Counted
    rw [hrw, hr, hw]
    exact h
  | reader ho hrw hr hw =>
    rcases h with ⟨_, hv⟩ | ⟨hno, _⟩
    · refine .inl ⟨by rw [hrw]; exact ho, ?_⟩
      rw [hrw, hr, hw, List.length_cons]
      show (s.rw r).v + 1 = _
      omega
    · exact absurd ho hno
  | writer ho ht hrw hr hw =>
    rcases h with ⟨_, hv⟩ | ⟨hno, _⟩
    · refine .inr ⟨by rw [hrw]; exact hcur ht, ?_, ?_⟩
      · rw [hrw, hr, hw, List.length_cons]
        show (s.rw r).v + 1 = _
        omega
      · rw [hw, List.length_cons]
        omega
    · exact absurd ho hno
  | readerOut hm _ hrw hr hw =>
    have hlen := List.length_erase_of_mem hm
    have hpos := List.length_pos_of_mem hm
    exact counted_released h hrw (by rw [hr, hw]; omega)
  | writerOut hm hrw hr hw =>
    have hlen := List.length_erase_of_mem hm
    have hpos := List.length_pos_of_mem hm
    exact counted_released h hrw (by rw [hr, hw]; omega)

/-! ## Steps -/

/-- A disciplined step is a downgrade by a writer, an upgrade by a reader, or
one of the steps that convert nothing. -/
inductive Kind (s : State) : Event → Prop
  | downgrade {r : RwId} (hw : s.current ∈ s.writers r) : Kind s (.call (.rwDowngrade r))
  | upgrade {r : RwId} (hr : s.current ∈ s.readers r) : Kind s (.call (.rwTryupgrade r))
  | plain {e : Event} (hl : lawful s e = true) (hc : converts s e = false)
      (hk : ∀ s', Converted s e s') : Kind s e

theorem kind_of_disciplined {s : State} {e : Event} (h : disciplined s e = true) : Kind s e := by
  unfold disciplined at h
  split at h
  next r => exact .downgrade (by simpa using h)
  next r => exact .upgrade (by simpa using h)
  next hd hu =>
    refine .plain h ?_ fun s' => ⟨fun r he => absurd he (hd r), fun r he => absurd he (hu r)⟩
    unfold converts
    split
    next r => exact absurd rfl (hd r)
    next r => exact absurd rfl (hu r)
    next => rfl

/-- Where `v` is a count, `rw_tryupgrade` refuses. -/
theorem tryupgrade_refuses {s : State} {r : RwId} (h : Counted s r) :
    rwTryupgrade r s = (.EBUSY, s) := by
  have hv := h.nonneg
  rw [rwTryupgrade, if_neg (by omega)]

/-- What a run keeps that converts nothing. -/
structure Kept (s : State) : Prop where
  base : Base s
  counted : ∀ r, Counted s r

theorem kept_step {s s' : State} {e : Event} (h : Kept s) (hd : disciplined s e = true)
    (hn : converts s e = false) (hs : step s e = some s') : Kept s' := by
  cases kind_of_disciplined hd with
  | downgrade => cases hn
  | @upgrade r =>
    have hsame : s' = s := by
      simp only [step, exec, tryupgrade_refuses (h.counted r), settle] at hs
      split at hs
      · cases hs
        rfl
      · cases hs
    rw [hsame]
    exact h
  | plain hl =>
    refine ⟨base_step h.base hl hs, fun r => ?_⟩
    refine counted_shift (h.counted r) (fun ht => ?_) (step_shift hl hs r)
    exact h.base.named _ (h.base.sys.current_created (tries_mode ht hs))

theorem converted_of_not {s s' : State} {e : Event} (h : Kept s) (hd : disciplined s e = true)
    (hn : converts s e = false) : Converted s e s' := by
  cases kind_of_disciplined hd with
  | downgrade => cases hn
  | @upgrade r =>
    constructor
    · rintro r' ⟨⟩
    · rintro r' ⟨⟩
      change soleReader s r = false at hn
      rw [tryupgrade_refuses (h.counted r), hn]
      simp
  | plain _ _ hk => exact hk s'

/-- The mark of a downgrade is no count of readers, and a counted lock has no mark. -/
theorem not_converted {s s' : State} {e : Event} (h : Kept s) (hd : disciplined s e = true)
    (hc : converts s e = true) (hs : step s e = some s') : ¬ Converted s e s' := by
  intro hconv
  cases kind_of_disciplined hd with
  | @downgrade r =>
    obtain ⟨hmode, _, hheld, _⟩ := hconv.1 r rfl
    have hv : 0 < (s'.rw r).v := by simpa [rwHeld] using hheld
    cases step_inv hs with
    | call _ _ he =>
      simp only [exec, rwDowngrade] at he
      split at he
      · cases he
      · cases he
        simp at hv
    | callAbort => cases hmode
  | @upgrade r =>
    have hok := (hconv.2 r rfl).mpr hc
    rw [tryupgrade_refuses (h.counted r)] at hok
    cases hok
  | plain _ hn => rw [hn] at hc; cases hc

/-! ## Whole runs -/

theorem kept_run {s₀ s : State} {tr : List (State × Event)} (h₀ : Kept s₀) (hr : Run step s₀ tr s)
    (hd : Guarded (fun s e => disciplined s e) tr)
    (hn : Guarded (fun s e => converts s e = false) tr) : Kept s := by
  have hok : Guarded (fun s e => disciplined s e = true ∧ converts s e = false) tr :=
    fun p hp => ⟨hd p hp, hn p hp⟩
  exact Run.invariant h₀ (fun _ _ _ h hx hs => kept_step h hx.1 hx.2 hs) hr hok

theorem kept_boot {t : Tid} {ts : List Tid} {lwp : Tid → Option Lwp} (hc : Crew t ts lwp) :
    Kept (boot t ts lwp) := ⟨base_boot hc, counted_boot t ts lwp⟩

/-- Any number of threads with lwps of their own, any run of lock operations in
which writers downgrade, readers upgrade and holders exit: the conversions do
what they should and a lock without holders is free, exactly if the run has no
downgrade and no upgrade of a sole reader. -/
theorem rw_convert_iff {t : Tid} {ts : List Tid} {lwp : Tid → Option Lwp}
    {tr : List (State × Event)} {s : State} (hc : Crew t ts lwp)
    (hr : Run step (boot t ts lwp) tr s) (hd : Guarded (fun s e => disciplined s e) tr) :
    ((∀ p ∈ tr, Idle p.1 ∧ ∀ s', step p.1 p.2 = some s' → Converted p.1 p.2 s') ∧ Idle s) ↔
      Guarded (fun s e => converts s e = false) tr := by
  constructor
  · rintro ⟨hall, -⟩
    induction hr with
    | nil => exact Guarded.nil _
    | @snoc tr s s' e hrun hs ih =>
      obtain ⟨hd', hde⟩ := guarded_snoc.mp hd
      have hn := ih hd' fun p hp => hall p (List.mem_append_left _ hp)
      refine guarded_snoc.mpr ⟨hn, ?_⟩
      by_contra hcon
      have hkept := kept_run (kept_boot hc) hrun hd' hn
      exact not_converted hkept hde (by simpa using hcon) hs
        ((hall (s, e) (by simp)).2 s' hs)
  · intro hn
    refine ⟨fun p hp => ?_, counted_idle (kept_run (kept_boot hc) hr hd hn).counted⟩
    obtain ⟨l, hl, hle⟩ := hr.reaches_mem hp
    have hkept := kept_run (kept_boot hc) hl (hd.prefix_of hle) (hn.prefix_of hle)
    exact ⟨counted_idle hkept.counted, fun s' _ => converted_of_not hkept (hd p hp) (hn p hp)⟩

/-- Two readers, one of which tries to upgrade. -/
theorem rw_convert_iff_shared : ∃ tr s, Run step (boot 0 [1] some) tr s ∧
    s.readers 0 = [1, 0] ∧
    (∀ p ∈ tr, Idle p.1 ∧ ∀ s', step p.1 p.2 = some s' → Converted p.1 p.2 s') ∧ Idle s := by
  obtain ⟨tr, s, hr, hp⟩ := exists_run (f := step) (s := boot 0 [1] some)
    [.call (.rwEnter .reader 0), .call .schedule, .pass 0, .resume, .call .schedule, .pass 0,
      .resume, .call (.rwEnter .reader 0), .call (.rwTryupgrade 0)]
    (p := fun tr s => Guarded (fun s e => disciplined s e) tr ∧
      Guarded (fun s e => converts s e = false) tr ∧ s.readers 0 = [1, 0]) (by decide)
  rw [decide_eq_true_eq] at hp
  obtain ⟨hd, hn, hrd⟩ := hp
  have hc : Crew 0 [1] some := ⟨by decide, by simp, by simp⟩
  exact ⟨tr, s, hr, hrd, (rw_convert_iff hc hr hd).mpr hn⟩

/-- A writer downgrades and exits. It was never a reader in between, and the
free lock keeps the mark, on which the next downgrade or upgrade builds. -/
theorem rw_convert_fails : ∃ tr s, Run step (boot 0 [1] some) tr s ∧
    Guarded (fun s e => disciplined s e) tr ∧
    tr.map Prod.snd =
      [.call (.rwEnter .writer 0), .call (.rwDowngrade 0), .call (.rwExit 0)] ∧
    (tr.map fun p => rwHeld .reader 0 p.1) = [false, false, false] ∧
    s.readers 0 = [] ∧ s.writers 0 = [] ∧ s.rw 0 = ⟨-1, none⟩ := by
  obtain ⟨tr, s, hr, hp⟩ := exists_run (f := step) (s := boot 0 [1] some)
    [.call (.rwEnter .writer 0), .call (.rwDowngrade 0), .call (.rwExit 0)]
    (p := fun tr s => Guarded (fun s e => disciplined s e) tr ∧
      tr.map Prod.snd =
        [.call (.rwEnter .writer 0), .call (.rwDowngrade 0), .call (.rwExit 0)] ∧
      (tr.map fun p => rwHeld .reader 0 p.1) = [false, false, false] ∧
      s.readers 0 = [] ∧ s.writers 0 = [] ∧ s.rw 0 = ⟨-1, none⟩) (by decide)
  rw [decide_eq_true_eq] at hp
  exact ⟨tr, s, hr, hp⟩

end Frankenlibc.Threads.Convert

import Frankenlibc.Rumpuser.File

/-!
# What `rumpuser_bio` reports

A request is complete when its callback has been called, once, with the number
of bytes moved and an error. `rumpuser_bio` rejects a descriptor without
returning, so that such a request is completed twice; and it decides by a
global `errno` that nobody resets whether a synchronous request is synced, so
that one failure anywhere switches syncing off for good.
-/
namespace Frankenlibc.Rumpuser

open Frankenlibc.Lib Frankenlibc.Init

/-! ## System calls -/

theorem syscall_done {h : Host} {c : Sys} {n : Fin 9223372036854775808} (ho : h c = .done n)
    (w : World) :
    syscall h c w = (((n.val : Nat) : Int), { w with acts := w.acts ++ [.sys c (.done n)] }) := by
  have hn := n.isLt
  rw [syscall, ho, Outcome.raw, syscallRet, if_neg (by omega), i64_of_range (by omega) (by omega)]

theorem syscall_failed {h : Host} {c : Sys} {e : Errno} (ho : h c = .failed e) (w : World) :
    syscall h c w = (-1, ⟨e.val, w.acts ++ [.sys c (.failed e)]⟩) := by
  have hp := e.pos
  have hl := e.lt
  have he : 18446744073709551616 - (18446744073709551616 - e.val) = e.val := by omega
  rw [syscall, ho, Outcome.raw, syscallRet, if_pos (by omega), he]

/-! ## The two halves of a request -/

/-- The system call that moves the data. -/
def Bio.transfer (b : Bio) : Sys :=
  if b.read then .pread b.fd b.dlen b.doff else .pwrite b.fd b.dlen b.doff

/-- A write to a descriptor opened for reading. -/
def refused (t : Int → Fdtable) (b : Bio) : Bool := !b.read && isRdonly (t b.fd)

/-- The ways through `bioTransfer`. -/
inductive Moved (t : Int → Fdtable) (h : Host) (b : Bio) (w : World) : Int × Int × World → Prop
  | refused (hr : refused t b = true) : Moved t h b w (EBADF, 0, w)
  | done {n : Fin 9223372036854775808} (hr : Rumpuser.refused t b = false)
      (ho : h b.transfer = .done n) :
      Moved t h b w ((n.val : Nat), 0, { w with acts := w.acts ++ [.sys b.transfer (.done n)] })
  | failed {e : Errno} (hr : Rumpuser.refused t b = false) (ho : h b.transfer = .failed e) :
      Moved t h b w (0, e.val, ⟨e.val, w.acts ++ [.sys b.transfer (.failed e)]⟩)

theorem bioTransfer_moved (t : Int → Fdtable) (h : Host) (b : Bio) (w : World) :
    Moved t h b w (bioTransfer t h b w) := by
  cases hr : refused t b with
  | true =>
    have hcall : bioTransfer t h b w = (EBADF, 0, w) := by
      simp only [refused, Bool.and_eq_true, Bool.not_eq_true'] at hr
      simp [bioTransfer, pwrite, caught, hr.1, hr.2]
    rw [hcall]
    exact .refused hr
  | false =>
    have hcall : bioTransfer t h b w =
        caught (syscall h b.transfer w) (syscall h b.transfer w).1 0 := by
      cases hread : b.read with
      | true => simp [bioTransfer, pread, Bio.transfer, hread]
      | false =>
        have hrd : isRdonly (t b.fd) = false := by simpa [refused, hread] using hr
        simp [bioTransfer, pwrite, Bio.transfer, hread, hrd]
    rw [hcall]
    cases ho : h b.transfer with
    | done n =>
      rw [syscall_done ho, caught, if_neg (by omega)]
      exact .done hr ho
    | failed e =>
      rw [syscall_failed ho]
      exact .failed hr ho

/-- The ways through `bioSync`. -/
inductive Synced (h : Host) (b : Bio) (n err : Int) (w : World) : Int × Int × World → Prop
  | skipped (hc : ¬ (w.errno = 0 ∧ b.sync = true)) : Synced h b n err w (n, err, w)
  | done {k : Fin 9223372036854775808} (hc : w.errno = 0 ∧ b.sync = true)
      (ho : h (.fsync b.fd) = .done k) :
      Synced h b n err w (n, err, { w with acts := w.acts ++ [.sys (.fsync b.fd) (.done k)] })
  | failed {e : Errno} (hc : w.errno = 0 ∧ b.sync = true) (ho : h (.fsync b.fd) = .failed e) :
      Synced h b n err w (0, e.val, ⟨e.val, w.acts ++ [.sys (.fsync b.fd) (.failed e)]⟩)

theorem bioSync_synced (h : Host) (b : Bio) (n err : Int) (w : World) :
    Synced h b n err w (bioSync h b n err w) := by
  by_cases hc : w.errno = 0 ∧ b.sync = true
  · rw [bioSync, if_pos hc, fsync]
    cases ho : h (.fsync b.fd) with
    | done k =>
      rw [syscall_done ho, caught, if_neg (by omega)]
      exact .done hc ho
    | failed e =>
      rw [syscall_failed ho]
      exact .failed hc ho
  · rw [bioSync, if_neg hc]
    exact .skipped hc

/-! ## Exactly one completion -/

def Action.isDone : Action → Bool
  | .biodone _ _ => true
  | .sys _ _ => false

/-- A completion that rejects the descriptor. -/
def Action.rejects : Action → Bool
  | .biodone _ err => err = EBADF
  | .sys _ _ => false

/-- A request calls back exactly once, makes no system call once it has
reported `EBADF`, and none at all on a descriptor it does not accept. -/
structure Once (t : Int → Fdtable) (h : Host) (b : Bio) (errno : Int) : Prop where
  once : (rumpuserBio t h b ⟨errno, []⟩).acts.countP Action.isDone = 1
  after : (rumpuserBio t h b ⟨errno, []⟩).acts.Pairwise
    fun a c => a.rejects = true → c.isDone = true
  untouched : usable (t b.fd) = false →
    ∀ a ∈ (rumpuserBio t h b ⟨errno, []⟩).acts, a.isDone = true

theorem Moved.acts {t : Int → Fdtable} {h : Host} {b : Bio} {w : World} {r : Int × Int × World}
    (hm : Moved t h b w r) : ∃ io, r.2.2.acts = w.acts ++ io ∧ ∀ a ∈ io, a.isDone = false := by
  cases hm with
  | refused => exact ⟨[], by simp, by simp⟩
  | done => exact ⟨_, rfl, by simp [Action.isDone]⟩
  | failed => exact ⟨_, rfl, by simp [Action.isDone]⟩

theorem Synced.acts {h : Host} {b : Bio} {n err : Int} {w : World} {r : Int × Int × World}
    (hs : Synced h b n err w r) : ∃ io, r.2.2.acts = w.acts ++ io ∧ ∀ a ∈ io, a.isDone = false := by
  cases hs with
  | skipped => exact ⟨[], by simp, by simp⟩
  | done => exact ⟨_, rfl, by simp [Action.isDone]⟩
  | failed => exact ⟨_, rfl, by simp [Action.isDone]⟩

/-- The two halves of a request, and its end. -/
theorem bio_halves (t : Int → Fdtable) (h : Host) (b : Bio) (w : World) :
    ∃ m q, Moved t h b (bioCheck t b w) m ∧ Synced h b m.1 m.2.1 m.2.2 q ∧
      rumpuserBio t h b w = q.2.2.biodone q.1 q.2.1 :=
  ⟨_, _, bioTransfer_moved t h b _, bioSync_synced h b _ _ _, rfl⟩

/-- A request is its check, its system calls and a completion. -/
theorem bio_shape (t : Int → Fdtable) (h : Host) (b : Bio) (errno : Int) :
    ∃ io n err, (rumpuserBio t h b ⟨errno, []⟩).acts =
        (bioCheck t b ⟨errno, []⟩).acts ++ io ++ [.biodone n err] ∧
      ∀ a ∈ io, a.isDone = false := by
  obtain ⟨m, q, hm, hs, hbio⟩ := bio_halves t h b ⟨errno, []⟩
  obtain ⟨io, hio, hq⟩ := hm.acts
  obtain ⟨io', hio', hq'⟩ := hs.acts
  refine ⟨io ++ io', toSize q.1, q.2.1, ?_, ?_⟩
  · rw [hbio, World.biodone, hio', hio, List.append_assoc _ io]
  · intro a ha
    rcases List.mem_append.mp ha with ha | ha
    · exact hq a ha
    · exact hq' a ha

theorem countP_io {io : List Action} (hq : ∀ a ∈ io, a.isDone = false) :
    io.countP Action.isDone = 0 := by
  rw [List.countP_eq_zero]
  intro a ha
  rw [hq a ha]
  exact Bool.false_ne_true

/-- Over all descriptors, requests and outcomes: a request is completed exactly
once, and spares what it rejects, just if it rejects nothing. -/
theorem bio_once_iff (t : Int → Fdtable) (h : Host) (b : Bio) (errno : Int) :
    Once t h b errno ↔ usable (t b.fd) = true := by
  obtain ⟨io, n, err, hacts, hq⟩ := bio_shape t h b errno
  constructor
  · intro honce
    by_contra hu
    have hc : (bioCheck t b ⟨errno, []⟩).acts = [.biodone 0 EBADF] := by
      rw [bioCheck, if_neg hu]
      rfl
    have htwo := honce.once
    rw [hacts, hc, List.countP_append, List.countP_append, countP_io hq] at htwo
    simp [Action.isDone] at htwo
  · intro hu
    have hc : (bioCheck t b ⟨errno, []⟩).acts = [] := by rw [bioCheck, if_pos hu]
    rw [hc, List.nil_append] at hacts
    constructor
    · rw [hacts, List.countP_append, countP_io hq]
      rfl
    · rw [hacts, List.pairwise_append]
      refine ⟨?_, List.pairwise_singleton _ _, fun a _ c hc _ => ?_⟩
      · -- a system call rejects nothing
        refine List.pairwise_of_forall_mem_list fun a ha c _ hr => ?_
        cases a with
        | sys => cases hr
        | biodone => exact absurd (hq _ ha) (by simp [Action.isDone])
      · rw [List.mem_singleton.mp hc]
        rfl
    · intro hn
      rw [hu] at hn
      cases hn

/-- A read of a descriptor that is not open is completed with `EBADF`, then
done, then completed again. -/
theorem bio_twice :
    (rumpuserBio (fun _ => ⟨false, 2, false, .zero, false⟩) (fun _ => .done 512)
        ⟨5, 1, 512, 0⟩ ⟨0, []⟩).acts =
      [.biodone 0 EBADF, .sys (.pread 5 512 0) (.done 512), .biodone 512 0] ∧
    ¬ Once (fun _ => ⟨false, 2, false, .zero, false⟩) (fun _ => .done 512) ⟨5, 1, 512, 0⟩ 0 := by
  refine ⟨by decide, fun h => ?_⟩
  exact absurd h.once (by decide)

/-! ## Truthful completions -/

/-- Bytes the host has moved. -/
def Action.bytes : Action → Nat
  | .sys (.pread _ _ _) (.done n) => n
  | .sys (.pwrite _ _ _) (.done n) => n
  | _ => 0

def Action.moves : Action → Bool
  | .sys (.pread _ _ _) _ => true
  | .sys (.pwrite _ _ _) _ => true
  | _ => false

/-- The descriptor was synced, and nothing was moved after that. -/
def SyncedAfter (fd : Int) (acts : List Action) : Prop :=
  ∃ pre post k, acts = pre ++ .sys (.fsync fd) (.done k) :: post ∧ ∀ a ∈ post, a.moves = false

/-- What a completion may say: no error only for the bytes that were moved, and
synced if that was asked for; and an error for a write that is not allowed. -/
def Truthful (t : Int → Fdtable) (h : Host) (b : Bio) (errno : Int) : Prop :=
  ∀ n err, Action.biodone n err ∈ (rumpuserBio t h b ⟨errno, []⟩).acts →
    (err = 0 → n = ((rumpuserBio t h b ⟨errno, []⟩).acts.map Action.bytes).sum ∧
      (b.sync = true → SyncedAfter b.fd (rumpuserBio t h b ⟨errno, []⟩).acts)) ∧
    (refused t b = true → err ≠ 0 ∧ n = 0)

/-- The requests that are reported truthfully, by the `errno` they find and by
what the host will answer. -/
def Honest (t : Int → Fdtable) (h : Host) (b : Bio) (errno : Int) : Prop :=
  if refused t b then b.sync = true ∧ errno = 0 ∧ ∃ e, h (.fsync b.fd) = .failed e
  else ¬ (b.sync = true ∧ errno ≠ 0 ∧ ∃ n, h b.transfer = .done n)

/-- The world a request on a good descriptor leaves. -/
theorem bio_usable {t : Int → Fdtable} {b : Bio} (hu : usable (t b.fd) = true) (h : Host)
    (errno : Int) :
    ∃ m q, Moved t h b ⟨errno, []⟩ m ∧ Synced h b m.1 m.2.1 m.2.2 q ∧
      rumpuserBio t h b ⟨errno, []⟩ = q.2.2.biodone q.1 q.2.1 := by
  have hh := bio_halves t h b ⟨errno, []⟩
  rwa [bioCheck, if_pos hu] at hh

theorem toSize_count (n : Fin 9223372036854775808) : toSize ((n.val : Nat) : Int) = n.val := by
  have hn := n.isLt
  unfold toSize
  omega

/-- One completion at the end of the actions: what it takes to be truthful. -/
theorem truthful_iff {t : Int → Fdtable} {h : Host} {b : Bio} {errno : Int} {io : List Action}
    {n : Nat} {err : Int}
    (hacts : (rumpuserBio t h b ⟨errno, []⟩).acts = io ++ [.biodone n err])
    (hq : ∀ a ∈ io, a.isDone = false) :
    Truthful t h b errno ↔
      (err = 0 → n = (io.map Action.bytes).sum ∧ (b.sync = true → SyncedAfter b.fd io)) ∧
        (refused t b = true → err ≠ 0 ∧ n = 0) := by
  have hmem : ∀ m e, Action.biodone m e ∈ io ++ [.biodone n err] ↔ m = n ∧ e = err := by
    intro m e
    rw [List.mem_append, List.mem_singleton, Action.biodone.injEq, or_iff_right]
    intro hin
    exact absurd (hq _ hin) (by simp [Action.isDone])
  have hsum : ((io ++ [Action.biodone n err]).map Action.bytes).sum =
      (io.map Action.bytes).sum := by
    simp [Action.bytes]
  have hsync : SyncedAfter b.fd (io ++ [.biodone n err]) ↔ SyncedAfter b.fd io := by
    constructor
    · rintro ⟨pre, post, k, he, hpost⟩
      rcases List.eq_nil_or_concat post with rfl | ⟨post, a, rfl⟩
      · have := (List.append_inj' he rfl).2
        cases this
      · rw [List.concat_eq_append, ← List.cons_append, ← List.append_assoc] at he
        exact ⟨pre, post, k, (List.append_inj' he rfl).1,
          fun c hc => hpost c (by simp [hc])⟩
    · rintro ⟨pre, post, k, rfl, hpost⟩
      refine ⟨pre, post ++ [.biodone n err], k, by simp, fun c hc => ?_⟩
      rcases List.mem_append.mp hc with hc | hc
      · exact hpost c hc
      · rw [List.mem_singleton.mp hc]
        rfl
  unfold Truthful
  rw [hacts, hsum, hsync]
  constructor
  · intro hall
    exact hall n err ((hmem n err).mpr ⟨rfl, rfl⟩)
  · rintro hall m e hin
    obtain ⟨rfl, rfl⟩ := (hmem m e).mp hin
    exact hall

theorem transfer_bytes (b : Bio) (n : Fin 9223372036854775808) :
    (Action.sys b.transfer (.done n)).bytes = n.val := by
  unfold Bio.transfer
  split <;> rfl

theorem fsync_bytes (fd : Int) (o : Outcome) : (Action.sys (.fsync fd) o).bytes = 0 := rfl

theorem transfer_ne_fsync (b : Bio) (fd : Int) : b.transfer ≠ .fsync fd := by
  unfold Bio.transfer
  split <;> simp

theorem not_syncedAfter_transfer (b : Bio) (o : Outcome) :
    ¬ SyncedAfter b.fd [.sys b.transfer o] := by
  rintro ⟨pre, post, k, he, _⟩
  have hin : Action.sys (.fsync b.fd) (.done k) ∈ [Action.sys b.transfer o] := by
    rw [he]
    simp
  rw [List.mem_singleton, Action.sys.injEq] at hin
  exact transfer_ne_fsync b b.fd hin.1.symm

/-- On every block device in use, whatever `errno` earlier operations have left
and whatever the host answers: a request is reported truthfully exactly if it
is an honest one. -/
theorem bio_truthful_iff {t : Int → Fdtable} {b : Bio} (hu : usable (t b.fd) = true) (h : Host)
    (errno : Int) : Truthful t h b errno ↔ Honest t h b errno := by
  obtain ⟨m, q, hm, hs, hbio⟩ := bio_usable hu h errno
  have herr : ∀ e : Errno, ((e.val : Nat) : Int) ≠ 0 := fun e => by have := e.pos; omega
  cases hm with
  | refused hr =>
    rw [Honest, if_pos hr]
    cases hs with
    | skipped hc =>
      have hacts : (rumpuserBio t h b ⟨errno, []⟩).acts = [] ++ [.biodone 9 0] :=
        congrArg World.acts hbio
      rw [truthful_iff hacts (by simp)]
      refine iff_of_false (fun ht => (ht.2 hr).1 rfl) ?_
      rintro ⟨hsync, h0, _⟩
      exact hc ⟨h0, hsync⟩
    | done hc ho =>
      rw [truthful_iff (congrArg World.acts hbio) (by simp [Action.isDone])]
      refine iff_of_false (fun ht => (ht.2 hr).1 rfl) ?_
      rintro ⟨_, _, e, he⟩
      rw [ho] at he
      cases he
    | @failed e hc ho =>
      rw [truthful_iff (congrArg World.acts hbio) (by simp [Action.isDone])]
      exact iff_of_true ⟨fun h0 => absurd h0 (herr e), fun _ => ⟨herr e, rfl⟩⟩
        ⟨hc.2, hc.1, e, ho⟩
  | @done n hr hn =>
    have hnot : ¬ refused t b = true := by rw [hr]; exact Bool.false_ne_true
    rw [Honest, if_neg hnot]
    cases hs with
    | skipped hc =>
      rw [truthful_iff (congrArg World.acts hbio) (by simp [Action.isDone])]
      constructor
      · rintro ⟨hok, _⟩ ⟨hsync, _, _⟩
        exact not_syncedAfter_transfer b _ ((hok rfl).2 hsync)
      · intro hhonest
        have hns : ¬ b.sync = true := fun hsync =>
          hhonest ⟨hsync, fun h0 => hc ⟨h0, hsync⟩, n, hn⟩
        refine ⟨fun _ => ⟨?_, fun hsync => absurd hsync hns⟩, fun hr' => absurd hr' hnot⟩
        simp [transfer_bytes, toSize_count]
    | @done k hc ho =>
      rw [truthful_iff (congrArg World.acts hbio) (by simp [Action.isDone])]
      refine iff_of_true ⟨fun _ => ⟨?_, fun _ => ?_⟩, fun hr' => absurd hr' hnot⟩
        (fun hbad => hbad.2.1 hc.1)
      · simp [transfer_bytes, toSize_count, fsync_bytes]
      · exact ⟨[.sys b.transfer (.done n)], [], k, rfl, by simp⟩
    | @failed e hc ho =>
      rw [truthful_iff (congrArg World.acts hbio) (by simp [Action.isDone])]
      exact iff_of_true ⟨fun h0 => absurd h0 (herr e), fun hr' => absurd hr' hnot⟩
        (fun hbad => hbad.2.1 hc.1)
  | @failed e hr hn =>
    have hnot : ¬ refused t b = true := by rw [hr]; exact Bool.false_ne_true
    rw [Honest, if_neg hnot]
    cases hs with
    | skipped hc =>
      rw [truthful_iff (congrArg World.acts hbio) (by simp [Action.isDone])]
      refine iff_of_true ⟨fun h0 => absurd h0 (herr e), fun hr' => absurd hr' hnot⟩ ?_
      rintro ⟨_, _, k, hk⟩
      rw [hn] at hk
      cases hk
    | done hc _ => exact absurd hc.1 (herr e)
    | failed hc _ => exact absurd hc.1 (herr e)

/-- A disk that every descriptor leads to, opened with the given flags. -/
def disk (flags : Int) : Int → Fdtable := fun _ => ⟨true, flags, true, ⟨.blk, 0⟩, false⟩

theorem bio_truthful_disk :
    Truthful (disk 2) (fun _ => .done 512) ⟨4, 6, 512, 0⟩ 0 ↔
      Honest (disk 2) (fun _ => .done 512) ⟨4, 6, 512, 0⟩ 0 :=
  bio_truthful_iff (by decide) _ _

/-- A failed sync of one descriptor leaves `EIO` in `errno`, and the next
synchronous write is reported done without a sync. A write to a disk opened for
reading is reported done with 9 bytes. -/
theorem bio_untruthful :
    step (disk 2) 0 (.syncfd 3, fun _ => .failed ⟨5, by decide, by decide⟩) = some 5 ∧
      (rumpuserBio (disk 2) (fun _ => .done 512) ⟨4, 6, 512, 0⟩ ⟨5, []⟩).acts =
        [.sys (.pwrite 4 512 0) (.done 512), .biodone 512 0] ∧
      ¬ Truthful (disk 2) (fun _ => .done 512) ⟨4, 6, 512, 0⟩ 5 ∧
      (rumpuserBio (disk 0) (fun _ => .done 512) ⟨4, 2, 512, 0⟩ ⟨0, []⟩).acts =
        [.biodone 9 0] ∧
      ¬ Truthful (disk 0) (fun _ => .done 512) ⟨4, 2, 512, 0⟩ 0 := by
  refine ⟨by decide, by decide, fun h => ?_, by decide, fun h => ?_⟩
  · obtain ⟨_, hs⟩ := (h 512 0 (by decide)).1 rfl
    obtain ⟨pre, post, k, he, _⟩ := hs (by decide)
    have hin : Action.sys (.fsync 4) (.done k) ∈
        [.sys (.pwrite 4 512 0) (.done 512), .biodone 512 0] := by
      rw [show [Action.sys (.pwrite 4 512 0) (.done 512), .biodone 512 0] = _ from he]
      simp
    simp at hin
  · exact ((h 9 0 (by decide)).2 (by decide)).1 rfl

/-! ## One failure switches syncing off -/

theorem syscall_sticky (h : Host) (c : Sys) {w : World} (hw : w.errno ≠ 0) :
    (syscall h c w).2.errno ≠ 0 := by
  cases ho : h c with
  | done n =>
    rw [syscall_done ho]
    exact hw
  | failed e =>
    rw [syscall_failed ho]
    have := e.pos
    show (e.val : Int) ≠ 0
    omega

theorem vectored_sticky {known : List (Int × Int)} (hk : ∀ p ∈ known, p.2 ≠ 0) (h : Host) (c : Sys)
    {w : World} (hw : w.errno ≠ 0) : (vectored known h c w).2.errno ≠ 0 := by
  unfold vectored
  dsimp only
  split
  · show (known.lookup (syscall h c w).2.errno).getD EBADF ≠ 0
    cases hl : known.lookup (syscall h c w).2.errno with
    | none => decide
    | some e =>
      obtain ⟨l, r, he, _⟩ := List.lookup_eq_some_iff.mp hl
      exact hk ((syscall h c w).2.errno, e) (by rw [he]; simp)
  · exact syscall_sticky h c hw

theorem result_world (p : Int × World) : (result p).2.2 = p.2 := by
  unfold result
  split <;> rfl

theorem Moved.sticky {t : Int → Fdtable} {h : Host} {b : Bio} {w : World} {r : Int × Int × World}
    (hm : Moved t h b w r) (hw : w.errno ≠ 0) : r.2.2.errno ≠ 0 := by
  cases hm with
  | refused => exact hw
  | done => exact hw
  | @failed e =>
    have := e.pos
    show (e.val : Int) ≠ 0
    omega

theorem bioCheck_errno (t : Int → Fdtable) (b : Bio) (w : World) :
    (bioCheck t b w).errno = w.errno := by
  unfold bioCheck
  split <;> rfl

/-- A request that finds an error makes no `fsync`, and leaves an error. -/
theorem bio_sticky (t : Int → Fdtable) (h : Host) (b : Bio) {errno : Int} (he : errno ≠ 0) :
    (rumpuserBio t h b ⟨errno, []⟩).errno ≠ 0 ∧
      ∀ fd o, Action.sys (.fsync fd) o ∉ (rumpuserBio t h b ⟨errno, []⟩).acts := by
  obtain ⟨m, q, hm, hs, hbio⟩ := bio_halves t h b ⟨errno, []⟩
  have hmid : m.2.2.errno ≠ 0 := hm.sticky (by rwa [bioCheck_errno])
  have hacts : ∀ fd o, Action.sys (.fsync fd) o ∉ m.2.2.acts := by
    intro fd o
    have hcheck : Action.sys (.fsync fd) o ∉ (bioCheck t b ⟨errno, []⟩).acts := by
      unfold bioCheck
      split <;> simp [World.biodone]
    have hne := transfer_ne_fsync b fd
    cases hm with
    | refused => exact hcheck
    | done => simpa [hcheck] using fun he _ => hne he.symm
    | failed => simpa [hcheck] using fun he _ => hne he.symm
  cases hs with
  | skipped =>
    rw [hbio]
    refine ⟨hmid, fun fd o hin => ?_⟩
    rcases List.mem_append.mp hin with hin | hin
    · exact hacts fd o hin
    · simp at hin
  | done hc => exact absurd hc.1 hmid
  | failed hc => exact absurd hc.1 hmid

theorem perform_sticky (t : Int → Fdtable) (h : Host) (c : Hypercall) {errno : Int}
    (he : errno ≠ 0) : (perform t h errno c).errno ≠ 0 := by
  have hv : ∀ (known : List (Int × Int)) (sys : Sys), (∀ p ∈ known, p.2 ≠ 0) →
      (result (vectored known h sys ⟨errno, []⟩)).2.2.errno ≠ 0 := by
    intro known sys hk
    rw [result_world]
    exact vectored_sticky hk h sys he
  cases c with
  | iovread fd iovlen roff =>
    simp only [perform, rumpuserIovread]
    split
    · exact hv _ _ (by decide)
    · exact hv _ _ (by decide)
  | iovwrite fd iovlen roff =>
    simp only [perform, rumpuserIovwrite]
    split
    · exact hv _ _ (by decide)
    · exact hv _ _ (by decide)
  | syncfd fd =>
    simp only [perform, rumpuserSyncfd, result_world]
    exact syscall_sticky h _ he
  | bio b => exact (bio_sticky t h b he).1

/-- Once any operation has failed, no later request of any history is synced. -/
theorem run_unsynced {t : Int → Fdtable} {errno errno' : Int}
    {tr : List (Int × Hypercall × Host)} (hr : Run (step t) errno tr errno') (he : errno ≠ 0) :
    errno' ≠ 0 ∧ ∀ p ∈ tr, ∀ b, p.2.1 = .bio b →
      ∀ fd o, Action.sys (.fsync fd) o ∉ (perform t p.2.2 p.1 p.2.1).acts := by
  have hstep : ∀ s e s', s ≠ 0 → step t s e = some s' → s' ≠ 0 := by
    intro s e s' hs hstep
    cases hstep
    exact perform_sticky t e.2 e.1 hs
  refine ⟨Run.always (I := (· ≠ 0)) he hstep hr, fun p hp b hb => ?_⟩
  obtain ⟨l, hl, _⟩ := hr.reaches_mem hp
  rw [hb]
  exact (bio_sticky t p.2.2 b (Run.always (I := (· ≠ 0)) he hstep hl)).2

end Frankenlibc.Rumpuser

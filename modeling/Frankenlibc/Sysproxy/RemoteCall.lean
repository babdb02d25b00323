import Frankenlibc.Sysproxy.RemoteSim

/-!
# A remote system call is a local one

The simulation over whole runs, and that neither party ever waits for a message
that nobody will send: a system call that a thread waits for is always in
somebody's care.
-/
namespace Frankenlibc.Sysproxy.Remote

open Frankenlibc.Lib

variable {κ : Type} {K : Kernel κ} {os : Os} {n n' : Net κ} {a : Local κ}

/-! ## Waiters -/

section Keys

variable {α : Type} {c c' : Nat} {x : α} {ws : List (Nat × Option α)}

theorem given_give (h : c ∈ ws.map Prod.fst) : given c (give c x ws) = some x := by
  induction ws with
  | nil => cases h
  | cons w ws ih =>
    rw [give]
    split
    · rename_i hw
      simp [given, hw]
    · rename_i hw
      rw [given, List.find?_cons_of_neg (by simpa using hw)]
      exact ih ((List.mem_cons.mp h).resolve_left fun heq => hw heq.symm)

theorem given_give_other (h : c ≠ c') : given c (give c' x ws) = given c ws := by
  induction ws with
  | nil => rfl
  | cons w ws ih =>
    rw [give]
    split
    · rename_i hw
      have hne : ¬ w.1 = c := fun heq => h (heq.symm.trans hw)
      rw [given, given, List.find?_cons_of_neg (by simpa using hne),
        List.find?_cons_of_neg (by simpa using hne)]
    · by_cases hw : w.1 = c
      · simp [given, hw]
      · rw [given, given, List.find?_cons_of_neg (by simpa using hw),
          List.find?_cons_of_neg (by simpa using hw)]
        exact ih

theorem keys_give (c' : Nat) (x : α) (ws : List (Nat × Option α)) :
    (give c' x ws).map Prod.fst = ws.map Prod.fst := by
  induction ws with
  | nil => rfl
  | cons w ws ih =>
    rw [give]
    split
    · rfl
    · rw [List.map_cons, ih, List.map_cons]

theorem given_append (h : c ∈ ws.map Prod.fst) (l : List (Nat × Option α)) :
    given c (ws ++ l) = given c ws := by
  induction ws with
  | nil => cases h
  | cons w ws ih =>
    by_cases hw : w.1 = c
    · simp [given, hw]
    · rw [List.cons_append, given, given, List.find?_cons_of_neg (by simpa using hw),
        List.find?_cons_of_neg (by simpa using hw)]
      exact ih ((List.mem_cons.mp h).resolve_left fun heq => hw heq.symm)

/-- Another waiter leaves. -/
theorem given_erase (h : c ≠ c') :
    given c (ws.eraseP fun w => w.1 = c') = given c ws ∧
      (c ∈ ws.map Prod.fst → c ∈ (ws.eraseP fun w => w.1 = c').map Prod.fst) := by
  induction ws with
  | nil => exact ⟨rfl, id⟩
  | cons w ws ih =>
    by_cases hw : w.1 = c'
    · have hne : ¬ w.1 = c := fun heq => h (heq.symm.trans hw)
      rw [List.eraseP_cons_of_pos (by simpa using hw)]
      refine ⟨?_, fun hm => (List.mem_cons.mp hm).resolve_left fun heq => hne heq.symm⟩
      rw [given, given, List.find?_cons_of_neg (by simpa using hne)]
    · rw [List.eraseP_cons_of_neg (by simpa using hw)]
      refine ⟨?_, fun hm => ?_⟩
      · by_cases hc : w.1 = c
        · simp [given, hc]
        · rw [given, given, List.find?_cons_of_neg (by simpa using hc),
            List.find?_cons_of_neg (by simpa using hc)]
          exact ih.1
      · rcases List.mem_cons.mp hm with hm | hm
        · exact List.mem_cons.mpr (.inl hm)
        · exact List.mem_cons_of_mem _ (ih.2 hm)

end Keys

/-! ## Who has to move -/

/-- Where a system call that has not returned is. -/
inductive Net.InCare (n : Net κ) (c : Nat) : Prop
  | told (h : given c n.cwait ≠ none)
  | sent (h : c ∈ n.calls.map Prod.fst)
  | running (h : n.job c = .running)
  | waiting {reqno : Nat} {b : Ask} (h : n.job c = .waiting reqno b)
  | back {error pad : Nat} {retval : Nat × Nat} (h : .ret c error pad retval ∈ n.down)

structure Live (os : Os) (n : Net κ) : Prop where
  listed : ∀ t c, n.thread t = some c → c < n.cnext ∧ c ∈ n.cwait.map Prod.fst
  cared : ∀ t c, n.thread t = some c → n.InCare c
  single : ∀ t t' c, n.thread t = some c → n.thread t' = some c → t = t'
  expecting : ∀ c reqno b, n.job c = .waiting reqno b →
    reqno < n.snext ∧ reqno ∈ n.swait.map Prod.fst ∧
      (given reqno n.swait ≠ none ∨ ∃ y, (reqno, y) ∈ n.replies os)
  distinct : ∀ c c' reqno b b', n.job c = .waiting reqno b → n.job c' = .waiting reqno b' → c = c'

/-- A system call stays where it is. -/
theorem Net.InCare.stays {c : Nat} (h : n.InCare c) (hw : given c n'.cwait = given c n.cwait)
    (hcalls : c ∈ n.calls.map Prod.fst → c ∈ n'.calls.map Prod.fst) (hjob : n'.job c = n.job c)
    (hdown : n.down ⊆ n'.down) : n'.InCare c := by
  cases h with
  | told h => exact .told (by rw [hw]; exact h)
  | sent h => exact .sent (hcalls h)
  | running h => exact .running (hjob.trans h)
  | waiting h => exact .waiting (hjob.trans h)
  | back h => exact .back (hdown h)

/-- One system call moves on, to where it is cared for again. -/
theorem Net.InCare.moves {c c₀ : Nat} {j : Job} (h : n.InCare c) (hw : n'.cwait = n.cwait)
    (hcalls : n'.calls = n.calls) (hdown : n.down ⊆ n'.down)
    (hjob : n'.job = Function.update n.job c₀ j) (h₀ : n'.InCare c₀) : n'.InCare c := by
  by_cases hc : c = c₀
  · rw [hc]
    exact h₀
  · apply h.stays
    · rw [hw]
    · rw [hcalls]
      exact id
    · rw [hjob, Function.update_of_ne hc]
    · exact hdown

theorem live_call (h : Live os n) {t : Nat} {sysnum : UInt32} {data : List UInt8}
    {hd : HDRSZ + data.length < 18446744073709551616} : Live os (n.call t sysnum data hd) := by
  have hcalls := calls_call n t sysnum data hd
  have hold {t' c : Nat} (hne : t' ≠ t) (hc : Function.update n.thread t (some n.cnext) t' = some c) :
      n.thread t' = some c := by rwa [Function.update_of_ne hne] at hc
  have hnew {c : Nat} (hc : Function.update n.thread t (some n.cnext) t = some c) : c = n.cnext := by
    rw [Function.update_self] at hc
    exact (Option.some.inj hc).symm
  refine { listed := ?_, cared := ?_, single := ?_, expecting := ?_, distinct := h.distinct }
  · intro t' c hc
    show c < n.cnext + 1 ∧ c ∈ (n.cwait ++ [(n.cnext, none)]).map Prod.fst
    rw [List.map_append]
    by_cases ht : t' = t
    · subst ht
      rw [hnew hc]
      exact ⟨Nat.lt_succ_self _, List.mem_append_right _ List.mem_cons_self⟩
    · obtain ⟨hlt, hmem⟩ := h.listed t' c (hold ht hc)
      exact ⟨Nat.lt_succ_of_lt hlt, List.mem_append_left _ hmem⟩
  · intro t' c hc
    by_cases ht : t' = t
    · subst ht
      rw [hnew hc]
      exact .sent (by rw [hcalls]; simp)
    · have hsame : given c (n.call t sysnum data hd).cwait = given c n.cwait :=
        given_append (h.listed t' c (hold ht hc)).2 _
      refine (h.cared t' c (hold ht hc)).stays hsame ?_ rfl (List.Subset.refl _)
      rw [hcalls, List.map_append]
      exact List.mem_append_left _
  · intro t₁ t₂ c h₁ h₂
    by_cases ht₁ : t₁ = t
    · by_cases ht₂ : t₂ = t
      · exact ht₁.trans ht₂.symm
      · subst ht₁
        have hlt := (h.listed t₂ c (hold ht₂ h₂)).1
        rw [hnew h₁] at hlt
        exact absurd hlt (Nat.lt_irrefl _)
    · by_cases ht₂ : t₂ = t
      · subst ht₂
        have hlt := (h.listed t₁ c (hold ht₁ h₁)).1
        rw [hnew h₂] at hlt
        exact absurd hlt (Nat.lt_irrefl _)
      · exact h.single t₁ t₂ c (hold ht₁ h₁) (hold ht₂ h₂)
  · intro c reqno b hj
    rw [replies_call]
    exact h.expecting c reqno b hj

theorem live_take (h : Live os n) {m : Downward} {ms : List Downward} (hm : n.down = m :: ms) :
    Live os (n.take os m ms) := by
  have hcalls := @calls_take κ os n m ms
  have hreplies := @replies_take κ os n m ms hm
  cases m with
  | ask c₀ reqno₀ junk b₀ =>
    refine { h with cared := ?_, expecting := ?_ }
    · intro t c hc
      cases h.cared t c hc with
      | told hg => exact .told hg
      | sent hs => exact .sent (by rw [hcalls]; exact hs)
      | running hj => exact .running hj
      | waiting hj => exact .waiting hj
      | back hb =>
        rw [hm] at hb
        exact .back ((List.mem_cons.mp hb).resolve_left (by simp))
    · rw [hreplies]
      exact h.expecting
  | ret c₀ error pad retval =>
    refine { h with listed := ?_, cared := ?_, expecting := ?_ }
    · intro t c hc
      show c < n.cnext ∧ c ∈ (give c₀ (error, retval) n.cwait).map Prod.fst
      rw [keys_give]
      exact h.listed t c hc
    · intro t c hc
      by_cases hcc : c = c₀
      · subst hcc
        have hg : given c (give c (error, retval) n.cwait) = some (error, retval) :=
          given_give (h.listed t c hc).2
        exact .told (by rw [show given c (n.take os (.ret c error pad retval) ms).cwait = _ from hg]
                        simp)
      · cases h.cared t c hc with
        | told hg =>
          have hsame : given c (give c₀ (error, retval) n.cwait) = given c n.cwait :=
            given_give_other hcc
          exact .told fun hnone => hg (hsame.symm.trans hnone)
        | sent hs => exact .sent (by rw [hcalls]; exact hs)
        | running hj => exact .running hj
        | waiting hj => exact .waiting hj
        | back hb =>
          rw [hm] at hb
          refine .back ((List.mem_cons.mp hb).resolve_left fun heq => ?_)
          cases heq
          exact hcc rfl
    · rw [hreplies]
      exact h.expecting

/-- A reply reaches the worker that waits for it. -/
theorem Live.gives (h : Live os n) {m : Upward} {ms : List Upward} (hm : n.up = m :: ms)
    {reqno₀ : Nat} {x : Answer} (hx : m.answer = some (reqno₀, x)) (hc : m.call = none) :
    Live os { n with up := ms, swait := give reqno₀ x n.swait } := by
  have hreplies : n.replies os =
      (reqno₀, x) :: ({ n with up := ms, swait := give reqno₀ x n.swait } : Net κ).replies os := by
    simp [Net.replies, hm, hx]
  have hcalls : ({ n with up := ms, swait := give reqno₀ x n.swait } : Net κ).calls = n.calls := by
    simp [Net.calls, hm, hc]
  refine { h with cared := ?_, expecting := ?_ }
  · intro t c hc
    exact (h.cared t c hc).stays rfl (by rw [hcalls]; exact id) rfl (List.Subset.refl _)
  · intro c reqno b hj
    obtain ⟨hlt, hkey, hdue⟩ := h.expecting c reqno b hj
    refine ⟨hlt, by rw [keys_give]; exact hkey, ?_⟩
    by_cases hr : reqno = reqno₀
    · subst hr
      refine .inl ?_
      rw [given_give hkey]
      simp
    · rcases hdue with hg | ⟨y, hy⟩
      · refine .inl ?_
        rw [given_give_other hr]
        exact hg
      · rw [hreplies] at hy
        refine .inr ⟨y, (List.mem_cons.mp hy).resolve_left fun heq => hr ?_⟩
        exact congrArg Prod.fst heq

theorem live_accept (h : Live os n) {m : Upward} {ms : List Upward} (hm : n.up = m :: ms) :
    Live os (n.accept m ms) := by
  cases m with
  | bytes reqno bs hbs => exact h.gives hm rfl rfl
  | addr reqno b => exact h.gives hm rfl rfl
  | request reqno sysnum data hd =>
    have hcalls := calls_accept hm
    have hreplies := @replies_accept κ os n reqno sysnum data hd ms hm
    refine { h with cared := ?_, expecting := by rw [hreplies]; exact h.expecting }
    intro t c hc
    exact (h.cared t c hc).stays rfl (by rw [hcalls]; exact id) rfl (List.Subset.refl _)

/-- A system call that is over or enters the kernel is not waiting. -/
theorem Live.settled (h : Live os n) {c₀ : Nat} {j : Job} (hj : ∀ reqno b, j ≠ .waiting reqno b) :
    (∀ c reqno b, Function.update n.job c₀ j c = .waiting reqno b → n.job c = .waiting reqno b) ∧
      ∀ c c' reqno b b', Function.update n.job c₀ j c = .waiting reqno b →
        Function.update n.job c₀ j c' = .waiting reqno b' → c = c' := by
  have hold (c reqno : Nat) (b : Ask) (hc : Function.update n.job c₀ j c = .waiting reqno b) :
      n.job c = .waiting reqno b := (job_of_update hc (hj reqno b)).2
  exact ⟨hold, fun c c' reqno b b' hc hc' =>
    h.distinct c c' reqno b b' (hold c reqno b hc) (hold c' reqno b' hc')⟩

theorem live_respond (h : Live os n) (c₀ error pad : Nat) (retval : Nat × Nat) :
    Live os (n.respond c₀ error pad retval) := by
  obtain ⟨hold, hdis⟩ := @Live.settled κ os n h c₀ .ended (by simp)
  refine { h with cared := ?_, expecting := ?_, distinct := hdis }
  · intro t c hc
    refine (h.cared t c hc).moves rfl rfl (List.subset_append_left _ _) rfl ?_
    exact .back (List.mem_append_right _ List.mem_cons_self)
  · intro c reqno b hc
    rw [replies_respond]
    exact h.expecting c reqno b (hold c reqno b hc)

theorem live_enters (h : Live os n) (c₀ : Nat) (k : κ) :
    Live os { n with kern := k, job := Function.update n.job c₀ .running } := by
  obtain ⟨hold, hdis⟩ := @Live.settled κ os n h c₀ .running (by simp)
  refine { h with cared := ?_, expecting := ?_, distinct := hdis }
  · intro t c hc
    refine (h.cared t c hc).moves rfl rfl (List.Subset.refl _) rfl ?_
    exact .running (Function.update_self ..)
  · intro c reqno b hc
    exact h.expecting c reqno b (hold c reqno b hc)

/-- The first item of work is taken by someone who cares for it. -/
theorem live_dequeue (h : Live os n) {q : Nat × Nat × List UInt8}
    {qs : List (Nat × Nat × List UInt8)} (hq : n.queue = q :: qs)
    (h₀ : ({ n with queue := qs } : Net κ).InCare q.1) : Live os { n with queue := qs } := by
  have hcalls : n.calls = q :: ({ n with queue := qs } : Net κ).calls := by
    simp [Net.calls, hq]
  refine { h with cared := ?_ }
  intro t c hc
  cases h.cared t c hc with
  | told hg => exact .told hg
  | sent hs =>
    rw [hcalls] at hs
    rcases List.mem_cons.mp hs with heq | hs
    · exact heq ▸ h₀
    · exact .sent hs
  | running hj => exact .running hj
  | waiting hj => exact .waiting hj
  | back hb => exact .back hb

theorem live_start (h : Live os n) {lwp : Option UInt32} {pad : Nat}
    (hs : Net.step K os n (.start lwp pad) = some n') : Live os n' := by
  cases hq : n.queue with
  | nil =>
    simp only [Net.step, hq] at hs
    cases hs
  | cons q qs =>
    obtain ⟨c, sysnum, data⟩ := q
    simp only [Net.step, hq] at hs
    cases lwp with
    | some rv =>
      cases hs
      have hlive := live_respond h c rv.toNat pad noLwp
      exact live_dequeue hlive hq (.back (List.mem_append_right _ List.mem_cons_self))
    | none =>
      cases hs
      have hlive := live_enters h c (K.enter n.kern c sysnum data)
      exact live_dequeue hlive hq (.running (Function.update_self ..))

theorem live_ask (h : Live os n) {c₀ : Nat} (junk : Nat) (b₀ : Ask) :
    Live os (n.ask K c₀ junk b₀) := by
  have hdown : n.down ⊆ n.down ++ [Downward.ask c₀ n.snext junk b₀] := List.subset_append_left _ _
  by_cases hb : b₀.waits = true
  · have hsnext : (n.ask K c₀ junk b₀).snext = n.snext + 1 := if_pos (numbered_of_waits hb)
    have hswait : (n.ask K c₀ junk b₀).swait = n.swait ++ [(n.snext, none)] := if_pos hb
    have hjob : (n.ask K c₀ junk b₀).job = Function.update n.job c₀ (.waiting n.snext b₀) :=
      if_pos hb
    have hreplies := @replies_ask_waits κ K os n c₀ junk b₀ hb
    -- the number is new
    have hfresh (c : Nat) (b : Ask) : n.job c ≠ .waiting n.snext b := fun hc =>
      Nat.lt_irrefl _ (h.expecting c n.snext b hc).1
    refine { listed := h.listed, cared := ?_, single := h.single, expecting := ?_, distinct := ?_ }
    · intro t c hc
      refine (h.cared t c hc).moves rfl rfl hdown hjob ?_
      exact .waiting (by rw [hjob]; exact Function.update_self ..)
    · rw [hjob, hsnext, hswait, hreplies]
      intro c reqno b hc
      rw [List.map_append]
      by_cases hcc : c = c₀
      · subst hcc
        rw [Function.update_self] at hc
        cases hc
        exact ⟨Nat.lt_succ_self _, List.mem_append_right _ List.mem_cons_self,
          .inr ⟨_, List.mem_append_right _ List.mem_cons_self⟩⟩
      · rw [Function.update_of_ne hcc] at hc
        obtain ⟨hlt, hkey, hdue⟩ := h.expecting c reqno b hc
        refine ⟨Nat.lt_succ_of_lt hlt, List.mem_append_left _ hkey, ?_⟩
        rw [given_append hkey]
        exact hdue.imp_right fun ⟨y, hy⟩ => ⟨y, List.mem_append_left _ hy⟩
    · rw [hjob]
      intro c c' reqno b b' hc hc'
      by_cases hcc : c = c₀
      · by_cases hcc' : c' = c₀
        · exact hcc.trans hcc'.symm
        · rw [hcc, Function.update_self] at hc
          rw [Function.update_of_ne hcc'] at hc'
          cases hc
          exact absurd hc' (hfresh c' b')
      · rw [Function.update_of_ne hcc] at hc
        by_cases hcc' : c' = c₀
        · rw [hcc', Function.update_self] at hc'
          cases hc'
          exact absurd hc (hfresh c b)
        · rw [Function.update_of_ne hcc'] at hc'
          exact h.distinct c c' reqno b b' hc hc'
  · have hswait : (n.ask K c₀ junk b₀).swait = n.swait := if_neg hb
    have hjob : (n.ask K c₀ junk b₀).job = n.job := if_neg hb
    have hsnext : n.snext ≤ (n.ask K c₀ junk b₀).snext := by
      simp only [Net.ask]
      split <;> omega
    refine {
      listed := h.listed
      cared := ?_
      single := h.single
      expecting := ?_
      distinct := by rw [hjob]; exact h.distinct }
    · intro t c hc
      exact (h.cared t c hc).stays rfl id (by rw [hjob]) hdown
    · rw [hjob, hswait, replies_ask_done n c₀ junk hb]
      intro c reqno b hc
      obtain ⟨hlt, hrest⟩ := h.expecting c reqno b hc
      exact ⟨Nat.lt_of_lt_of_le hlt hsnext, hrest⟩

theorem live_resume (h : Live os n) {c₀ : Nat} (hs : Net.step K os n (.resume c₀) = some n') :
    Live os n' := by
  simp only [Net.step] at hs
  split at hs
  swap
  · cases hs
  rename_i reqno₀ b₀ hj
  split at hs
  · cases hs
  rename_i x _
  cases hs
  have hlive := live_enters h c₀ (K.answer n.kern c₀ x)
  refine { hlive with
    cared := fun t c hc => (hlive.cared t c hc).stays rfl id rfl (List.Subset.refl _)
    expecting := ?_ }
  intro c reqno b hc
  obtain ⟨hne, hcj⟩ := job_of_update hc (by simp)
  obtain ⟨hlt, hkey, hdue⟩ := h.expecting c reqno b hcj
  have hr : reqno ≠ reqno₀ := by
    intro heq
    subst heq
    exact hne (h.distinct c c₀ reqno b b₀ hcj hj)
  obtain ⟨hgiven, hkeys⟩ := @given_erase _ reqno reqno₀ n.swait hr
  exact ⟨hlt, hkeys hkey, by rw [hgiven]; exact hdue⟩

theorem live_ret (h : Live os n) {t₀ : Nat} (hs : Net.step K os n (.ret t₀) = some n') :
    Live os n' := by
  simp only [Net.step] at hs
  split at hs
  · cases hs
  rename_i c₀ ht₀
  split at hs
  · cases hs
  cases hs
  have hold {t c : Nat} (hc : Function.update n.thread t₀ none t = some c) :
      t ≠ t₀ ∧ n.thread t = some c := by
    have hne : t ≠ t₀ := by
      intro heq
      rw [heq, Function.update_self] at hc
      cases hc
    rw [Function.update_of_ne hne] at hc
    exact ⟨hne, hc⟩
  have hother {t c : Nat} (hc : Function.update n.thread t₀ none t = some c) : c ≠ c₀ := by
    intro heq
    subst heq
    exact (hold hc).1 (h.single t t₀ c (hold hc).2 ht₀)
  refine { h with listed := ?_, cared := ?_, single := ?_ }
  · intro t c hc
    obtain ⟨hlt, hkey⟩ := h.listed t c (hold hc).2
    exact ⟨hlt, (given_erase (hother hc)).2 hkey⟩
  · intro t c hc
    have hgiven := (@given_erase _ c c₀ n.cwait (hother hc)).1
    exact (h.cared t c (hold hc).2).stays hgiven id rfl (List.Subset.refl _)
  · intro t t' c hc hc'
    exact h.single t t' c (hold hc).2 (hold hc').2

theorem live_poke (h : Live os n) {x : Nat} {bs : List UInt8} (ho : n.orderly (.poke x bs)) :
    Live os { n with proc := n.proc.poke x bs } := by
  refine { h with cared := ?_, expecting := ?_ }
  · intro t c hc
    exact (h.cared t c hc).stays rfl id rfl (List.Subset.refl _)
  · rw [replies_poke ho]
    exact h.expecting

theorem live_step (h : Live os n) {e : NetEvent} (ho : n.orderly e)
    (hs : Net.step K os n e = some n') : Live os n' := by
  cases e with
  | call t sysnum data hd =>
    simp only [Net.step] at hs
    split at hs
    · cases hs
      exact live_call h
    · cases hs
  | cread =>
    simp only [Net.step] at hs
    split at hs
    · cases hs
    · rename_i m ms hm
      cases hs
      exact live_take h hm
  | sread =>
    simp only [Net.step] at hs
    split at hs
    · cases hs
    · rename_i m ms hm
      cases hs
      exact live_accept h hm
  | start lwp pad => exact live_start h hs
  | work c junk =>
    simp only [Net.step] at hs
    split at hs
    swap
    · cases hs
    split at hs
    · cases hs
      exact { h with cared := fun t c hc => (h.cared t c hc).stays rfl id rfl (List.Subset.refl _) }
    · cases hs
      exact live_ask h junk _
    · cases hs
      exact live_respond h c _ junk _
  | resume c => exact live_resume h hs
  | ret t => exact live_ret h hs
  | poke x bs =>
    cases hs
    exact live_poke h ho

/-! ## Whole runs -/

/-- The two parties and the process alone, side by side. -/
def Mirrors (os : Os) (s : Sys κ) (a : Local κ) : Prop := ∃ n, Wire s n ∧ Sim os n a ∧ Live os n

theorem Sim.fits (h : Sim os n a) {c reqno : Nat} {b : Ask} {x : Answer}
    (hj : n.job c = .waiting reqno b) (hx : given reqno n.swait = some x) : b.Fits x := by
  obtain ⟨_, x', _, hf, _, hw⟩ := h.waiting c reqno b hj
  rw [hw x (mem_of_given hx)]
  exact hf

theorem mirrors_step (K : Kernel κ) (os : Os) :
    Simulates (step K os) orderly Event.seen (localStep K os) LocalEvent.seen (Mirrors os) := by
  intro s e s' a ⟨n, hw, hsim, hlive⟩ ho hs
  rcases wire_step hw ho (fun c reqno b x => hsim.fits) hs with
    ⟨hw', hsee⟩ | ⟨e', n', hn, hw', ho', hsee⟩
  · exact ⟨[], a, .nil, ⟨n, hw', hsim, hlive⟩, by rw [hsee]; rfl⟩
  · obtain ⟨tr, a', hrun, hsim', hobs⟩ := sim_step hsim ho' hn
    exact ⟨tr, a', hrun, ⟨n', hw', hsim', live_step hlive ho' hn⟩, by rw [hobs, hsee]⟩

theorem mirrors_fresh {s : Sys κ} (h : Fresh s) (os : Os) : Mirrors os s s.alone := by
  obtain ⟨hup, hdown, hwork, hcw, hsw⟩ := h.quiet
  obtain ⟨hasked, hserved, hres⟩ := h.records
  have hthread : s.thread = fun _ => none := funext h.idle
  refine ⟨⟨s.proc, s.cnext, s.thread, [], [], [], [], s.kern, [], [], s.snext, s.job⟩, ?_, ?_, ?_⟩
  · exact {
      proc := rfl, kern := rfl, cnext := rfl, snext := rfl, thread := rfl, results := hres.symm,
      job := rfl, running := h.running
      down := by rw [hdown]; exact recv_start h.cli []
      up := by rw [hup]; exact recv_start h.srv []
      cwait := by rw [hcw]; exact .nil
      swait := by rw [hsw]; exact .nil
      queue := by rw [hwork]; exact .nil
      asked := by rw [hasked, List.drop_nil]; rfl
      served := by rw [hasked, hserved]; exact Nat.le_refl 0
      downSmall := by simp
      upSmall := by simp
      queueSmall := by simp
      jobSmall := fun c hc => absurd (h.none c) hc }
  · exact {
      kern := rfl, proc := rfl, next := rfl, thread := hthread.symm, results := rfl
      unborn := fun _ _ => rfl
      called := fun _ hq => (List.not_mem_nil hq).elim
      distinct := List.nodup_nil
      running := fun c hc => Job.noConfusion ((h.none c).symm.trans hc)
      waiting := fun c reqno b hc => Job.noConfusion ((h.none c).symm.trans hc)
      issued := ⟨fun _ hr => (List.not_mem_nil hr).elim, by simp⟩
      ended := by simp
      woken := by simp
      returned := by simp
      behind := List.Pairwise.nil
      after := by simp }
  · have hidle {t c : Nat} (hc : s.thread t = some c) : False :=
      Option.some_ne_none c (hc.symm.trans (h.idle t))
    have habsent {c reqno : Nat} {b : Ask} (hc : s.job c = .waiting reqno b) : False :=
      Job.noConfusion ((h.none c).symm.trans hc)
    exact {
      listed := fun _ _ hc => (hidle hc).elim
      cared := fun _ _ hc => (hidle hc).elim
      single := fun _ _ _ hc _ => (hidle hc).elim
      expecting := fun _ _ _ hc => (habsent hc).elim
      distinct := fun _ _ _ _ _ hc _ => (habsent hc).elim }

/-- Whatever the kernel is and however the bytes, the workers and the threads are
scheduled: a process that does and sees the same, and makes its own system calls,
gets the same results. What the client's process still lacks are the effects of
the requests on their way, and none of these is for a system call that has
returned. -/
theorem remote_refines_local (K : Kernel κ) (os : Os) {s₀ s : Sys κ} (h₀ : Fresh s₀)
    {tr : List (Sys κ × Event)} (hr : Run (step K os) s₀ tr s) (hg : Guarded orderly tr) :
    ∃ ltr a, Run (localStep K os) s₀.alone ltr a ∧
      observed LocalEvent.seen ltr = observed Event.seen tr ∧
      a.kern = s.kern ∧ a.thread = s.thread ∧ a.results = s.results ∧
      a.proc = s.proc.serveAll os (s.asked.drop s.served) ∧
      ∀ r ∈ s.results, ∀ p ∈ s.asked.drop s.served, p.1 ≠ r.call := by
  obtain ⟨ltr, a, hrun, ⟨n, hw, hsim, _⟩, hobs⟩ :=
    (mirrors_step K os).run (mirrors_fresh h₀ os) hr hg
  refine ⟨ltr, a, hrun, hobs, ?_, ?_, ?_, ?_, ?_⟩
  · rw [hsim.kern, hw.kern]
  · rw [hsim.thread, hw.thread]
  · rw [hsim.results, hw.results]
  · rw [hsim.proc, hw.proc, hw.asked]
  · rw [← hw.results, ← hw.asked]
    intro r hr' p hp
    exact (hsim.after p hp).2 r hr'

/-- A kernel whose system calls copy the byte at 16 to 17 and return it. -/
def copyKernel : Kernel (Nat × UInt8) where
  enter _ _ _ _ := (0, 0)
  next k _ :=
    if k.1 = 0 then .ask (.copyin 16 1 (by decide))
    else if k.1 = 1 then .ask (.copyout 17 [k.2] (show HDRSZ + 16 + 1 < 18446744073709551616 by decide))
    else .ret 0 (UInt64.ofNat k.2.toNat, 0)
  answer k _ x := match x with
    | .bytes [b] => (k.1 + 1, b)
    | _ => (k.1 + 1, k.2)

def quietHost : Os where
  mmap _ _ := 0
  sig n := n

/-- Its clients start with a 9 at 16. -/
def copySys : Sys (Nat × UInt8) where
  proc := ⟨fun a => if a = 16 then 9 else 0, [], []⟩
  cli := { freshServer.spc with state := .running }
  cnext := 0
  thread _ := none
  results := []
  up := []
  down := []
  kern := (0, 0)
  srv := { freshServer with spc := { freshServer.spc with state := .running } }
  snext := 0
  job _ := .absent
  asked := []
  served := 0

theorem copySys_fresh : Fresh copySys where
  cli := ⟨rfl, rfl⟩
  srv := ⟨rfl, rfl⟩
  running := rfl
  idle _ := rfl
  quiet := ⟨rfl, rfl, rfl, rfl, rfl⟩
  none _ := rfl
  records := ⟨rfl, rfl, rfl⟩

theorem copySys_refines : ∃ tr s ltr a, Run (step copyKernel quietHost) copySys tr s ∧
    s.results = [⟨5, 0, 0, (9, 0)⟩] ∧ s.proc.mem 17 = 9 ∧
    Run (localStep copyKernel quietHost) copySys.alone ltr a ∧
    observed LocalEvent.seen ltr = [.call 5 3 [7], .ret 5] ∧ a.results = s.results := by
  obtain ⟨tr, s, hr, hp⟩ := exists_run (f := step copyKernel quietHost) (s := copySys)
    [.call 5 3 [7], .sread [.upto 30, .upto 0], .start none 0, .work 0 0,
      .cread 5 [.upto 30, .upto 30], .sread [.upto 30, .upto 0], .resume 0, .work 0 0, .work 0 0,
      .cread 5 [.upto 30, .upto 30], .cread 5 [.upto 30, .upto 30], .ret 5]
    (p := fun tr s => decide (Guarded orderly tr ∧ s.results = [⟨5, 0, 0, (9, 0)⟩] ∧
      s.proc.mem 17 = 9 ∧ observed Event.seen tr = [.call 5 3 [7], .ret 5])) (by decide +kernel)
  obtain ⟨hg, hres, hmem, hobs⟩ := of_decide_eq_true hp
  obtain ⟨ltr, a, hrun, hsee, _, _, hsame, _⟩ :=
    remote_refines_local copyKernel quietHost copySys_fresh hr hg
  exact ⟨tr, s, ltr, a, hr, hres, hmem, hrun, hsee.trans hobs, hsame⟩

end Frankenlibc.Sysproxy.Remote

import Frankenlibc.Threads.WaitQueue

/-!
# The handshake of `join_thread` and `exit_thread`

A joinable thread that exits stops at a gate until the thread that joins it
has cleared `THREAD_MUSTJOIN`. Either may arrive first. The invariant ties the
join queue to the threads inside `join_thread`, says where a thread with
`THREAD_JOINED` stands, and keeps runnable whichever side has to move next.
-/
namespace Frankenlibc.Threads.Join

open Frankenlibc.Lib

/-- The positions inside `join_thread` and `exit_thread`. -/
def apart : Pc → Bool
  | .join _ | .exitGate | .exited => true
  | _ => false

theorem apart_plain {p : Pc} (h : p.plain = true) : apart p = false := by
  cases p <;> simp_all [Pc.plain, apart]

structure Inv (s : State) : Prop where
  user : s.mode = .user → apart (s.pc s.current) = false
  gate : ∀ t, (s.thread t).joined = true →
    s.pc t = .exitGate ∨ s.pc t = .exited ∧ (s.thread t).mustjoin = false
  joins : ∀ j t, s.pc j = .join t →
    s.joiner t = some j ∧ (s.thread t).mustjoin = true ∧ { thread := j, wanted := t } ∈ s.joinwq
  awake : ∀ j t, s.pc j = .join t → (s.thread t).joined = true → (s.thread j).runnable = true
  joiner : ∀ j t, s.joiner t = some j →
    s.pc j = .join t ∨ (s.thread t).joined = true ∧ (s.thread t).mustjoin = false
  queue : ∀ jw ∈ s.joinwq, s.pc jw.thread = .join jw.wanted
  nodup : s.joinwq.Nodup
  listed : ∀ t ∈ s.created, (s.thread t).mustjoin = true → t ∈ s.threadList
  released : ∀ t ∈ s.threadList, (s.thread t).joined = true → (s.thread t).mustjoin = false →
    (s.thread t).runnable = true
  unborn : ∀ t, t ∉ s.created →
    (s.thread t).mustjoin = false ∧ (s.thread t).joined = false ∧ apart (s.pc t) = false

theorem inv_boot (t : Tid) (ts : List Tid) (lwp : Tid → Option Lwp) : Inv (boot t ts lwp) := by
  have hpc : ∀ u, apart ((boot t ts lwp).pc u) = false := by
    intro u
    simp only [boot]
    split <;> rfl
  constructor
  case user => exact fun _ => hpc _
  case gate => exact fun u hj => by simp [boot, newThread] at hj
  case joins => exact fun j u hp => by simpa [hp, apart] using hpc j
  case awake => exact fun j u hp => by simpa [hp, apart] using hpc j
  case joiner => exact fun j u hj => by simp [boot] at hj
  case queue => exact fun jw hjw => by simp [boot] at hjw
  case nodup => exact List.nodup_nil
  case listed => exact fun u hu _ => hu
  case released => exact fun u _ hj => by simp [boot, newThread] at hj
  case unborn => exact fun u _ => ⟨rfl, rfl, hpc u⟩

/-! ## Steps outside the handshake -/

/-- A step that leaves the flags, the join queue and the threads inside the
handshake alone, and lets none of these stop being runnable. -/
theorem inv_quiet {s s' : State} (h : Inv s) (hc : s'.created = s.created)
    (hjr : s'.joiner = s.joiner) (hjq : s'.joinwq = s.joinwq)
    (hm : ∀ t, (s'.thread t).mustjoin = (s.thread t).mustjoin)
    (hj : ∀ t, (s'.thread t).joined = (s.thread t).joined)
    (hl : ∀ t, t ∈ s'.threadList ↔ t ∈ s.threadList)
    (hp : ∀ t, s'.pc t = s.pc t ∨ apart (s.pc t) = false ∧ apart (s'.pc t) = false)
    (hr : ∀ t, apart (s.pc t) = true → (s.thread t).runnable = true → (s'.thread t).runnable = true)
    (hu : s'.mode = .user → apart (s'.pc s'.current) = false) : Inv s' := by
  have hkeep : ∀ t, apart (s.pc t) = true → s'.pc t = s.pc t := by
    intro t ht
    rcases hp t with he | ⟨hn, _⟩
    · exact he
    · simp [hn] at ht
  have hback : ∀ t, apart (s'.pc t) = true → s.pc t = s'.pc t := by
    intro t ht
    rcases hp t with he | ⟨_, hn⟩
    · exact he.symm
    · simp [hn] at ht
  have hjoin : ∀ j t, s'.pc j = .join t → s.pc j = .join t := by
    intro j t hpj
    rw [hback j (by rw [hpj]; rfl), hpj]
  constructor
  case user => exact hu
  case gate =>
    intro t ht
    rw [hj] at ht
    rw [hm]
    rcases h.gate t ht with hg | ⟨hg, hn⟩
    · exact .inl (by rw [hkeep t (by rw [hg]; rfl), hg])
    · exact .inr ⟨by rw [hkeep t (by rw [hg]; rfl), hg], hn⟩
  case joins =>
    intro j t hpj
    rw [hjr, hm, hjq]
    exact h.joins j t (hjoin j t hpj)
  case awake =>
    intro j t hpj ht
    rw [hj] at ht
    have hold := hjoin j t hpj
    exact hr j (by rw [hold]; rfl) (h.awake j t hold ht)
  case joiner =>
    intro j t ht
    rw [hjr] at ht
    rw [hj, hm]
    rcases h.joiner j t ht with hpj | hd
    · exact .inl (by rw [hkeep j (by rw [hpj]; rfl), hpj])
    · exact .inr hd
  case queue =>
    intro jw hjw
    rw [hjq] at hjw
    have hold := h.queue jw hjw
    rw [hkeep jw.thread (by rw [hold]; rfl), hold]
  case nodup =>
    rw [hjq]
    exact h.nodup
  case listed =>
    intro t ht hmt
    rw [hc] at ht
    rw [hm] at hmt
    exact (hl t).mpr (h.listed t ht hmt)
  case released =>
    intro t ht hjt hmt
    rw [hl] at ht
    rw [hj] at hjt
    rw [hm] at hmt
    have hg : apart (s.pc t) = true := by
      rcases h.gate t hjt with hg | ⟨hg, _⟩ <;> rw [hg] <;> rfl
    exact hr t hg (h.released t ht hjt hmt)
  case unborn =>
    intro t ht
    rw [hc] at ht
    obtain ⟨hmt, hjt, hat⟩ := h.unborn t ht
    rw [hm, hj]
    refine ⟨hmt, hjt, ?_⟩
    rcases hp t with he | ⟨_, hn⟩
    · rw [he]
      exact hat
    · exact hn

/-- A calm function, executed by a thread outside the handshake. -/
theorem inv_calm {s s' : State} (h : Inv s) (hc : Calm s s')
    (ha : apart (s.pc s.current) = false) : Inv s' := by
  have hcur : apart (s'.pc s.current) = false := by
    rcases hc.plain with he | hpl
    · rw [he]
      exact ha
    · exact apart_plain hpl
  refine inv_quiet h hc.created hc.joiner hc.joinwq hc.mustjoin hc.joined ?_ ?_ ?_ ?_
  · intro t
    rw [hc.threadList]
  · intro t
    by_cases ht : t = s.current
    · subst ht
      exact .inr ⟨ha, hcur⟩
    · exact .inl (hc.pc t ht)
  · intro t hat hrt
    refine hc.runnable t ?_ hrt
    rintro rfl
    rw [ha] at hat
    cases hat
  · intro _
    rw [hc.current]
    exact hcur

theorem inv_reap {s : State} (h : Inv s) : Inv (reap s) :=
  inv_quiet h rfl rfl rfl (fun _ => rfl) (fun _ => rfl) (fun _ => Iff.rfl) (fun _ => .inl rfl)
    (fun _ _ hr => hr) h.user

theorem inv_threadMade {s : State} (h : Inv s) {t : Tid} (joinable extstack : Bool)
    (hnew : t ∉ s.created) (hcur : s.current ∈ s.created) :
    Inv (threadMade t joinable extstack s) := by
  unfold threadMade
  obtain ⟨hmt, hjt, hat⟩ := h.unborn t hnew
  have hpne : ∀ j u, s.pc j = .join u → j ≠ t ∧ u ≠ t := by
    refine fun j u hp => ⟨?_, ?_⟩
    · rintro rfl
      simp [hp, apart] at hat
    · rintro rfl
      simp [(h.joins j u hp).2.1] at hmt
  have hjoin : ∀ j u, Function.update s.pc t .fresh j = .join u → s.pc j = .join u := by
    intro j u hp
    by_cases hj : j = t
    · subst hj
      simp at hp
    · rwa [Function.update_of_ne hj] at hp
  constructor
  case user =>
    intro hm
    have hne : s.current ≠ t := fun he => hnew (he ▸ hcur)
    simpa [State.setThread, hne] using h.user hm
  case gate =>
    intro u hu
    by_cases hut : u = t
    · subst hut
      simp [State.setThread, newThread] at hu
    · simp only [State.setThread, Function.update_of_ne hut] at hu ⊢
      exact h.gate u hu
  case joins =>
    intro j u hp
    have hold := hjoin j u hp
    have hne := (hpne j u hold).2
    simpa [State.setThread, hne] using h.joins j u hold
  case awake =>
    intro j u hp hju
    have hold := hjoin j u hp
    obtain ⟨hj, hne⟩ := hpne j u hold
    simp only [State.setThread, Function.update_of_ne hne, Function.update_of_ne hj] at hju ⊢
    exact h.awake j u hold hju
  case joiner =>
    intro j u hju
    rcases h.joiner j u hju with hp | hd
    · have hj := (hpne j u hp).1
      exact .inl (by simpa [hj] using hp)
    · have hut : u ≠ t := by
        rintro rfl
        simp [hd.1] at hjt
      exact .inr (by simpa [State.setThread, hut] using hd)
  case queue =>
    intro jw hjw
    have hold := h.queue jw hjw
    simpa [(hpne _ _ hold).1] using hold
  case nodup => exact h.nodup
  case listed =>
    intro u hu hmu
    by_cases hut : u = t
    · subst hut
      simp
    · have hu' : u ∈ s.created := by simpa [State.setThread, hut] using hu
      simp only [State.setThread, Function.update_of_ne hut] at hmu
      exact List.mem_append_left _ (h.listed u hu' hmu)
  case released =>
    intro u hu hju hmu
    by_cases hut : u = t
    · subst hut
      simp [State.setThread, newThread]
    · have hu' : u ∈ s.threadList := by simpa [State.setThread, hut] using hu
      simp only [State.setThread, Function.update_of_ne hut] at hju hmu ⊢
      exact h.released u hu' hju hmu
  case unborn =>
    intro u hu
    have hut : u ≠ t := by
      rintro rfl
      simp at hu
    have hu' : u ∉ s.created := by
      intro hc
      exact hu (List.mem_append_left _ hc)
    simpa [State.setThread, hut] using h.unborn u hu'

/-! ## The two sides of the handshake -/

/-- The joiner that the exiting thread finds is the one thread inside
`join_thread` for it. -/
theorem find_joiner {s : State} (h : Inv s) {j t : Tid} (hp : s.pc j = .join t) :
    s.joinwq.find? (fun jw => jw.wanted = t) = some { thread := j, wanted := t } := by
  obtain ⟨hj, _, hmem⟩ := h.joins j t hp
  cases hf : s.joinwq.find? (fun jw => jw.wanted = t) with
  | none =>
    rw [List.find?_eq_none] at hf
    simpa using hf _ hmem
  | some jw =>
    have hw : jw.wanted = t := by simpa using List.find?_some hf
    have hpw := h.queue jw (List.mem_of_find?_eq_some hf)
    rw [hw] at hpw
    have hjw := (h.joins _ _ hpw).1
    rw [hj] at hjw
    cases hjw
    rw [← hw]

theorem join_of_update {s : State} {p : Pc} {j t : Tid} (hp : ∀ u, p ≠ .join u)
    (hj : Function.update s.pc s.current p j = .join t) : s.pc j = .join t := by
  by_cases hc : j = s.current
  · subst hc
    rw [Function.update_self] at hj
    exact absurd hj (hp t)
  · rwa [Function.update_of_ne hc] at hj

/-- A thread that is not joining anyone stops at the gate. -/
theorem inv_gate {s : State} (h : Inv s) (hm : (s.thread s.current).mustjoin = true)
    (hcur : ∀ u, s.pc s.current ≠ .join u) : Inv (exitThread s) := by
  obtain ⟨th, he, _, hmj, hjd, hrun, hwake, _⟩ := exitThread_gate hm
  rw [he]
  have hne : ∀ j t, s.pc j = .join t → j ≠ s.current := by
    rintro j t hp rfl
    exact hcur t hp
  have hjoin := fun j t => join_of_update (s := s) (p := .exitGate) (j := j) (t := t) (by simp)
  constructor
  case user => simp
  case gate =>
    intro t ht
    by_cases htc : t = s.current
    · subst htc
      exact .inl (by simp)
    · simp only [hjd t htc] at ht
      simpa [hmj, htc] using h.gate t ht
  case joins =>
    intro j t hp
    simpa [hmj] using h.joins j t (hjoin j t hp)
  case awake =>
    intro j t hp ht
    have hold := hjoin j t hp
    by_cases htc : t = s.current
    · subst htc
      exact hwake _ (find_joiner h hold) (hne _ _ hold)
    · simp only [hjd t htc] at ht
      exact hrun j (hne j t hold) (h.awake j t hold ht)
  case joiner =>
    intro j t hj
    rcases h.joiner j t hj with hp | ⟨hjt, hmt⟩
    · exact .inl (by simpa [hne j t hp] using hp)
    · have htc : t ≠ s.current := by
        rintro rfl
        simp [hm] at hmt
      exact .inr (by simpa [hjd t htc, hmj] using ⟨hjt, hmt⟩)
  case queue =>
    intro jw hjw
    have hold := h.queue jw hjw
    simpa [hne _ _ hold] using hold
  case nodup => exact h.nodup
  case listed =>
    intro t ht hmt
    simp only [hmj] at hmt
    exact h.listed t ht hmt
  case released =>
    intro t ht hjt hmt
    simp only [hmj] at hmt
    have htc : t ≠ s.current := by
      rintro rfl
      simp [hm] at hmt
    simp only [hjd t htc] at hjt
    exact hrun t htc (h.released t ht hjt hmt)
  case unborn =>
    intro t ht
    have hold := h.unborn t ht
    have htc : t ≠ s.current := by
      rintro rfl
      simp [hm] at hold
    simpa [hmj, hjd t htc, htc] using hold

/-- A thread that nobody has to join, or that has been joined, leaves. -/
theorem inv_leave {s : State} (h : Inv s) (hm : (s.thread s.current).mustjoin = false)
    (hnd : s.threadList.Nodup) (hcr : s.current ∈ s.created)
    (hcur : ∀ u, s.pc s.current ≠ .join u) : Inv (exitThread s) := by
  rw [exitThread_leave hm]
  have hne : ∀ j t, s.pc j = .join t → j ≠ s.current := by
    rintro j t hp rfl
    exact hcur t hp
  have hjoin := fun j t => join_of_update (s := s) (p := .exited) (j := j) (t := t) (by simp)
  have hflags : ∀ t, (Function.update s.thread s.current
      { s.thread s.current with runnable := false } t).joined = (s.thread t).joined ∧
      (Function.update s.thread s.current
      { s.thread s.current with runnable := false } t).mustjoin = (s.thread t).mustjoin := by
    intro t
    by_cases ht : t = s.current
    · subst ht
      simp
    · simp [ht]
  constructor
  case user => simp
  case gate =>
    intro t ht
    rw [(hflags t).1] at ht
    by_cases htc : t = s.current
    · subst htc
      exact .inr ⟨by simp, by simpa using hm⟩
    · simpa [htc] using h.gate t ht
  case joins =>
    intro j t hp
    simpa [hflags] using h.joins j t (hjoin j t hp)
  case awake =>
    intro j t hp ht
    rw [(hflags t).1] at ht
    have hold := hjoin j t hp
    simpa [hne j t hold] using h.awake j t hold ht
  case joiner =>
    intro j t hj
    rcases h.joiner j t hj with hp | hd
    · exact .inl (by simpa [hne j t hp] using hp)
    · exact .inr (by simpa [hflags] using hd)
  case queue =>
    intro jw hjw
    have hold := h.queue jw hjw
    simpa [hne _ _ hold] using hold
  case nodup => exact h.nodup
  case listed =>
    intro t ht hmt
    rw [(hflags t).2] at hmt
    have htc : t ≠ s.current := by
      rintro rfl
      simp [hm] at hmt
    exact (List.mem_erase_of_ne htc).mpr (h.listed t ht hmt)
  case released =>
    intro t ht hjt hmt
    rw [(hflags t).1] at hjt
    rw [(hflags t).2] at hmt
    obtain ⟨htc, ht⟩ := hnd.mem_erase_iff.mp ht
    simpa [htc] using h.released t ht hjt hmt
  case unborn =>
    intro t ht
    have htc : t ≠ s.current := fun he => ht (he ▸ hcr)
    simpa [htc] using h.unborn t ht

theorem inv_exitThread {s : State} (h : Inv s) (hnd : s.threadList.Nodup)
    (hcr : s.current ∈ s.created) (hcur : ∀ u, s.pc s.current ≠ .join u) :
    Inv (exitThread s) := by
  cases hm : (s.thread s.current).mustjoin with
  | true => exact inv_gate h hm hcur
  | false => exact inv_leave h hm hnd hcr hcur

/-- The current thread is at the top of the loop of `join_thread` for `t`. It
is not on the join queue, and everyone else is as the invariant says. -/
structure Entering (s : State) (t : Tid) : Prop where
  gate : ∀ u, (s.thread u).joined = true →
    s.pc u = .exitGate ∨ s.pc u = .exited ∧ (s.thread u).mustjoin = false
  self : (s.thread s.current).joined = false
  born : s.current ∈ s.created
  mine : s.joiner t = some s.current
  must : (s.thread t).mustjoin = true
  joins : ∀ j u, j ≠ s.current → s.pc j = .join u →
    s.joiner u = some j ∧ (s.thread u).mustjoin = true ∧ { thread := j, wanted := u } ∈ s.joinwq
  awake : ∀ j u, j ≠ s.current → s.pc j = .join u → (s.thread u).joined = true →
    (s.thread j).runnable = true
  joiner : ∀ j u, u ≠ t → s.joiner u = some j →
    j ≠ s.current ∧ s.pc j = .join u ∨
      (s.thread u).joined = true ∧ (s.thread u).mustjoin = false
  queue : ∀ jw ∈ s.joinwq, jw.thread ≠ s.current ∧ s.pc jw.thread = .join jw.wanted
  nodup : s.joinwq.Nodup
  listed : ∀ u ∈ s.created, (s.thread u).mustjoin = true → u ∈ s.threadList
  released : ∀ u ∈ s.threadList, (s.thread u).joined = true → (s.thread u).mustjoin = false →
    (s.thread u).runnable = true
  unborn : ∀ u, u ∉ s.created →
    (s.thread u).mustjoin = false ∧ (s.thread u).joined = false ∧ apart (s.pc u) = false

theorem not_joined {s : State} (h : Inv s) {t : Tid}
    (hp : s.pc t ≠ .exitGate ∧ s.pc t ≠ .exited) : (s.thread t).joined = false := by
  by_contra hj
  rcases h.gate t (by simpa using hj) with hg | ⟨hg, _⟩
  · exact hp.1 hg
  · exact hp.2 hg

/-- `join_thread` is called by a thread outside the handshake, for a target
that nobody else has asked for. -/
theorem entering_call {s : State} {t : Tid} (h : Inv s) (ha : apart (s.pc s.current) = false)
    (hcr : s.current ∈ s.created) (hm : (s.thread t).mustjoin = true)
    (hone : ∀ j, s.joiner t = some j → j = s.current) :
    Entering { s with joiner := Function.update s.joiner t (some s.current) } t := by
  have hne : ∀ j u, s.pc j = .join u → j ≠ s.current := by
    rintro j u hp rfl
    simp [hp, apart] at ha
  constructor
  case gate => exact h.gate
  case self =>
    refine not_joined h ⟨fun hp => ?_, fun hp => ?_⟩ <;> simp [hp, apart] at ha
  case born => exact hcr
  case mine => simp
  case must => exact hm
  case joins =>
    intro j u hj hp
    obtain ⟨hju, hmu, hmem⟩ := h.joins j u hp
    have hut : u ≠ t := by
      rintro rfl
      exact hj (hone j hju)
    exact ⟨by simpa [hut] using hju, hmu, hmem⟩
  case awake => exact fun j u _ hp hju => h.awake j u hp hju
  case joiner =>
    intro j u hut hju
    simp only [Function.update_of_ne hut] at hju
    rcases h.joiner j u hju with hp | hd
    · exact .inl ⟨hne j u hp, hp⟩
    · exact .inr hd
  case queue => exact fun jw hjw => ⟨hne _ _ (h.queue jw hjw), h.queue jw hjw⟩
  case nodup => exact h.nodup
  case listed => exact h.listed
  case released => exact h.released
  case unborn => exact h.unborn

/-- A joiner that has been given the processor takes itself off the queue. -/
theorem entering_resume {s : State} {t : Tid} (h : Inv s) (hp : s.pc s.current = .join t)
    (hcr : s.current ∈ s.created) :
    Entering { reap s with
      joinwq := s.joinwq.erase { thread := s.current, wanted := t } } t := by
  obtain ⟨hmine, hmust, hmem⟩ := h.joins _ _ hp
  constructor
  case gate => exact h.gate
  case self =>
    have hno : (s.thread s.current).joined = false := not_joined h ⟨by simp [hp], by simp [hp]⟩
    exact hno
  case born => exact hcr
  case mine => exact hmine
  case must => exact hmust
  case joins =>
    intro j u hj hpj
    obtain ⟨hju, hmu, hmemj⟩ := h.joins j u hpj
    refine ⟨hju, hmu, (List.mem_erase_of_ne ?_).mpr hmemj⟩
    intro he
    cases he
    exact hj rfl
  case awake => exact fun j u _ hpj hju => h.awake j u hpj hju
  case joiner =>
    intro j u hut hju
    rcases h.joiner j u hju with hpj | hd
    · refine .inl ⟨?_, hpj⟩
      rintro rfl
      change s.pc s.current = .join u at hpj
      rw [hp] at hpj
      cases hpj
      exact hut rfl
    · exact .inr hd
  case queue =>
    intro jw hjw
    obtain ⟨hne, hjw⟩ := h.nodup.mem_erase_iff.mp hjw
    have hpw := h.queue jw hjw
    refine ⟨?_, hpw⟩
    intro he
    -- its only entry was the one that has been erased
    change jw.thread = s.current at he
    rw [he, hp] at hpw
    cases hpw
    exact hne (by rw [← he])
  case nodup => exact h.nodup.erase _
  case listed => exact h.listed
  case released => exact h.released
  case unborn => exact h.unborn

/-- The target has `THREAD_JOINED`: it is let go and `join_thread` returns. -/
theorem inv_joinReturn {s : State} {t : Tid} (h : Entering s t)
    (hj : (s.thread t).joined = true) :
    Inv (wake t (s.setThread t { s.thread t with mustjoin := false })).toUser := by
  generalize hs' : (wake t (s.setThread t { s.thread t with mustjoin := false })).toUser = s'
  have hpc : s'.pc = Function.update s.pc s.current .running := by
    rw [← hs']
    rfl
  have hth : ∀ u, u ≠ t → s'.thread u = s.thread u := by
    intro u hu
    simp [← hs', State.toUser, wake, State.setThread, hu]
  have ht : (s'.thread t).joined = true ∧ (s'.thread t).mustjoin = false ∧
      (s'.thread t).runnable = true := by
    simp [← hs', State.toUser, wake, State.setThread, hj]
  have hjd : ∀ u, (s'.thread u).joined = (s.thread u).joined := by
    intro u
    by_cases hu : u = t
    · rw [hu, ht.1, hj]
    · rw [hth u hu]
  have hother : ∀ j u, s'.pc j = .join u → j ≠ s.current ∧ s.pc j = .join u := by
    intro j u hp
    rw [hpc] at hp
    by_cases hjc : j = s.current
    · subst hjc
      simp at hp
    · exact ⟨hjc, by rwa [Function.update_of_ne hjc] at hp⟩
  have hut : ∀ j u, j ≠ s.current → s.pc j = .join u → u ≠ t := by
    rintro j u hjc hp rfl
    have hju := (h.joins j u hjc hp).1
    rw [h.mine] at hju
    cases hju
    exact hjc rfl
  have hjr : s'.joiner = s.joiner := by rw [← hs']; rfl
  have hjq : s'.joinwq = s.joinwq := by rw [← hs']; rfl
  have hcr : s'.created = s.created := by rw [← hs']; rfl
  have hl : s'.threadList = s.threadList := by rw [← hs']; rfl
  have hcur : s'.current = s.current := by rw [← hs']; rfl
  constructor
  case user =>
    intro _
    rw [hpc, hcur]
    simp [apart]
  case gate =>
    intro u hu
    rw [hjd] at hu
    have huc : u ≠ s.current := by
      rintro rfl
      simp [h.self] at hu
    rw [hpc, Function.update_of_ne huc]
    by_cases hue : u = t
    · subst hue
      rcases h.gate u hu with hg | ⟨hg, _⟩
      · exact .inl hg
      · exact .inr ⟨hg, ht.2.1⟩
    · rw [hth u hue]
      exact h.gate u hu
  case joins =>
    intro j u hp
    obtain ⟨hjc, hold⟩ := hother j u hp
    rw [hjr, hjq, hth u (hut j u hjc hold)]
    exact h.joins j u hjc hold
  case awake =>
    intro j u hp hju
    rw [hjd] at hju
    obtain ⟨hjc, hold⟩ := hother j u hp
    have hr := h.awake j u hjc hold hju
    by_cases hjt : j = t
    · subst hjt
      exact ht.2.2
    · rw [hth j hjt]
      exact hr
  case joiner =>
    intro j u hju
    rw [hjr] at hju
    by_cases hue : u = t
    · subst hue
      exact .inr ⟨ht.1, ht.2.1⟩
    · rw [hth u hue, hpc]
      rcases h.joiner j u hue hju with ⟨hjc, hp⟩ | hd
      · exact .inl (by rw [Function.update_of_ne hjc, hp])
      · exact .inr hd
  case queue =>
    intro jw hjw
    rw [hjq] at hjw
    obtain ⟨hjc, hp⟩ := h.queue jw hjw
    rw [hpc, Function.update_of_ne hjc, hp]
  case nodup =>
    rw [hjq]
    exact h.nodup
  case listed =>
    intro u hu hmu
    have hue : u ≠ t := by
      rintro rfl
      simp [ht.2.1] at hmu
    rw [hth u hue] at hmu
    rw [hcr] at hu
    rw [hl]
    exact h.listed u hu hmu
  case released =>
    intro u hu hju hmu
    by_cases hue : u = t
    · subst hue
      exact ht.2.2
    · rw [hth u hue] at hju hmu ⊢
      rw [hl] at hu
      exact h.released u hu hju hmu
  case unborn =>
    intro u hu
    rw [hcr] at hu
    obtain ⟨hmu, hju, hau⟩ := h.unborn u hu
    have hue : u ≠ t := by
      rintro rfl
      simp [h.must] at hmu
    have huc : u ≠ s.current := fun he => hu (he ▸ h.born)
    rw [hth u hue, hpc, Function.update_of_ne huc]
    exact ⟨hmu, hju, hau⟩

/-- The target has not shown up: the caller queues up and blocks. -/
theorem inv_joinBlock {s : State} {t : Tid} (h : Entering s t)
    (hj : (s.thread t).joined = false) :
    Inv ((block s.current { s with
      joinwq := s.joinwq ++ [{ thread := s.current, wanted := t }] }).suspend (.join t)) := by
  generalize hs' : (block s.current { s with
    joinwq := s.joinwq ++ [{ thread := s.current, wanted := t }] }).suspend (.join t) = s'
  have hpc : s'.pc = Function.update s.pc s.current (.join t) := by
    rw [← hs']
    rfl
  have hflags : ∀ u, (s'.thread u).joined = (s.thread u).joined ∧
      (s'.thread u).mustjoin = (s.thread u).mustjoin := by
    intro u
    rw [← hs']
    exact ⟨block_joined s.current u _, block_mustjoin s.current u _⟩
  have hrun : ∀ u, u ≠ s.current → (s'.thread u).runnable = (s.thread u).runnable := by
    intro u hu
    simp [← hs', State.suspend, block, State.setThread, hu]
  have hother : ∀ j u, s'.pc j = .join u → j = s.current ∧ u = t ∨
      j ≠ s.current ∧ s.pc j = .join u := by
    intro j u hp
    rw [hpc] at hp
    by_cases hjc : j = s.current
    · subst hjc
      rw [Function.update_self] at hp
      cases hp
      exact .inl ⟨rfl, rfl⟩
    · exact .inr ⟨hjc, by rwa [Function.update_of_ne hjc] at hp⟩
  have hjr : s'.joiner = s.joiner := by rw [← hs']; rfl
  have hjq : s'.joinwq = s.joinwq ++ [{ thread := s.current, wanted := t }] := by rw [← hs']; rfl
  have hcr : s'.created = s.created := by rw [← hs']; rfl
  have hl : s'.threadList = s.threadList := by rw [← hs']; rfl
  constructor
  case user =>
    intro hm
    rw [← hs'] at hm
    cases hm
  case gate =>
    intro u hu
    rw [(hflags u).1] at hu
    have huc : u ≠ s.current := by
      rintro rfl
      simp [h.self] at hu
    rw [hpc, Function.update_of_ne huc, (hflags u).2]
    exact h.gate u hu
  case joins =>
    intro j u hp
    rw [hjr, hjq, (hflags u).2]
    rcases hother j u hp with ⟨rfl, rfl⟩ | ⟨hjc, hold⟩
    · exact ⟨h.mine, h.must, by simp⟩
    · obtain ⟨hju, hmu, hmem⟩ := h.joins j u hjc hold
      exact ⟨hju, hmu, List.mem_append_left _ hmem⟩
  case awake =>
    intro j u hp hju
    rw [(hflags u).1] at hju
    rcases hother j u hp with ⟨rfl, rfl⟩ | ⟨hjc, hold⟩
    · simp [hj] at hju
    · rw [hrun j hjc]
      exact h.awake j u hjc hold hju
  case joiner =>
    intro j u hju
    rw [hjr] at hju
    rw [hpc, (hflags u).1, (hflags u).2]
    by_cases hue : u = t
    · subst hue
      rw [h.mine] at hju
      cases hju
      exact .inl (by simp)
    · rcases h.joiner j u hue hju with ⟨hjc, hp⟩ | hd
      · exact .inl (by rw [Function.update_of_ne hjc, hp])
      · exact .inr hd
  case queue =>
    intro jw hjw
    rw [hjq] at hjw
    rw [hpc]
    rcases List.mem_append.mp hjw with hold | hnew
    · obtain ⟨hjc, hp⟩ := h.queue jw hold
      rw [Function.update_of_ne hjc, hp]
    · rw [List.mem_singleton] at hnew
      subst hnew
      simp
  case nodup =>
    rw [hjq]
    refine List.Nodup.append h.nodup (List.nodup_singleton _) ?_
    rw [List.disjoint_singleton]
    exact fun hmem => (h.queue _ hmem).1 rfl
  case listed =>
    intro u hu hmu
    rw [(hflags u).2] at hmu
    rw [hcr] at hu
    rw [hl]
    exact h.listed u hu hmu
  case released =>
    intro u hu hju hmu
    rw [(hflags u).1] at hju
    rw [(hflags u).2] at hmu
    rw [hl] at hu
    have huc : u ≠ s.current := by
      rintro rfl
      simp [h.self] at hju
    rw [hrun u huc]
    exact h.released u hu hju hmu
  case unborn =>
    intro u hu
    rw [hcr] at hu
    have huc : u ≠ s.current := fun he => hu (he ▸ h.born)
    rw [(hflags u).1, (hflags u).2, hpc, Function.update_of_ne huc]
    exact h.unborn u hu

theorem inv_joinLoop {t : Tid} {s s' : State} (h : Entering s t) (he : joinLoop t s = .ok s') :
    Inv s' := by
  obtain ⟨_, ⟨hj, rfl⟩ | ⟨hj, rfl⟩⟩ := joinLoop_ok he
  · exact inv_joinReturn h hj
  · exact inv_joinBlock h hj

/-! ## Whole runs -/

/-- Each joinable thread is joined by at most one thread. -/
def joinedOnce (s : State) : Event → Bool
  | .call (.joinThread t) => s.joiner t = none || s.joiner t = some s.current
  | _ => true

theorem inv_exec {c : Call} {s s' : State} (h : Inv s) (hsys : WaitQueue.Sys s)
    (hu : s.mode = .user) (ha : c.allowed s = true) (hone : joinedOnce s (.call c) = true)
    (he : exec s c = .ok s') : Inv s' := by
  have hap := h.user hu
  have hcr := hsys.current_created (.inl hu)
  cases exec_inv he with
  | calm hc => exact inv_calm h hc hap
  | create => exact inv_threadMade h _ _ (by simpa [Call.allowed] using ha) hcr
  | exit =>
    refine inv_exitThread h (Lists.threadList_nodup hsys.lists) hcr ?_
    intro u hp
    simp [hp, apart] at hap
  | join hm hj =>
    refine inv_joinLoop (entering_call h hap hcr hm fun j hjn => ?_) hj
    rcases (Bool.or_eq_true _ _).mp hone with hn | hc <;> simp_all
  | @setCurlwp l =>
    have hsame : ∀ t, (s.setThread s.current { s.thread s.current with lwp := l }).thread t =
        { s.thread t with lwp := if t = s.current then l else (s.thread t).lwp } := by
      intro t
      by_cases ht : t = s.current
      · subst ht
        simp [State.setThread]
      · simp [State.setThread, ht]
    refine inv_quiet h rfl rfl rfl ?_ ?_ (fun _ => Iff.rfl) (fun _ => .inl rfl) ?_ h.user
    · exact fun t => by rw [hsame]
    · exact fun t => by rw [hsame]
    · exact fun t _ hr => by rw [hsame]; exact hr

theorem inv_resume {p : Pc} {s s' : State} (h : Inv s) (hsys : WaitQueue.Sys s)
    (hb : s.mode = .back) (hp : s.pc s.current = p) (he : resume s p = .ok s') : Inv s' := by
  have hcr := hsys.current_created (.inr hb)
  have hreap := inv_reap h
  cases resume_inv he with
  | running | fresh => exact inv_calm h (toUser_calm s) (by rw [hp]; rfl)
  | yield | sleep => exact inv_calm hreap (toUser_calm (reap s)) (congrArg apart hp)
  | wait ht => exact inv_calm hreap (waited_calm ht) (congrArg apart hp)
  | join hj => exact inv_joinLoop (entering_resume h hp hcr) hj
  | gate =>
    refine inv_exitThread hreap (Lists.threadList_nodup (Lists.inv_reap hsys.lists)) hcr ?_
    intro u hpu
    change s.pc s.current = _ at hpu
    rw [hp] at hpu
    cases hpu
  | exited =>
    refine inv_quiet hreap rfl rfl rfl (fun _ => rfl) (fun _ => rfl) (fun _ => Iff.rfl) ?_
      (fun _ _ hr => hr) ?_
    · intro t
      refine .inl ?_
      by_cases ht : t = s.current
      · subst ht
        simpa [State.suspend, reap] using hp.symm
      · simp [State.suspend, reap, ht]
    · intro hm
      cases hm

theorem inv_dead {s : State} (h : Inv s) (why : Abort) : Inv { s with mode := .dead why } :=
  inv_quiet h rfl rfl rfl (fun _ => rfl) (fun _ => rfl) (fun _ => Iff.rfl) (fun _ => .inl rfl)
    (fun _ _ hr => hr) (by simp)

theorem inv_step {s s' : State} {e : Event} (h : Inv s) (hsys : WaitQueue.Sys s)
    (hone : joinedOnce s e = true) (hs : step s e = some s') : Inv s' := by
  cases step_inv hs with
  | call hu ha he => exact inv_exec h hsys hu ha hone he
  | callAbort => exact inv_dead h _
  | @switch _ n th hm hth =>
    refine inv_quiet h rfl rfl rfl (fun t => (expire_frame (hth t)).2.1)
      (fun t => (expire_frame (hth t)).2.2) ?_ (fun _ => .inl rfl)
      (fun t _ hr => expire_runnable (hth t) hr) (by simp)
    intro t
    exact ((List.perm_append_singleton n _).trans (List.perm_cons_erase hm).symm).mem_iff
  | idle hth =>
    exact inv_quiet h rfl rfl rfl (fun t => (expire_frame (hth t)).2.1)
      (fun t => (expire_frame (hth t)).2.2) (fun _ => Iff.rfl) (fun _ => .inl rfl)
      (fun t _ hr => expire_runnable (hth t) hr) (by simp)
  | @extWake t =>
    refine inv_quiet h rfl rfl rfl (fun u => wake_mustjoin t u s) (fun u => wake_joined t u s)
      (fun _ => Iff.rfl) (fun _ => .inl rfl) ?_ h.user
    intro u _ hr
    simp [hr]
  | resume hb he => exact inv_resume h hsys hb rfl he
  | resumeAbort => exact inv_dead h _

theorem inv_run {s₀ s : State} {tr : List (State × Event)} (h₀ : Inv s₀) (hsys : WaitQueue.Sys s₀)
    (hr : Run step s₀ tr s) (hg : Guarded (fun s e => joinedOnce s e) tr) : Inv s :=
  (Run.invariant (I := fun s => WaitQueue.Sys s ∧ Inv s) ⟨hsys, h₀⟩
    (fun _ _ _ h hone hs => ⟨WaitQueue.sys_step h.1 hs, inv_step h.2 h.1 hone hs⟩) hr hg).2

/-! ## Consequences -/

/-- The step `e` executes `join_thread` for `t`: the call itself, or another
turn of its loop by a joiner that has been given the processor. -/
def Joins (s : State) (e : Event) (t : Tid) : Prop :=
  e = .call (.joinThread t) ∨ e = .resume ∧ s.pc s.current = .join t

/-- A target with both flags is at its gate. -/
theorem at_gate {s : State} (h : Inv s) {t : Tid} (hj : (s.thread t).joined = true)
    (hm : (s.thread t).mustjoin = true) : s.pc t = .exitGate := by
  rcases h.gate t hj with hg | ⟨_, hn⟩
  · exact hg
  · simp [hm] at hn

theorem joinLoop_returns {t : Tid} {s s' : State} (he : joinLoop t s = .ok s')
    (hu : s'.mode = .user) : (s.thread t).joined = true := by
  obtain ⟨_, ⟨hj, rfl⟩ | ⟨_, rfl⟩⟩ := joinLoop_ok he
  · exact hj
  · cases hu

theorem joins_returns {s s' : State} {e : Event} {t : Tid} (h : Inv s)
    (hs : step s e = some s') (hjn : Joins s e t) (hu : s'.mode = .user) :
    s.pc t = .exitGate := by
  rcases hjn with rfl | ⟨rfl, hp⟩
  · cases step_inv hs with
    | call _ _ he =>
      obtain ⟨_, hm, hl⟩ := joinThread_ok he
      have hj := joinLoop_returns hl hu
      exact at_gate h hj hm
    | callAbort => cases hu
  · cases step_inv hs with
    | resume _ he =>
      rw [hp] at he
      have hj := joinLoop_returns (t := t) he hu
      exact at_gate h hj (h.joins _ _ hp).2.1
    | resumeAbort => cases hu

theorem joinLoop_clears {t u : Tid} {s s' : State} (he : joinLoop t s = .ok s')
    (hm : (s.thread u).mustjoin = true) (hm' : (s'.thread u).mustjoin = false) : u = t := by
  obtain ⟨_, ⟨_, rfl⟩ | ⟨_, rfl⟩⟩ := joinLoop_ok he
  · by_contra hut
    simp [State.toUser, wake, State.setThread, hut, hm] at hm'
  · simp [State.suspend, hm] at hm'

theorem exitThread_mustjoin (s : State) (u : Tid) :
    ((exitThread s).thread u).mustjoin = (s.thread u).mustjoin := by
  obtain ⟨th, tl, ex, p, he, -, -, hmust⟩ := exitThread_frame s
  rw [he]
  exact hmust u

theorem exec_clears {c : Call} {s s' : State} {u : Tid} (ha : c.allowed s = true)
    (he : exec s c = .ok s') (hu : u ∈ s.created) (hm : (s.thread u).mustjoin = true)
    (hm' : (s'.thread u).mustjoin = false) : c = .joinThread u := by
  cases exec_inv he with
  | calm hc =>
    rw [hc.mustjoin, hm] at hm'
    cases hm'
  | @create t =>
    have hut : u ≠ t := by
      rintro rfl
      simp [Call.allowed, hu] at ha
    simp [threadMade, State.setThread, hut, hm] at hm'
  | exit =>
    rw [exitThread_mustjoin, hm] at hm'
    cases hm'
  | join _ hl => rw [joinLoop_clears hl hm hm']
  | setCurlwp =>
    by_cases hut : u = s.current
    · subst hut
      simp [State.setThread, hm] at hm'
    · simp [State.setThread, hut, hm] at hm'

theorem resume_clears {p : Pc} {s s' : State} {u : Tid} (he : resume s p = .ok s')
    (hm : (s.thread u).mustjoin = true) (hm' : (s'.thread u).mustjoin = false) : p = .join u := by
  cases resume_inv he with
  | running | fresh => simp [State.toUser, hm] at hm'
  | yield | sleep => simp [State.toUser, reap, hm] at hm'
  | wait ht =>
    have hold : ((reap s).thread u).mustjoin = true := hm
    rw [(waited_calm ht).mustjoin, hold] at hm'
    cases hm'
  | join hj => rw [joinLoop_clears (u := u) hj hm hm']
  | gate =>
    rw [exitThread_mustjoin] at hm'
    simp [reap, hm] at hm'
  | exited => simp [State.suspend, reap, hm] at hm'

/-- Only `join_thread` clears `THREAD_MUSTJOIN`. -/
theorem mustjoin_cleared {s s' : State} {e : Event} {t : Tid} (hs : step s e = some s')
    (ht : t ∈ s.created) (hm : (s.thread t).mustjoin = true)
    (hm' : (s'.thread t).mustjoin = false) : Joins s e t := by
  cases step_inv hs with
  | call _ ha he => exact .inl (by rw [exec_clears ha he ht hm hm'])
  | callAbort => simp [hm] at hm'
  | switch _ hth => simp [(expire_frame (hth t)).2.1, hm] at hm'
  | idle hth => simp [(expire_frame (hth t)).2.1, hm] at hm'
  | extWake => simp [hm] at hm'
  | resume _ he => exact .inr ⟨rfl, resume_clears he hm hm'⟩
  | resumeAbort => simp [hm] at hm'

/-- The handshake, in every state reached from `init_sched` by a run in which
no two threads join the same one. A step of `join_thread` that returns finds
its target at the gate of `exit_thread`. A thread with `THREAD_MUSTJOIN` is on
`thread_list` and not freed, and only `join_thread` for it clears the flag.
While both flags are set the joiner is runnable; once the joiner has cleared
one, the target is runnable for as long as it is on the list. -/
theorem join_exit_handshake {t₀ : Tid} {tr : List (State × Event)} {s : State}
    (hr : Run step (initSched t₀) tr s) (hg : Guarded (fun s e => joinedOnce s e) tr) :
    (∀ e s' t, step s e = some s' → Joins s e t → s'.mode = .user → s.pc t = .exitGate) ∧
    (∀ t ∈ s.created, (s.thread t).mustjoin = true → t ∈ s.threadList ∧ t ∉ s.freed) ∧
    (∀ e s' t, step s e = some s' → t ∈ s.created → (s.thread t).mustjoin = true →
      (s'.thread t).mustjoin = false → Joins s e t) ∧
    (∀ t j, (s.thread t).joined = true → (s.thread t).mustjoin = true → s.joiner t = some j →
      (s.thread j).runnable = true) ∧
    (∀ t ∈ s.threadList, (s.thread t).joined = true → (s.thread t).mustjoin = false →
      (s.thread t).runnable = true) := by
  have hsys₀ : WaitQueue.Sys (initSched t₀) := WaitQueue.sys_boot _ _ _ (by simp)
  have hsys : WaitQueue.Sys s := WaitQueue.sys_run hsys₀ hr
  have hi : Inv s := inv_run (inv_boot _ _ _) hsys₀ hr hg
  refine ⟨fun e s' t => joins_returns hi, ?_, fun e s' t => mustjoin_cleared, ?_, hi.released⟩
  · intro t ht hm
    have hl := hi.listed t ht hm
    refine ⟨hl, fun hf => ?_⟩
    have hd := (List.nodup_append.mp (Lists.lists_nodup hsys.lists)).2.2
    exact hd t (List.mem_append_left _ hl) t hf rfl
  · intro t j hj hm hjn
    rcases hi.joiner j t hjn with hp | ⟨_, hn⟩
    · exact hi.awake j t hp hj
    · simp [hm] at hn

/-- The handshake at work where the joiner comes first: the target stops at
its gate, and the joiner that had blocked is runnable. -/
theorem join_exit_handshake_joiner_first : ∃ tr s, Run step (initSched 0) tr s ∧
    s.pc 1 = .exitGate ∧ (s.thread 1).runnable = false ∧ (s.thread 0).runnable = true ∧
    1 ∈ s.threadList := by
  obtain ⟨tr, s, hr, hp⟩ := exists_run (f := step) (s := initSched 0)
    [.call (.createThread (some 1) true false true), .call (.joinThread 1), .pass 0, .resume,
      .call .exitThread]
    (p := fun tr s => Guarded (fun s e => joinedOnce s e) tr ∧
      s.pc 1 = .exitGate ∧ (s.thread 1).runnable = false ∧ (s.thread 1).joined = true ∧
      (s.thread 1).mustjoin = true ∧ s.joiner 1 = some 0 ∧ 1 ∈ s.created) (by decide)
  rw [decide_eq_true_eq] at hp
  obtain ⟨hg, hpc, hblk, hj, hm, hjn, hc⟩ := hp
  obtain ⟨_, hlist, _, hrun, _⟩ := join_exit_handshake hr hg
  exact ⟨tr, s, hr, hpc, hblk, hrun 1 0 hj hm hjn, (hlist 1 hc hm).1⟩

end Frankenlibc.Threads.Join

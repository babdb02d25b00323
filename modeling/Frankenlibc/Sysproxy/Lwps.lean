import Frankenlibc.Sysproxy.Dispatch

/-!
# The lwps of the server thread

`dosend` runs on an lwp of its own and is expected to leave its caller's as it
was. It does when the host takes the message and the lwp could be made; it also
does, by accident, when neither is the case. A handler sends at most one reply,
as its last call that can fail, so the whole of `handlereq` is judged by the
part of the script from `newlwp` on.
-/
namespace Frankenlibc.Sysproxy

open Frankenlibc.Lib

variable {w w' u v : Server}

/-- Each release was applied to the lwp its caller had switched to. -/
def Good (rs : List (Option Lwp × Option Lwp)) : Prop := ∀ r ∈ rs, r.1.isSome ∧ r.1 = r.2

/-- No temporary lwp is left. -/
def Gone (w : Server) : Prop := ∀ t ∈ w.temps, ∀ l ∈ w.lwps, l.1 ≠ t

/-- How a handler has to leave the lwps. -/
structure Clean (w : Server) : Prop where
  cur : w.cur = none
  gone : Gone w
  good : Good w.releases

/-- How a handler finds the lwps: none is current, nothing is on record yet,
and the next lwp made is not one of those known. -/
structure Entry (w : Server) : Prop where
  cur : w.cur = none
  temps : w.temps = []
  releases : w.releases = []
  fresh : ∀ pf ∈ w.preforks, pf.lwp < w.fresh

/-- The lwp for the reply could be made exactly if the host took the reply;
vacuous if there was none. -/
def balanced : List Outcome → Bool
  | [] => true
  | .newlwp ok :: hs => ok == !hs.any fatal
  | _ :: os => balanced os

/-! ## After a reply -/

theorem good_nil : Good [] := fun _ h => absurd h List.not_mem_nil

theorem Good.snoc {rs : List (Option Lwp × Option Lwp)} {l : Lwp} (h : Good rs) :
    Good (rs ++ [(some l, some l)]) := by
  intro r hr
  rcases List.mem_append.mp hr with hr | hr
  · exact h r hr
  · rw [List.mem_singleton] at hr
    subst hr
    exact ⟨rfl, rfl⟩

/-- A reply in balance leaves the current lwp and no other trace. -/
theorem Sent.balanced {bs : List UInt8} {os : List Outcome} {ok refused : Bool}
    (h : Sent u bs os ok refused v) (hb : ok = !refused) (ht : u.temps = [])
    (hr : Good u.releases) : v.cur = u.cur ∧ Gone v ∧ Good v.releases := by
  cases h with
  | fine =>
    refine ⟨rfl, ?_, hr.snoc⟩
    intro t hmem l hl
    simp only [ht, List.nil_append, List.mem_singleton] at hmem
    subst hmem
    simpa using (List.mem_filter.mp hl).2
  | leaked => cases hb
  | misreleased => cases hb
  | idle =>
    refine ⟨rfl, ?_, hr⟩
    intro t hmem
    simp only [ht] at hmem
    cases hmem

/-- A reply out of balance leaves its lwp current, or has released one that
was not its own. -/
theorem Sent.unbalanced {bs : List UInt8} {os : List Outcome} {ok refused : Bool}
    (h : Sent u bs os ok refused v) (hb : ok ≠ !refused) :
    (v.cur = some u.fresh ∧ u.fresh ∈ v.temps ∧ (u.fresh, 1) ∈ v.lwps) ∨
      (none, u.cur) ∈ v.releases := by
  cases h with
  | fine => exact absurd rfl hb
  | leaked => exact .inl ⟨rfl, by simp, by simp⟩
  | misreleased => exact .inr (by simp)
  | idle => exact absurd rfl hb

theorem not_good {rs : List (Option Lwp × Option Lwp)} {c : Option Lwp} (h : (none, c) ∈ rs) :
    ¬ Good rs := by
  intro hg
  exact absurd (hg _ h).1 (by simp)

/-- What is clean after a balanced reply and after no other, is clean exactly
if the reply is balanced. -/
theorem Replied.judge (h : Replied u v) (hs : v.script = []) (ht : u.temps = [])
    (hg : Good u.releases) {C : Prop} (hfine : v.cur = u.cur → Gone v → Good v.releases → C)
    (hleak : v.cur = some u.fresh → u.fresh ∈ v.temps → (u.fresh, 1) ∈ v.lwps → ¬ C)
    (hmis : (none, u.cur) ∈ v.releases → ¬ C) : C ↔ balanced u.script = true := by
  obtain ⟨ok, hs', bs, hscript, hsent⟩ := h
  rw [hs, List.append_nil] at hscript
  rw [hscript, balanced, beq_iff_eq]
  constructor
  · intro hc
    by_contra hb
    rcases hsent.unbalanced hb with ⟨hcur, htemp, hlwp⟩ | hrel
    · exact hleak hcur htemp hlwp hc
    · exact hmis hrel hc
  · intro hb
    obtain ⟨hcur, hgone, hgood⟩ := hsent.balanced hb ht hg
    exact hfine hcur hgone hgood

/-- A reply from no lwp, and nothing after it. -/
theorem Replied.clean_iff (h : Replied u v) (hs : v.script = []) (hc : u.cur = none)
    (ht : u.temps = []) (hg : Good u.releases) : Clean v ↔ balanced u.script = true := by
  refine h.judge hs ht hg (fun hcur hgone hgood => ⟨hcur.trans hc, hgone, hgood⟩)
    (fun hcur _ _ hcl => ?_) fun hrel hcl => not_good hrel hcl.good
  rw [hcl.cur] at hcur
  cases hcur

/-- A reply from any lwp, and `lwproc_switch(NULL)` after it. -/
theorem Replied.clean_switch_iff (h : Replied u v) (hs : v.script = []) (ht : u.temps = [])
    (hg : Good u.releases) : Clean (lwprocSwitch none v) ↔ balanced u.script = true :=
  h.judge hs ht hg (fun _ hgone hgood => ⟨rfl, hgone, hgood⟩)
    (fun _ htemp hlwp hcl => hcl.gone _ htemp _ hlwp rfl) fun hrel hcl => not_good hrel hcl.good

/-- A reply from the lwp `l`, and its release after it. -/
theorem Replied.clean_release_iff {l : Lwp} (h : Replied u v) (hs : v.script = [])
    (hc : u.cur = some l) (hl : l < u.fresh) (ht : u.temps = []) (hg : Good u.releases) :
    Clean (lwprocRelease (some l) v) ↔ balanced u.script = true := by
  refine h.judge hs ht hg (fun hcur hgone hgood => ?_) (fun hcur _ _ hcl => ?_) fun hrel hcl => ?_
  · refine ⟨rfl, fun t hmem k hk => hgone t hmem k (List.mem_filter.mp hk).1, ?_⟩
    show Good (v.releases ++ [(some l, v.cur)])
    rw [hcur, hc]
    exact hgood.snoc
  · -- the temporary lwp was released in its place
    have hlast := (hcl.good (some l, v.cur) (List.mem_append_right _ (by simp))).2
    simp only [hcur, Option.some.injEq] at hlast
    exact Nat.ne_of_lt hl hlast
  · exact not_good (List.mem_append_left _ hrel) hcl.good

/-! ## The parts of `handlereq` -/

theorem clean_onSpc {f : Client → Client} : Clean (onSpc f v) ↔ Clean v :=
  ⟨fun h => ⟨h.cur, h.gone, h.good⟩, fun h => ⟨h.cur, h.gone, h.good⟩⟩

theorem rfork_balanced {flags : Rfork} {b : Bool} {w₁ : Server}
    (h : lwprocRfork flags w = .ok (b, w₁)) :
    balanced w.script = balanced w₁.script := by
  obtain ⟨os, hos, rfl⟩ := rfork_inv h
  cases b <;> rw [hos] <;> rfl

theorem rfork_records {flags : Rfork} {b : Bool} {w₁ : Server}
    (h : lwprocRfork flags w = .ok (b, w₁)) :
    w₁.temps = w.temps ∧ w₁.releases = w.releases := by
  obtain ⟨os, _, rfl⟩ := rfork_inv h
  cases b <;> exact ⟨rfl, rfl⟩

theorem sbaAlloc_balanced {n : Nat} {b : Bool} {os os' : List Outcome}
    (h : sbaAlloc n os = .ok (b, os')) : balanced os = balanced os' := by
  fun_induction sbaAlloc n os with
  | case1 os =>
    cases h
    rfl
  | case2 os hn =>
    cases h
    rfl
  | case3 os hn ih => exact ih h
  | case4 => cases h

theorem Entry.clean (h : Entry w) : Clean w := by
  refine ⟨h.cur, ?_, ?_⟩
  · intro t ht
    rw [h.temps] at ht
    cases ht
  · rw [h.releases]
    exact good_nil

theorem Entry.good (h : Entry w) : Good w.releases := h.clean.good

/-- An error reply, and then nothing that concerns lwps. -/
theorem refused_clean_iff {reqno : Nat} {e : RspErr} {f : Client → Client} (hc : u.cur = none)
    (ht : u.temps = []) (hg : Good u.releases) (h : sendErrorResp reqno e u = .ok v)
    (hs : v.script = []) : Clean (onSpc f v) ↔ balanced u.script = true :=
  clean_onSpc.trans ((replied_of_map h).clean_iff hs hc ht hg)

theorem schedulework_clean_iff {t : SbaType} (hc : w.cur = none) (ht : w.temps = [])
    (hr : w.releases = []) (h : schedulework t w = .ok w') (hs : w'.script = []) :
    Clean w' ↔ balanced w.script = true := by
  have hg : Good w.releases := by
    rw [hr]
    exact good_nil
  obtain ⟨ok, os, ha, hw⟩ := schedulework_inv h
  rw [sbaAlloc_balanced ha]
  cases ok with
  | true =>
    rw [if_pos rfl] at hw
    subst hw
    have hos : os = [] := hs
    refine ⟨fun _ => by rw [hos]; rfl, fun _ => ⟨hc, ?_, hg⟩⟩
    intro t' ht'
    simp only [ht] at ht'
    cases ht'
  | false =>
    obtain ⟨v, hv, rfl⟩ := hw
    exact refused_clean_iff (u := { w.note .schedulework with script := os }) hc ht hg hv hs

theorem handshakeDone_clean_iff {reqno : Nat} (ht : w.temps = []) (hg : Good w.releases)
    (h : handshakeDone reqno w = .ok w') (hs : w'.script = []) :
    Clean w' ↔ balanced w.script = true := by
  obtain ⟨v, hv, rfl⟩ := handshakeDone_inv h
  refine clean_onSpc.trans (Iff.trans ?_ (hv.clean_switch_iff hs ht hg))
  exact clean_onSpc (v := lwprocSwitch none v) (f := fun c => { c with pid := lwprocGetpid v })

theorem handshakeGuest_clean_iff {reqno : Nat} (he : Entry w) (h : handshakeGuest reqno w = .ok w')
    (hs : w'.script = []) : Clean w' ↔ balanced w.script = true := by
  obtain ⟨comm, ok, w₁, _, hf, hw⟩ := handshakeGuest_inv h
  have hbal : balanced w.script = balanced w₁.script := (rfork_balanced hf :)
  obtain ⟨ht₁, hr₁⟩ := rfork_records hf
  rw [hbal]
  cases ok with
  | true =>
    exact handshakeDone_clean_iff (w := onSpc _ (onSpc spcfreebuf w₁)) (ht₁.trans he.temps)
      (hr₁.symm ▸ he.good) hw hs
  | false =>
    obtain ⟨os, _, hw₁⟩ := rfork_inv hf
    subst hw₁
    cases hw
    have hos : os = [] := hs
    subst hos
    exact ⟨fun _ => rfl, fun _ => ⟨he.cur, he.clean.gone, he.good⟩⟩

theorem handshakeForkWith_clean_iff {reqno cancel : Nat} {l : Lwp} (ht : w.temps = [])
    (hr : w.releases = []) (hl : l < w.fresh) (h : handshakeForkWith reqno cancel l w = .ok w')
    (hs : w'.script = []) : Clean w' ↔ balanced w.script = true := by
  have hgood : Good (w.releases ++ [(some l, some l)]) := by
    rw [hr]
    exact good_nil.snoc
  obtain ⟨_, rfl⟩ | ⟨_, ok, w₁, hf, hw⟩ := handshakeForkWith_inv h
  · have hos : w.script = [] := hs
    rw [hos]
    refine ⟨fun _ => rfl, fun _ => ⟨rfl, fun t hmem => ?_, hgood⟩⟩
    have hmem' : t ∈ w.temps := hmem
    rw [ht] at hmem'
    cases hmem'
  · have hbal : balanced w.script = balanced w₁.script := (rfork_balanced hf :)
    obtain ⟨ht₁, hr₁⟩ := rfork_records hf
    rw [hbal]
    cases ok with
    | true =>
      have hgood₁ : Good (w₁.releases ++ [(some l, some l)]) := by
        rw [hr₁]
        exact hgood
      exact handshakeDone_clean_iff
        (w := lwprocSwitch _ (lwprocRelease (some l) (lwprocSwitch (some l) (onSpc _ w₁))))
        (ht₁.trans ht) hgood₁ hw hs
    | false =>
      obtain ⟨os, _, hw₁⟩ := rfork_inv hf
      subst hw₁
      obtain ⟨v, hv, rfl⟩ := hw
      have hd := (replied_of_map hv).clean_release_iff hs rfl hl ht (by exact hr ▸ good_nil)
      refine Iff.trans ?_ hd
      exact clean_onSpc (f := shutdown) (v := lwprocRelease (some l) v)

theorem handshakeFork_clean_iff {reqno : Nat} (he : Entry w) (h : handshakeFork reqno w = .ok w')
    (hs : w'.script = []) : Clean w' ↔ balanced w.script = true := by
  obtain ⟨_, u, hu, rfl⟩ | ⟨_, rfp, _, ⟨_, u, hu, rfl⟩ | ⟨pf, hpf, h⟩⟩ := handshakeFork_inv h
  · exact refused_clean_iff (f := fun c => spcfreebuf (shutdown c)) he.cur he.temps he.good hu hs
  · exact refused_clean_iff (u := onSpc spcfreebuf w) he.cur he.temps he.good hu hs
  · have hmem : pf ∈ w.preforks := List.mem_of_find?_eq_some hpf
    exact handshakeForkWith_clean_iff (w := onSpc spcfreebuf { w with preforks := _ })
      he.temps he.releases (he.fresh pf hmem) h hs

theorem preforkWith_clean_iff {reqno : Nat} (he : Entry w) (h : preforkWith reqno w = .ok w')
    (hs : w'.script = []) : Clean w' ↔ balanced w.script = true := by
  obtain ⟨ok, w₁, hf, hw⟩ := preforkWith_inv h
  have hbal : balanced w.script = balanced w₁.script := (rfork_balanced hf :)
  obtain ⟨ht₁, hr₁⟩ := rfork_records hf
  have hg₁ : Good w₁.releases := by
    rw [hr₁]
    exact he.good
  rw [hbal]
  cases ok with
  | true =>
    obtain ⟨auth, os, l, hscript, _, hu⟩ := hw
    rw [hscript]
    exact (replied_of_map hu).clean_iff hs rfl (ht₁.trans he.temps) hg₁
  | false =>
    obtain ⟨v, hv, rfl⟩ := hw
    exact (replied_of_map hv).clean_switch_iff hs (ht₁.trans he.temps) hg₁

theorem prefork_clean_iff {reqno : Nat} (he : Entry w) (h : prefork reqno w = .ok w')
    (hs : w'.script = []) : Clean w' ↔ balanced w.script = true := by
  obtain ⟨_, u, hu, rfl⟩ | ⟨_, ok, os, hos, hw⟩ := prefork_inv h
  · exact refused_clean_iff (u := onSpc spcfreebuf w) he.cur he.temps he.good hu hs
  · rw [hos]
    cases ok with
    | true =>
      have he' : Entry { onSpc spcfreebuf w with script := os } :=
        ⟨he.cur, he.temps, he.releases, he.fresh⟩
      exact preforkWith_clean_iff he' hw hs
    | false => exact (replied_of_map hw).clean_iff hs he.cur he.temps he.good

/-! ## The discipline -/

/-- A request handled from no current lwp leaves the lwps in order exactly if
the lwp for its reply could be made just when the host took the reply: no
current lwp, no temporary one, and no release of another's. -/
theorem lwp_discipline_iff (he : Entry w) (h : handlereq w = .ok w') (hs : w'.script = []) :
    Clean w' ↔ balanced w.script = true := by
  cases handlereq_inv h with
  | stranger _ _ hu | again _ _ _ hu =>
    exact refused_clean_iff (f := fun c => spcfreebuf (shutdown c)) he.cur he.temps he.good hu hs
  | guest _ _ _ h => exact handshakeGuest_clean_iff he h hs
  | fork _ _ _ h => exact handshakeFork_clean_iff he h hs
  | prefork _ _ h => exact prefork_clean_iff he h hs
  | exec _ _ _ _ h =>
    exact schedulework_clean_iff
      (w := lwprocSwitch none (Server.note _ (lwprocSwitch _ (onSpc _ w)))) rfl he.temps he.releases
      h hs
  | malformed _ _ _ _ hu => exact refused_clean_iff he.cur he.temps he.good hu hs
  | syscall _ _ h => exact schedulework_clean_iff he.cur he.temps he.releases h hs

/-- A guest that asks for a request type that does not exist. -/
def nonsense (script : List Outcome) : Server :=
  { freshServer with
    spc := { freshServer.spc with state := .running, hdr := Bytes.ofList (rspHdr 24 7 0 5 0) }
    script := script }

/-- The refusal goes out in two pieces. -/
theorem lwp_discipline_iff_pieces : ∃ w',
    handlereq (nonsense [.newlwp true, .sent 10, .polled, .sent 14]) = .ok w' ∧
    w'.wire.length = 24 ∧ w'.temps = [2] ∧ Clean w' := by
  have hrun : ∃ w', handlereq (nonsense [.newlwp true, .sent 10, .polled, .sent 14]) = .ok w' ∧
      w'.wire.length = 24 ∧ w'.temps = [2] ∧ w'.script = [] := ⟨_, rfl, by decide, rfl, rfl⟩
  obtain ⟨w', h, hwire, htemps, hs⟩ := hrun
  have he : Entry (nonsense [.newlwp true, .sent 10, .polled, .sent 14]) :=
    ⟨rfl, rfl, rfl, fun _ hpf => absurd hpf List.not_mem_nil⟩
  exact ⟨w', h, hwire, htemps, (lwp_discipline_iff he h hs).mpr rfl⟩

/-- The client is gone when the refusal is sent: the temporary lwp stays
current. -/
theorem lwp_discipline_fails : ∃ w',
    Entry (nonsense [.newlwp true, .sendErr .pipe]) ∧
    handlereq (nonsense [.newlwp true, .sendErr .pipe]) = .ok w' ∧
    w'.cur = some 2 ∧ 2 ∈ w'.temps ∧ (2, 1) ∈ w'.lwps ∧ ¬ Clean w' := by
  refine ⟨_, ⟨rfl, rfl, rfl, fun _ hpf => absurd hpf List.not_mem_nil⟩, rfl, rfl, by decide,
    by decide, fun h => ?_⟩
  exact absurd h.cur (by decide)

end Frankenlibc.Sysproxy

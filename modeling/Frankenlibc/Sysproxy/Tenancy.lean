import Frankenlibc.Sysproxy.Slots
import Mathlib.Data.Multiset.Filter
import Mathlib.Data.Multiset.Count

/-!
# Counted tenancies

What the client table is for, without its threads: a slot belongs to one
connection at a time, until everybody who refers to it has let go. The books
list who does: the work items, the disconnect that still holds the connection's
own reference, and the tear-downs under way. Every step changes one slot and
one connection, so the invariant says of each slot where its connection stands
(`Stands`) and of each connection how far its tear-down is (`Fate`).
-/
namespace Frankenlibc.Sysproxy

/-- A slot in the books; `taken` says that it has a descriptor to poll. -/
structure Tenant where
  taken : Bool
  state : SpcState
  refcnt : Int
  conn : Nat

@[ext]
structure Books where
  slot : Nat → Tenant
  works : Multiset Work
  tears : Multiset Tear
  closing : Option Nat
  ended : List Nat
  torn : List (TearPhase × Nat)
  conns : Nat

namespace Books

variable {b : Books} {i j c : Nat}

/-- How many items refer to slot `i`. -/
def load (b : Books) (i : Nat) : Nat := b.works.countP (·.spc = i)

/-- Where the tear-downs of connection `c` are. -/
def doing (b : Books) (c : Nat) : Multiset TearPhase :=
  (b.tears.filter (·.conn = c)).map Tear.phase

/-- What has been torn down of connection `c`. -/
def done (b : Books) (c : Nat) : List TearPhase := (b.torn.filter (·.2 = c)).map Prod.fst

/-! ## Steps -/

/-- A reference to slot `i` is dropped; what is left of the items and of the
disconnect is given. -/
def drop (i : Nat) (works : Multiset Work) (closing : Option Nat) (b : Books) : Books :=
  { b with
    slot := Function.update b.slot i { b.slot i with refcnt := (b.slot i).refcnt - 1 }
    works := works
    closing := closing
    tears := if (b.slot i).refcnt - 1 > 0 then b.tears
      else ⟨i, (b.slot i).conn, .mainlwp⟩ ::ₘ b.tears }

/-- A tear-down has its next effect, beside those in `rest`. -/
def tearDown (t : Tear) (rest : Multiset Tear) (b : Books) : Books :=
  { b with
    slot := if t.phase = .renew
      then Function.update b.slot t.slot { b.slot t.slot with state := .new } else b.slot
    tears := t.next.elim rest (· ::ₘ rest)
    torn := b.torn ++
      [(t.phase, if t.phase = .signal then t.conn else (b.slot t.slot).conn)] }

inductive Step (b : Books) : Books → Prop
  /-- The handshake changes the state of a slot that is taken. -/
  | quiet {slot : Nat → Tenant} (h : ∀ i, slot i = b.slot i ∨
      (b.slot i).taken = true ∧ ∃ st, slot i = { b.slot i with state := st }) :
      Step b { b with slot := slot }
  | connect {i : Nat} (hi : i ≠ 0) (ht : (b.slot i).taken = false)
      (hs : (b.slot i).state = .new) : Step b { b with
        slot := Function.update b.slot i ⟨true, .new, 1, b.conns + 1⟩
        conns := b.conns + 1 }
  | take {w : Work} (hi : w.spc ≠ 0) (ht : (b.slot w.spc).taken = true)
      (hc : w.conn = (b.slot w.spc).conn) : Step b { b with
        slot := Function.update b.slot w.spc
          { b.slot w.spc with refcnt := (b.slot w.spc).refcnt + 1 }
        works := w ::ₘ b.works }
  | leave {i : Nat} (hi : i ≠ 0) (ht : (b.slot i).taken = true) (hc : b.closing = none) :
      Step b { b with
        slot := Function.update b.slot i { b.slot i with taken := false, state := .dying }
        closing := some i
        ended := b.ended ++ [(b.slot i).conn] }
  | finish {w : Work} {rest : Multiset Work} (hw : b.works = w ::ₘ rest) :
      Step b (b.drop w.spc rest b.closing)
  | left {i : Nat} (hi : b.closing = some i) : Step b (b.drop i b.works none)
  | tear {t : Tear} {rest : Multiset Tear} (ht : b.tears = t ::ₘ rest) :
      Step b (b.tearDown t rest)

/-! ## The invariant -/

/-- The effects of a tear-down. -/
def allTorn : List TearPhase := [.mainlwp, .close, .renew, .signal]

/-- The effects before a given one. -/
def before : TearPhase → List TearPhase
  | .mainlwp => []
  | .close => [.mainlwp]
  | .renew => [.mainlwp, .close]
  | .signal => [.mainlwp, .close, .renew]

/-- What the books say of a slot and of the connection it was last given to. -/
structure Status where
  tenant : Tenant
  load : Nat
  leaving : Prop
  doing : Multiset TearPhase
  done : List TearPhase
  ended : Prop

def status (b : Books) (i : Nat) : Status :=
  ⟨b.slot i, b.load i, b.closing = some i, b.doing (b.slot i).conn, b.done (b.slot i).conn,
    (b.slot i).conn ∈ b.ended⟩

/-- A connection that nobody has begun to tear down. -/
structure Status.Intact (x : Status) : Prop where
  conn : x.tenant.conn ≠ 0
  doing : x.doing = 0
  done : x.done = []

/-- Where the connection of a slot stands. -/
inductive Stands (x : Status) : Prop
  | free (ht : x.tenant.taken = false) (hs : x.tenant.state = .new) (hr : x.tenant.refcnt = 0)
      (hl : x.load = 0) (hc : ¬ x.leaving) (hd : ∀ p ∈ x.doing, p = .signal)
  | live (ht : x.tenant.taken = true) (hr : x.tenant.refcnt = 1 + x.load) (hc : ¬ x.leaving)
      (hi : x.Intact)
  | leaving (ht : x.tenant.taken = false) (hs : x.tenant.state = .dying)
      (hr : x.tenant.refcnt = 1 + x.load) (hc : x.leaving) (hi : x.Intact) (he : x.ended)
  | draining (ht : x.tenant.taken = false) (hs : x.tenant.state = .dying)
      (hr : x.tenant.refcnt = x.load) (hl : 0 < x.load) (hc : ¬ x.leaving) (hi : x.Intact)
      (he : x.ended)
  | tearing {p : TearPhase} (ht : x.tenant.taken = false) (hs : x.tenant.state = .dying)
      (hr : x.tenant.refcnt = 0) (hl : x.load = 0) (hc : ¬ x.leaving) (hd : x.doing = {p})
      (hp : p ≠ .signal)

/-- How far the tear-down of a connection is: at most one thread is at it, and
what has been done is what comes before its place. -/
inductive Fate (ended : Prop) : Multiset TearPhase → List TearPhase → Prop
  | intact : Fate ended 0 []
  | torn (he : ended) (p : TearPhase) : Fate ended {p} (before p)
  | complete (he : ended) : Fate ended 0 allTorn

structure Inv (b : Books) : Prop where
  stands : ∀ i, i ≠ 0 → Stands (b.status i)
  works : ∀ w ∈ b.works, w.spc ≠ 0 ∧ w.conn = (b.slot w.spc).conn
  tears : ∀ t ∈ b.tears, t.phase ≠ .signal → t.slot ≠ 0 ∧ (b.slot t.slot).conn = t.conn
  closing : ∀ i, b.closing = some i → i ≠ 0
  inj : ∀ i j, (b.slot i).conn ≠ 0 → (b.slot i).conn = (b.slot j).conn → i = j
  bound : ∀ i, (b.slot i).conn ≤ b.conns
  fate : ∀ c, Fate (c ∈ b.ended) (b.doing c) (b.done c)
  fresh : ∀ c, c = 0 ∨ b.conns < c → b.doing c = 0 ∧ b.done c = []

/-! ## What a step leaves alone -/

theorem Stands.congr {b' : Books} (h : Stands (b.status j)) (hs : b'.slot j = b.slot j)
    (hl : b'.load j = b.load j) (hc : b'.closing = some j ↔ b.closing = some j)
    (hd : b'.doing (b.slot j).conn = b.doing (b.slot j).conn)
    (hn : b'.done (b.slot j).conn = b.done (b.slot j).conn)
    (he : (b.slot j).conn ∈ b'.ended ↔ (b.slot j).conn ∈ b.ended) : Stands (b'.status j) := by
  have heq : b'.status j = b.status j := by
    simp only [status, hs, hl, hc, hd, hn, he]
  rw [heq]
  exact h

theorem countP_self {w : Work} {rest : Multiset Work} :
    (w ::ₘ rest).countP (·.spc = w.spc) = rest.countP (·.spc = w.spc) + 1 :=
  Multiset.countP_cons_of_pos _ rfl

theorem countP_other {w : Work} {rest : Multiset Work} (h : i ≠ w.spc) :
    (w ::ₘ rest).countP (·.spc = i) = rest.countP (·.spc = i) :=
  Multiset.countP_cons_of_neg _ (Ne.symm h)

theorem load_pos {w : Work} (h : w ∈ b.works) : 0 < b.load w.spc :=
  Multiset.countP_pos.mpr ⟨w, h, rfl⟩

theorem doing_cons {t : Tear} {rest : Multiset Tear} {b' : Books} (h : b'.tears = t ::ₘ rest) :
    b'.doing c = (if t.conn = c then {t.phase} else 0) +
      (rest.filter (·.conn = c)).map Tear.phase := by
  rw [doing, h, Multiset.filter_cons]
  split <;> simp

theorem mem_doing {t : Tear} (h : t ∈ b.tears) : t.phase ∈ b.doing t.conn :=
  Multiset.mem_map_of_mem _ (Multiset.mem_filter.mpr ⟨h, rfl⟩)

theorem done_snoc {p : TearPhase} {d : Nat} {b' : Books} (h : b'.torn = b.torn ++ [(p, d)]) :
    b'.done c = if d = c then b.done c ++ [p] else b.done c := by
  unfold done
  rw [h, List.filter_append, List.map_append]
  by_cases hd : d = c <;> simp [hd]

theorem mem_done {p : TearPhase} (h : (p, c) ∈ b.torn) : p ∈ b.done c :=
  List.mem_map.mpr ⟨(p, c), List.mem_filter.mpr ⟨h, by simp⟩, rfl⟩

/-! ## Every step keeps the invariant -/

theorem Inv.live (h : Inv b) (hi : i ≠ 0) (ht : (b.slot i).taken = true) :
    (b.slot i).refcnt = 1 + b.load i ∧ b.closing ≠ some i ∧ (b.status i).Intact := by
  cases h.stands i hi with
  | live _ hr hc hint => exact ⟨hr, hc, hint⟩
  | free ht' => exact absurd (ht.symm.trans ht') (by simp)
  | leaving ht' => exact absurd (ht.symm.trans ht') (by simp)
  | draining ht' => exact absurd (ht.symm.trans ht') (by simp)
  | tearing ht' => exact absurd (ht.symm.trans ht') (by simp)

/-- Two slots never have the same connection. -/
theorem Inv.conn_ne (h : Inv b) (hc : (b.slot i).conn ≠ 0) (hj : j ≠ i) :
    (b.slot j).conn ≠ (b.slot i).conn := fun he => hj (h.inj i j hc he.symm).symm

/-- What is left to show when no slot changes hands. -/
theorem Inv.keep {b' : Books} (h : Inv b) (hconn : ∀ i, (b'.slot i).conn = (b.slot i).conn)
    (hconns : b'.conns = b.conns) (hstands : ∀ i, i ≠ 0 → Stands (b'.status i))
    (hworks : ∀ w ∈ b'.works, w.spc ≠ 0 ∧ w.conn = (b.slot w.spc).conn)
    (htears : ∀ t ∈ b'.tears, t.phase ≠ .signal → t.slot ≠ 0 ∧ (b.slot t.slot).conn = t.conn)
    (hclosing : ∀ i, b'.closing = some i → i ≠ 0)
    (hfate : ∀ c, Fate (c ∈ b'.ended) (b'.doing c) (b'.done c))
    (hfresh : ∀ c, c = 0 ∨ b.conns < c → b'.doing c = 0 ∧ b'.done c = []) : Inv b' where
  stands := hstands
  works w hw := by
    rw [hconn]
    exact hworks w hw
  tears t ht hp := by
    rw [hconn]
    exact htears t ht hp
  closing := hclosing
  inj i j := by
    rw [hconn, hconn]
    exact h.inj i j
  bound i := by
    rw [hconn, hconns]
    exact h.bound i
  fate := hfate
  fresh := by
    rw [hconns]
    exact hfresh

theorem conn_update {x : Tenant} (hx : x.conn = (b.slot i).conn) (j : Nat) :
    (Function.update b.slot i x j).conn = (b.slot j).conn := by
  by_cases hj : j = i
  · subst hj
    rw [Function.update_self, hx]
  · rw [Function.update_of_ne hj]

theorem Inv.quiet (h : Inv b) {slot : Nat → Tenant} (hq : ∀ i, slot i = b.slot i ∨
    (b.slot i).taken = true ∧ ∃ st, slot i = { b.slot i with state := st }) :
    Inv { b with slot := slot } := by
  refine h.keep (fun i => ?_) rfl (fun i hi => ?_) h.works h.tears h.closing h.fate h.fresh
  · show (slot i).conn = (b.slot i).conn
    rcases hq i with hs | ⟨_, st, hs⟩ <;> rw [hs]
  · rcases hq i with hs | ⟨ht, st, hs⟩
    · exact (h.stands i hi).congr hs rfl Iff.rfl rfl rfl Iff.rfl
    · obtain ⟨hr, hc, hint⟩ := h.live hi ht
      have heq : ({ b with slot := slot } : Books).status i =
          { b.status i with tenant := { b.slot i with state := st } } := by
        simp only [status, hs]
        rfl
      rw [heq]
      exact .live ht hr hc ⟨hint.conn, hint.doing, hint.done⟩

/-- A slot that passes the test of `serv_handleconn`. -/
theorem Inv.vacant (h : Inv b) (hi : i ≠ 0) (ht : (b.slot i).taken = false)
    (hs : (b.slot i).state = .new) : (b.slot i).refcnt = 0 ∧ b.load i = 0 ∧
      b.closing ≠ some i ∧ ∀ p ∈ b.doing (b.slot i).conn, p = .signal := by
  cases h.stands i hi with
  | free _ _ hr hl hc hd => exact ⟨hr, hl, hc, hd⟩
  | live ht' => exact absurd (ht.symm.trans ht') (by simp)
  | leaving _ hs' => exact absurd (hs.symm.trans hs') (by simp)
  | draining _ hs' => exact absurd (hs.symm.trans hs') (by simp)
  | tearing _ hs' => exact absurd (hs.symm.trans hs') (by simp)

theorem Inv.connect (h : Inv b) (hi : i ≠ 0) (ht : (b.slot i).taken = false)
    (hs : (b.slot i).state = .new) : Inv { b with
      slot := Function.update b.slot i ⟨true, .new, 1, b.conns + 1⟩
      conns := b.conns + 1 } := by
  obtain ⟨hr, hl, hc, hd⟩ := h.vacant hi ht hs
  have hnew := h.fresh (b.conns + 1) (.inr (Nat.lt_succ_self _))
  generalize hslot : Function.update b.slot i ⟨true, .new, 1, b.conns + 1⟩ = slot
  have hself : slot i = ⟨true, .new, 1, b.conns + 1⟩ := by
    rw [← hslot]
    exact Function.update_self ..
  have hother : ∀ j, j ≠ i → slot j = b.slot j := by
    intro j hj
    rw [← hslot]
    exact Function.update_of_ne hj ..
  refine ⟨fun j hj => ?_, fun w hw => ?_, fun t htm hp => ?_, h.closing, fun j k hcj he => ?_,
    fun j => ?_, h.fate, fun c hcc => ?_⟩
  · by_cases hji : j = i
    · subst hji
      have heq : ({ b with slot := slot, conns := b.conns + 1 } : Books).status j =
          ⟨⟨true, .new, 1, b.conns + 1⟩, b.load j, b.closing = some j, b.doing (b.conns + 1),
            b.done (b.conns + 1), b.conns + 1 ∈ b.ended⟩ := by
        simp only [status, hself]
        rfl
      rw [heq]
      refine .live rfl ?_ hc ⟨Nat.succ_ne_zero _, hnew.1, hnew.2⟩
      show (1 : Int) = 1 + (b.load j : Int)
      rw [hl]
      rfl
    · exact (h.stands j hj).congr (hother j hji) rfl Iff.rfl rfl rfl Iff.rfl
  · show w.spc ≠ 0 ∧ w.conn = (slot w.spc).conn
    have hwi : w.spc ≠ i := by
      intro he
      have hpos : 0 < b.load w.spc := load_pos hw
      rw [he, hl] at hpos
      exact absurd hpos (Nat.lt_irrefl 0)
    rw [hother _ hwi]
    exact h.works w hw
  · show t.slot ≠ 0 ∧ (slot t.slot).conn = t.conn
    obtain ⟨hts, hconn⟩ := h.tears t htm hp
    have hti : t.slot ≠ i := by
      intro he
      have hm : t.phase ∈ b.doing t.conn := mem_doing htm
      rw [← hconn, he] at hm
      exact hp (hd _ hm)
    rw [hother _ hti]
    exact ⟨hts, hconn⟩
  · have hbound : ∀ k, (b.slot k).conn ≠ b.conns + 1 := by
      intro k he
      have := h.bound k
      omega
    replace hcj : (slot j).conn ≠ 0 := hcj
    replace he : (slot j).conn = (slot k).conn := he
    by_cases hji : j = i <;> by_cases hki : k = i
    · rw [hji, hki]
    · subst hji
      rw [hself, hother k hki] at he
      exact absurd he.symm (hbound k)
    · subst hki
      rw [hself, hother j hji] at he
      exact absurd he (hbound j)
    · rw [hother j hji] at hcj he
      rw [hother k hki] at he
      exact h.inj j k hcj he
  · show (slot j).conn ≤ b.conns + 1
    by_cases hji : j = i
    · subst hji
      rw [hself]
    · rw [hother j hji]
      exact Nat.le_succ_of_le (h.bound j)
  · exact h.fresh c (hcc.imp_right Nat.lt_of_succ_lt)

/-- A slot that changes and stays with its connection. -/
theorem Stands.update {b' : Books} {x : Tenant} (hs : b'.slot = Function.update b.slot i x)
    (hx : x.conn = (b.slot i).conn) (h : Stands ⟨x, b'.load i, b'.closing = some i,
      b'.doing (b.slot i).conn, b'.done (b.slot i).conn, (b.slot i).conn ∈ b'.ended⟩) :
    Stands (b'.status i) := by
  simp only [status, hs, Function.update_self, hx]
  exact h

theorem Inv.take (h : Inv b) {w : Work} (hi : w.spc ≠ 0) (ht : (b.slot w.spc).taken = true)
    (hc : w.conn = (b.slot w.spc).conn) : Inv { b with
      slot := Function.update b.slot w.spc
        { b.slot w.spc with refcnt := (b.slot w.spc).refcnt + 1 }
      works := w ::ₘ b.works } := by
  obtain ⟨hr, hcl, hint⟩ := h.live hi ht
  refine h.keep (conn_update rfl) rfl (fun j hj => ?_) (fun v hv => ?_) h.tears h.closing h.fate
    h.fresh
  · by_cases hji : j = w.spc
    · subst hji
      refine Stands.update (b := b) rfl rfl (.live ht ?_ hcl ⟨hint.conn, hint.doing, hint.done⟩)
      show (b.slot w.spc).refcnt + 1 = 1 + (Multiset.countP (·.spc = w.spc) (w ::ₘ b.works) : Nat)
      rw [countP_self, hr, load]
      push_cast
      omega
    · refine (h.stands j hj).congr (Function.update_of_ne hji ..) ?_ Iff.rfl rfl rfl Iff.rfl
      exact countP_other hji
  · rcases Multiset.mem_cons.mp hv with rfl | hv
    · exact ⟨hi, hc⟩
    · exact h.works v hv

theorem Fate.mono {e e' : Prop} {ps : Multiset TearPhase} {ds : List TearPhase} (he : e → e')
    (h : Fate e ps ds) : Fate e' ps ds := by
  cases h with
  | intact => exact .intact
  | torn h p => exact .torn (he h) p
  | complete h => exact .complete (he h)

theorem Inv.leave (h : Inv b) (hi : i ≠ 0) (ht : (b.slot i).taken = true)
    (hc : b.closing = none) : Inv { b with
      slot := Function.update b.slot i { b.slot i with taken := false, state := .dying }
      closing := some i
      ended := b.ended ++ [(b.slot i).conn] } := by
  obtain ⟨hr, hcl, hint⟩ := h.live hi ht
  refine h.keep (conn_update rfl) rfl (fun j hj => ?_) h.works h.tears ?_ ?_ h.fresh
  · by_cases hji : j = i
    · subst hji
      refine Stands.update (b := b) rfl rfl (.leaving rfl rfl hr rfl
        ⟨hint.conn, hint.doing, hint.done⟩ ?_)
      exact List.mem_append_right _ (List.mem_singleton_self _)
    · refine (h.stands j hj).congr (Function.update_of_ne hji ..) rfl ?_ rfl rfl ?_
      · show some i = some j ↔ b.closing = some j
        simp [hc, Ne.symm hji]
      · simp [h.conn_ne hint.conn hji]
  · intro k hk
    cases hk
    exact hi
  · exact fun c => (h.fate c).mono (List.mem_append_left _)

section Drop

variable {works : Multiset Work} {closing : Option Nat}

variable (h : Inv b) (hsub : ∀ w ∈ works, w ∈ b.works)
  (hload : ∀ j, j ≠ i → works.countP (·.spc = j) = b.load j)
  (hcl : ∀ j, j ≠ i → (closing = some j ↔ b.closing = some j))
include h hsub hload hcl

/-- A reference is dropped and others are left. -/
theorem Inv.drop_some (hcl' : closing = some i → b.closing = some i)
    (hr : (b.slot i).refcnt - 1 > 0)
    (hst : Stands ⟨{ b.slot i with refcnt := (b.slot i).refcnt - 1 }, works.countP (·.spc = i),
      closing = some i, b.doing (b.slot i).conn, b.done (b.slot i).conn,
      (b.slot i).conn ∈ b.ended⟩) : Inv (b.drop i works closing) := by
  have htears : (b.drop i works closing).tears = b.tears := if_pos hr
  have hdoing : ∀ c, (b.drop i works closing).doing c = b.doing c := by
    intro c
    rw [doing, htears]
    rfl
  refine h.keep (conn_update rfl) rfl (fun j hj => ?_) (fun w hw => h.works w (hsub w hw)) ?_ ?_ ?_
    ?_
  · by_cases hji : j = i
    · subst hji
      refine Stands.update (b := b) rfl rfl ?_
      rw [hdoing]
      exact hst
    · exact (h.stands j hj).congr (Function.update_of_ne hji ..) (hload j hji) (hcl j hji)
        (hdoing _) rfl Iff.rfl
  · rw [htears]
    exact h.tears
  · intro j hj
    by_cases hji : j = i
    · subst hji
      exact h.closing j (hcl' hj)
    · exact h.closing j ((hcl j hji).mp hj)
  · intro c
    rw [hdoing]
    exact h.fate c
  · intro c hc
    rw [hdoing]
    exact h.fresh c hc

/-- The last reference is dropped, and the tear-down begins. -/
theorem Inv.drop_last (hi : i ≠ 0) (hcl' : closing ≠ some i)
    (hr : (b.slot i).refcnt - 1 = 0) (hl : works.countP (·.spc = i) = 0)
    (ht : (b.slot i).taken = false) (hs : (b.slot i).state = .dying)
    (hint : (b.status i).Intact) (he : (b.slot i).conn ∈ b.ended) :
    Inv (b.drop i works closing) := by
  have htears : (b.drop i works closing).tears = ⟨i, (b.slot i).conn, .mainlwp⟩ ::ₘ b.tears :=
    if_neg (by omega)
  have hself : (b.drop i works closing).doing (b.slot i).conn = {.mainlwp} := by
    rw [doing_cons htears, if_pos rfl]
    show {TearPhase.mainlwp} + b.doing (b.slot i).conn = {.mainlwp}
    rw [show b.doing (b.slot i).conn = 0 from hint.doing, Multiset.add_zero]
  have hdoing : ∀ c, c ≠ (b.slot i).conn → (b.drop i works closing).doing c = b.doing c := by
    intro c hc
    rw [doing_cons htears, if_neg (Ne.symm hc), Multiset.zero_add]
    rfl
  refine h.keep (conn_update rfl) rfl (fun j hj => ?_) (fun w hw => h.works w (hsub w hw)) ?_ ?_ ?_
    ?_
  · by_cases hji : j = i
    · subst hji
      exact Stands.update (b := b) rfl rfl (.tearing ht hs hr hl hcl' hself (by simp))
    · exact (h.stands j hj).congr (Function.update_of_ne hji ..) (hload j hji) (hcl j hji)
        (hdoing _ (h.conn_ne hint.conn hji)) rfl Iff.rfl
  · intro t ht hp
    rw [htears, Multiset.mem_cons] at ht
    rcases ht with rfl | ht
    · exact ⟨hi, rfl⟩
    · exact h.tears t ht hp
  · intro j hj
    by_cases hji : j = i
    · subst hji
      exact absurd hj hcl'
    · exact h.closing j ((hcl j hji).mp hj)
  · intro c
    by_cases hc : c = (b.slot i).conn
    · subst hc
      have hdone : (b.drop i works closing).done (b.slot i).conn = before .mainlwp := hint.done
      rw [hself, hdone]
      exact .torn he .mainlwp
    · rw [hdoing c hc]
      exact h.fate c
  · intro c hc
    have hne : c ≠ (b.slot i).conn := by
      rintro rfl
      rcases hc with hc | hc
      · exact hint.conn hc
      · exact absurd (h.bound i) (Nat.not_le_of_lt hc)
    rw [hdoing c hne]
    exact h.fresh c hc

end Drop

theorem Inv.finish (h : Inv b) {w : Work} {rest : Multiset Work} (hw : b.works = w ::ₘ rest) :
    Inv (b.drop w.spc rest b.closing) := by
  have hmem : w ∈ b.works := by
    rw [hw]
    exact Multiset.mem_cons_self ..
  have hi := (h.works w hmem).1
  have hsub : ∀ v ∈ rest, v ∈ b.works := by
    intro v hv
    rw [hw]
    exact Multiset.mem_cons_of_mem hv
  have hload : ∀ j, j ≠ w.spc → rest.countP (·.spc = j) = b.load j := by
    intro j hj
    rw [load, hw, countP_other hj]
  have hn : (b.status w.spc).load = rest.countP (·.spc = w.spc) + 1 := by
    show b.load w.spc = _
    rw [load, hw, countP_self]
  have hsome := h.drop_some (i := w.spc) hsub hload (fun _ _ => Iff.rfl) id
  cases h.stands w.spc hi with
  | free _ _ _ hl => omega
  | live ht hr hc hint =>
    rw [hn] at hr
    push_cast at hr
    refine hsome (by show (b.status w.spc).tenant.refcnt - 1 > 0; omega) (.live ht ?_ hc
      ⟨hint.conn, hint.doing, hint.done⟩)
    show (b.status w.spc).tenant.refcnt - 1 = 1 + (rest.countP (·.spc = w.spc) : Nat)
    omega
  | leaving ht hs hr hc hint he =>
    rw [hn] at hr
    push_cast at hr
    refine hsome (by show (b.status w.spc).tenant.refcnt - 1 > 0; omega) (.leaving ht hs ?_ hc
      ⟨hint.conn, hint.doing, hint.done⟩ he)
    show (b.status w.spc).tenant.refcnt - 1 = 1 + (rest.countP (·.spc = w.spc) : Nat)
    omega
  | draining ht hs hr hl hc hint he =>
    rw [hn] at hr
    push_cast at hr
    rcases Nat.eq_zero_or_pos (rest.countP (·.spc = w.spc)) with hz | hpos
    · refine h.drop_last hsub hload (fun _ _ => Iff.rfl) hi hc ?_ hz ht hs hint he
      show (b.status w.spc).tenant.refcnt - 1 = 0
      omega
    · refine hsome (by show (b.status w.spc).tenant.refcnt - 1 > 0; omega) (.draining ht hs ?_ hpos
        hc ⟨hint.conn, hint.doing, hint.done⟩ he)
      show (b.status w.spc).tenant.refcnt - 1 = (rest.countP (·.spc = w.spc) : Nat)
      omega
  | tearing _ _ _ hl => omega

theorem Inv.left (h : Inv b) (hc : b.closing = some i) : Inv (b.drop i b.works none) := by
  have hi := h.closing i hc
  have hcl : ∀ j, j ≠ i → (none = some j ↔ b.closing = some j) := by
    intro j hj
    simp [hc, Ne.symm hj]
  cases h.stands i hi with
  | free _ _ _ _ hc' => exact absurd hc hc'
  | live _ _ hc' => exact absurd hc hc'
  | leaving ht hs hr _ hint he =>
    rcases Nat.eq_zero_or_pos (b.load i) with hz | hpos
    · refine h.drop_last (fun _ hw => hw) (fun _ _ => rfl) hcl hi (by simp) ?_ hz ht hs hint he
      have hr' : (b.slot i).refcnt = 1 + (b.load i : Int) := hr
      omega
    · have hr' : (b.slot i).refcnt = 1 + (b.load i : Int) := hr
      refine h.drop_some (fun _ hw => hw) (fun _ _ => rfl) hcl (by simp) (by omega)
        (.draining ht hs ?_ hpos (by simp) ⟨hint.conn, hint.doing, hint.done⟩ he)
      show (b.slot i).refcnt - 1 = (b.load i : Int)
      omega
  | draining _ _ _ _ hc' => exact absurd hc hc'
  | tearing _ _ _ _ hc' => exact absurd hc hc'

section Tear

variable {t : Tear} {rest : Multiset Tear}

/-- A thread in a tear-down is the only one for its connection. -/
theorem Inv.sole (h : Inv b) (ht : b.tears = t ::ₘ rest) :
    (rest.filter (·.conn = t.conn)).map Tear.phase = 0 ∧ b.done t.conn = before t.phase ∧
      t.conn ∈ b.ended := by
  have hd := doing_cons (c := t.conn) ht
  rw [if_pos rfl] at hd
  have hf := h.fate t.conn
  rw [hd] at hf
  generalize (rest.filter (·.conn = t.conn)).map Tear.phase = r at hf
  generalize hD : b.done t.conn = D at hf
  generalize hP : {t.phase} + r = P at hf
  cases hf with
  | intact => exact absurd hP (by simp)
  | torn he p =>
    have hr : r = 0 ∧ t.phase = p := by
      have hP' : t.phase ::ₘ r = p ::ₘ 0 := hP
      rcases Multiset.cons_eq_cons.mp hP' with ⟨hp, hr⟩ | ⟨_, cs, _, hcs⟩
      · exact ⟨hr, hp⟩
      · exact absurd hcs.symm (by simp)
    exact ⟨hr.1, by rw [hr.2], he⟩
  | complete => exact absurd hP (by simp)

theorem Inv.conn_ne_zero (h : Inv b) (ht : t ∈ b.tears) : t.conn ≠ 0 := by
  intro hz
  have hm := mem_doing ht
  rw [hz, (h.fresh 0 (.inl rfl)).1] at hm
  exact absurd hm (Multiset.notMem_zero _)

theorem tearDown_doing (c : Nat) : (b.tearDown t rest).doing c =
    (if t.conn = c then t.phase.next.elim 0 ({·}) else 0) +
      (rest.filter (·.conn = c)).map Tear.phase := by
  cases hp : t.phase.next with
  | none =>
    have hn : (b.tearDown t rest).tears = rest := by
      simp [tearDown, Tear.next, hp]
    rw [doing, hn, Option.elim_none, ite_self, Multiset.zero_add]
  | some p =>
    have hn : (b.tearDown t rest).tears = { t with phase := p } ::ₘ rest := by
      simp [tearDown, Tear.next, hp]
    exact doing_cons hn

theorem tearDown_doing_self (hr : (rest.filter (·.conn = t.conn)).map Tear.phase = 0) :
    (b.tearDown t rest).doing t.conn = t.phase.next.elim 0 ({·}) := by
  rw [tearDown_doing, if_pos rfl, hr, Multiset.add_zero]

theorem tearDown_doing_other (ht : b.tears = t ::ₘ rest) (hc : c ≠ t.conn) :
    (b.tearDown t rest).doing c = b.doing c := by
  rw [doing_cons ht, tearDown_doing, if_neg (Ne.symm hc), if_neg (Ne.symm hc)]

/-- The connection that a tear-down is recorded for is its own. -/
theorem Inv.tearDown_done (h : Inv b) (ht : t ∈ b.tears) :
    (b.tearDown t rest).done c = if t.conn = c then b.done c ++ [t.phase] else b.done c := by
  refine done_snoc ?_
  by_cases hp : t.phase = .signal
  · simp only [tearDown, if_pos hp]
  · simp only [tearDown, if_neg hp, (h.tears t ht hp).2]

theorem tearDown_conn (i : Nat) : ((b.tearDown t rest).slot i).conn = (b.slot i).conn := by
  unfold tearDown
  by_cases hp : t.phase = .renew
  · simp only [if_pos hp]
    exact conn_update (by rfl) i
  · simp only [if_neg hp]

/-- The slot of a connection that is being torn down. -/
theorem Inv.tearDown_stands (h : Inv b) (ht : b.tears = t ::ₘ rest) (hj : j ≠ 0)
    (hc : (b.slot j).conn = t.conn) : Stands ((b.tearDown t rest).status j) := by
  obtain ⟨hr, hdone, _⟩ := h.sole ht
  have hmem : t ∈ b.tears := by
    rw [ht]
    exact Multiset.mem_cons_self ..
  have hdoing : (b.status j).doing = {t.phase} := by
    show b.doing (b.slot j).conn = _
    rw [hc, doing_cons ht, if_pos rfl, hr, Multiset.add_zero]
  have hdoing' : (b.tearDown t rest).doing ((b.tearDown t rest).slot j).conn =
      t.phase.next.elim 0 ({·}) := by
    rw [tearDown_conn, hc]
    exact tearDown_doing_self hr
  cases h.stands j hj with
  | free hta hs hrc hl hcl hd =>
    have hp : t.phase = .signal := hd _ (by rw [hdoing]; exact Multiset.mem_singleton_self _)
    have hslot : (b.tearDown t rest).slot = b.slot := by
      simp [tearDown, hp]
    refine .free ?_ ?_ ?_ hl hcl ?_
    · simpa only [status, hslot] using hta
    · simpa only [status, hslot] using hs
    · simpa only [status, hslot] using hrc
    · intro p hm
      have hm' : p ∈ (b.tearDown t rest).doing ((b.tearDown t rest).slot j).conn := hm
      rw [hdoing', hp] at hm'
      exact absurd hm' (Multiset.notMem_zero _)
  | live _ _ _ hint => exact absurd (hdoing.symm.trans hint.doing) (by simp)
  | leaving _ _ _ _ hint => exact absurd (hdoing.symm.trans hint.doing) (by simp)
  | draining _ _ _ _ _ hint => exact absurd (hdoing.symm.trans hint.doing) (by simp)
  | @tearing q hta hs hrc hl hcl hd hq =>
    have hqp : q = t.phase := by
      have := hd.symm.trans hdoing
      simpa using this
    subst hqp
    have htj : t.slot = j := by
      obtain ⟨_, htc⟩ := h.tears t hmem hq
      exact h.inj _ _ (by rw [htc]; exact h.conn_ne_zero hmem) (htc.trans hc.symm)
    by_cases hp : t.phase = .renew
    · -- the slot can be had again; what is left is the signal
      have hslot : (b.tearDown t rest).slot j = { b.slot j with state := .new } := by
        simp [tearDown, hp, htj]
      refine .free ?_ ?_ ?_ hl hcl ?_
      · simpa only [status, hslot] using hta
      · simp only [status, hslot]
      · simpa only [status, hslot] using hrc
      · intro p hm
        have hm' : p ∈ (b.tearDown t rest).doing ((b.tearDown t rest).slot j).conn := hm
        rw [hdoing', hp] at hm'
        exact Multiset.mem_singleton.mp hm'
    · have hslot : (b.tearDown t rest).slot = b.slot := by
        simp [tearDown, hp]
      obtain ⟨p, hn, hps⟩ : ∃ p, t.phase.next = some p ∧ p ≠ .signal := by
        cases hphase : t.phase with
        | mainlwp => exact ⟨.close, rfl, by simp⟩
        | close => exact ⟨.renew, rfl, by simp⟩
        | renew => exact absurd hphase hp
        | signal => exact absurd hphase hq
      refine .tearing (p := p) ?_ ?_ ?_ hl hcl ?_ hps
      · simpa only [status, hslot] using hta
      · simpa only [status, hslot] using hs
      · simpa only [status, hslot] using hrc
      · show (b.tearDown t rest).doing ((b.tearDown t rest).slot j).conn = {p}
        rw [hdoing', hn]
        rfl

theorem Inv.tear (h : Inv b) (ht : b.tears = t ::ₘ rest) : Inv (b.tearDown t rest) := by
  obtain ⟨hr, hdone, he⟩ := h.sole ht
  have hmem : t ∈ b.tears := by
    rw [ht]
    exact Multiset.mem_cons_self ..
  have hne := h.conn_ne_zero hmem
  refine h.keep tearDown_conn rfl (fun j hj => ?_) h.works ?_ h.closing ?_ ?_
  · by_cases hc : (b.slot j).conn = t.conn
    · exact h.tearDown_stands ht hj hc
    · have hslot : (b.tearDown t rest).slot j = b.slot j := by
        unfold tearDown
        by_cases hp : t.phase = .renew
        · simp only [if_pos hp]
          refine Function.update_of_ne ?_ ..
          rintro rfl
          exact hc (h.tears t hmem (by rw [hp]; simp)).2
        · simp only [if_neg hp]
      refine (h.stands j hj).congr hslot rfl Iff.rfl (tearDown_doing_other ht hc) ?_ Iff.rfl
      rw [h.tearDown_done hmem, if_neg (Ne.symm hc)]
  · intro t' ht' hp'
    have hmem' : t' ∈ rest ∨ ∃ p, t.phase.next = some p ∧ t' = { t with phase := p } := by
      unfold tearDown Tear.next at ht'
      cases hn : t.phase.next with
      | none => exact .inl (by simpa [hn] using ht')
      | some p =>
        simp only [hn, Option.map_some, Option.elim_some, Multiset.mem_cons] at ht'
        exact ht'.symm.imp_right fun hx => ⟨p, rfl, hx⟩
    rcases hmem' with hmem' | ⟨p, hn, rfl⟩
    · exact h.tears t' (by rw [ht]; exact Multiset.mem_cons_of_mem hmem') hp'
    · refine h.tears t hmem ?_
      intro hs
      rw [hs] at hn
      cases hn
  · intro c
    rw [h.tearDown_done hmem]
    by_cases hc : t.conn = c
    · subst hc
      rw [if_pos rfl, tearDown_doing_self hr, hdone]
      cases t.phase with
      | mainlwp => exact .torn he .close
      | close => exact .torn he .renew
      | renew => exact .torn he .signal
      | signal => exact .complete he
    · rw [if_neg hc, tearDown_doing_other ht (Ne.symm hc)]
      exact h.fate c
  · intro c hc
    have hne' : c ≠ t.conn := by
      rintro rfl
      have hm := mem_doing hmem
      rw [(h.fresh _ hc).1] at hm
      exact absurd hm (Multiset.notMem_zero _)
    rw [h.tearDown_done hmem, if_neg (Ne.symm hne'), tearDown_doing_other ht hne']
    exact h.fresh c hc

end Tear

/-- Every step keeps the invariant. -/
theorem Inv.step {b' : Books} (h : Inv b) (hs : Step b b') : Inv b' := by
  cases hs with
  | quiet hq => exact h.quiet hq
  | connect hi ht hs => exact h.connect hi ht hs
  | take hi ht hc => exact h.take hi ht hc
  | leave hi ht hc => exact h.leave hi ht hc
  | finish hw => exact h.finish hw
  | left hc => exact h.left hc
  | tear ht => exact h.tear ht

/-! ## What the invariant says -/

/-- The references are those of the connection and of its items. -/
theorem Inv.refcnt (h : Inv b) (hi : i ≠ 0) : (b.slot i).refcnt =
    (if (b.slot i).taken = true ∨ b.closing = some i then 1 else 0) + (b.load i : Int) := by
  cases h.stands i hi with
  | free ht _ hr hl hc =>
    rw [if_neg (by rintro (h | h); exacts [absurd (h.symm.trans ht) (by simp), hc h])]
    have hl' : b.load i = 0 := hl
    rw [hl']
    exact hr
  | live ht hr =>
    rw [if_pos (.inl ht)]
    exact hr
  | leaving _ _ hr hc =>
    rw [if_pos (.inr hc)]
    exact hr
  | draining ht _ hr _ hc =>
    rw [if_neg (by rintro (h | h); exacts [absurd (h.symm.trans ht) (by simp), hc h]),
      Int.zero_add]
    exact hr
  | tearing ht _ hr hl hc =>
    rw [if_neg (by rintro (h | h); exacts [absurd (h.symm.trans ht) (by simp), hc h])]
    have hl' : b.load i = 0 := hl
    rw [hl']
    exact hr

/-- A connection is torn down once, from the first effect to the last. -/
theorem Inv.done_prefix (h : Inv b) (c : Nat) : b.done c <+: allTorn := by
  have hf := h.fate c
  generalize b.doing c = P at hf
  generalize b.done c = D at hf
  cases hf with
  | intact => exact List.nil_prefix
  | torn _ p => cases p <;> decide
  | complete => exact List.prefix_refl _

/-- What is torn down has been disconnected, and no item refers to it. -/
theorem Inv.torn (h : Inv b) {p : TearPhase} (hp : (p, c) ∈ b.torn) :
    c ∈ b.ended ∧ ∀ w ∈ b.works, w.conn ≠ c := by
  have hne : b.done c ≠ [] := List.ne_nil_of_mem (mem_done hp)
  constructor
  · have hf := h.fate c
    generalize b.doing c = P at hf
    generalize b.done c = D at hf hne
    cases hf with
    | intact => exact absurd rfl hne
    | torn he => exact he
    | complete he => exact he
  · rintro w hw rfl
    obtain ⟨hi, hc⟩ := h.works w hw
    have hpos := load_pos hw
    have hnil : (b.status w.spc).done = [] := by
      cases h.stands w.spc hi with
      | free _ _ _ hl => exact absurd hl (Nat.ne_of_gt hpos)
      | live _ _ _ hint => exact hint.done
      | leaving _ _ _ _ hint => exact hint.done
      | draining _ _ _ _ _ hint => exact hint.done
      | tearing _ _ _ hl => exact absurd hl (Nat.ne_of_gt hpos)
    rw [hc] at hne
    exact hne hnil

end Books

end Frankenlibc.Sysproxy

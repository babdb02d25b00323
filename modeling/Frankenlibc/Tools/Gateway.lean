import Frankenlibc.Lib.Bytes
import Frankenlibc.Lib.Words
import Mathlib.Data.List.Infix

/-!
# The default gateway

`get_gateway` asks the kernel for its routes and goes through the messages of the
answer. `parseRoutes` stores the destination and the gateway of a route where
they are given, and a message that does not give one leaves what was there. So
the destination that is compared with 0.0.0.0 is the last one that any route had,
or what was on the stack; the kernel gives none for a default route.
-/
namespace Frankenlibc.Tools.Gateway

open Frankenlibc.Lib

/-! ## Netlink -/

/-- `NLMSG_ALIGN` and `RTA_ALIGN`. -/
def align (n : Nat) : Nat := u32 (n + 3) / 4 * 4

/-- `NLMSG_OK`, with `len` converted to `__u32`. -/
def nlmsgOk (m : Bytes) (a : Nat) (len : Int) : Bool :=
  16 ≤ len % 4294967296 && 16 ≤ m.load a 4 && m.load a 4 ≤ len % 4294967296

/-- `RTA_OK`. -/
def rtaOk (m : Bytes) (a : Nat) (len : Int) : Bool :=
  4 ≤ len && 4 ≤ m.load a 2 && m.load a 2 ≤ len

def nlmsgError : Nat := 2
def nlmsgDone : Nat := 3
def rtmNewroute : Nat := 24
def rtmGetroute : Nat := 26
/-- `NLM_F_DUMP | NLM_F_REQUEST`. -/
def nlmFDumpRequest : Nat := 0x301
def nlmFMulti : Nat := 2
def afInet : Nat := 2
def rtTableMain : Nat := 254
def rtaDst : Nat := 1
def rtaGateway : Nat := 5

/-! ## The code -/

/-- `dest` and `*gw`. -/
structure Found where
  dest : Nat
  gw : Nat
deriving DecidableEq, Repr

/-- The `switch` over the type of an attribute. -/
def takeAttr (m : Bytes) (attr : Nat) (f : Found) : Found :=
  if m.load (attr + 2) 2 = rtaGateway then { f with gw := m.load (attr + 4) 4 }
  else if m.load (attr + 2) 2 = rtaDst then { f with dest := m.load (attr + 4) 4 }
  else f

/-- The loop of `parseRoutes`. Each turn takes at least four of the `rtlen` bytes,
so as many turns as there are bytes are enough. -/
def parseAttrs (m : Bytes) : Nat → Nat → Int → Found → Found
  | 0, _, _, f => f
  | n + 1, attr, rtlen, f =>
    if rtaOk m attr rtlen then
      parseAttrs m n (attr + align (m.load attr 2)) (i32 (rtlen - align (m.load attr 2)))
        (takeAttr m attr f)
    else f

/-- `parseRoutes`; `none` is -1. -/
def parseRoutes (m : Bytes) (hdr : Nat) (f : Found) : Option Found :=
  if m.load (hdr + 16) 1 ≠ afInet ∨ m.load (hdr + 20) 1 ≠ rtTableMain then none
  else
    -- `RTM_PAYLOAD`
    let rtlen := i32 (m.load hdr 4 - 28)
    some (parseAttrs m rtlen.toNat (hdr + 28) rtlen f)

/-- The loop of `get_gateway`, as long as the fuel lasts. -/
def walk (m : Bytes) : Nat → Nat → Int → Found → Option (Int × Found)
  | 0, _, _, _ => none
  | n + 1, nlmsg, len, f =>
    if nlmsgOk m nlmsg len then
      let next := nlmsg + align (m.load nlmsg 4)
      let left := i32 (len - align (m.load nlmsg 4))
      match parseRoutes m nlmsg f with
      | none => walk m n next left f
      | some f' => if f'.dest = 0 then some (0, f') else walk m n next left f'
    else some (-1, f)

/-- `readRoutes`, which has stored `len` bytes, with what `recv` returns from now
on. It blocks where there is no more. -/
def readRoutes (size seq pid : Nat) : List (Option (List UInt8)) → Bytes → Nat → Option (Int × Bytes)
  | [], _, _ => none
  | none :: _, m, _ => some (-1, m)
  | some bs :: recvs, m, len =>
    let d := bs.take (size - len)
    let m := m.blit len d
    if !nlmsgOk m len d.length || m.load (len + 4) 2 = nlmsgError then some (-1, m)
    else if m.load (len + 4) 2 = nlmsgDone then some (len, m)
    else if m.load (len + 6) 2 &&& nlmFMulti = 0 then some (len + d.length, m)
    else if m.load (len + 8) 4 ≠ seq ∨ m.load (len + 12) 4 ≠ pid then
      readRoutes size seq pid recvs m (len + d.length)
    else some (len + d.length, m)

/-- What the calls of `get_gateway` return, and what is on its stack. -/
structure Kernel where
  socket : Bool
  send : Bool
  recvs : List (Option (List UInt8))
  pid : Nat
  buf : Bytes
  dest : Nat

/-- The request in `buf`. -/
def Kernel.request (k : Kernel) : Bytes :=
  ((((k.buf.store 0 28 4).store 4 rtmGetroute 2).store 6 nlmFDumpRequest 2).store 8 0 4).store
    12 k.pid 4

/-- `readRoutes` as `get_gateway` calls it. -/
def Kernel.answer (k : Kernel) : Option (Int × Bytes) :=
  readRoutes 8192 0 (u32 k.pid) k.recvs k.request 0

/-- `get_gateway`: what it returns, and `*gw`. -/
def getGateway (k : Kernel) (fuel gw : Nat) : Option (Int × Nat) :=
  if !k.socket then some (-1, gw)
  else if !k.send then some (-1, gw)
  else
    match k.answer with
    | none => none
    | some (len, m) =>
      if len = -1 then some (-1, gw)
      else (walk m fuel 0 len ⟨k.dest, gw⟩).map fun r => (r.1, r.2.gw)

/-! ## Well-formed messages -/

/-- An attribute of a route. -/
structure Rtattr where
  type : Nat
  data : List UInt8
deriving DecidableEq, Repr

def Rtattr.len (t : Rtattr) : Nat := 4 + t.data.length

/-- The address in an attribute. -/
def Rtattr.addr (t : Rtattr) : Nat := (Bytes.ofList t.data).load 0 4

structure Route where
  family : Nat
  table : Nat
  attrs : List Rtattr
deriving DecidableEq, Repr

/-- The attribute lies at `a`, within `n` bytes. -/
structure Rtattr.At (m : Bytes) (a n : Nat) (t : Rtattr) : Prop where
  len : m.load a 2 = t.len
  type : m.load (a + 2) 2 = t.type
  data : m.slice (a + 4) t.data.length = t.data
  fits : t.len ≤ n

/-- The attributes are all that lies in the `n` bytes from `a` on. The padding of
the last one may be missing. -/
def AttrsAt (m : Bytes) : Nat → Nat → List Rtattr → Prop
  | _, n, [] => n = 0
  | a, n, t :: ts => t.At m a n ∧ AttrsAt m (a + align t.len) (n - align t.len) ts

/-- No attribute is given twice, and those of an `AF_INET` route that are
addresses have the size of one. -/
structure Route.Wf (r : Route) : Prop where
  once : (r.attrs.map Rtattr.type).Nodup
  addr : r.family = afInet → ∀ t ∈ r.attrs, t.type = rtaDst ∨ t.type = rtaGateway →
    t.data.length = 4

/-- The route lies at `a` as an `RTM_NEWROUTE` message, within `n` bytes. -/
structure Route.At (m : Bytes) (a n : Nat) (r : Route) : Prop where
  type : m.load (a + 4) 2 = rtmNewroute
  family : m.load (a + 16) 1 = r.family
  table : m.load (a + 20) 1 = r.table
  header : 28 ≤ m.load a 4
  attrs : AttrsAt m (a + 28) (m.load a 4 - 28) r.attrs
  fits : m.load a 4 ≤ n
  padded : align (m.load a 4) ≤ n
  wf : r.Wf

/-- The routes are all that lies in the `n` bytes from `a` on. -/
def RoutesAt (m : Bytes) : Nat → Nat → List Route → Prop
  | _, n, [] => n = 0
  | a, n, r :: rs =>
    r.At m a n ∧ RoutesAt m (a + align (m.load a 4)) (n - align (m.load a 4)) rs

section Decidable

variable (m : Bytes)

instance (a n : Nat) (t : Rtattr) : Decidable (t.At m a n) :=
  decidable_of_iff (m.load a 2 = t.len ∧ m.load (a + 2) 2 = t.type ∧
      m.slice (a + 4) t.data.length = t.data ∧ t.len ≤ n)
    ⟨fun ⟨h₁, h₂, h₃, h₄⟩ => ⟨h₁, h₂, h₃, h₄⟩, fun h => ⟨h.len, h.type, h.data, h.fits⟩⟩

instance decidableAttrsAt : ∀ a n ts, Decidable (AttrsAt m a n ts)
  | _, n, [] => inferInstanceAs (Decidable (n = 0))
  | a, n, t :: ts =>
    have := decidableAttrsAt (a + align t.len) (n - align t.len) ts
    inferInstanceAs (Decidable (t.At m a n ∧ AttrsAt m (a + align t.len) (n - align t.len) ts))

instance (r : Route) : Decidable r.Wf :=
  decidable_of_iff ((r.attrs.map Rtattr.type).Nodup ∧ (r.family = afInet → ∀ t ∈ r.attrs,
      t.type = rtaDst ∨ t.type = rtaGateway → t.data.length = 4))
    ⟨fun ⟨h₁, h₂⟩ => ⟨h₁, h₂⟩, fun h => ⟨h.once, h.addr⟩⟩

instance (a n : Nat) (r : Route) : Decidable (r.At m a n) :=
  decidable_of_iff (m.load (a + 4) 2 = rtmNewroute ∧ m.load (a + 16) 1 = r.family ∧
      m.load (a + 20) 1 = r.table ∧ 28 ≤ m.load a 4 ∧
      AttrsAt m (a + 28) (m.load a 4 - 28) r.attrs ∧ m.load a 4 ≤ n ∧ align (m.load a 4) ≤ n ∧ r.Wf)
    ⟨fun ⟨h₁, h₂, h₃, h₄, h₅, h₆, h₇, h₈⟩ => ⟨h₁, h₂, h₃, h₄, h₅, h₆, h₇, h₈⟩,
      fun h => ⟨h.type, h.family, h.table, h.header, h.attrs, h.fits, h.padded, h.wf⟩⟩

instance decidableRoutesAt : ∀ a n rs, Decidable (RoutesAt m a n rs)
  | _, n, [] => inferInstanceAs (Decidable (n = 0))
  | a, n, r :: rs =>
    have := decidableRoutesAt (a + align (m.load a 4)) (n - align (m.load a 4)) rs
    inferInstanceAs (Decidable
      (r.At m a n ∧ RoutesAt m (a + align (m.load a 4)) (n - align (m.load a 4)) rs))

end Decidable

def Route.attr (r : Route) (type : Nat) : Option Nat :=
  (r.attrs.find? fun t => t.type = type).map Rtattr.addr

def Route.dst (r : Route) : Option Nat := r.attr rtaDst

def Route.gateway (r : Route) : Option Nat := r.attr rtaGateway

/-- An `AF_INET` route of `RT_TABLE_MAIN`. -/
def Route.main (r : Route) : Bool := r.family = afInet && r.table = rtTableMain

/-- Such a route to everywhere. -/
def Route.isDefault (r : Route) : Bool := r.main && (r.dst = none || r.dst = some 0)

/-- The gateway of the first default route that has one. -/
def wanted (routes : List Route) : Option Nat :=
  routes.findSome? fun r => if r.isDefault then r.gateway else none

/-! ## One message -/

variable {m : Bytes} {a k n : Nat} {f : Found} {t : Rtattr} {ts : List Rtattr} {r : Route}
  {routes : List Route}

theorem align_of_lt (h : n < 4294967293) : align n = (n + 3) / 4 * 4 := by
  unfold align u32
  rw [Nat.mod_eq_of_lt (by omega)]

theorem rtattr_len_lt (ht : t.At m a n) : t.len < 65536 := by
  rw [← ht.len]
  exact Bytes.load_lt m a 2

theorem rtattr_addr (ht : t.At m a n) (hlen : t.data.length = 4) : m.load (a + 4) 4 = t.addr := by
  have hdata := ht.data
  rw [hlen] at hdata
  rw [Rtattr.addr, ← hdata, Bytes.load_slice]

/-- What an attribute does. -/
def Rtattr.set (f : Found) (t : Rtattr) : Found :=
  ⟨if t.type = rtaDst then t.addr else f.dest, if t.type = rtaGateway then t.addr else f.gw⟩

theorem takeAttr_eq (ht : t.At m a n)
    (haddr : t.type = rtaDst ∨ t.type = rtaGateway → t.data.length = 4) :
    takeAttr m a f = Rtattr.set f t := by
  unfold takeAttr Rtattr.set
  rw [ht.type]
  by_cases hgw : t.type = rtaGateway
  · have hdst : t.type ≠ rtaDst := by
      rw [hgw]
      decide
    rw [if_pos hgw, if_neg hdst, if_pos hgw, rtattr_addr ht (haddr (.inr hgw))]
  · rw [if_neg hgw, if_neg hgw]
    by_cases hdst : t.type = rtaDst
    · rw [if_pos hdst, if_pos hdst, rtattr_addr ht (haddr (.inl hdst))]
    · rw [if_neg hdst, if_neg hdst]

/-- The loop goes over exactly the attributes that are there. -/
theorem parseAttrs_eq {rtlen : Int} (h : AttrsAt m a rtlen.toNat ts) (hmax : rtlen < 2147483648)
    (hk : rtlen.toNat ≤ k)
    (haddr : ∀ t ∈ ts, t.type = rtaDst ∨ t.type = rtaGateway → t.data.length = 4) :
    parseAttrs m k a rtlen f = ts.foldl Rtattr.set f := by
  induction ts generalizing a k rtlen f with
  | nil =>
    have hzero : rtlen.toNat = 0 := h
    have hstop : rtaOk m a rtlen = false := by
      have hsmall : ¬4 ≤ rtlen := by omega
      simp [rtaOk, hsmall]
    cases k with
    | zero => rfl
    | succ k => rw [parseAttrs, hstop, if_neg Bool.false_ne_true, List.foldl_nil]
  | cons t ts ih =>
    obtain ⟨ht, hts⟩ := h
    have hlt := rtattr_len_lt ht
    have hfits := ht.fits
    have hfour : 4 ≤ t.len := Nat.le_add_right 4 _
    have halign := align_of_lt (n := t.len) (by omega)
    have hok : rtaOk m a rtlen = true := by
      have h₁ : 4 ≤ rtlen := by omega
      have h₂ : (t.len : Int) ≤ rtlen := by omega
      simp [rtaOk, ht.len, h₁, h₂, hfour]
    obtain ⟨k, rfl⟩ : ∃ k', k = k' + 1 := ⟨k - 1, by omega⟩
    have hleft : i32 (rtlen - align t.len) = rtlen - align t.len :=
      i32_of_range (by omega) (by omega)
    have hnat : (rtlen - align t.len).toNat = rtlen.toNat - align t.len := by omega
    rw [parseAttrs, hok, if_pos rfl, ht.len, hleft, takeAttr_eq ht (haddr t List.mem_cons_self)]
    apply ih
    · rw [hnat]
      exact hts
    · omega
    · omega
    · intro u hu
      exact haddr u (List.mem_cons_of_mem t hu)

/-- Among attributes of different types, the one of a type is what is left. -/
theorem foldl_type (type x : Nat) (h : (ts.map Rtattr.type).Nodup) :
    ts.foldl (fun x t => if t.type = type then t.addr else x) x =
      ((ts.find? fun t => t.type = type).map Rtattr.addr).getD x := by
  induction ts generalizing x with
  | nil => rfl
  | cons t ts ih =>
    rw [List.map_cons, List.nodup_cons] at h
    rw [List.foldl_cons, ih _ h.2]
    by_cases ht : t.type = type
    · have hnone : (ts.find? fun t => t.type = type) = none := by
        rw [List.find?_eq_none]
        intro u hu htype
        apply h.1
        rw [ht, ← of_decide_eq_true htype]
        exact List.mem_map_of_mem hu
      rw [hnone, if_pos ht, List.find?_cons_of_pos (by simpa using ht)]
      rfl
    · rw [if_neg ht, List.find?_cons_of_neg (by simpa using ht)]

theorem foldl_set (ts : List Rtattr) (f : Found) :
    ts.foldl Rtattr.set f =
      ⟨ts.foldl (fun x t => if t.type = rtaDst then t.addr else x) f.dest,
        ts.foldl (fun x t => if t.type = rtaGateway then t.addr else x) f.gw⟩ := by
  induction ts generalizing f with
  | nil => rfl
  | cons t ts ih =>
    rw [List.foldl_cons, ih]
    rfl

/-- What a route of the table does: what it does not give stays. -/
def Route.set (f : Found) (r : Route) : Found := ⟨r.dst.getD f.dest, r.gateway.getD f.gw⟩

theorem parseRoutes_eq (hr : r.At m a n) (hn : n ≤ 8192) :
    parseRoutes m a f = if r.main then some (r.set f) else none := by
  have hfam := hr.family
  have htable := hr.table
  unfold parseRoutes
  rw [hfam, htable]
  by_cases hmain : r.main = true
  · have hboth : r.family = afInet ∧ r.table = rtTableMain := by
      simpa [Route.main] using hmain
    have hhead := hr.header
    have hfits := hr.fits
    have hlen : i32 (m.load a 4 - 28) = (m.load a 4 - 28 : Nat) := by
      rw [i32_of_range (by omega) (by omega)]
      omega
    rw [if_neg (by simp [hboth]), if_pos hmain, hlen]
    have hloop : parseAttrs m (m.load a 4 - 28) (a + 28) (m.load a 4 - 28 : Nat) f =
        r.attrs.foldl Rtattr.set f :=
      parseAttrs_eq hr.attrs (by omega) le_rfl (hr.wf.addr hboth.1)
    rw [foldl_set, foldl_type _ _ hr.wf.once, foldl_type _ _ hr.wf.once] at hloop
    exact congrArg some hloop
  · have hnot : r.family ≠ afInet ∨ r.table ≠ rtTableMain := by
      simp only [Route.main, Bool.and_eq_true, decide_eq_true_eq, not_and_or] at hmain
      exact hmain
    rw [if_pos hnot, if_neg hmain]

/-! ## The loop over the messages -/

/-- The loop, on routes. -/
def scan : Found → List Route → Int × Found
  | f, [] => (-1, f)
  | f, r :: rs =>
    if r.main then
      if (r.set f).dest = 0 then (0, r.set f) else scan (r.set f) rs
    else scan f rs

theorem walk_eq (h : RoutesAt m a n routes) (hn : n ≤ 8192) (hk : routes.length < k) :
    walk m k a n f = some (scan f routes) := by
  induction routes generalizing a n k f with
  | nil =>
    have hzero : n = 0 := h
    subst hzero
    obtain ⟨k, rfl⟩ : ∃ k', k = k' + 1 := ⟨k - 1, by omega⟩
    rfl
  | cons r rs ih =>
    obtain ⟨hr, hrs⟩ := h
    rw [List.length_cons] at hk
    obtain ⟨k, rfl⟩ : ∃ k', k = k' + 1 := ⟨k - 1, by omega⟩
    have hhead := hr.header
    have hfits := hr.fits
    have hpadded := hr.padded
    have hok : nlmsgOk m a n = true := by
      have hmod : (n : Int) % 4294967296 = n := by omega
      have h₁ : (16 : Int) ≤ n := by omega
      have h₂ : 16 ≤ m.load a 4 := by omega
      simp [nlmsgOk, hmod, h₁, h₂, hfits]
    have hleft : i32 ((n : Int) - align (m.load a 4)) = (n - align (m.load a 4) : Nat) := by
      rw [i32_of_range (by omega) (by omega)]
      omega
    have hnext : ∀ f, walk m k (a + align (m.load a 4)) (n - align (m.load a 4) : Nat) f =
        some (scan f rs) := fun f => ih hrs (by omega) (by omega)
    rw [walk, hok, if_pos rfl, parseRoutes_eq hr hn, hleft, scan]
    by_cases hmain : r.main = true
    · rw [if_pos hmain, if_pos hmain]
      by_cases hdest : (r.set f).dest = 0
      · simp only [if_pos hdest]
      · simp only [if_neg hdest, hnext]
    · rw [if_neg hmain, if_neg hmain]
      exact hnext f

/-! ## Where it stops -/

/-- The last gateway among routes. -/
def lastGateway (g : Nat) (rs : List Route) : Nat := rs.foldl (fun g r => r.gateway.getD g) g

/-- There is 0 on the stack, and the first route gives no destination. -/
def Stacked (d : Nat) (routes : List Route) : Prop :=
  d = 0 ∧ ∃ r, routes.head? = some r ∧ r.dst = none

/-- The cases in which `get_gateway` is right, by the routes of the main table. A
default route without a destination is only noticed if it is the first one; else
the loop goes on to the first 0.0.0.0 that is given. -/
inductive Right (d g : Nat) (routes : List Route) : Prop
  /-- There is no 0.0.0.0, and no default route has a gateway. -/
  | nothing (hs : ¬Stacked d routes) (hdst : ∀ r ∈ routes, r.dst ≠ some 0)
      (hgw : ∀ r ∈ routes, r.dst = none → r.gateway = none)
  /-- The first route is noticed. It has a gateway, or that of the first later
  default route with one happens to be in `*gw`. -/
  | first (r : Route) (rs : List Route) (h : routes = r :: rs) (hd : d = 0) (hr : r.dst = none)
      (hgw : r.gateway ≠ none ∨ wanted rs = some g)
  /-- The last gateway up to the first 0.0.0.0 is that of the first default route
  with one. -/
  | given (pre : List Route) (r : Route) (post : List Route) (h : routes = pre ++ r :: post)
      (hs : ¬Stacked d routes) (hpre : ∀ q ∈ pre, q.dst ≠ some 0) (hr : r.dst = some 0)
      (hgw : wanted routes = some (lastGateway g (pre ++ [r])))

theorem scan_filter (f : Found) (routes : List Route) :
    scan f (routes.filter Route.main) = scan f routes := by
  induction routes generalizing f with
  | nil => rfl
  | cons r rs ih =>
    by_cases hr : r.main = true
    · rw [List.filter_cons_of_pos hr, scan, scan, if_pos hr, if_pos hr, ih]
    · rw [List.filter_cons_of_neg hr, scan, if_neg hr, ih]

theorem wanted_cons (r : Route) (rs : List Route) :
    wanted (r :: rs) = (if r.isDefault then r.gateway else none).or (wanted rs) := by
  rw [wanted, List.findSome?_cons]
  cases (if r.isDefault then r.gateway else none) <;> rfl

theorem wanted_filter (routes : List Route) : wanted (routes.filter Route.main) = wanted routes := by
  induction routes with
  | nil => rfl
  | cons r rs ih =>
    by_cases hr : r.main = true
    · rw [List.filter_cons_of_pos hr, wanted_cons, wanted_cons, ih]
    · rw [List.filter_cons_of_neg hr, wanted_cons, ih]
      simp [Route.isDefault, hr]

/-- The first 0.0.0.0. -/
theorem exists_given (h : ¬∀ r ∈ routes, r.dst ≠ some 0) : ∃ pre r post,
    routes = pre ++ r :: post ∧ (∀ q ∈ pre, q.dst ≠ some 0) ∧ r.dst = some 0 := by
  cases hf : routes.find? fun r => r.dst = some 0 with
  | none => exact absurd (fun r hr => by simpa using List.find?_eq_none.mp hf r hr) h
  | some r =>
    obtain ⟨hr, pre, post, rfl, hpre⟩ := List.find?_eq_some_iff_append.mp hf
    exact ⟨pre, r, post, rfl, by simpa using hpre, by simpa using hr⟩

theorem right_stacked {d g : Nat} {r : Route} {rs : List Route} (hd : d = 0) (hr : r.dst = none) :
    Right d g (r :: rs) ↔ r.gateway ≠ none ∨ wanted rs = some g := by
  refine ⟨fun h => ?_, fun h => .first r rs rfl hd hr h⟩
  cases h with
  | first r' rs' h _ _ hgw =>
    cases h
    exact hgw
  | nothing hn | given _ _ _ _ hn => exact absurd ⟨hd, r, rfl, hr⟩ hn

section Main

variable (hmain : ∀ r ∈ routes, r.main = true)

include hmain

theorem wanted_eq_none (hdst : ∀ r ∈ routes, r.dst ≠ some 0) :
    wanted routes = none ↔ ∀ r ∈ routes, r.dst = none → r.gateway = none := by
  rw [wanted, List.findSome?_eq_none_iff]
  refine forall₂_congr fun r hr => ?_
  simp [Route.isDefault, hmain r hr, hdst r hr]

/-- A route that is not noticed. -/
theorem scan_pass (hr : r ∈ routes) (hd : r.dst ≠ some 0) (hs : f.dest = 0 → r.dst ≠ none)
    (rs : List Route) : scan f (r :: rs) = scan (r.set f) rs ∧ (r.set f).dest ≠ 0 := by
  have hne : (r.set f).dest ≠ 0 := by
    show r.dst.getD f.dest ≠ 0
    cases hdst : r.dst with
    | none => exact fun h => hs h hdst
    | some x => exact fun h => hd (hdst.trans (congrArg some h))
  rw [scan, if_pos (hmain r hr), if_neg hne]
  exact ⟨rfl, hne⟩

theorem scan_stop (hr : r ∈ routes) (hd : r.dst.getD f.dest = 0) (rs : List Route) :
    scan f (r :: rs) = (0, r.set f) := by
  rw [scan, if_pos (hmain r hr), if_pos (by exact hd)]

theorem scan_none (hs : ¬Stacked f.dest routes) (hdst : ∀ r ∈ routes, r.dst ≠ some 0) :
    (scan f routes).1 = -1 := by
  induction routes generalizing f with
  | nil => rfl
  | cons r rs ih =>
    obtain ⟨hscan, hne⟩ := scan_pass hmain List.mem_cons_self (hdst r List.mem_cons_self)
      (fun hz hn => hs ⟨hz, r, rfl, hn⟩) rs
    rw [hscan]
    exact ih (fun q hq => hmain q (List.mem_cons_of_mem r hq)) (fun hs => hne hs.1)
      fun q hq => hdst q (List.mem_cons_of_mem r hq)

theorem scan_given {pre post : List Route} (h : routes = pre ++ r :: post)
    (hs : ¬Stacked f.dest routes) (hpre : ∀ q ∈ pre, q.dst ≠ some 0) (hr : r.dst = some 0) :
    (scan f routes).1 = 0 ∧ (scan f routes).2.gw = lastGateway f.gw (pre ++ [r]) := by
  subst h
  induction pre generalizing f with
  | nil =>
    rw [List.nil_append, scan_stop hmain List.mem_cons_self (by rw [hr]; rfl)]
    exact ⟨rfl, rfl⟩
  | cons q pre ih =>
    obtain ⟨hscan, hne⟩ := scan_pass hmain List.mem_cons_self (hpre q List.mem_cons_self)
      (fun hz hn => hs ⟨hz, q, rfl, hn⟩) (pre ++ r :: post)
    rw [List.cons_append, hscan]
    exact ih (fun x hx => hpre x (List.mem_cons_of_mem q hx))
      (fun x hx => hmain x (List.mem_cons_of_mem q hx)) fun hs => hne hs.1

theorem right_ungiven {d g : Nat} (hs : ¬Stacked d routes) (hdst : ∀ r ∈ routes, r.dst ≠ some 0) :
    Right d g routes ↔ wanted routes = none := by
  rw [wanted_eq_none hmain hdst]
  refine ⟨fun h => ?_, fun h => .nothing hs hdst h⟩
  cases h with
  | nothing _ _ hgw => exact hgw
  | first r rs h hd hr => exact absurd ⟨hd, r, by rw [h]; rfl, hr⟩ hs
  | given pre r post h _ _ hr => exact absurd hr (hdst r (by rw [h]; simp))

theorem scan_right (f : Found) :
    (((scan f routes).1 = 0 ↔ (wanted routes).isSome = true) ∧
      ∀ x, wanted routes = some x → (scan f routes).2.gw = x) ↔ Right f.dest f.gw routes := by
  by_cases hs : Stacked f.dest routes
  · obtain ⟨hd, r, hhead, hr⟩ := id hs
    obtain ⟨rs, rfl⟩ := List.head?_eq_some_iff.mp hhead
    have hdef : r.isDefault = true := by simp [Route.isDefault, hmain r List.mem_cons_self, hr]
    rw [right_stacked hd hr, scan_stop hmain List.mem_cons_self (by rw [hr]; exact hd), wanted_cons, if_pos hdef]
    show (_ ↔ _) ∧ (∀ x, _ → r.gateway.getD f.gw = x) ↔ _
    cases r.gateway with
    | none => cases wanted rs <;> simp [eq_comm]
    | some y => simp
  · by_cases hdst : ∀ r ∈ routes, r.dst ≠ some 0
    · rw [right_ungiven hmain hs hdst, scan_none hmain hs hdst]
      cases wanted routes <;> simp
    · constructor
      · rintro ⟨hret, hgw⟩
        obtain ⟨pre, r, post, h, hpre, hr⟩ := exists_given hdst
        obtain ⟨hz, hg⟩ := scan_given hmain h hs hpre hr
        obtain ⟨x, hx⟩ := Option.isSome_iff_exists.mp (hret.mp hz)
        exact .given pre r post h hs hpre hr (by rw [hx, ← hgw x hx, hg])
      · intro h
        cases h with
        | nothing _ hno => exact absurd hno hdst
        | first r rs h hd hr => exact absurd ⟨hd, r, by rw [h]; rfl, hr⟩ hs
        | given pre r post h _ hpre hr hgw =>
          obtain ⟨hz, hg⟩ := scan_given hmain h hs hpre hr
          simp [hz, hg, hgw]

end Main

/-! ## The result -/

theorem readRoutes_le {size seq pid len : Nat} {recvs : List (Option (List UInt8))} {m m' : Bytes}
    {r : Int} (h : readRoutes size seq pid recvs m len = some (r, m')) (hlen : len ≤ size) :
    r ≤ size := by
  induction recvs generalizing m len with
  | nil => cases h
  | cons x recvs ih =>
    cases x with
    | none =>
      cases h
      omega
    | some bs =>
      have hd : len + (bs.take (size - len)).length ≤ size := by
        rw [List.length_take]
        omega
      simp only [readRoutes] at h
      split at h
      · cases h
        omega
      · split at h
        · cases h
          omega
        · split at h
          · cases h
            omega
          · split at h
            · exact ih h hd
            · cases h
              omega

section Answered

variable {c : Kernel} {g len : Nat} (hsocket : c.socket = true) (hsend : c.send = true)
  (hanswer : c.answer = some ((len : Int), m)) (h : RoutesAt m 0 len routes)
  (hk : routes.length < k)

include hsocket hsend hanswer h hk

theorem getGateway_eq :
    getGateway c k g = some ((scan ⟨c.dest, g⟩ routes).1, (scan ⟨c.dest, g⟩ routes).2.gw) := by
  have hlen : len ≤ 8192 := by
    have hle := readRoutes_le hanswer (Nat.zero_le _)
    omega
  have hnot : ¬(len : Int) = -1 := by omega
  simp [getGateway, hsocket, hsend, hanswer, hnot, walk_eq h hlen hk]

/-- For every answer of the kernel that consists of well-formed messages, and
whatever is on the stack: `get_gateway` returns 0 exactly if there is a default
route with a gateway, and then with the gateway of the first, exactly in the
cases of `Right`. -/
theorem getGateway_iff :
    ∃ ret gw, getGateway c k g = some (ret, gw) ∧
      (((ret = 0 ↔ (wanted routes).isSome = true) ∧ ∀ x, wanted routes = some x → gw = x) ↔
        Right c.dest g (routes.filter Route.main)) := by
  refine ⟨_, _, getGateway_eq hsocket hsend hanswer h hk, ?_⟩
  rw [← wanted_filter, ← scan_filter]
  exact scan_right (fun r hr => (List.mem_filter.mp hr).2) ⟨c.dest, g⟩

/-- A default route as the kernel gives it has no destination. Where all are so
and the stack does not happen to hold 0, none is ever found. -/
theorem getGateway_fails (hdest : c.dest ≠ 0) (hdst : ∀ r ∈ routes, r.dst ≠ some 0) :
    ∃ gw, getGateway c k g = some (-1, gw) := by
  have hret : (scan ⟨c.dest, g⟩ routes).1 = -1 := by
    rw [← scan_filter]
    exact scan_none (fun r hr => (List.mem_filter.mp hr).2) (fun hs => hdest hs.1)
      fun r hr => hdst r (List.mem_filter.mp hr).1
  refine ⟨(scan ⟨c.dest, g⟩ routes).2.gw, ?_⟩
  rw [getGateway_eq hsocket hsend hanswer h hk, hret]

end Answered

/-- A message of the main table with these attributes. -/
def message (attrs : List UInt8) : List UInt8 :=
  Bytes.word 4 (28 + attrs.length) ++ Bytes.word 2 rtmNewroute ++ Bytes.word 2 nlmFMulti ++
    Bytes.word 4 0 ++ Bytes.word 4 7 ++ [2, 0, 0, 0, 254, 3, 0, 1, 0, 0, 0, 0] ++ attrs

/-- A process 7 that gets one answer, with `dest` on its stack. -/
def answering (dest : Nat) (bs : List UInt8) : Kernel :=
  ⟨true, true, [some bs], 7, fun _ => 0, dest⟩

/-- 10.0.0.1 -/
def viaOne : Rtattr := ⟨rtaGateway, [10, 0, 0, 1]⟩

def everywhere : Route := ⟨afInet, rtTableMain, [viaOne]⟩

/-- The default route alone, with 0 on the stack. -/
theorem getGateway_default_alone :
    ∃ ret gw, getGateway (answering 0 (message [8, 0, 5, 0, 10, 0, 0, 1])) 2 0 = some (ret, gw) ∧
      (ret = 0 ↔ (wanted [everywhere]).isSome = true) ∧
        ∀ x, wanted [everywhere] = some x → gw = x := by
  have hroutes : RoutesAt ((answering 0 (message [8, 0, 5, 0, 10, 0, 0, 1])).request.blit 0
      (message [8, 0, 5, 0, 10, 0, 0, 1])) 0 36 [everywhere] := by decide +kernel
  obtain ⟨ret, gw, hrun, hiff⟩ := getGateway_iff (c := answering 0 (message [8, 0, 5, 0, 10, 0, 0, 1]))
    (g := 0) (k := 2) rfl rfl rfl hroutes (by decide)
  exact ⟨ret, gw, hrun, hiff.mpr (.first everywhere [] (by decide) rfl rfl (.inl (by decide)))⟩

/-- To 10.0.0.0, without a gateway. -/
def toTen : Route := ⟨afInet, rtTableMain, [⟨rtaDst, [10, 0, 0, 0]⟩]⟩

/-- The default route alone with 1 on the stack, and behind a route to 10.0.0.0
with 0 on it: neither is found. -/
theorem getGateway_misses :
    (∃ m, (answering 1 (message [8, 0, 5, 0, 10, 0, 0, 1])).answer = some (36, m) ∧
      RoutesAt m 0 36 [everywhere] ∧ wanted [everywhere] = some 16777226 ∧
      getGateway (answering 1 (message [8, 0, 5, 0, 10, 0, 0, 1])) 2 0 = some (-1, 16777226)) ∧
    ∃ m, (answering 0 (message [8, 0, 1, 0, 10, 0, 0, 0] ++
          message [8, 0, 5, 0, 10, 0, 0, 1])).answer = some (72, m) ∧
      RoutesAt m 0 72 [toTen, everywhere] ∧ wanted [toTen, everywhere] = some 16777226 ∧
      getGateway (answering 0 (message [8, 0, 1, 0, 10, 0, 0, 0] ++
        message [8, 0, 5, 0, 10, 0, 0, 1])) 3 0 = some (-1, 16777226) :=
  ⟨⟨_, rfl, by decide +kernel, by decide, by decide +kernel⟩,
    ⟨_, rfl, by decide +kernel, by decide, by decide +kernel⟩⟩

end Frankenlibc.Tools.Gateway

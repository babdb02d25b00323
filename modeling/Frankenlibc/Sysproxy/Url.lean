import Frankenlibc.Lib.Bytes
import Frankenlibc.Lib.Environ
import Frankenlibc.Lib.Run
import Frankenlibc.Lib.Words

/-!
# The locator of a server

`parseurl` takes a locator such as `tcp://127.0.0.1:12345` apart. `tcp_parse`
copies the address and then the digits of the port into the same `buf` of 64
bytes; it checks the length of the first only. The port goes through `atoi`,
and the range is checked on the `int` that comes out. So it is the length of the
digits, and their value modulo `2 ^ 32`, on which the parser and the language it
is meant to accept can part.

A copy that overruns `buf` is recorded, and the parser then goes on as if there
were room: everything after it is undefined.
-/
namespace Frankenlibc.Sysproxy

open Frankenlibc.Lib

inductive UrlErr
  | inval
  | range
  | nametoolong
  | opnotsupp
  | nomem
deriving DecidableEq, Repr

/-- What the parsers ask the host. -/
structure UrlHost where
  /-- `inet_pton(AF_INET, ..)`; `INADDR_ANY` is 0. -/
  inetPton : CStr → Option Nat
  getcwd : Option CStr
  malloc : Bool

/-- `struct sockaddr_in` with `sin_port` and `sin_addr`, or `struct sockaddr_un`
with `sun_path`. -/
inductive Sockaddr
  | inet (port addr : Nat)
  | un (path : CStr)
deriving DecidableEq, Repr

/-- `htons` on a host with the low byte first. -/
def htons (x : Nat) : Nat := x % 256 * 256 + x / 256 % 256

/-- The special treatment of `INADDR_ANY`, and `inet_pton`. -/
def sinAddr (h : UrlHost) (buf : CStr) : Option Nat :=
  if buf = "*".toList ∨ buf = "0".toList then some 0 else h.inetPton buf

/-- `tcp_parse` from the port number on: the result, and how many characters were
copied into `buf`. -/
def tcpPort (h : UrlHost) (addr : Nat) (p : CStr) : Except UrlErr Sockaddr × List Nat :=
  -- `strspn(p, "0123456789")`
  let buf := p.takeWhile Char.isDigit
  if buf.length = 0 then (.error .inval, [])
  else
    let rest := p.dropWhile Char.isDigit
    if rest ≠ [] ∧ rest.head? ≠ some '/' then (.error .inval, [buf.length])
    else
      let port := i32 (atoi buf)
      if port < 0 ∨ port ≥ 65536 then (.error .range, [buf.length])
      else if h.malloc then (.ok (.inet (htons port.toNat) addr), [buf.length])
      else (.error .nomem, [buf.length])

/-- `tcp_parse`: the result, and how many characters each `strncpy` has copied
into `buf`. -/
def tcpParse (h : UrlHost) (allowWildcard : Bool) (addr : CStr) :
    Except UrlErr Sockaddr × List Nat :=
  -- `strchr(addr, ':')`
  match addr.dropWhile (· ≠ ':') with
  | [] => (.error .inval, [])
  | _ :: p =>
    let buf := addr.takeWhile (· ≠ ':')
    if buf.length > 63 then (.error .inval, [])
    else
      match sinAddr h buf with
      | none => (.error .inval, [buf.length])
      | some a =>
        if allowWildcard = false ∧ a = 0 then (.error .inval, [buf.length])
        else
          let r := tcpPort h a p
          (r.1, buf.length :: r.2)

/-- `sizeof(s_un.sun_path)`. -/
abbrev SUNPATH : Nat := 108

/-- `unix_parse`, with what it leaves in `parsedurl`. -/
def unixParse (h : UrlHost) (parsedurl addr : CStr) : Except UrlErr Sockaddr × CStr :=
  if addr.length ≥ SUNPATH then (.error .nametoolong, parsedurl)
  else
    let finish := fun (path url : CStr) =>
      (if h.malloc then .ok (.un path) else .error .nomem, url)
    match h.getcwd with
    | some mywd =>
      if addr.head? = some '/' then finish addr parsedurl
      else if addr.length + mywd.length + 1 ≥ SUNPATH then (.error .nametoolong, parsedurl)
      else
        let path := mywd ++ '/' :: addr
        finish path
          (if parsedurl = [] then ("unix://".toList ++ path).take 255 else parsedurl)
    | none => finish addr parsedurl

/-- `strstr`: what stands before the first occurrence, and after it. -/
def strstr (pat : CStr) : CStr → Option (CStr × CStr)
  | [] => if pat = [] then some ([], []) else none
  | c :: s =>
    if pat.isPrefixOf (c :: s) then some ([], (c :: s).drop pat.length)
    else (strstr pat s).map fun r => (c :: r.1, r.2)

/-- What `parseurl` returns with the index it stores, and what it leaves in
`parsedurl` and in the `buf` of `tcp_parse`. -/
structure Parsed where
  result : Except UrlErr (Sockaddr × Nat)
  parsedurl : CStr
  copies : List Nat

def parseurl (h : UrlHost) (allowWildcard : Bool) (parsedurl url : CStr) : Parsed :=
  match strstr "://".toList url with
  | none => ⟨.error .inval, parsedurl, []⟩
  | some (id, addr) =>
    if id.length > 15 then ⟨.error .inval, parsedurl, []⟩
    else if id = "tcp".toList then
      let r := tcpParse h allowWildcard addr
      ⟨r.1.map fun sa => (sa, 0), parsedurl, r.2⟩
    else if id = "unix".toList then
      let r := unixParse h parsedurl addr
      ⟨r.1.map fun sa => (sa, 1), r.2, []⟩
    -- the parser for `tcp6` is `notsupp`
    else if id = "tcp6".toList then ⟨.error .opnotsupp, parsedurl, []⟩
    else ⟨.error .inval, parsedurl, []⟩

/-! ## The language -/

/-- `tcp://`, an address, a colon, digits and the rest. -/
structure Locator (h : UrlHost) (allowWildcard : Bool) (url a ds rest : CStr) (addr : Nat) :
    Prop where
  text : url = "tcp://".toList ++ (a ++ ':' :: (ds ++ rest))
  colon : ':' ∉ a
  length : a.length ≤ 63
  accepted : sinAddr h a = some addr
  wildcard : allowWildcard = true ∨ addr ≠ 0
  digits : ∀ c ∈ ds, c.isDigit = true
  number : ds ≠ []

/-- The end of the string, or a slash. -/
def Ends (rest : CStr) : Prop := rest = [] ∨ rest.head? = some '/'

/-- The number that digits stand for. -/
def value (ds : CStr) : Nat := Nat.ofDigitChars 10 ds 0

/-- The locator names a port. -/
def Locates (h : UrlHost) (allowWildcard : Bool) (url : CStr) (port : Nat) : Prop :=
  ∃ a ds rest addr, Locator h allowWildcard url a ds rest addr ∧ Ends rest ∧ value ds = port ∧
    port < 65536

/-- The digits are all that there are. -/
def Stops (rest : CStr) : Prop := ∀ c, rest.head? = some c → c.isDigit = false

theorem Ends.stops {rest : CStr} (h : Ends rest) : Stops rest := by
  intro c hc
  rcases h with rfl | h
  · cases hc
  · rw [h] at hc
    cases hc
    decide

/-! ## The parser on a locator -/

theorem span_append {p : Char → Bool} {l r : CStr} (hl : ∀ c ∈ l, p c = true)
    (hr : ∀ c, r.head? = some c → p c = false) :
    (l ++ r).takeWhile p = l ∧ (l ++ r).dropWhile p = r := by
  rw [List.takeWhile_append_of_pos hl, List.dropWhile_append_of_pos hl]
  cases r with
  | nil => simp
  | cons c r =>
    have hc := hr c rfl
    simp [hc]

variable {h : UrlHost} {allowWildcard : Bool} {url parsedurl a ds rest : CStr} {addr : Nat}

/-- A port as `tcp_parse` gets it from `atoi`. -/
def InRange (port : Int) : Prop := 0 ≤ port ∧ port < 65536

theorem tcpPort_eq (addr : Nat) (hd : ∀ c ∈ ds, c.isDigit = true) (hne : ds ≠ []) (hs : Stops rest)
    (hm : h.malloc = true) : (tcpPort h addr (ds ++ rest)).2 = [ds.length] ∧
      ∀ sa, (tcpPort h addr (ds ++ rest)).1 = .ok sa ↔ (Ends rest ∧ InRange (i32 (value ds))) ∧
        sa = .inet (htons (i32 (value ds)).toNat) addr := by
  obtain ⟨htake, hdrop⟩ := span_append hd hs
  have hlen : ds.length ≠ 0 := fun hx => hne (List.eq_nil_of_length_eq_zero hx)
  have hvalue : atoi ds = value ds := atoi_of_digits hd
  unfold tcpPort
  simp only [htake, hdrop, hvalue, if_neg hlen, hm, if_true]
  by_cases he : Ends rest
  · rw [if_neg fun hx => he.elim hx.1 hx.2]
    by_cases hr : InRange (i32 (value ds))
    · rw [if_neg (by unfold InRange at hr; omega)]
      refine ⟨rfl, fun sa => ?_⟩
      rw [Except.ok.injEq]
      exact ⟨fun hsa => ⟨⟨he, hr⟩, hsa.symm⟩, fun hsa => hsa.2.symm⟩
    · rw [if_pos (by unfold InRange at hr; omega)]
      exact ⟨rfl, fun sa => ⟨nofun, fun hsa => absurd hsa.1.2 hr⟩⟩
  · rw [if_pos (not_or.mp he)]
    exact ⟨rfl, fun sa => ⟨nofun, fun hsa => absurd hsa.1.1 he⟩⟩

theorem parseurl_tcp (parsedurl s : CStr) :
    parseurl h allowWildcard parsedurl ("tcp://".toList ++ s) =
      ⟨(tcpParse h allowWildcard s).1.map fun sa => (sa, 0), parsedurl,
        (tcpParse h allowWildcard s).2⟩ := rfl

/-- What `parseurl` makes of a locator. -/
theorem Locator.parse (hl : Locator h allowWildcard url a ds rest addr) (hs : Stops rest)
    (hm : h.malloc = true) (parsedurl : CStr) :
    (parseurl h allowWildcard parsedurl url).copies = [a.length, ds.length] ∧
      ∀ sa i, (parseurl h allowWildcard parsedurl url).result = .ok (sa, i) ↔
        (Ends rest ∧ InRange (i32 (value ds))) ∧
          sa = .inet (htons (i32 (value ds)).toNat) addr ∧ i = 0 := by
  obtain ⟨htake, hdrop⟩ := span_append (p := fun c => decide (c ≠ ':')) (l := a)
    (r := ':' :: (ds ++ rest)) (fun c hc => by simpa using fun hx : c = ':' => hl.colon (hx ▸ hc))
    (fun c hc => by cases hc; decide)
  obtain ⟨hcopies, hok⟩ := tcpPort_eq addr hl.digits hl.number hs hm
  have hw : ¬(allowWildcard = false ∧ addr = 0) := by
    rintro ⟨hx, h0⟩
    rcases hl.wildcard with hy | hne
    · rw [hx] at hy
      cases hy
    · exact hne h0
  have hparse : tcpParse h allowWildcard (a ++ ':' :: (ds ++ rest)) =
      ((tcpPort h addr (ds ++ rest)).1, [a.length, ds.length]) := by
    unfold tcpParse
    rw [hdrop, htake]
    simp only [if_neg (Nat.not_lt.mpr hl.length), hl.accepted, if_neg hw, hcopies]
  rw [hl.text, parseurl_tcp, hparse]
  refine ⟨rfl, fun sa i => ?_⟩
  rw [map_ok_iff]
  constructor
  · rintro ⟨sa', hsa, heq⟩
    obtain ⟨hr, hsa⟩ := (hok sa').mp hsa
    cases heq
    exact ⟨hr, hsa, rfl⟩
  · rintro ⟨hr, hsa, rfl⟩
    exact ⟨sa, (hok sa).mpr ⟨hr, hsa⟩, rfl⟩

/-! ## Where the parser gets to the port -/

/-- The result is a success, or a copy did not fit. -/
def Reaches {α : Type} (r : Except UrlErr α) (copies : List Nat) : Prop :=
  (∃ sa, r = .ok sa) ∨ ∃ n ∈ copies, 63 < n

theorem not_reaches_error {α : Type} {e : UrlErr} {copies : List Nat}
    (h : ∀ n ∈ copies, n ≤ 63) : ¬@Reaches α (.error e) copies := by
  rintro (⟨sa, hsa⟩ | ⟨n, hn, hlt⟩)
  · cases hsa
  · exact absurd (h n hn) (Nat.not_le.mpr hlt)

theorem head_dropWhile {p : Char → Bool} {l : CStr} {c : Char}
    (hc : (l.dropWhile p).head? = some c) : p c = false := by
  have hnot := List.head?_dropWhile_not p l
  rw [hc] at hnot
  exact hnot

theorem tcpParse_reaches {s : CStr}
    (hr : Reaches (tcpParse h allowWildcard s).1 (tcpParse h allowWildcard s).2) :
    ∃ a ds rest addr, Locator h allowWildcard ("tcp://".toList ++ s) a ds rest addr ∧
      Stops rest := by
  unfold tcpParse at hr
  split at hr
  · exact absurd hr (not_reaches_error nofun)
  rename_i c p hdrop
  have hc : c = ':' := by
    have hnot := head_dropWhile (congrArg List.head? hdrop)
    simpa using hnot
  have hs : s.takeWhile (· ≠ ':') ++ ':' :: p = s := by
    have hall := List.takeWhile_append_dropWhile (p := fun x => decide (x ≠ ':')) (l := s)
    rw [hdrop, hc] at hall
    exact hall
  simp only at hr
  split at hr
  · exact absurd hr (not_reaches_error nofun)
  rename_i hlen
  replace hlen := Nat.not_lt.mp hlen
  have hfits : ∀ n ∈ [(s.takeWhile (· ≠ ':')).length], n ≤ 63 := by
    intro n hn
    rw [List.mem_singleton.mp hn]
    exact hlen
  split at hr
  · exact absurd hr (not_reaches_error hfits)
  rename_i addr haddr
  split at hr
  · exact absurd hr (not_reaches_error hfits)
  rename_i hwild
  by_cases hds : p.takeWhile Char.isDigit = []
  · unfold tcpPort at hr
    simp only [hds, List.length_nil, if_true] at hr
    exact absurd hr (not_reaches_error hfits)
  · refine ⟨_, p.takeWhile Char.isDigit, p.dropWhile Char.isDigit, addr,
      ⟨?_, ?_, hlen, haddr, ?_, ?_, hds⟩, fun c hc => head_dropWhile hc⟩
    · rw [List.takeWhile_append_dropWhile, hs]
    · intro hmem
      simpa using List.mem_takeWhile_imp hmem
    · by_contra hx
      rw [not_or] at hx
      exact hwild ⟨Bool.eq_false_of_not_eq_true hx.1, not_not.mp hx.2⟩
    · exact fun c hmem => List.mem_takeWhile_imp hmem

theorem strstr_eq {pat s pre post : CStr} (h : strstr pat s = some (pre, post)) :
    s = pre ++ (pat ++ post) := by
  induction s generalizing pre with
  | nil =>
    rw [strstr] at h
    split at h
    · cases h
      simp [*]
    · cases h
  | cons c s ih =>
    rw [strstr] at h
    split at h
    · rename_i hp
      cases h
      exact (List.prefix_iff_eq_append.mp (List.isPrefixOf_iff_prefix.mp hp)).symm
    · obtain ⟨⟨pre', post'⟩, hr, heq⟩ := Option.map_eq_some_iff.mp h
      cases heq
      rw [ih hr]
      rfl

theorem parseurl_reaches
    (hr : (∃ sa, (parseurl h allowWildcard parsedurl url).result = .ok (sa, 0)) ∨
      ∃ n ∈ (parseurl h allowWildcard parsedurl url).copies, 63 < n) :
    ∃ a ds rest addr, Locator h allowWildcard url a ds rest addr ∧ Stops rest := by
  unfold parseurl at hr
  split at hr
  · obtain ⟨sa, hsa⟩ | ⟨n, hn, _⟩ := hr
    · cases hsa
    · cases hn
  rename_i id s hstr
  split at hr
  · obtain ⟨sa, hsa⟩ | ⟨n, hn, _⟩ := hr
    · cases hsa
    · cases hn
  split at hr
  · rename_i htcp
    rw [strstr_eq hstr, htcp]
    refine tcpParse_reaches (s := s) (hr.imp_left ?_)
    rintro ⟨sa, hsa⟩
    obtain ⟨sa', hsa', _⟩ := map_ok_iff.mp hsa
    exact ⟨sa', hsa'⟩
  -- the other schemes have no copies, and other indices
  exfalso
  split at hr
  · obtain ⟨sa, hsa⟩ | ⟨n, hn, _⟩ := hr
    · obtain ⟨sa', _, heq⟩ := map_ok_iff.mp hsa
      cases heq
    · cases hn
  split at hr
  · obtain ⟨sa, hsa⟩ | ⟨n, hn, _⟩ := hr
    · cases hsa
    · cases hn
  · obtain ⟨sa, hsa⟩ | ⟨n, hn, _⟩ := hr
    · cases hsa
    · cases hn

/-! ## The two languages -/

/-- The high byte comes first. -/
theorem htons_bytes (v : Nat) : Bytes.word 2 (htons v) = (Bytes.word 2 v).reverse := by
  have hlow : UInt8.ofNat (htons v) = UInt8.ofNat (v / 256) := by
    refine UInt8.toNat_inj.mp ?_
    simp only [UInt8.toNat_ofNat', htons]
    omega
  have hhigh : UInt8.ofNat (htons v / 256) = UInt8.ofNat v := by
    have hdiv : htons v / 256 = v % 256 := by
      unfold htons
      omega
    refine UInt8.toNat_inj.mp ?_
    rw [hdiv, UInt8.toNat_ofNat', UInt8.toNat_ofNat', Nat.mod_mod]
  show [UInt8.ofNat (htons v), UInt8.ofNat (htons v / 256)] =
    [UInt8.ofNat (v / 256), UInt8.ofNat v]
  rw [hlow, hhigh]

/-- Two readings of one text as a locator have the same digits. -/
theorem Locator.digits_unique {a' ds' rest' : CStr} {addr' : Nat}
    (hl : Locator h allowWildcard url a ds rest addr) (hs : Stops rest)
    (hl' : Locator h allowWildcard url a' ds' rest' addr') (hs' : Stops rest')
    (hm : h.malloc = true) : ds = ds' := by
  have hcopies := (hl.parse hs hm []).1
  rw [(hl'.parse hs' hm []).1] at hcopies
  obtain ⟨ha, hd, _⟩ : a'.length = a.length ∧ ds'.length = ds.length ∧ True := by
    simpa using hcopies
  have htext := hl.text.symm.trans hl'.text
  obtain ⟨_, hrest⟩ := List.append_inj (List.append_cancel_left htext) ha.symm
  exact (List.append_inj (List.cons.inj hrest).2 hd.symm).1

/-- For every string: `tcp_parse` copies no more into `buf` than fits, `parseurl`
takes exactly the locators with a port below 65536, and stores that port with
the high byte first, exactly if: where the string gets as far as a port, that
has at most 63 digits, and it is below 65536 or not so modulo `2 ^ 32` either. -/
theorem parseurl_tcp_iff (hm : h.malloc = true) :
    ((∀ n ∈ (parseurl h allowWildcard parsedurl url).copies, n ≤ 63) ∧
      ((∃ sa, (parseurl h allowWildcard parsedurl url).result = .ok (sa, 0)) ↔
        ∃ port, Locates h allowWildcard url port) ∧
      ∀ sa port, (parseurl h allowWildcard parsedurl url).result = .ok (sa, 0) →
        Locates h allowWildcard url port → ∃ p addr, sa = .inet p addr ∧
          Bytes.word 2 p = (Bytes.word 2 port).reverse) ↔
    ∀ a ds rest addr, Locator h allowWildcard url a ds rest addr → Stops rest →
      ds.length ≤ 63 ∧ (Ends rest → value ds < 65536 ∨ ¬InRange (i32 (value ds))) := by
  constructor
  · rintro ⟨hcopies, hlang, _⟩ a ds rest addr hl hs
    obtain ⟨hc, hok⟩ := hl.parse hs hm parsedurl
    rw [hc] at hcopies
    refine ⟨hcopies ds.length (by simp), fun he => ?_⟩
    by_contra hno
    obtain ⟨hbig, hin⟩ := not_or.mp hno
    -- a success that is not in the language
    obtain ⟨port, a', ds', rest', addr', hl', he', hv, hlt⟩ :=
      hlang.mp ⟨_, (hok _ _).mpr ⟨⟨he, not_not.mp hin⟩, rfl, rfl⟩⟩
    rw [hl.digits_unique hs hl' he'.stops hm, hv] at hbig
    exact hbig hlt
  · intro hall
    have hports : ∀ port, Locates h allowWildcard url port → ∃ addr,
        (parseurl h allowWildcard parsedurl url).result = .ok (.inet (htons port) addr, 0) := by
      rintro port ⟨a, ds, rest, addr, hl, he, hv, hlt⟩
      refine ⟨addr, ((hl.parse he.stops hm parsedurl).2 _ _).mpr ?_⟩
      rw [hv, i32_of_range (by omega) (by omega)]
      exact ⟨⟨he, Int.natCast_nonneg port, by exact_mod_cast hlt⟩, rfl, rfl⟩
    refine ⟨fun n hn => ?_, ⟨fun ⟨sa, hsa⟩ => ?_, fun ⟨port, hp⟩ => ?_⟩, fun sa port hsa hp => ?_⟩
    · by_contra hlong
      obtain ⟨a, ds, rest, addr, hl, hs⟩ := parseurl_reaches (.inr ⟨n, hn, Nat.not_le.mp hlong⟩)
      rw [(hl.parse hs hm parsedurl).1] at hn
      have hds := (hall a ds rest addr hl hs).1
      have ha := hl.length
      simp only [List.mem_cons, List.not_mem_nil, or_false] at hn
      omega
    · obtain ⟨a, ds, rest, addr, hl, hs⟩ := parseurl_reaches (.inl ⟨sa, hsa⟩)
      obtain ⟨⟨he, hin⟩, _⟩ := ((hl.parse hs hm parsedurl).2 _ _).mp hsa
      rcases (hall a ds rest addr hl hs).2 he with hlt | hout
      · exact ⟨value ds, a, ds, rest, addr, hl, he, rfl, hlt⟩
      · exact absurd hin hout
    · obtain ⟨addr, hr⟩ := hports port hp
      exact ⟨_, hr⟩
    · obtain ⟨addr, hr⟩ := hports port hp
      rw [hr] at hsa
      cases hsa
      exact ⟨_, addr, rfl, htons_bytes port⟩

/-- A number of a dotted quad. -/
def octet (s : CStr) : Option Nat :=
  if s ≠ [] ∧ s.length ≤ 3 ∧ s.all Char.isDigit ∧ (s.head? = some '0' → s.length = 1) ∧
    value s ≤ 255 then some (value s) else none

/-- A host whose `inet_pton` takes dotted quads. -/
def quadHost : UrlHost where
  inetPton s :=
    match (s.splitOn '.').map octet with
    | [some a, some b, some c, some d] => some (a + 256 * (b + 256 * (c + 256 * d)))
    | _ => none
  getcwd := some "/".toList
  malloc := true

theorem locator_http : Locator quadHost false "tcp://1.2.3.4:80/".toList "1.2.3.4".toList
    "80".toList "/".toList 67305985 :=
  ⟨by decide, by decide, by decide, by decide, .inr (by decide), List.all_eq_true.mp (by decide),
    by decide⟩

/-- Port 80 is found. -/
theorem parseurl_tcp_http :
    (∃ sa, (parseurl quadHost false [] "tcp://1.2.3.4:80/".toList).result = .ok (sa, 0)) ↔
      ∃ port, Locates quadHost false "tcp://1.2.3.4:80/".toList port := by
  refine ((@parseurl_tcp_iff _ _ _ [] rfl).mpr ?_).2.1
  intro a ds rest addr hl hs
  have hslash : Stops "/".toList := Ends.stops (.inr (by decide))
  rw [hl.digits_unique hs locator_http hslash rfl]
  exact ⟨by decide, fun _ => .inl (by decide)⟩

/-- A port of 4294967376 is taken for 80, and one of 64 digits overruns `buf`. -/
theorem parseurl_wraps :
    (parseurl quadHost false [] "tcp://1.2.3.4:4294967376".toList).result =
        .ok (.inet (htons 80) 67305985, 0) ∧
      value "4294967376".toList = 4294967376 ∧
      (parseurl quadHost false []
        ("tcp://1.2.3.4:".toList ++ List.replicate 64 '0')).copies = [7, 64] :=
  ⟨by decide, by decide, by decide +kernel⟩

end Frankenlibc.Sysproxy

import Frankenlibc.Tools.Rexec

/-!
# The command line of `rexec`

The loop over the arguments reads options, some with an argument of their own,
and acts on each at once. Here the reading (`tokens`) and the acting (`act`) are
taken apart; `parse_eq` says that the loop is one after the other. What a
command line asks to be passed on is read off from its tokens (`requests`).
-/
namespace Frankenlibc.Tools

open Frankenlibc.Lib

inductive Token
  | help
  /-- An option without the argument it needs. -/
  | missing
  | mode
  | nx
  | user (a : CStr)
  | group (a : CStr)
  | noroot
  | args (rest : List CStr)
  | spec (a : CStr)
  | file (arg : CStr)
deriving DecidableEq, Repr

/-- The options and files of a command line, with their positions. -/
def tokens : Nat → List CStr → List (Nat × Token)
  | _, [] => []
  | i, arg :: rest =>
    match Opt.of arg, rest with
    | .help, rest => (i, .help) :: tokens (i + 1) rest
    | .mode, rest => (i, .mode) :: tokens (i + 1) rest
    | .nx, rest => (i, .nx) :: tokens (i + 1) rest
    | .user, a :: rest => (i, .user a) :: tokens (i + 2) rest
    | .group, a :: rest => (i, .group a) :: tokens (i + 2) rest
    | .noroot, rest => (i, .noroot) :: tokens (i + 1) rest
    | .args, rest => [(i, .args rest)]
    | .spec, a :: rest => (i, .spec a) :: tokens (i + 2) rest
    | .file, rest => (i, .file arg) :: tokens (i + 1) rest
    | _, [] => [(i, .missing)]

/-- What `main` does for an option or file. -/
def act (h : Host) (s : Rexec) : Nat × Token → Except Stop Rexec
  | (_, .help) => .error .exit
  | (_, .missing) => .error .exit
  | (_, .mode) => .ok s
  | (_, .nx) => .ok { s with nx := true }
  | (_, .user a) =>
    if toId (h.atoi a) = 0 then .error .exit else .ok { s with user := toId (h.atoi a) }
  | (_, .group a) =>
    if toId (h.atoi a) = 0 then .error .exit else .ok { s with group := toId (h.atoi a) }
  | (i, .noroot) => if h.opened i = some 3 then .ok s else .error .exit
  | (_, .args rest) => .ok { s with pargs := s.pargs ++ rest }
  | (_, .spec a) => .ok { s with spec9pfs := some a }
  | (i, .file arg) => openFile h i arg s

variable {h : Host} {s s' : Rexec} {i : Nat}

/-- The loop reads and acts. -/
theorem parse_eq (h : Host) (i : Nat) (args : List CStr) (s : Rexec) :
    parse h i args s = (tokens i args).foldlM (act h) s := by
  fun_induction parse h i args s with
  | case1 => rfl
  | case2 i arg rest s ho | case13 i arg s rest ho =>
    simp only [tokens, ho]
    rfl
  | case5 i arg s ho | case8 i arg s ho | case14 i arg s ho =>
    unfold tokens
    simp only [ho]
    rfl
  | case3 i arg s rest ho ih | case4 i arg s rest ho ih | case15 i arg s a rest ho ih =>
    simp only [tokens, ho]
    exact ih
  | case6 i arg s a rest ho hz | case9 i arg s a rest ho hz =>
    simp only [tokens, ho, List.foldlM_cons, act, if_pos hz]
    rfl
  | case7 i arg s a rest ho hz ih | case10 i arg s a rest ho hz ih =>
    simp only [tokens, ho, List.foldlM_cons, act, if_neg hz]
    exact ih
  | case11 i arg s rest ho hn ih =>
    simp only [tokens, ho, List.foldlM_cons, act, if_pos hn]
    exact ih
  | case12 i arg s rest ho hn =>
    simp only [tokens, ho, List.foldlM_cons, act, if_neg hn]
    rfl
  | case16 i arg s rest ho ih =>
    simp only [tokens, ho, List.foldlM_cons, act, ih]

/-! ## What is asked for -/

/-- The kinds of devices that are passed on. -/
inductive Device
  | disk
  | net
  | config
deriving DecidableEq, Repr

/-- Something to be passed on: the position of its argument, what it is, and the
name it is passed under. -/
structure Request where
  arg : Nat
  device : Device
  name : CStr
deriving DecidableEq, Repr

/-- What an argument that is not an option asks for. -/
def request (i : Nat) (arg : CStr) : Option Request :=
  match colon arg with
  | none => some ⟨i, .disk, "__RUMP_FDINFO_DISK_".toList ++ arg⟩
  | some (pre, post) =>
    if pre = "config".toList then some ⟨i, .config, "__RUMP_FDINFO_CONFIGJSON".toList⟩
    else if pre = "rootfs".toList then some ⟨i, .disk, "__RUMP_FDINFO_ROOT".toList⟩
    else if isNetPre pre then some ⟨i, .net, "__RUMP_FDINFO_NET_".toList ++ post⟩
    else none

def Token.request : Nat × Token → Option Request
  | (i, .file arg) => Tools.request i arg
  | _ => none

/-- What the arguments from position 2 on ask for. -/
def requests (args : List CStr) : List Request := (tokens 2 args).filterMap Token.request

/-! ## What is done -/

/-- A step of the loop: it exits, or takes no note, or takes the one that was
asked for. Apart from the note only the environment may have changed. -/
def Noted (h : Host) (s : Rexec) (q : Option Request) (r : Except Stop Rexec) : Prop :=
  r = .error .exit ∨ ∃ u, u.fdinfo = s.fdinfo ∧ u.user = s.user ∧ u.spec9pfs = s.spec9pfs ∧
    (u.environ = s.environ ∨ u.environ = setFixed h s.environ) ∧
      (q = none ∧ r = .ok u ∨
        ∃ x fd, q = some x ∧ h.opened x.arg = some fd ∧ r = u.note x.name fd)

theorem note_cases (s : Rexec) (name : CStr) (fd : Nat) :
    (s.fdinfo.length < 64 ∧ name.length < 64) ∧
        s.note name fd = .ok { s with fdinfo := s.fdinfo ++ [⟨fd, name⟩] } ∨
      ¬(s.fdinfo.length < 64 ∧ name.length < 64) ∧ s.note name fd = .error .overflow := by
  unfold Rexec.note
  split
  · exact .inl ⟨‹_›, rfl⟩
  · exact .inr ⟨‹_›, rfl⟩

theorem openArg_cases (h : Host) (i : Nat) : h.openArg i = .error .exit ∨
    ∃ fd, h.opened i = some fd ∧ h.openArg i = .ok fd := by
  unfold Host.openArg
  cases h.opened i with
  | none => exact .inl rfl
  | some fd => exact .inr ⟨fd, rfl, rfl⟩

theorem isNetPre_of_opens {os : Os} {pre : CStr} (ho : os.opens pre = true) :
    isNetPre pre = true := by
  unfold isNetPre
  cases os with
  | linux => exact ho
  | netbsd => cases ho
  | freebsd => simp [of_decide_eq_true ho]
  | darwin => simp [of_decide_eq_true ho]

theorem openFile_noted (h : Host) (i : Nat) (arg : CStr) (s : Rexec) :
    Noted h s (request i arg) (openFile h i arg s) := by
  unfold openFile request
  cases hcol : colon arg with
  | none =>
    rcases openArg_cases h i with hx | ⟨fd, ho, hx⟩
    · exact .inl (by simp only [hx]; rfl)
    · exact .inr ⟨s, rfl, rfl, rfl, .inl rfl, .inr ⟨_, fd, rfl, ho, by simp only [hx]; rfl⟩⟩
  | some p =>
    obtain ⟨pre, post⟩ := p
    simp only
    by_cases hcons : pre = "console".toList
    · subst hcons
      rw [colonOpen, if_pos rfl, if_neg (by decide), if_neg (by decide), if_neg (by decide)]
      cases h.console i with
      | false => exact .inl rfl
      | true => exact .inr ⟨s, rfl, rfl, rfl, .inl rfl, .inl ⟨rfl, rfl⟩⟩
    rw [colonOpen, if_neg hcons]
    by_cases hconf : pre = "config".toList
    · rw [if_pos hconf, if_pos hconf]
      rcases openArg_cases h i with hx | ⟨fd, ho, hx⟩
      · exact .inl (by rw [hx]; rfl)
      · refine .inr ⟨s, rfl, rfl, rfl, .inl rfl, .inr ⟨_, fd, rfl, ho, ?_⟩⟩
        rw [hx]
        exact if_pos hconf
    rw [if_neg hconf, if_neg hconf]
    by_cases hroot : pre = "rootfs".toList
    · subst hroot
      rw [if_pos rfl, if_pos rfl]
      rcases openArg_cases h i with hx | ⟨fd, ho, hx⟩
      · exact .inl (by rw [hx]; rfl)
      · refine .inr ⟨s, rfl, rfl, rfl, .inl rfl, .inr ⟨_, fd, rfl, ho, ?_⟩⟩
        rw [hx]
        -- `main` takes no second note of the root
        cases hn : s.note "__RUMP_FDINFO_ROOT".toList fd with
        | error e => simp only [bind, Except.bind, hn]
        | ok u => simp only [bind, Except.bind, hn]; rfl
    rw [if_neg hroot, if_neg hroot]
    unfold osOpen
    by_cases hos : h.os.opens pre = true
    · have hnet := isNetPre_of_opens hos
      rw [if_pos hos, if_pos hnet]
      rcases openArg_cases h i with hx | ⟨fd, ho, hx⟩
      · exact .inl (by rw [hx]; rfl)
      · rw [hx]
        have hnote : ∀ u : Rexec, noteColon pre post fd u =
            u.note ("__RUMP_FDINFO_NET_".toList ++ post) fd := by
          intro u
          rw [noteColon, if_neg hconf, if_pos hnet]
        by_cases hdock : pre = "docker".toList
        · refine .inr ⟨{ s with environ := setFixed h s.environ }, rfl, rfl, rfl, .inr rfl,
            .inr ⟨_, fd, rfl, ho, ?_⟩⟩
          rw [if_pos hdock]
          exact hnote _
        · refine .inr ⟨s, rfl, rfl, rfl, .inl rfl, .inr ⟨_, fd, rfl, ho, ?_⟩⟩
          rw [if_neg hdock]
          exact hnote _
    · exact .inl (by rw [if_neg hos]; rfl)

def Token.isUser : Nat × Token → Bool
  | (_, .user _) => true
  | _ => false

def Token.isSpec : Nat × Token → Bool
  | (_, .spec _) => true
  | _ => false

theorem act_ok {t : Nat × Token} (hs : act h s t = .ok s') :
    (s'.environ = s.environ ∨ s'.environ = setFixed h s.environ) ∧
      (Token.isUser t = false ∧ s'.user = s.user ∨ Token.isUser t = true ∧ s'.user ≠ 0) ∧
      s'.spec9pfs.isSome = (Token.isSpec t || s.spec9pfs.isSome) := by
  obtain ⟨i, t⟩ := t
  cases t with
  | file arg =>
    replace hs : openFile h i arg s = .ok s' := hs
    rcases openFile_noted h i arg s with hx | ⟨u, _, hu, hspec, he, ⟨_, hx⟩ | ⟨x, fd, _, _, hx⟩⟩
    · rw [hx] at hs
      cases hs
    · rw [hx] at hs
      cases hs
      exact ⟨he, .inl ⟨rfl, hu⟩, congrArg _ hspec⟩
    · rw [hx] at hs
      rcases note_cases u x.name fd with ⟨_, hn⟩ | ⟨_, hn⟩
      · rw [hn] at hs
        cases hs
        exact ⟨he, .inl ⟨rfl, hu⟩, congrArg _ hspec⟩
      · rw [hn] at hs
        cases hs
  | user a =>
    simp only [act] at hs
    split_ifs at hs with hz
    cases hs
    exact ⟨.inl rfl, .inr ⟨rfl, hz⟩, rfl⟩
  | group a =>
    simp only [act] at hs
    split_ifs at hs
    cases hs
    exact ⟨.inl rfl, .inl ⟨rfl, rfl⟩, rfl⟩
  | noroot =>
    simp only [act] at hs
    split_ifs at hs
    cases hs
    exact ⟨.inl rfl, .inl ⟨rfl, rfl⟩, rfl⟩
  | help => cases hs
  | missing => cases hs
  | _ =>
    cases hs
    exact ⟨.inl rfl, .inl ⟨rfl, rfl⟩, rfl⟩

/-! ## Notes -/

/-- The note of a request. -/
def Request.note (h : Host) (q : Request) : Fdinfo := ⟨(h.opened q.arg).getD 0, q.name⟩

/-- `fdinfo_list` has room for the requests, and its names for theirs. -/
def Fits (n : Nat) (qs : List Request) : Prop := n + qs.length ≤ 64 ∧ ∀ q ∈ qs, q.name.length < 64

/-- A step exits, or takes no note, or tries to take the one that was asked
for. -/
theorem act_noted (h : Host) (s : Rexec) (t : Nat × Token) :
    act h s t = .error .exit ∨
      (Token.request t = none ∧ ∃ u, act h s t = .ok u ∧ u.fdinfo = s.fdinfo) ∨
      ∃ (q : Request) (fd : Nat) (u : Rexec), Token.request t = some q ∧
        h.opened q.arg = some fd ∧ u.fdinfo = s.fdinfo ∧ act h s t = u.note q.name fd := by
  obtain ⟨i, t⟩ := t
  cases t with
  | file arg =>
    rcases openFile_noted h i arg s with hx | ⟨u, hf, _, _, _, ⟨hq, hx⟩ | ⟨q, fd, hq, ho, hx⟩⟩
    · exact .inl hx
    · exact .inr (.inl ⟨hq, u, hx, hf⟩)
    · exact .inr (.inr ⟨q, fd, u, hq, ho, hf, hx⟩)
  | user a =>
    simp only [act]
    split
    · exact .inl rfl
    · exact .inr (.inl ⟨rfl, _, rfl, rfl⟩)
  | group a =>
    simp only [act]
    split
    · exact .inl rfl
    · exact .inr (.inl ⟨rfl, _, rfl, rfl⟩)
  | noroot =>
    simp only [act]
    split
    · exact .inr (.inl ⟨rfl, _, rfl, rfl⟩)
    · exact .inl rfl
  | help => exact .inl rfl
  | missing => exact .inl rfl
  | _ => exact .inr (.inl ⟨rfl, _, rfl, rfl⟩)

/-- The loop exits, or takes a note of every request, or overflows because they
do not fit. -/
theorem fold_noted (ts : List (Nat × Token)) {qs : List Request}
    (hq : qs = ts.filterMap Token.request) :
    ts.foldlM (act h) s = .error .exit ∨
      (∃ u, ts.foldlM (act h) s = .ok u ∧ (s.fdinfo.length ≤ 64 → Fits s.fdinfo.length qs) ∧
        u.fdinfo = s.fdinfo ++ qs.map (Request.note h) ∧ ∀ q ∈ qs, h.opened q.arg ≠ none) ∨
      ts.foldlM (act h) s = .error .overflow ∧ ¬Fits s.fdinfo.length qs := by
  subst hq
  induction ts generalizing s with
  | nil => exact .inr (.inl ⟨s, rfl, fun hs => ⟨hs, by simp⟩, by simp, by simp⟩)
  | cons t ts ih =>
    rw [List.foldlM_cons]
    rcases act_noted h s t with hx | ⟨hq, u, hx, hf⟩ | ⟨q, fd, u, hq, ho, hf, hx⟩
    · exact .inl (by rw [hx]; rfl)
    · rw [hx, List.filterMap_cons_none hq, ← hf]
      exact ih
    · rw [hx, List.filterMap_cons_some hq]
      rcases note_cases u q.name fd with ⟨⟨hlen, hname⟩, hn⟩ | ⟨hover, hn⟩
      · rw [hn]
        rw [hf] at hlen
        have hfits : Fits (s.fdinfo.length + 1) (ts.filterMap Token.request) ↔
            Fits s.fdinfo.length (q :: ts.filterMap Token.request) := by
          unfold Fits
          rw [List.forall_mem_cons, List.length_cons, Nat.add_assoc, Nat.add_comm 1]
          simp only [hname, true_and]
        have hnew : u.fdinfo ++ [⟨fd, q.name⟩] = s.fdinfo ++ [q.note h] := by
          rw [Request.note, ho, hf]
          rfl
        rw [hnew]
        have ih := ih (s := { u with fdinfo := s.fdinfo ++ [q.note h] })
        simp only [List.length_append, List.length_singleton, hfits] at ih
        rcases ih with hy | ⟨v, hy, hfit, hinfo, hopen⟩ | ⟨hy, hfit⟩
        · exact .inl hy
        · refine .inr (.inl ⟨v, hy, fun _ => hfit hlen, ?_, ?_⟩)
          · rw [hinfo, List.append_assoc]
            rfl
          · exact List.forall_mem_cons.mpr ⟨by rw [ho]; simp, hopen⟩
        · exact .inr (.inr ⟨hy, hfit⟩)
      · rw [hn]
        refine .inr (.inr ⟨rfl, fun hx => hover ⟨?_, hx.2 q List.mem_cons_self⟩⟩)
        have hlen := hx.1
        rw [List.length_cons] at hlen
        rw [hf]
        omega

/-- Positions grow along the command line. -/
theorem tokens_sorted (i : Nat) (args : List CStr) :
    (tokens i args).Pairwise (fun a b => a.1 < b.1) ∧ ∀ t ∈ tokens i args, i ≤ t.1 := by
  have hcons : ∀ {i j : Nat} {t : Token} {ts : List (Nat × Token)}, i < j →
      (ts.Pairwise (fun a b => a.1 < b.1) ∧ ∀ t ∈ ts, j ≤ t.1) →
      ((i, t) :: ts).Pairwise (fun a b => a.1 < b.1) ∧ ∀ x ∈ (i, t) :: ts, i ≤ x.1 := by
    intro i j t ts hij hts
    refine ⟨List.pairwise_cons.mpr ⟨fun x hx => Nat.lt_of_lt_of_le hij (hts.2 x hx), hts.1⟩, ?_⟩
    exact List.forall_mem_cons.mpr ⟨Nat.le_refl i, fun x hx =>
      Nat.le_trans (Nat.le_of_lt hij) (hts.2 x hx)⟩
  fun_induction tokens i args with
  | case1 => exact ⟨.nil, fun t ht => absurd ht List.not_mem_nil⟩
  | case8 | case11 => exact ⟨List.pairwise_singleton _ _, by simp⟩
  | case5 i _ a _ _ ih | case6 i _ a _ _ ih | case9 i _ a _ _ ih => exact hcons (by omega) ih
  | case2 i _ _ _ ih | case3 i _ _ _ ih | case4 i _ _ _ ih | case7 i _ _ _ ih | case10 i _ _ _ ih =>
    exact hcons (Nat.lt_succ_self i) ih

theorem request_arg {arg : CStr} {q : Request} (hq : request i arg = some q) : q.arg = i := by
  unfold request at hq
  split at hq
  · cases hq
    rfl
  · split_ifs at hq <;> cases hq <;> rfl

theorem Token.request_arg {t : Nat × Token} {q : Request} (hq : Token.request t = some q) :
    q.arg = t.1 := by
  obtain ⟨i, t⟩ := t
  cases t with
  | file arg => exact Tools.request_arg hq
  | _ => cases hq

theorem requests_sorted (args : List CStr) : (requests args).Pairwise (fun a b => a.arg < b.arg) := by
  refine List.Pairwise.filterMap _ ?_ (tokens_sorted 2 args).1
  intro a b hab x hx y hy
  rw [Token.request_arg hx, Token.request_arg hy]
  exact hab

/-! ## `main` -/

/-- The state before the first argument. -/
def Rexec.start (program : CStr) (environ : List CStr) : Rexec :=
  ⟨false, 0, 0, none, [], [program], environ⟩

/-- What has happened when `filter_load_exec` is reached. -/
structure Reached (h : Host) (program : CStr) (args : List CStr) (c : Creds) (environ : List CStr)
    (x : Exec) (env : List CStr) (s : Rexec) : Prop where
  uuid : Tools.uuid h environ = .ok env
  parse : (tokens 2 args).foldlM (act h) (Rexec.start program env) = .ok s
  creds : ∃ c₁ c₂, changeUser h (target h s.user c s.environ) c = .ok c₁ ∧
    osDropcaps h c₁ = .ok c₂ ∧ x.creds = (tryRoot h.os c₂).2 ∧ x.refused = (tryRoot h.os c₂).1
  environ : ∃ env', open9pfs h s.spec9pfs s.environ = .ok env' ∧
    x.environ = fdinfoSetenv s.fdinfo env'
  fdinfo : x.fdinfo = s.fdinfo

theorem main_ok {argv : List CStr} {ruid euid : Nat} {cap : Bool} {environ : List CStr} {x : Exec}
    (hx : main h argv ruid euid cap environ = .ok x) :
    ∃ name program args env s, argv = name :: program :: args ∧
      Reached h program args ⟨ruid, euid, euid, cap⟩ environ x env s := by
  unfold main at hx
  split at hx
  · rename_i name program args
    obtain ⟨env, huuid, hx⟩ := bind_ok_iff.mp hx
    obtain ⟨-, -, hx⟩ := bind_ok_iff.mp hx
    obtain ⟨s, hparse, hx⟩ := bind_ok_iff.mp hx
    obtain ⟨found, -, hx⟩ := bind_ok_iff.mp hx
    obtain ⟨-, -, hx⟩ := bind_ok_iff.mp hx
    obtain ⟨-, -, hx⟩ := bind_ok_iff.mp hx
    obtain ⟨-, -, hx⟩ := bind_ok_iff.mp hx
    obtain ⟨c₁, hc₁, hx⟩ := bind_ok_iff.mp hx
    obtain ⟨c₂, hc₂, hx⟩ := bind_ok_iff.mp hx
    obtain ⟨env', henv, hx⟩ := bind_ok_iff.mp hx
    obtain ⟨-, -, hx⟩ := bind_ok_iff.mp hx
    cases hx
    rw [parse_eq] at hparse
    exact ⟨name, program, args, env, s, rfl, huuid, hparse, ⟨c₁, c₂, hc₁, hc₂, rfl, rfl⟩,
      ⟨env', henv, rfl⟩, rfl⟩
  · cases hx

theorem require_error {ok : Bool} {e : Stop} (he : require ok = .error e) : e = .exit := by
  cases ok with
  | false =>
    cases he
    rfl
  | true => cases he

theorem uuid_error {environ : List CStr} {e : Stop} (he : uuid h environ = .error e) : e = .exit := by
  unfold uuid at he
  split at he
  · cases he
  · split at he
    · cases he
    · cases he
      rfl

theorem locate_error {program : CStr} {environ : List CStr} {e : Stop}
    (he : locate h program environ = .error e) : e = .exit := by
  unfold locate at he
  split at he
  · cases he
  · split at he
    · cases he
      rfl
    · split at he
      · cases he
      · cases he
        rfl

theorem changeUser_error {user : Nat} {c : Creds} {e : Stop}
    (he : changeUser h user c = .error e) : e = .exit := by
  unfold changeUser at he
  split at he
  · split at he
    · cases he
    · cases he
      rfl
  · cases he

theorem osDropcaps_error {c : Creds} {e : Stop} (he : osDropcaps h c = .error e) : e = .exit := by
  unfold osDropcaps at he
  split_ifs at he
  cases he
  rfl

theorem open9pfs_error {spec : Option CStr} {environ : List CStr} {e : Stop}
    (he : open9pfs h spec environ = .error e) : e = .exit ∨ e = .crash := by
  unfold open9pfs at he
  split at he
  · cases he
  · cases he
    exact .inl rfl
  · split at he
    · cases he
      exact .inr rfl
    · cases he

/-- Only the notes can overflow. -/
theorem main_overflow {argv : List CStr} {ruid euid : Nat} {cap : Bool} {environ : List CStr}
    (hx : main h argv ruid euid cap environ = .error .overflow) :
    ∃ name program args env, argv = name :: program :: args ∧
      (tokens 2 args).foldlM (act h) (Rexec.start program env) = .error .overflow := by
  have hrequire : ∀ {ok}, require ok ≠ .error .overflow := fun he => by cases require_error he
  unfold main at hx
  split at hx
  · rename_i name program args
    obtain ⟨env, -, hx⟩ := (bind_error_iff.mp hx).resolve_left fun he => by cases uuid_error he
    obtain ⟨-, -, hx⟩ := (bind_error_iff.mp hx).resolve_left hrequire
    rcases bind_error_iff.mp hx with hx | ⟨s, -, hx⟩
    · rw [parse_eq] at hx
      exact ⟨name, program, args, env, rfl, hx⟩
    obtain ⟨path, -, hx⟩ := (bind_error_iff.mp hx).resolve_left fun he => by cases locate_error he
    obtain ⟨-, -, hx⟩ := (bind_error_iff.mp hx).resolve_left hrequire
    obtain ⟨-, -, hx⟩ := (bind_error_iff.mp hx).resolve_left hrequire
    obtain ⟨-, -, hx⟩ := (bind_error_iff.mp hx).resolve_left hrequire
    obtain ⟨c, -, hx⟩ := (bind_error_iff.mp hx).resolve_left fun he => by cases changeUser_error he
    obtain ⟨c, -, hx⟩ := (bind_error_iff.mp hx).resolve_left fun he => by cases osDropcaps_error he
    obtain ⟨env', -, hx⟩ := (bind_error_iff.mp hx).resolve_left fun he => by
      rcases open9pfs_error he with hy | hy <;> cases hy
    obtain ⟨-, -, hx⟩ := (bind_error_iff.mp hx).resolve_left hrequire
    cases hx
  · cases hx

/-- A host on which everything succeeds. -/
def plainHost : Host where
  os := .linux
  atoi := Lib.atoi
  opened i := if i < 60 then some (i + 1) else none
  console _ := true
  docker := ([], [], [])
  uuid := some []
  access _ := true
  stat _ := some true
  osInit nx := !nx
  setgid _ := true
  capset := true
  sock9p := none
  files := true
  fresh i j fd hi hj := by
    obtain ⟨-, hi⟩ := Option.ite_none_right_eq_some.mp hi
    obtain ⟨-, hj⟩ := Option.ite_none_right_eq_some.mp hj
    exact Nat.succ.inj (Option.some.inj (hi.trans hj.symm))
  fresh9p _ _ _ hx := absurd hx (by simp)

theorem exists_ok {ε α : Type} {r : Except ε α} (hr : r.isOk = true) : ∃ x, r = .ok x := by
  cases r with
  | ok x => exact ⟨x, rfl⟩
  | error e => cases hr

end Frankenlibc.Tools

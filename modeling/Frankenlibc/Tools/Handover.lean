import Frankenlibc.Init.Rootfs
import Frankenlibc.Tools.Commandline
import Mathlib.Data.List.Induction
import Mathlib.Data.List.Nodup

/-!
# From `rexec` to the table of descriptors

`rexec` notes a descriptor with a name for every device it is asked for and puts
the notes into the environment, from which `__franken_fdinit` reads them. A note
is lost if its name has a `=`, which `setenv` refuses, or if a later argument
has the same name. A note under a name that the environment did not have comes
after all that was there, and is what the table shows in the end. For the others
it depends on what the environment had to say about the descriptor (`merged`).
-/
namespace Frankenlibc.Tools

open Frankenlibc.Lib

variable {h : Host} {g : Init.Host} {e : CStr} {E environ : List CStr} {qs : List Request}
  {q q₀ : Request} {fd : Nat}

/-- The note of a request is in the environment in the end. -/
def Sent (qs : List Request) (q : Request) : Prop :=
  '=' ∉ q.name ∧ ∀ q' ∈ qs, q'.name = q.name → q'.arg ≤ q.arg

/-- The entry for the note of a request. -/
def Request.entry (h : Host) (q : Request) : CStr :=
  Lib.entry q.name (showDec (q.note h).fd)

/-- The last request with the name of a variable. -/
def taker (qs : List Request) (e : CStr) : Option Request :=
  qs.reverse.find? fun q => (valueFor q.name e).isSome

/-- A variable after the notes are put into the environment. -/
def replaced (h : Host) (qs : List Request) (e : CStr) : CStr :=
  ((taker qs e).map (Request.entry h)).getD e

/-- An environment with the notes of requests in place of the variables that
have their names. -/
def merged (h : Host) (qs : List Request) (environ : List CStr) : List CStr :=
  environ.map (replaced h qs)

/-- The requests with names that an environment does not have. -/
def unnamed (environ : List CStr) (qs : List Request) : List Request :=
  qs.filter fun q => !(getenv environ q.name).isSome

/-! ## Notes in place of variables -/

theorem replaced_snoc : replaced h (qs ++ [q₀]) e =
    if (valueFor q₀.name e).isSome then q₀.entry h else replaced h qs e := by
  unfold replaced taker
  rw [List.reverse_append, List.reverse_singleton, List.singleton_append, List.find?_cons]
  cases (valueFor q₀.name e).isSome <;> rfl

theorem replaced_cases (h : Host) (qs : List Request) (e : CStr) : replaced h qs e = e ∨
    ∃ q ∈ qs, nameOf e = q.name ∧ (valueOf e).isSome = true ∧ replaced h qs e = q.entry h := by
  unfold replaced
  cases ht : taker qs e with
  | none => exact .inl rfl
  | some q =>
    have hq := List.mem_reverse.mp (List.mem_of_find?_eq_some ht)
    have hdef : (valueFor q.name e).isSome = true :=
      List.find?_some (p := fun q : Request => (valueFor q.name e).isSome) ht
    obtain ⟨hn, hv⟩ := valueFor_isSome.mp hdef
    exact .inr ⟨q, hq, hn, hv, rfl⟩

theorem Request.entry_defines (h : Host) (hn : '=' ∉ q.name) :
    nameOf (q.entry h) = q.name ∧ valueOf (q.entry h) = some (showDec (q.note h).fd) :=
  ⟨nameOf_entry hn, valueOf_entry hn⟩

/-- The name stays, and that there is a value. -/
theorem replaced_name (h : Host) (qs : List Request) (e : CStr) :
    nameOf (replaced h qs e) = nameOf e ∧
      (valueOf (replaced h qs e)).isSome = (valueOf e).isSome := by
  rcases replaced_cases h qs e with hx | ⟨q, -, hn, hv, hx⟩
  · rw [hx]
    exact ⟨rfl, rfl⟩
  · obtain ⟨hname, hvalue⟩ := Request.entry_defines (q := q) h (hn ▸ not_mem_nameOf e)
    rw [hx, hname, hvalue, hn, hv]
    exact ⟨rfl, rfl⟩

theorem replaced_defines {name : CStr} :
    (valueFor name (replaced h qs e)).isSome = (valueFor name e).isSome := by
  obtain ⟨hn, hv⟩ := replaced_name h qs e
  rw [Bool.eq_iff_iff, valueFor_isSome, valueFor_isSome, hn, hv]

theorem merged_defines {name : CStr} :
    (getenv (merged h qs E) name).isSome = (getenv E name).isSome := by
  rw [Bool.eq_iff_iff, getenv_isSome, getenv_isSome, merged]
  simp only [List.mem_map, exists_exists_and_eq_and, replaced_defines]

theorem unnamed_snoc : unnamed E (qs ++ [q₀]) =
    if (getenv E q₀.name).isSome then unnamed E qs else unnamed E qs ++ [q₀] := by
  rw [unnamed, List.filter_append, List.filter_singleton]
  cases (getenv E q₀.name).isSome with
  | true => exact List.append_nil _
  | false => rfl

theorem fdinfoSetenv_snoc : fdinfoSetenv ((qs ++ [q₀]).map (Request.note h)) E =
    setenv q₀.name (showDec (q₀.note h).fd) true (fdinfoSetenv (qs.map (Request.note h)) E) := by
  rw [fdinfoSetenv, List.map_append, List.foldl_append]
  rfl

/-- `fdinfo_setenv` changes the variables that have the names of requests, and
appends the others. -/
theorem fdinfoSetenv_eq (hname : ∀ q ∈ qs, q.name ≠ [])
    (hone : ∀ q ∈ qs, E.countP (fun e => (valueFor q.name e).isSome) ≤ 1) :
    fdinfoSetenv (qs.map (Request.note h)) E =
      merged h qs E ++ fdinfoSetenv ((unnamed E qs).map (Request.note h)) [] := by
  induction qs using List.reverseRecOn with
  | nil => exact ((List.append_nil _).trans (List.map_id _)).symm
  | append_singleton qs q₀ ih =>
    obtain ⟨hname, hname₀⟩ := List.forall_mem_append.mp hname
    obtain ⟨hone, hone₀⟩ := List.forall_mem_append.mp hone
    rw [List.forall_mem_singleton] at hname₀ hone₀
    rw [fdinfoSetenv_snoc, ih hname hone, unnamed_snoc]
    cases hg : (getenv E q₀.name).isSome with
    | true =>
      -- the variable is changed where it is
      have hgood : ¬(q₀.name = [] ∨ '=' ∈ q₀.name) := by
        obtain ⟨e, -, hv⟩ := getenv_isSome.mp hg
        exact not_or.mpr ⟨hname₀, (valueFor_isSome.mp hv).1 ▸ not_mem_nameOf e⟩
      have hcount : (merged h qs E).countP (fun e => (valueFor q₀.name e).isSome) ≤ 1 := by
        rw [merged, List.countP_map]
        simp only [Function.comp_def, replaced_defines]
        exact hone₀
      rw [setenv_overwrite hgood, put_append_left (merged_defines.trans hg),
        put_eq_map hcount (merged_defines.trans hg), if_pos rfl]
      refine congrArg (· ++ _) ?_
      rw [merged, merged, List.map_map]
      refine List.map_congr_left fun e _ => ?_
      rw [Function.comp_apply, replaced_defines, replaced_snoc]
      rfl
    | false =>
      have hsame : merged h (qs ++ [q₀]) E = merged h qs E := by
        refine List.map_congr_left fun e he => ?_
        rw [replaced_snoc, if_neg]
        intro hv
        rw [getenv_isSome.mpr ⟨e, he, hv⟩] at hg
        cases hg
      rw [setenv_append_right (merged_defines.trans hg), hsame, ← fdinfoSetenv_snoc]
      rfl

/-! ## Notes that are sent -/

theorem sent_snoc (hlast : ∀ x ∈ qs, x.arg < q₀.arg) (hq : q ∈ qs) :
    Sent (qs ++ [q₀]) q ↔ Sent qs q ∧ q₀.name ≠ q.name := by
  unfold Sent
  rw [List.forall_mem_append, List.forall_mem_singleton]
  have harg : (q₀.name = q.name → q₀.arg ≤ q.arg) ↔ q₀.name ≠ q.name :=
    ⟨fun hx hn => absurd (hx hn) (Nat.not_le_of_gt (hlast q hq)), fun hx hn => absurd hn hx⟩
  rw [harg, and_assoc]

theorem sent_last (hlast : ∀ x ∈ qs, x.arg < q₀.arg) : Sent (qs ++ [q₀]) q₀ ↔ '=' ∉ q₀.name := by
  refine ⟨And.left, fun hn => ⟨hn, ?_⟩⟩
  rw [List.forall_mem_append, List.forall_mem_singleton]
  exact ⟨fun x hx _ => Nat.le_of_lt (hlast x hx), fun _ => Nat.le_refl _⟩

/-- Of an empty environment `fdinfo_setenv` makes one with the notes that are
sent, each once. -/
theorem mem_fdinfoSetenv (hsort : qs.Pairwise (fun a b => a.arg < b.arg))
    (hname : ∀ q ∈ qs, q.name ≠ []) :
    (∀ e, e ∈ fdinfoSetenv (qs.map (Request.note h)) [] ↔ ∃ q ∈ qs, Sent qs q ∧ e = q.entry h) ∧
      Distinct (fdinfoSetenv (qs.map (Request.note h)) []) := by
  induction qs using List.reverseRecOn with
  | nil => exact ⟨by simp [fdinfoSetenv], fun _ => Nat.zero_le 1⟩
  | append_singleton qs q₀ ih =>
    obtain ⟨hsort, -, hlast⟩ := List.pairwise_append.mp hsort
    replace hlast : ∀ x ∈ qs, x.arg < q₀.arg := fun x hx => hlast x hx q₀ List.mem_cons_self
    obtain ⟨hname, hname₀⟩ := List.forall_mem_append.mp hname
    rw [List.forall_mem_singleton] at hname₀
    obtain ⟨ihm, ihc⟩ := ih hsort hname
    rw [fdinfoSetenv_snoc]
    by_cases heq : '=' ∈ q₀.name
    · rw [setenv, if_pos (.inr heq)]
      refine ⟨fun e => (ihm e).trans ⟨?_, ?_⟩, ihc⟩
      · rintro ⟨q, hq, hs, he⟩
        have hne : q₀.name ≠ q.name := fun hn => hs.1 (hn ▸ heq)
        exact ⟨q, List.mem_append_left _ hq, (sent_snoc hlast hq).mpr ⟨hs, hne⟩, he⟩
      · rintro ⟨q, hq, hs, he⟩
        rcases List.mem_append.mp hq with hq | hq
        · exact ⟨q, hq, ((sent_snoc hlast hq).mp hs).1, he⟩
        · obtain rfl := List.mem_singleton.mp hq
          exact absurd heq hs.1
    · rw [setenv_overwrite (not_or.mpr ⟨hname₀, heq⟩)]
      refine ⟨fun e => ?_, fun name => countP_put_le heq (ihc name)⟩
      rw [mem_put_iff (ihc q₀.name), ihm]
      constructor
      · rintro (rfl | ⟨⟨q, hq, hs, rfl⟩, hv⟩)
        · exact ⟨q₀, List.mem_append_right _ List.mem_cons_self, (sent_last hlast).mpr heq, rfl⟩
        · refine ⟨q, List.mem_append_left _ hq, (sent_snoc hlast hq).mpr ⟨hs, fun hn => ?_⟩, rfl⟩
          have hdef : (valueFor q₀.name (q.entry h)).isSome = true :=
            (valueFor_entry hs.1).mpr hn.symm
          rw [hv] at hdef
          cases hdef
      · rintro ⟨q, hq, hs, rfl⟩
        rcases List.mem_append.mp hq with hq | hq
        · obtain ⟨hs, hne⟩ := (sent_snoc hlast hq).mp hs
          refine .inr ⟨⟨q, hq, hs, rfl⟩, Option.not_isSome_iff_eq_none.mp fun hv => ?_⟩
          exact hne ((valueFor_entry hs.1).mp hv).symm
        · obtain rfl := List.mem_singleton.mp hq
          exact .inl rfl

/-! ## What an entry says -/

def Device.kind : Device → Init.Kind
  | .disk => .disk
  | .net => .net
  | .config => .config

theorem request_kind {i : Nat} {arg : CStr} (hq : request i arg = some q) :
    ∃ a ∈ q.device.kind.heads, a <+: q.name := by
  unfold request at hq
  split at hq
  · cases hq
    refine ⟨_, List.mem_cons_of_mem _ List.mem_cons_self, ?_⟩
    exact (by decide : "__RUMP_FDINFO_DISK".toList <+: "__RUMP_FDINFO_DISK_".toList).trans
      (List.prefix_append _ _)
  · split_ifs at hq
    · cases hq
      exact ⟨_, List.mem_cons_self, List.prefix_rfl⟩
    · cases hq
      exact ⟨_, List.mem_cons_self, List.prefix_rfl⟩
    · cases hq
      exact ⟨_, List.mem_cons_self, List.prefix_append _ _⟩

theorem requests_kind {args : List CStr} (hq : q ∈ requests args) :
    ∃ a ∈ q.device.kind.heads, a <+: q.name := by
  obtain ⟨⟨i, t⟩, -, ht⟩ := List.mem_filterMap.mp hq
  cases t with
  | file arg => exact request_kind ht
  | _ => cases ht

theorem requests_name {args : List CStr} (hq : q ∈ requests args) :
    "__RUMP_FDINFO_".toList <+: q.name := by
  have hheads : ∀ d : Device, ∀ a ∈ d.kind.heads, "__RUMP_FDINFO_".toList <+: a := by
    intro d
    cases d <;> decide
  obtain ⟨a, ha, hpre⟩ := requests_kind hq
  exact (hheads q.device a ha).trans hpre

theorem requests_name_ne {args : List CStr} (hq : q ∈ requests args) {name : CStr}
    (hn : ¬"__RUMP_FDINFO_".toList <+: name) : q.name ≠ name :=
  fun hx => hn (hx ▸ requests_name hq)

/-- Whether an entry is taken for a descriptor depends on its name. -/
theorem isPassed_nameOf (e : CStr) : Init.isPassed (nameOf e) = Init.isPassed e := by
  rw [Bool.eq_iff_iff]
  unfold Init.isPassed
  rw [Bool.or_eq_true, Bool.or_eq_true, strncmp_iff (by decide), strncmp_iff (by decide),
    strncmp_iff (by decide), strncmp_iff (by decide), prefix_nameOf (by decide),
    prefix_nameOf (by decide)]

theorem isPassed_of_name {name : CStr} {b : Bool} (hn : Init.isPassed name = b) (e : CStr)
    (he : nameOf e = name) : Init.isPassed e = b := by
  rw [← isPassed_nameOf, he, hn]

theorem isPassed_requests {args : List CStr} (hq : q ∈ requests args) :
    Init.isPassed q.name = true := by
  unfold Init.isPassed
  exact Bool.or_eq_true_iff.mpr (.inl ((strncmp_iff (by decide)).mpr (requests_name hq)))

/-- The entry of a request is taken for what it is. -/
theorem entry_read {args : List CStr} (hq : q ∈ requests args) (heq : '=' ∉ q.name) :
    q.device.kind.begins (q.entry h) = true ∧ (valueOf (q.entry h)).isSome = true ∧
      Init.fdOf (q.entry h) = (q.note h).fd := by
  obtain ⟨a, ha, hpre⟩ := requests_kind hq
  obtain ⟨-, hv⟩ := Request.entry_defines (q := q) h heq
  refine ⟨Init.begins_iff.mpr ⟨a, ha, hpre.trans (List.prefix_append _ _)⟩, by rw [hv]; rfl, ?_⟩
  rw [Init.fdOf_eq hv, atoi_showDec]

theorem sock_read (sock : Nat) : nameOf (entry "9PFS_FD".toList (showDec sock)) = "9PFS_FD".toList ∧
    Init.fdOf (entry "9PFS_FD".toList (showDec sock)) = sock := by
  have hv : valueOf (entry "9PFS_FD".toList (showDec sock)) = some (showDec sock) :=
    valueOf_entry (by decide)
  refine ⟨nameOf_entry (by decide), ?_⟩
  rw [Init.fdOf_eq hv, atoi_showDec]

/-! ## The environment before the notes -/

/-- The same variables are taken for descriptors. -/
def Kept (environ E : List CStr) : Prop := E.filter Init.isPassed = environ.filter Init.isPassed

theorem Kept.setenv {name value : CStr} {overwrite : Bool} (hk : Kept environ E)
    (hn : Init.isPassed name = false) : Kept environ (setenv name value overwrite E) :=
  (filter_setenv_of_neg (isPassed_of_name hn)).trans hk

theorem uuid_kept (hu : uuid h environ = .ok E) : Kept environ E := by
  unfold Tools.uuid at hu
  split at hu
  · cases hu
    rfl
  · split at hu
    · cases hu
      exact Kept.setenv rfl rfl
    · cases hu

theorem Kept.fold {ts : List (Nat × Token)} {s s' : Rexec} (hk : Kept environ s.environ)
    (hs : ts.foldlM (act h) s = .ok s') : Kept environ s'.environ ∧
      s'.spec9pfs.isSome = (ts.any Token.isSpec || s.spec9pfs.isSome) := by
  induction ts generalizing s with
  | nil =>
    cases hs
    exact ⟨hk, rfl⟩
  | cons t ts ih =>
    rw [List.foldlM_cons] at hs
    obtain ⟨u, hu, hs⟩ := bind_ok_iff.mp hs
    obtain ⟨henv, -, hspec⟩ := act_ok hu
    have hku : Kept environ u.environ := by
      rcases henv with he | he
      · rw [he]
        exact hk
      · rw [he]
        exact ((hk.setenv rfl).setenv rfl).setenv rfl
    obtain ⟨hk', hspec'⟩ := ih hku hs
    refine ⟨hk', ?_⟩
    rw [hspec', hspec, List.any_cons, ← Bool.or_assoc, Bool.or_comm (ts.any _)]

/-- `open_9pfs` adds the variable of its socket, unless there is one. -/
theorem open9pfs_extra {spec : Option CStr} (ho : open9pfs h spec environ = .ok E) :
    ∃ extra, E.filter Init.isPassed = environ.filter Init.isPassed ++ extra ∧
      (∀ e ∈ extra, ∃ sock, h.sock9p = some sock ∧ e = entry "9PFS_FD".toList (showDec sock)) ∧
      (getenv E "9PFS_FD".toList).isSome =
        ((getenv environ "9PFS_FD".toList).isSome || spec.isSome) := by
  unfold Tools.open9pfs at ho
  split at ho
  · cases ho
    exact ⟨[], (List.append_nil _).symm, nofun, (Bool.or_false _).symm⟩
  · cases ho
  · rename_i spec sock hsock
    split at ho
    · cases ho
    · rename_i guest _
      cases ho
      have hmnt : (Lib.setenv "9PFS_MNT".toList guest false environ).filter Init.isPassed =
          environ.filter Init.isPassed := filter_setenv_of_neg (isPassed_of_name rfl)
      have hget : getenv (Lib.setenv "9PFS_MNT".toList guest false environ) "9PFS_FD".toList =
          getenv environ "9PFS_FD".toList := getenv_setenv_ne (by decide)
      generalize Lib.setenv "9PFS_MNT".toList guest false environ = E₁ at hmnt hget
      have hgood : ¬("9PFS_FD".toList = [] ∨ '=' ∈ "9PFS_FD".toList) := by decide
      rw [Lib.setenv, if_neg hgood, ← hget, ← hmnt]
      cases hg : (getenv E₁ "9PFS_FD".toList).isSome with
      | true =>
        rw [if_pos ⟨rfl, rfl⟩]
        exact ⟨[], (List.append_nil _).symm, nofun, hg⟩
      | false =>
        rw [if_neg fun hx => absurd hx.1 (by simp), ← List.append_nil E₁, put_append_right hg]
        refine ⟨[entry "9PFS_FD".toList (showDec sock)], ?_, ?_, ?_⟩
        · rw [List.filter_append, List.append_nil]
          rfl
        · intro e he
          exact ⟨sock, hsock, List.mem_singleton.mp he⟩
        · refine getenv_isSome.mpr ⟨_, List.mem_append_right _ List.mem_cons_self, ?_⟩
          exact (valueFor_entry (by decide)).mpr rfl

/-! ## The environment at the exec -/

theorem filter_fdinfoSetenv (hqs : ∀ q ∈ qs, Init.isPassed q.name = true) :
    (fdinfoSetenv (qs.map (Request.note h)) E).filter Init.isPassed =
      fdinfoSetenv (qs.map (Request.note h)) (E.filter Init.isPassed) := by
  induction qs generalizing E with
  | nil => rfl
  | cons q qs ih =>
    obtain ⟨hq, hqs⟩ := List.forall_mem_cons.mp hqs
    show (fdinfoSetenv (qs.map (Request.note h)) (setenv _ _ _ E)).filter _ = _
    rw [ih hqs, Request.note, filter_setenv_of_pos (isPassed_of_name hq)]
    rfl

theorem getenv_fdinfoSetenv {name : CStr} (hqs : ∀ q ∈ qs, q.name ≠ name) :
    getenv (fdinfoSetenv (qs.map (Request.note h)) E) name = getenv E name := by
  induction qs generalizing E with
  | nil => rfl
  | cons q qs ih =>
    obtain ⟨hq, hqs⟩ := List.forall_mem_cons.mp hqs
    exact (ih hqs).trans (getenv_setenv_ne hq)

theorem filter_merged : (merged h qs environ).filter Init.isPassed =
    merged h qs (environ.filter Init.isPassed) := by
  rw [merged, merged, List.filter_map]
  refine congrArg _ (List.filter_congr fun e _ => ?_)
  rw [Function.comp_apply, ← isPassed_nameOf, (replaced_name h qs e).1, isPassed_nameOf]

/-- Whether the command line asks for a 9p socket. -/
def gives9p (args : List CStr) : Bool := (tokens 2 args).any Token.isSpec

/-- What `filter_load_exec` is reached with: a note of every request, and an
environment of what was there, the variable of the 9p socket, and the notes. -/
structure Handed (h : Host) (args environ : List CStr) (x : Exec) : Prop where
  fdinfo : x.fdinfo = (requests args).map (Request.note h)
  fits : Fits 0 (requests args)
  opened : ∀ q ∈ requests args, h.opened q.arg ≠ none
  env : ∃ extra, x.environ.filter Init.isPassed =
    (merged h (requests args) environ).filter Init.isPassed ++ extra ++
      fdinfoSetenv ((unnamed environ (requests args)).map (Request.note h)) [] ∧
    ∀ e ∈ extra, ∃ sock, h.sock9p = some sock ∧ e = entry "9PFS_FD".toList (showDec sock)
  ninep : (getenv x.environ "9PFS_FD".toList).isSome =
    ((getenv environ "9PFS_FD".toList).isSome || gives9p args)

/-- The notes, in an environment with a variable for the 9p socket. -/
theorem fdinfoSetenv_extra {args extra : List CStr} (hdist : Distinct environ)
    (hextra : ∀ e ∈ extra, nameOf e = "9PFS_FD".toList) :
    fdinfoSetenv ((requests args).map (Request.note h)) (environ.filter Init.isPassed ++ extra) =
      (merged h (requests args) environ).filter Init.isPassed ++ extra ++
        fdinfoSetenv ((unnamed environ (requests args)).map (Request.note h)) [] := by
  have hno : ∀ q ∈ requests args, ∀ e ∈ extra, valueFor q.name e = none := fun q hq e he =>
    if_neg fun hn => requests_name_ne hq (by decide) (hn.symm.trans (hextra e he))
  have hone : ∀ q ∈ requests args, (environ.filter Init.isPassed ++ extra).countP
      (fun e => (valueFor q.name e).isSome) ≤ 1 := by
    intro q hq
    have hzero : extra.countP (fun e => (valueFor q.name e).isSome) = 0 :=
      List.countP_eq_zero.mpr fun e he => by rw [hno q hq e he]; simp
    rw [List.countP_append, hzero]
    exact Nat.le_trans (List.filter_sublist.countP_le) (hdist q.name)
  have hextra' : merged h (requests args) extra = extra := by
    refine (List.map_congr_left fun e he => ?_).trans (List.map_id _)
    refine (replaced_cases h (requests args) e).resolve_right ?_
    rintro ⟨q, hq, hn, -⟩
    exact requests_name_ne hq (by decide) (hn.symm.trans (hextra e he))
  have hnew : unnamed (environ.filter Init.isPassed ++ extra) (requests args) =
      unnamed environ (requests args) := by
    refine List.filter_congr fun q hq => ?_
    have hget : getenv extra q.name = none := List.findSome?_eq_none_iff.mpr (hno q hq)
    rw [getenv, List.findSome?_append]
    show (!((getenv _ q.name).or (getenv extra q.name)).isSome) = _
    rw [hget, Option.or_none, getenv_filter (isPassed_of_name (isPassed_requests hq))]
  have hne : ∀ q ∈ requests args, q.name ≠ [] := fun q hq => requests_name_ne hq (by decide)
  rw [fdinfoSetenv_eq hne hone, hnew, filter_merged]
  refine congrArg (· ++ _) ?_
  rw [merged, List.map_append]
  exact congrArg _ hextra'

variable {argv : List CStr} {ruid euid : Nat} {cap : Bool} {x : Exec}

theorem main_handed (hdist : Distinct environ) (hx : main h argv ruid euid cap environ = .ok x) :
    Handed h (argv.drop 2) environ x := by
  obtain ⟨name, program, args, env, s, rfl, hr⟩ := main_ok hx
  obtain ⟨env', henv', hxenv⟩ := hr.environ
  obtain ⟨hkept, hspec⟩ := Kept.fold (s := Rexec.start program env) (uuid_kept hr.uuid) hr.parse
  obtain ⟨extra, hfilter, hextra, hnine⟩ := open9pfs_extra henv'
  rcases fold_noted (h := h) (s := Rexec.start program env) (tokens 2 args) rfl with
    hy | ⟨u, hy, hfits, hinfo, hopen⟩ | ⟨hy, -⟩
  · rw [hr.parse] at hy
    cases hy
  · rw [hr.parse] at hy
    cases hy
    have hfdinfo : s.fdinfo = (requests args).map (Request.note h) := hinfo
    rw [hfdinfo] at hxenv
    refine ⟨hr.fdinfo.trans hfdinfo, hfits (Nat.zero_le 64), hopen, ⟨extra, ?_, hextra⟩, ?_⟩
    · have hname : ∀ e ∈ extra, nameOf e = "9PFS_FD".toList := by
        intro e he
        obtain ⟨sock, -, rfl⟩ := hextra e he
        exact (sock_read sock).1
      rw [hxenv, filter_fdinfoSetenv fun q hq => isPassed_requests hq, hfilter, hkept,
        fdinfoSetenv_extra hdist hname]
      rfl
    · have hget : getenv s.environ "9PFS_FD".toList = getenv environ "9PFS_FD".toList := by
        rw [← getenv_filter (isPassed_of_name rfl), hkept, getenv_filter (isPassed_of_name rfl)]
      rw [hxenv, getenv_fdinfoSetenv fun q hq => requests_name_ne hq (by decide), hnine, hget, hspec]
      exact congrArg _ (Bool.or_false _)
  · rw [hr.parse] at hy
    cases hy

/-! ## The table -/

theorem note_fd (ho : h.opened q.arg = some fd) : (q.note h).fd = fd := by
  rw [Request.note, ho]
  rfl

theorem unnamed_sent {environ : List CStr} (hq : q ∈ unnamed environ qs) :
    Sent (unnamed environ qs) q ↔ Sent qs q := by
  refine and_congr_right fun _ => ⟨fun hall q' hq' hn => hall q' ?_ hn, fun hall q' hq' hn => ?_⟩
  · rw [unnamed, List.mem_filter] at hq ⊢
    exact ⟨hq', hn ▸ hq.2⟩
  · exact hall q' (List.mem_filter.mp hq').1 hn

section Table

variable {args : List CStr}

/-- Requests have descriptors of their own. -/
theorem Handed.unique (hx : Handed h args environ x) {q q' : Request} (hq : q ∈ requests args)
    (hq' : q' ∈ requests args) (hfd : (q.note h).fd = (q'.note h).fd) : q = q' := by
  obtain ⟨fd, ho⟩ := Option.ne_none_iff_exists'.mp (hx.opened q hq)
  obtain ⟨fd', ho'⟩ := Option.ne_none_iff_exists'.mp (hx.opened q' hq')
  rw [note_fd ho, note_fd ho'] at hfd
  have hnodup : ((requests args).map Request.arg).Nodup :=
    List.pairwise_map.mpr ((requests_sorted args).imp Nat.ne_of_lt)
  exact List.inj_on_of_nodup_map hnodup hq hq' (h.fresh _ _ fd ho (hfd ▸ ho'))

/-- The notes under new names. -/
theorem mem_new : e ∈ fdinfoSetenv ((unnamed environ (requests args)).map (Request.note h)) [] ↔
    ∃ q ∈ requests args, (Sent (requests args) q ∧ getenv environ q.name = none) ∧ e = q.entry h := by
  have hsub : ∀ q ∈ unnamed environ (requests args), q ∈ requests args :=
    fun q hq => (List.mem_filter.mp hq).1
  have hsort : (unnamed environ (requests args)).Pairwise (fun a b => a.arg < b.arg) :=
    (requests_sorted args).filter _
  rw [(mem_fdinfoSetenv hsort fun q hq => requests_name_ne (hsub q hq) (by decide)).1]
  constructor
  · rintro ⟨q, hq, hs, he⟩
    refine ⟨q, hsub q hq, ⟨(unnamed_sent hq).mp hs, ?_⟩, he⟩
    simpa using (List.mem_filter.mp hq).2
  · rintro ⟨q, hq, ⟨hs, hg⟩, he⟩
    have hmem : q ∈ unnamed environ (requests args) := List.mem_filter.mpr ⟨hq, by rw [hg]; rfl⟩
    exact ⟨q, hmem, (unnamed_sent hmem).mpr hs, he⟩

theorem Handed.mem_cases (hx : Handed h args environ x) (he : e ∈ x.environ)
    (hp : Init.isPassed e = true) : e ∈ merged h (requests args) environ ∨
      (∃ sock, h.sock9p = some sock ∧ e = entry "9PFS_FD".toList (showDec sock)) ∨
      ∃ q ∈ requests args, (Sent (requests args) q ∧ getenv environ q.name = none) ∧ e = q.entry h := by
  obtain ⟨extra, henv, hextra⟩ := hx.env
  have hmem : e ∈ x.environ.filter Init.isPassed := List.mem_filter.mpr ⟨he, hp⟩
  rw [henv, List.mem_append, List.mem_append] at hmem
  rcases hmem with (he | he) | he
  · exact .inl (List.mem_filter.mp he).1
  · exact .inr (.inl (hextra e he))
  · exact .inr (.inr (mem_new.mp he))

theorem Handed.mem_of (hx : Handed h args environ x) (hp : Init.isPassed e = true)
    (he : e ∈ merged h (requests args) environ ∨ ∃ q ∈ requests args,
      (Sent (requests args) q ∧ getenv environ q.name = none) ∧ e = q.entry h) : e ∈ x.environ := by
  obtain ⟨extra, henv, -⟩ := hx.env
  have hmem : e ∈ x.environ.filter Init.isPassed := by
    rw [henv, List.mem_append, List.mem_append]
    rcases he with he | he
    · exact .inl (.inl (List.mem_filter.mpr ⟨he, hp⟩))
    · exact .inr (mem_new.mpr he)
  exact (List.mem_filter.mp hmem).1

/-- The note of a request that names the descriptor of another is its own. -/
theorem Handed.own (hx : Handed h args environ x) (hq : q ∈ requests args)
    (ho : h.opened q.arg = some fd) {q' : Request} (hq' : q' ∈ requests args) (hs : '=' ∉ q'.name)
    (hfd : fd = (Init.fdOf (q'.entry h)).toNat) : q' = q := by
  rw [(entry_read hq' hs).2.2, Int.toNat_natCast] at hfd
  exact hx.unique hq' hq (by rw [note_fd ho, hfd])

theorem sock_other {sock : Nat} (ho : h.opened q.arg = some fd) (hs : h.sock9p = some sock) :
    fd ≠ (Init.fdOf (entry "9PFS_FD".toList (showDec sock))).toNat := by
  rw [(sock_read sock).2, Int.toNat_natCast]
  rintro rfl
  exact h.fresh9p _ _ ho hs

/-- Which entries name the descriptor of a request. -/
theorem Handed.names (hx : Handed h args environ x) (hq : q ∈ requests args)
    (ho : h.opened q.arg = some fd) :
    (∃ e ∈ x.environ, Init.names fd e = true) ↔
      (Sent (requests args) q ∧ getenv environ q.name = none) ∨
        ∃ e ∈ merged h (requests args) environ, Init.names fd e = true := by
  constructor
  · rintro ⟨e, he, hn⟩
    obtain ⟨hp, hfd⟩ := Init.isPassed_of_names hn
    rcases hx.mem_cases he hp with he | ⟨sock, hs, rfl⟩ | ⟨q', hq', hs, rfl⟩
    · exact .inr ⟨e, he, hn⟩
    · exact absurd hfd (sock_other ho hs)
    · exact .inl (hx.own hq ho hq' hs.1.1 hfd ▸ hs)
  · rintro (hs | ⟨e, he, hn⟩)
    · obtain ⟨hk, hv, hfd⟩ := entry_read (h := h) hq hs.1.1
      have hp : Init.isPassed (q.entry h) = true := Init.isPassed_of_begins hk
      refine ⟨q.entry h, hx.mem_of hp (.inr ⟨q, hq, hs, rfl⟩), ?_⟩
      rw [Init.names, Init.passed, hv, hp, hfd, note_fd ho]
      simp
    · exact ⟨e, hx.mem_of (Init.isPassed_of_names hn).1 (.inl he), hn⟩

/-- What the environment says about the descriptor of a request in the end. -/
theorem Handed.lastWord (hx : Handed h args environ x) (hq : q ∈ requests args)
    (ho : h.opened q.arg = some fd) :
    ((Sent (requests args) q ∧ getenv environ q.name = none) →
        Init.lastWord fd x.environ =
          q.device.kind.seek.or (Init.lastWord fd (merged h (requests args) environ))) ∧
      (¬(Sent (requests args) q ∧ getenv environ q.name = none) →
        Init.lastWord fd x.environ = Init.lastWord fd (merged h (requests args) environ)) := by
  obtain ⟨extra, henv, hextra⟩ := hx.env
  have hsilent : Init.lastWord fd extra = none := by
    refine getLast?_of_forall (fun v hv => ?_) fun hne => absurd rfl hne
    obtain ⟨e, he, hv⟩ := List.mem_filterMap.mp hv
    obtain ⟨sock, hs, rfl⟩ := hextra e he
    exact absurd (Init.passed_of_seeks hv).2 (sock_other ho hs)
  have hsplit : Init.lastWord fd x.environ = (Init.lastWord fd
      (fdinfoSetenv ((unnamed environ (requests args)).map (Request.note h)) [])).or
        (Init.lastWord fd (merged h (requests args) environ)) := by
    rw [← Init.lastWord_filter x.environ, henv, Init.lastWord_append, Init.lastWord_append,
      hsilent, Init.lastWord_filter]
    rfl
  have hword : ∀ v ∈ (fdinfoSetenv ((unnamed environ (requests args)).map (Request.note h)) []).filterMap
      (Init.seeks fd), (Sent (requests args) q ∧ getenv environ q.name = none) ∧
        some v = q.device.kind.seek := by
    intro v hv
    obtain ⟨e, he, hv⟩ := List.mem_filterMap.mp hv
    obtain ⟨q', hq', hs, rfl⟩ := mem_new.mp he
    obtain rfl := hx.own hq ho hq' hs.1.1 (Init.passed_of_seeks hv).2
    obtain ⟨hk, hsome, hfd⟩ := entry_read (h := h) hq hs.1.1
    rw [Init.seeks_of_begins hsome hk, hfd, note_fd ho] at hv
    exact ⟨hs, (hv.symm.trans (if_pos rfl) : some v = _)⟩
  rw [hsplit]
  constructor
  · intro hs
    refine congrArg (Option.or · _) (getLast?_of_forall (fun v hv => (hword v hv).2) fun hne => ?_)
    obtain ⟨v, hv⟩ := Option.ne_none_iff_exists'.mp hne
    obtain ⟨hk, hsome, hfd⟩ := entry_read (h := h) hq hs.1.1
    have hown : Init.seeks fd (q.entry h) = some v := by
      rw [Init.seeks_of_begins hsome hk, hfd, note_fd ho]
      exact (if_pos rfl).trans hv
    exact List.ne_nil_of_mem (List.mem_filterMap.mpr ⟨_, mem_new.mpr ⟨q, hq, hs, rfl⟩, hown⟩)
  · intro hs
    have hnone : Init.lastWord fd
        (fdinfoSetenv ((unnamed environ (requests args)).map (Request.note h)) []) = none :=
      getLast?_of_forall (fun v hv => absurd (hword v hv).1 hs) fun hne => absurd rfl hne
    rw [hnone]
    rfl

/-- When `__franken_fdinit` stays in its table. -/
theorem Handed.defined (hx : Handed h args environ x) (hst : ∀ fd, g.fstat fd ≠ none)
    (hfd : ∀ i fd, h.opened i = some fd → fd < Init.MAXFD)
    (hsock : ∀ fd, h.sock9p = some fd → fd < Init.MAXFD) :
    Init.Defined g x.environ ↔ ∀ e ∈ merged h (requests args) environ, Init.passed e = true →
      (0 ≤ Init.fdOf e ∧ Init.fdOf e < Init.MAXFD) ∧ (Init.isNinep e = true →
        getenv environ "9PFS_FD".toList ≠ none ∨ gives9p args = true) := by
  have hnine : getenv x.environ "9PFS_FD".toList ≠ none ↔
      getenv environ "9PFS_FD".toList ≠ none ∨ gives9p args = true := by
    rw [← Option.isSome_iff_ne_none, ← Option.isSome_iff_ne_none, hx.ninep, Bool.or_eq_true]
  rw [Init.defined_iff hst, hnine]
  constructor
  · intro hall e he hp
    exact hall e (hx.mem_of ((Bool.and_eq_true_iff ..).mp hp).2 (.inl he)) hp
  · intro hall e he hp
    rcases hx.mem_cases he ((Bool.and_eq_true_iff ..).mp hp).2 with
      hm | ⟨sock, hs, rfl⟩ | ⟨q, hq, hs, rfl⟩
    · exact hall e hm hp
    · rw [(sock_read sock).2]
      refine ⟨⟨Int.natCast_nonneg _, by exact_mod_cast hsock sock hs⟩, fun _ => hnine.mp ?_⟩
      exact Option.isSome_iff_ne_none.mp
        (getenv_isSome.mpr ⟨_, he, (valueFor_entry (by decide)).mpr rfl⟩)
    · obtain ⟨fd, ho⟩ := Option.ne_none_iff_exists'.mp (hx.opened q hq)
      obtain ⟨hk, -, hread⟩ := entry_read (h := h) hq hs.1.1
      rw [hread, note_fd ho]
      refine ⟨⟨Int.natCast_nonneg _, by exact_mod_cast hfd q.arg fd ho⟩, fun hn => ?_⟩
      have hkind : q.device.kind = .ninep := Init.begins_unique hk hn
      cases hd : q.device <;> rw [hd] at hkind <;> cases hkind

/-- The table has the descriptor of a request as what it is. -/
def HandedOver (h : Host) (s : Init.Fdinit) (q : Request) : Prop :=
  ∃ fd, h.opened q.arg = some fd ∧ (s.fd fd).valid = true ∧
    (q.device = .disk → (s.fd fd).seek = true) ∧ (q.device = .net → (s.fd fd).seek = false)

/-- A request whose note is sent under a new name, or for whose descriptor the
other variables say the right thing. -/
def Safe (h : Host) (environ : List CStr) (qs : List Request) (q : Request) (fd : Nat) : Prop :=
  (Sent qs q ∧ getenv environ q.name = none) ∨
    ((∃ e ∈ merged h qs environ, Init.names fd e = true) ∨ fd ≤ 2) ∧
      (q.device = .disk → Init.lastWord fd (merged h qs environ) = some true) ∧
      (q.device = .net → Init.lastWord fd (merged h qs environ) ≠ some true)

theorem getD_false {o : Option Bool} : o.getD false = true ↔ o = some true := by
  cases o <;> simp

theorem Handed.table (hx : Handed h args environ x) (hst : ∀ fd, g.fstat fd ≠ none)
    (hq : q ∈ requests args) (ho : h.opened q.arg = some fd) :
    HandedOver h (Init.roundsFrom g x.environ 0 (Init.rounds x.environ) (Init.start g)) q ↔
      Safe h environ (requests args) q fd := by
  have hvalid : ((Init.roundsFrom g x.environ 0 (Init.rounds x.environ) (Init.start g)).fd
      fd).valid = true ↔ (∃ e ∈ x.environ, Init.names fd e = true) ∨ fd ≤ 2 := by
    rw [Init.roundsFrom_valid, Init.clears_of_fstat hst, (Init.start_fd hst).1, List.any_eq_true]
    simp only [Init.mem_rounds, true_and]
  have hseek : ((Init.roundsFrom g x.environ 0 (Init.rounds x.environ) (Init.start g)).fd
      fd).seek = true ↔ Init.lastWord fd x.environ = some true := by
    rw [Init.roundsFrom_seek, Init.lastWord_rounds, (Init.start_fd hst).2, getD_false]
  unfold HandedOver Safe
  simp only [ho, Option.some.injEq, exists_eq_left', ← Bool.not_eq_true, hvalid, hseek]
  rw [hx.names hq ho]
  by_cases hs : Sent (requests args) q ∧ getenv environ q.name = none
  · refine iff_of_true ⟨.inl (.inl hs), fun hd => ?_, fun hd => ?_⟩ (.inl hs)
    · rw [(hx.lastWord hq ho).1 hs, hd]
      rfl
    · rw [(hx.lastWord hq ho).1 hs, hd]
      exact fun hx => Bool.false_ne_true (Option.some.inj hx)
  · rw [(hx.lastWord hq ho).2 hs, or_iff_right hs, or_iff_right hs]

end Table

/-- For a command line that `rexec` accepts, all notes stay in their list and
the table has every descriptor as what it is, exactly if the notes fit, the
variables that were there stay in the table, and every request is safe. -/
theorem handover_iff (hdist : Distinct environ)
    (hfd : ∀ i fd, h.opened i = some fd → fd < Init.MAXFD)
    (hsock : ∀ fd, h.sock9p = some fd → fd < Init.MAXFD) (hst : ∀ fd, g.fstat fd ≠ none)
    (haccept : main h argv ruid euid cap environ ≠ .error .exit ∧
      main h argv ruid euid cap environ ≠ .error .crash) :
    (∃ x s, main h argv ruid euid cap environ = .ok x ∧
      x.fdinfo = (requests (argv.drop 2)).map (Request.note h) ∧
      Init.frankenFdinit g x.environ = some s ∧
      ∀ q ∈ requests (argv.drop 2), HandedOver h s q) ↔
    Fits 0 (requests (argv.drop 2)) ∧
      (∀ e ∈ merged h (requests (argv.drop 2)) environ, Init.passed e = true →
        (0 ≤ Init.fdOf e ∧ Init.fdOf e < Init.MAXFD) ∧ (Init.isNinep e = true →
          getenv environ "9PFS_FD".toList ≠ none ∨ gives9p (argv.drop 2) = true)) ∧
      ∀ q ∈ requests (argv.drop 2), ∀ fd, h.opened q.arg = some fd →
        Safe h environ (requests (argv.drop 2)) q fd := by
  constructor
  · rintro ⟨x, s, hx, -, hs, hall⟩
    have hhanded := main_handed hdist hx
    obtain ⟨hdef, rfl⟩ := Init.frankenFdinit_eq_some.mp hs
    exact ⟨hhanded.fits, (hhanded.defined hst hfd hsock).mp hdef,
      fun q hq fd ho => (hhanded.table hst hq ho).mp (hall q hq)⟩
  · rintro ⟨hfits, hin, hsafe⟩
    -- what fits does not overflow, so the exec is reached
    cases hx : main h argv ruid euid cap environ with
    | error stop =>
      cases stop with
      | exit => exact absurd hx haccept.1
      | crash => exact absurd hx haccept.2
      | overflow =>
        obtain ⟨name, program, args, env, rfl, hy⟩ := main_overflow hx
        rcases fold_noted (h := h) (s := Rexec.start program env) (tokens 2 args) rfl with
          hz | ⟨u, hz, -⟩ | ⟨-, hover⟩
        · rw [hy] at hz
          cases hz
        · rw [hy] at hz
          cases hz
        · exact absurd hfits hover
    | ok x =>
      have hhanded := main_handed hdist hx
      refine ⟨x, _, rfl, hhanded.fdinfo, Init.frankenFdinit_eq_some.mpr
        ⟨(hhanded.defined hst hfd hsock).mpr hin, rfl⟩, fun q hq => ?_⟩
      obtain ⟨fd, ho⟩ := Option.ne_none_iff_exists'.mp (hhanded.opened q hq)
      exact (hhanded.table hst hq ho).mpr (hsafe q hq fd ho)

theorem handover_iff_devices :
    ∃ x s, main plainHost ["rexec".toList, "/prog".toList, "rootfs:root.img".toList,
        "tap:tap0".toList, "disk.img".toList] 1000 1000 false ["HOME=/".toList] = .ok x ∧
      x.fdinfo = [⟨3, "__RUMP_FDINFO_ROOT".toList⟩, ⟨4, "__RUMP_FDINFO_NET_tap0".toList⟩,
        ⟨5, "__RUMP_FDINFO_DISK_disk.img".toList⟩] ∧
      Init.frankenFdinit Init.plainHost x.environ = some s ∧
      ∀ q ∈ requests ["rootfs:root.img".toList, "tap:tap0".toList, "disk.img".toList],
        HandedOver plainHost s q := by
  obtain ⟨x, hx⟩ := exists_ok (r := main plainHost ["rexec".toList, "/prog".toList,
    "rootfs:root.img".toList, "tap:tap0".toList, "disk.img".toList] 1000 1000 false
      ["HOME=/".toList]) (by decide)
  refine (handover_iff (g := Init.plainHost) (fun name => List.countP_le_length) ?_
    (fun fd hx => by cases hx) (fun fd hx => by cases hx)
    (by rw [hx]; exact ⟨nofun, nofun⟩)).mpr ⟨?_, ?_, ?_⟩
  · intro i fd ho
    obtain ⟨hi, ho⟩ := Option.ite_none_right_eq_some.mp ho
    cases ho
    exact Nat.lt_of_lt_of_le (Nat.succ_lt_succ hi) (by decide)
  · exact ⟨by decide, by decide⟩
  · decide
  · have hsent : ∀ q ∈ requests ["rootfs:root.img".toList, "tap:tap0".toList, "disk.img".toList],
        ('=' ∉ q.name ∧ ∀ q' ∈ requests ["rootfs:root.img".toList, "tap:tap0".toList,
          "disk.img".toList], q'.name = q.name → q'.arg ≤ q.arg) ∧
            getenv ["HOME=/".toList] q.name = none := by decide
    exact fun q hq fd _ => .inl (hsent q hq)

/-- Two devices with one name: there are notes of both descriptors, and only the
second is marked. A path of 45 characters does not fit into its note. -/
theorem handover_loses :
    (main plainHost ["rexec".toList, "/prog".toList, "tun:eth0".toList, "tap:eth0".toList]
        1000 1000 false []).toOption.map Exec.fdinfo =
      some [⟨3, "__RUMP_FDINFO_NET_eth0".toList⟩, ⟨4, "__RUMP_FDINFO_NET_eth0".toList⟩] ∧
    ((main plainHost ["rexec".toList, "/prog".toList, "tun:eth0".toList, "tap:eth0".toList]
        1000 1000 false []).toOption.bind fun x =>
          (Init.frankenFdinit Init.plainHost x.environ).map fun s =>
            ((s.fd 3).valid, (s.fd 4).valid)) = some (false, true) ∧
    main plainHost ["rexec".toList, "/prog".toList, List.replicate 45 'a'] 1000 1000 false [] =
      .error .overflow := by
  exact ⟨by decide, by decide, rfl⟩

end Frankenlibc.Tools

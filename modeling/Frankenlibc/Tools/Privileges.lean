import Frankenlibc.Tools.Commandline

/-!
# Whether `rexec` gives up root

The checks at the end of `main` only print: a process that is still root, or can
become it again, goes on. So root is given up exactly if there is a user to
change to and all three ids are changed, or if none of the ids was root's to
begin with.
-/
namespace Frankenlibc.Tools

open Frankenlibc.Lib

variable {h : Host} {c c' : Creds} {s s' : Rexec} {x : Exec}

/-! ## Ids -/

/-- None of the three ids is root's. -/
def Creds.Plain (c : Creds) : Prop := c.ruid ≠ 0 ∧ c.euid ≠ 0 ∧ c.suid ≠ 0

/-- Where every change is one of all three ids, there is no other saved one. -/
def Creds.Tied (os : Os) (c : Creds) : Prop := os = .freebsd ∨ os = .netbsd → c.suid = c.euid

theorem osDropcaps_ok (hc : osDropcaps h c = .ok c') : (c'.Plain ↔ c.Plain) ∧
    (c.Tied h.os → c'.Tied h.os) ∧ (c'.euid ≠ 0 → h.os.privileged c' = false) := by
  unfold osDropcaps at hc
  split at hc
  · rename_i hos
    split at hc
    · cases hc
      rw [hos]
      exact ⟨Iff.rfl, id, fun _ => rfl⟩
    · cases hc
  · rename_i hos
    cases hc
    refine ⟨Iff.rfl, id, fun he => ?_⟩
    cases ho : h.os with
    | linux => exact absurd ho hos
    | _ => exact decide_eq_false he

/-- The attempt to become root fails, for a process that could not even before,
exactly if none of its ids is root's. -/
theorem tryRoot_iff {os : Os} (ht : c.Tied os) (hp : c.euid ≠ 0 → os.privileged c = false) :
    ((tryRoot os c).2.ruid ≠ 0 ∧ (tryRoot os c).2.euid ≠ 0 ∧ (tryRoot os c).1 = true) ↔ c.Plain := by
  have hzero : ¬(os = .linux ∧ 0 = 4294967295) := fun hx => absurd hx.2 (by decide)
  have hids : c.ruid ≠ 0 → c.euid ≠ 0 → (os.allows 0 c = false ↔ c.suid ≠ 0) := by
    intro hr he
    cases os with
    | linux | darwin => simp [Os.allows, hr.symm, eq_comm]
    | freebsd => simp [Os.allows, hr.symm, he.symm, he, ht (.inl rfl)]
    | netbsd => simp [Os.allows, hr.symm, he, ht (.inr rfl)]
  unfold tryRoot setuid
  rw [if_neg hzero]
  constructor
  · intro hx
    split_ifs at hx with hok hall
    · exact absurd hx.2.2 (by simp)
    · exact absurd hx.2.2 (by simp)
    · rw [Bool.or_eq_true, not_or, Bool.not_eq_true, Bool.not_eq_true] at hok
      exact ⟨hx.1, hx.2.1, (hids hx.1 hx.2.1).mp hok.2⟩
  · rintro ⟨hr, he, hs⟩
    rw [hp he, (hids hr he).mpr hs, if_neg (by simp)]
    exact ⟨hr, he, rfl⟩

/-- A change of user leaves none of the ids to root if it sets all of them, or if
none was root's. -/
theorem changeUser_plain {user ruid euid : Nat} {cap : Bool}
    (hc : changeUser h user ⟨ruid, euid, euid, cap⟩ = .ok c') : c'.Tied h.os ∧
    (c'.Plain ↔ (ruid ≠ 0 ∧ euid ≠ 0) ∨
      (h.os.setsAll ⟨ruid, euid, euid, cap⟩ = true ∧ user ≠ 0)) := by
  have hsame : Creds.Plain ⟨ruid, euid, euid, cap⟩ ↔ ruid ≠ 0 ∧ euid ≠ 0 :=
    ⟨fun hx => ⟨hx.1, hx.2.1⟩, fun hx => ⟨hx.1, hx.2, hx.2⟩⟩
  unfold changeUser setuid at hc
  split_ifs at hc with huser hbad hok hall
  · cases hc
    exact ⟨fun _ => rfl, fun _ => .inr ⟨hall, huser⟩, fun _ => ⟨huser, huser, huser⟩⟩
  · cases hc
    refine ⟨fun hos => ?_, fun hx => .inl ⟨hx.1, hx.2.2⟩, fun hx => ?_⟩
    · rcases hos with hos | hos
      · exact absurd (by rw [hos]; rfl) hall
      · exact absurd (by rw [hos]; rfl) hall
    · obtain ⟨hr, he⟩ := hx.resolve_right fun hy => hall hy.1
      exact ⟨hr, huser, he⟩
  · cases hc
    rw [hsame]
    exact ⟨fun _ => rfl, .inl, fun hx => hx.resolve_right fun hy => huser hy.2⟩

/-! ## Who is asked for -/

/-- Whether the command line names a user. -/
def givesUser (args : List CStr) : Bool := (tokens 2 args).any Token.isUser

/-- There is a user to change to: from the command line, from a start with the
user id of root set, or from `sudo`. -/
def FindsUser (h : Host) (argv : List CStr) (ruid euid : Nat) (environ : List CStr) : Prop :=
  givesUser (argv.drop 2) = true ∨ (euid = 0 ∧ ruid ≠ 0) ∨
    ∃ v, getenv environ "SUDO_UID".toList = some v ∧ toId (h.atoi v) ≠ 0

theorem target_ne_zero {user : Nat} {environ : List CStr} : target h user c environ ≠ 0 ↔
    user ≠ 0 ∨ (c.euid = 0 ∧ c.ruid ≠ 0) ∨
      ∃ v, getenv environ "SUDO_UID".toList = some v ∧ toId (h.atoi v) ≠ 0 := by
  unfold target
  by_cases hu : user = 0
  · by_cases hs : c.euid = 0 ∧ c.ruid ≠ 0
    · rw [if_pos ⟨hu, hs⟩]
      refine iff_of_true ?_ (.inr (.inl hs))
      cases getenv environ "SUDO_UID".toList with
      | none => exact hs.2
      | some v =>
        simp only [if_neg hs.2]
        exact hs.2
    · rw [if_neg fun hx => hs hx.2]
      cases getenv environ "SUDO_UID".toList <;> simp [hu, hs]
  · rw [if_neg fun hx => hu hx.1]
    refine iff_of_true ?_ (.inl hu)
    cases getenv environ "SUDO_UID".toList with
    | none => exact hu
    | some v =>
      simp only [if_neg hu]
      exact hu

theorem getenv_setFixed {environ : List CStr} :
    getenv (setFixed h environ) "SUDO_UID".toList = getenv environ "SUDO_UID".toList := by
  unfold setFixed
  rw [getenv_setenv_ne (by decide), getenv_setenv_ne (by decide), getenv_setenv_ne (by decide)]

theorem fold_user {ts : List (Nat × Token)} (hs : ts.foldlM (act h) s = .ok s') :
    (s'.user ≠ 0 ↔ ts.any Token.isUser = true ∨ s.user ≠ 0) ∧
      getenv s'.environ "SUDO_UID".toList = getenv s.environ "SUDO_UID".toList := by
  induction ts generalizing s with
  | nil =>
    cases hs
    simp
  | cons t ts ih =>
    rw [List.foldlM_cons] at hs
    obtain ⟨u, hu, hs⟩ := bind_ok_iff.mp hs
    obtain ⟨huser, henv⟩ := ih hs
    refine ⟨?_, henv.trans ?_⟩
    · rw [huser, List.any_cons, Bool.or_eq_true]
      rcases (act_ok hu).2.1 with ⟨ht, hu⟩ | ⟨ht, hu⟩
      · rw [ht, hu]
        simp
      · exact iff_of_true (.inr hu) (.inl (.inl ht))
    · rcases (act_ok hu).1 with he | he
      · rw [he]
      · rw [he, getenv_setFixed]

theorem getenv_uuid {environ env : List CStr} (hu : uuid h environ = .ok env) :
    getenv env "SUDO_UID".toList = getenv environ "SUDO_UID".toList := by
  unfold uuid at hu
  split at hu
  · cases hu
    rfl
  · split at hu
    · cases hu
      exact getenv_setenv_ne (by decide)
    · cases hu

/-- When `filter_load_exec` is reached, root has been given up exactly if no id
was root's at the start, or if there was a user to change to and the change was
one of all three ids. -/
theorem drops_root_iff {argv : List CStr} {ruid euid : Nat} {cap : Bool} {environ : List CStr}
    (hx : main h argv ruid euid cap environ = .ok x) :
    (x.creds.ruid ≠ 0 ∧ x.creds.euid ≠ 0 ∧ x.refused = true) ↔
      (ruid ≠ 0 ∧ euid ≠ 0) ∨ (h.os.setsAll ⟨ruid, euid, euid, cap⟩ = true ∧
        FindsUser h argv ruid euid environ) := by
  obtain ⟨name, program, args, env, s, rfl, hr⟩ := main_ok hx
  obtain ⟨c₁, c₂, hc₁, hc₂, hcreds, hrefused⟩ := hr.creds
  obtain ⟨huser, hsudo⟩ := fold_user hr.parse
  obtain ⟨htied, hids⟩ := changeUser_plain hc₁
  obtain ⟨hplain, hkeep, hpriv⟩ := osDropcaps_ok hc₂
  have htarget : target h s.user ⟨ruid, euid, euid, cap⟩ s.environ ≠ 0 ↔
      FindsUser h (name :: program :: args) ruid euid environ := by
    rw [target_ne_zero, huser, hsudo]
    show _ ∨ _ ∨ (∃ v, getenv env "SUDO_UID".toList = some v ∧ _) ↔ _
    rw [getenv_uuid hr.uuid]
    refine or_congr ⟨fun hu => hu.resolve_right fun h0 => h0 rfl, .inl⟩ Iff.rfl
  rw [hcreds, hrefused, tryRoot_iff (hkeep htied) hpriv, hplain, hids, htarget]

theorem drops_root_iff_user :
    ∃ x, main plainHost ["rexec".toList, "/prog".toList, "-u".toList, "1000".toList] 0 0 true [] =
      .ok x ∧ x.creds.ruid ≠ 0 ∧ x.creds.euid ≠ 0 ∧ x.refused = true := by
  obtain ⟨x, hx⟩ := exists_ok (r := main plainHost
    ["rexec".toList, "/prog".toList, "-u".toList, "1000".toList] 0 0 true []) (by decide)
  exact ⟨x, hx, (drops_root_iff hx).mpr (.inr ⟨rfl, .inl (by decide)⟩)⟩

/-- Root starts a program and names no user. -/
theorem stays_root : (main plainHost ["rexec".toList, "/prog".toList] 0 0 true []).toOption.map
    (fun x => (x.creds, x.refused)) = some (⟨0, 0, 0, false⟩, false) := by
  decide

end Frankenlibc.Tools

import Crimson.Pkg.DepInstall
import Mathlib.Logic.Relation
import Mathlib.Data.List.Perm.Subperm

/-!
# When the installation of dependencies ends (`pkg_exec.c`)

A package is registered only behind its dependencies, so nothing stops a package that needs
itself: the calls end exactly where the needs of what is not registered are well founded
(`acc_of_ends`, `ends_spec`). A call that returns 0 has then registered everything it was asked
for, in the files that carry the names they are stored under and while the registry has room.
-/

set_option autoImplicit false

namespace Crimson.Pkg.Exec

open Crimson.Lib Crimson.Str Relation

/-! ## Needs -/

/-- The dependencies of the file at a path, if it can be read. -/
def depsAt (store : CpkgStore) (path : List UInt8) : List (List UInt8) :=
  match openPackage store path with
  | none => []
  | some f => f.deps

/-- `d` is a dependency of `m`, and not registered to begin with. -/
def Needs (store : CpkgStore) (r : Registry) (d m : List UInt8) : Prop := d ∈ depsAt store (depPath m) ∧ d ∉ r.names

/-- `x` is `m` or needed for it. -/
abbrev Below (store : CpkgStore) (r : Registry) (x m : List UInt8) : Prop := ReflTransGen (Needs store r) x m

/-- `x` is needed for the file at the path. -/
def Asked (store : CpkgStore) (r : Registry) (path x : List UInt8) : Prop :=
  ∃ d ∈ depsAt store path, d ∉ r.names ∧ Below store r x d

/-- `x` is the package in the file, or reachable from it through dependencies. -/
def Reachable (store : CpkgStore) (f : CpkgFile) (x : List UInt8) : Prop :=
  x = f.name.take 63 ∨ ∃ d ∈ f.deps, ReflTransGen (fun x m => x ∈ depsAt store (depPath m)) x d

/-- The package of that name can be read. -/
def Readable (store : CpkgStore) (m : List UInt8) : Prop := (openPackage store (depPath m)).isSome

/-- Whatever is asked for carries the name that it is stored under. -/
def Named (store : CpkgStore) (r : Registry) (path : List UInt8) : Prop :=
  ∀ m, Asked store r path m → ∀ f, openPackage store (depPath m) = some f → f.name.take 63 = m

/-- **What the installation is for**: it ends, and where it returns 0, every package reachable from
    the file is registered once. -/
def InstallsAll (store : CpkgStore) (r : Registry) (path : List UInt8) : Prop :=
  (∃ ret r', Ends store r path ret r') ∧
    ∀ r' f, Ends store r path 0 r' → openPackage store path = some f →
      ∀ m, Reachable store f m → r'.names.count m = 1

/-- The needs are well founded; and if all that is asked for can be read, then it fits into the
    registry, and with it what is reachable is there once. -/
def DepsFit (store : CpkgStore) (r : Registry) (path : List UInt8) : Prop :=
  ∀ f, openPackage store path = some f →
    (∀ d ∈ f.deps, d ∉ r.names → Acc (Needs store r) d) ∧
    ((∀ m, Asked store r path m → Readable store m) →
      ∃ asked : List (List UInt8), asked.Nodup ∧ (∀ m, m ∈ asked ↔ Asked store r path m) ∧
        r.names.length + asked.length ≤ maxInstalled ∧
        ∀ m, Reachable store f m → r.names.count m + (if m ∈ asked then 1 else 0) +
          (if m = f.name.take 63 ∧ r.names.length + asked.length < maxInstalled then 1 else 0) = 1)

variable {store : CpkgStore} {r s s' : Registry} {path m d x : List UInt8} {f : CpkgFile} {ret : Int}
  {deps : List (List UInt8)}

theorem depsAt_some (h : openPackage store path = some f) : depsAt store path = f.deps := by
  rw [depsAt, h]

theorem depsAt_none (h : openPackage store path = none) : depsAt store path = [] := by
  rw [depsAt, h]

/-- What is below a package is the package or below one that it needs. -/
theorem below_cases (h : Below store r x m) : x = m ∨ ∃ d, Needs store r d m ∧ Below store r x d := by
  rcases ReflTransGen.cases_tail h with heq | ⟨d, hbelow, hneeds⟩
  · exact .inl heq.symm
  · exact .inr ⟨d, hneeds, hbelow⟩

/-- Nothing well founded needs itself. -/
theorem not_below_of_acc (hacc : Acc (Needs store r) m) (hneeds : Needs store r d m) : ¬Below store r m d := by
  have hirrefl (x : List UInt8) (hx : Acc (TransGen (Needs store r)) x) : ¬TransGen (Needs store r) x x := by
    induction hx with
    | intro x _ ih => exact fun hself => ih x hself hself
  exact fun hbelow => hirrefl m hacc.transGen (TransGen.tail' hbelow hneeds)

/-! ## A run that ends has well-founded needs -/

/-- The registry of a run that began with `r`, if what was registered since is well founded. -/
structure AccInv (store : CpkgStore) (r s : Registry) : Prop where
  kept : ∀ x ∈ r.names, x ∈ s.names
  acc : ∀ x ∈ s.names, x ∈ r.names ∨ Acc (Needs store r) x

theorem AccInv.start : AccInv store r r := ⟨fun _ hx => hx, fun _ hx => .inl hx⟩

theorem AccInv.add {name version binary : List UInt8} (h : AccInv store r s)
    (hname : name.take 63 ∈ r.names ∨ Acc (Needs store r) (name.take 63)) :
    AccInv store r (pkgRegistryAdd s name version binary).2 := by
  constructor
  · intro x hx
    rw [names_add]
    split
    · exact h.kept x hx
    · exact List.mem_append_left _ (h.kept x hx)
  · intro x hx
    rw [names_add] at hx
    split at hx
    · exact h.acc x hx
    · rcases List.mem_append.mp hx with hx | hx
      · exact h.acc x hx
      · rw [List.mem_singleton.mp hx]
        exact hname

/-- The loop, if every call of it does. -/
theorem acc_of_loop {install : Registry → List UInt8 → Option (Int × Registry)} {missing : Nat} {out : Nat × Registry}
    (hcalls : ∀ d ∈ deps, d ∉ r.names → ∀ s res, AccInv store r s → install s (depPath d) = some res →
      Acc (Needs store r) d ∧ AccInv store r res.2)
    (hs : AccInv store r s) (hloop : resolveLoop install deps s missing = some out) :
    (∀ d ∈ deps, d ∉ r.names → Acc (Needs store r) d) ∧ AccInv store r out.2 := by
  induction deps generalizing s missing with
  | nil =>
    obtain rfl : (missing, s) = out := by simpa [resolveLoop] using hloop
    exact ⟨fun _ hd => absurd hd List.not_mem_nil, hs⟩
  | cons dep deps ih =>
    have hrest := fun d hd => hcalls d (List.mem_cons_of_mem dep hd)
    rw [resolveLoop] at hloop
    by_cases hthere : pkgRegistryIsInstalled s dep = true
    · rw [if_pos hthere] at hloop
      obtain ⟨hacc, hout⟩ := ih hrest hs hloop
      refine ⟨fun d hd hnew => ?_, hout⟩
      rcases List.mem_cons.mp hd with rfl | hd
      · exact (hs.acc d (isInstalled_iff.mp hthere)).resolve_left hnew
      · exact hacc d hd hnew
    · rw [if_neg hthere] at hloop
      have hnew : dep ∉ r.names := fun h => hthere (isInstalled_iff.mpr (hs.kept dep h))
      cases hcall : install s (depPath dep) with
      | none => simp [hcall] at hloop
      | some res =>
        rw [hcall] at hloop
        obtain ⟨hself, hres⟩ := hcalls dep List.mem_cons_self hnew s res hs hcall
        obtain ⟨hacc, hout⟩ := ih hrest hres hloop
        refine ⟨fun d hd hnew => ?_, hout⟩
        rcases List.mem_cons.mp hd with rfl | hd
        · exact hself
        · exact hacc d hd hnew

/-- **A call that returns has a well-founded package**, by induction on how deep the calls go. -/
theorem acc_of_install {fuel : Nat} {res : Int × Registry}
    (hnamed : ∀ x, Below store r x m → ∀ f, openPackage store (depPath x) = some f → f.name.take 63 = x)
    (hs : AccInv store r s) (h : pkgInstall store fuel s (depPath m) = some res) :
    Acc (Needs store r) m ∧ AccInv store r res.2 := by
  induction fuel generalizing m s res with
  | zero => simp [pkgInstall] at h
  | succ fuel ih =>
    rw [pkgInstall_succ] at h
    cases hopen : openPackage store (depPath m) with
    | none =>
      obtain rfl : ((-1 : Int), s) = res := by simpa [hopen] using h
      refine ⟨⟨m, fun d hd => ?_⟩, hs⟩
      rw [Needs, depsAt_none hopen] at hd
      exact absurd hd.1 List.not_mem_nil
    | some f =>
      rw [hopen] at h
      obtain ⟨out, hloop, hres⟩ := Option.map_eq_some_iff.mp h
      obtain ⟨hacc, hout⟩ := acc_of_loop (fun d hd hnew s res hs hcall => by
        have hneeds : Needs store r d m := ⟨by rwa [depsAt_some hopen], hnew⟩
        exact ih (fun x hx => hnamed x (hx.tail hneeds)) hs hcall) hs hloop
      have hself : Acc (Needs store r) m := by
        refine ⟨m, fun d hd => ?_⟩
        rw [Needs, depsAt_some hopen] at hd
        exact hacc d hd.1 hd.2
      refine ⟨hself, ?_⟩
      rw [← hres]
      split
      · exact hout.add (.inr (by rwa [hnamed m .refl f hopen]))
      · exact hout

/-! ## A run over well-founded needs -/

/-- What was registered since the run began is readable as far down as it needs, and all of it is
    registered while there is room. -/
structure RunInv (store : CpkgStore) (r s : Registry) : Prop where
  kept : ∀ x ∈ r.names, x ∈ s.names
  readable : ∀ x ∈ s.names, x ∉ r.names → ∀ y, Below store r y x → Readable store y
  closed : maxInstalled ≤ s.names.length ∨ ∀ x ∈ s.names, x ∉ r.names → ∀ y, Below store r y x → y ∈ s.names

theorem RunInv.start : RunInv store r r :=
  ⟨fun _ hx => hx, fun _ hx hnew => absurd hx hnew, .inr fun _ hx hnew => absurd hx hnew⟩

/-- What a call adds to the names, each of them once. -/
def Adds (P : List UInt8 → Prop) (s s' : Registry) : Prop :=
  ∃ more, s'.names = s.names ++ more ∧ more.Nodup ∧ ∀ x ∈ more, x ∉ s.names ∧ P x

theorem Adds.refl {P : List UInt8 → Prop} : Adds P s s :=
  ⟨[], (List.append_nil _).symm, List.nodup_nil, fun _ hx => absurd hx List.not_mem_nil⟩

theorem Adds.mono {P Q : List UInt8 → Prop} (h : Adds P s s') (himp : ∀ x, P x → Q x) : Adds Q s s' := by
  obtain ⟨more, hnames, hnodup, hmore⟩ := h
  exact ⟨more, hnames, hnodup, fun x hx => ⟨(hmore x hx).1, himp x (hmore x hx).2⟩⟩

theorem Adds.trans {P : List UInt8 → Prop} {s'' : Registry} (h : Adds P s s') (h' : Adds P s' s'') : Adds P s s'' := by
  obtain ⟨more, hnames, hnodup, hmore⟩ := h
  obtain ⟨more', hnames', hnodup', hmore'⟩ := h'
  have hnew (x : List UInt8) (hx : x ∈ more') : x ∉ s.names ∧ x ∉ more := by
    have hnot := (hmore' x hx).1
    rw [hnames, List.mem_append] at hnot
    exact ⟨fun hs => hnot (.inl hs), fun hm => hnot (.inr hm)⟩
  refine ⟨more ++ more', by rw [hnames', hnames, List.append_assoc], ?_, fun x hx => ?_⟩
  · refine List.nodup_append.mpr ⟨hnodup, hnodup', fun x hx y hy heq => ?_⟩
    exact (hnew y hy).2 (heq ▸ hx)
  · rcases List.mem_append.mp hx with hx | hx
    · exact hmore x hx
    · exact ⟨(hnew x hx).1, (hmore' x hx).2⟩

theorem Adds.mem {P : List UInt8 → Prop} (h : Adds P s s') (hx : x ∈ s.names) : x ∈ s'.names := by
  obtain ⟨more, hnames, -, -⟩ := h
  rw [hnames]
  exact List.mem_append_left _ hx

theorem Adds.full {P : List UInt8 → Prop} (h : Adds P s s') (hfull : maxInstalled ≤ s.names.length) :
    maxInstalled ≤ s'.names.length := by
  obtain ⟨more, hnames, -, -⟩ := h
  rw [hnames, List.length_append]
  omega

/-- What the call for a package does. -/
structure Installed (store : CpkgStore) (r s : Registry) (m : List UInt8) (ret : Int) (s' : Registry) : Prop where
  ends : Ends store s (depPath m) ret s'
  adds : Adds (fun x => Below store r x m) s s'
  inv : RunInv store r s'
  failed : ret < 0 ↔ ¬∀ y, Below store r y m → Readable store y
  there : ¬ret < 0 → maxInstalled ≤ s'.names.length ∨ m ∈ s'.names

/-- What the loop over dependencies does. -/
structure Resolved (store : CpkgStore) (r s : Registry) (deps : List (List UInt8)) (missing : Nat) (s' : Registry) :
    Prop where
  ends : LoopEnds store deps s missing s'
  adds : Adds (fun x => ∃ d ∈ deps, d ∉ r.names ∧ Below store r x d) s s'
  inv : RunInv store r s'
  missed : missing = 0 ↔ ∀ d ∈ deps, d ∉ r.names → ∀ y, Below store r y d → Readable store y
  there : missing = 0 → maxInstalled ≤ s'.names.length ∨ ∀ d ∈ deps, d ∈ s'.names

theorem Resolved.nil (hs : RunInv store r s) : Resolved store r s [] 0 s :=
  ⟨loopEnds_nil, .refl, hs, by simp, fun _ => .inr (by simp)⟩

/-- A dependency that is registered already. -/
theorem Resolved.skip {missing : Nat} (hs : RunInv store r s) (hthere : d ∈ s.names)
    (h : Resolved store r s deps missing s') : Resolved store r s (d :: deps) missing s' := by
  refine ⟨loopEnds_there hthere h.ends, h.adds.mono ?_, h.inv, ?_, fun hzero => ?_⟩
  · rintro x ⟨c, hc, hbelow⟩
    exact ⟨c, List.mem_cons_of_mem d hc, hbelow⟩
  · rw [h.missed]
    constructor
    · intro hread c hc hnew
      rcases List.mem_cons.mp hc with rfl | hc
      · exact hs.readable c hthere hnew
      · exact hread c hc hnew
    · exact fun hread c hc => hread c (List.mem_cons_of_mem d hc)
  · refine (h.there hzero).imp_right fun hin c hc => ?_
    rcases List.mem_cons.mp hc with rfl | hc
    · exact h.adds.mem hthere
    · exact hin c hc

/-- A dependency that is installed first. -/
theorem Resolved.call {missing : Nat} {s₁ : Registry} (hd : d ∉ s.names) (hnew : d ∉ r.names)
    (hcall : Installed store r s d ret s₁) (h : Resolved store r s₁ deps missing s') :
    Resolved store r s (d :: deps) ((if ret < 0 then 1 else 0) + missing) s' := by
  have hok : (if ret < 0 then 1 else 0) + missing = 0 ↔ ¬ret < 0 ∧ missing = 0 := by
    split <;> simp [*]
  refine ⟨loopEnds_install hd hcall.ends h.ends, ?_, h.inv, ?_, fun hzero => ?_⟩
  · refine .trans (hcall.adds.mono ?_) (h.adds.mono ?_)
    · exact fun x hbelow => ⟨d, List.mem_cons_self, hnew, hbelow⟩
    · rintro x ⟨c, hc, hbelow⟩
      exact ⟨c, List.mem_cons_of_mem d hc, hbelow⟩
  · rw [hok, hcall.failed, Classical.not_not, h.missed]
    constructor
    · rintro ⟨hself, hread⟩ c hc hnew
      rcases List.mem_cons.mp hc with rfl | hc
      · exact hself
      · exact hread c hc hnew
    · exact fun hread => ⟨hread d List.mem_cons_self hnew, fun c hc => hread c (List.mem_cons_of_mem d hc)⟩
  · obtain ⟨hret, hmissing⟩ := hok.mp hzero
    rcases hcall.there hret with hfull | hself
    · exact .inl (h.adds.full hfull)
    · refine (h.there hmissing).imp_right fun hin c hc => ?_
      rcases List.mem_cons.mp hc with rfl | hc
      · exact h.adds.mem hself
      · exact hin c hc

/-- The loop, one dependency after the other. -/
theorem resolved_of_installed
    (hcalls : ∀ d ∈ deps, d ∉ r.names → ∀ s, RunInv store r s → d ∉ s.names → ∃ ret s', Installed store r s d ret s')
    (hs : RunInv store r s) : ∃ missing s', Resolved store r s deps missing s' := by
  induction deps generalizing s with
  | nil => exact ⟨0, s, .nil hs⟩
  | cons dep deps ih =>
    have hrest := fun d hd => hcalls d (List.mem_cons_of_mem dep hd)
    by_cases hthere : dep ∈ s.names
    · obtain ⟨missing, s', hres⟩ := ih hrest hs
      exact ⟨missing, s', hres.skip hs hthere⟩
    · have hnew : dep ∉ r.names := fun h => hthere (hs.kept dep h)
      obtain ⟨ret, s₁, hcall⟩ := hcalls dep List.mem_cons_self hnew s hs hthere
      obtain ⟨missing, s', hres⟩ := ih hrest hcall.inv
      exact ⟨_, s', hres.call hthere hnew hcall⟩

/-- What is below a package can be read if the package and what is below its needs can. -/
theorem readable_below_iff (hopen : openPackage store (depPath m) = some f) :
    (∀ y, Below store r y m → Readable store y) ↔
      ∀ d ∈ f.deps, d ∉ r.names → ∀ y, Below store r y d → Readable store y := by
  have hneeds {d : List UInt8} : Needs store r d m ↔ d ∈ f.deps ∧ d ∉ r.names := by rw [Needs, depsAt_some hopen]
  constructor
  · exact fun h d hd hnew y hy => h y (hy.tail (hneeds.mpr ⟨hd, hnew⟩))
  · intro h y hy
    rcases below_cases hy with rfl | ⟨d, hd, hbelow⟩
    · rw [Readable, hopen]
      rfl
    · exact h d (hneeds.mp hd).1 (hneeds.mp hd).2 y hbelow

/-- A package is registered behind all that it needs. -/
theorem RunInv.register (h : RunInv store r s) (hnames : s'.names = s.names ++ [m])
    (hroom : ¬maxInstalled ≤ s.names.length) (hread : ∀ y, Below store r y m → Readable store y)
    (hdeps : ∀ d, Needs store r d m → d ∈ s.names) : RunInv store r s' := by
  have hclosed := h.closed.resolve_left hroom
  refine ⟨fun x hx => ?_, fun x hx hnew y hy => ?_, .inr fun x hx hnew y hy => ?_⟩
  · rw [hnames]
    exact List.mem_append_left _ (h.kept x hx)
  · rw [hnames] at hx
    rcases List.mem_append.mp hx with hx | hx
    · exact h.readable x hx hnew y hy
    · rw [List.mem_singleton.mp hx] at hy
      exact hread y hy
  · rw [hnames] at hx ⊢
    rcases List.mem_append.mp hx with hx | hx
    · exact List.mem_append_left _ (hclosed x hx hnew y hy)
    · rw [List.mem_singleton.mp hx] at hy
      rcases below_cases hy with rfl | ⟨d, hd, hy⟩
      · exact List.mem_append_right _ (List.mem_singleton_self y)
      · exact List.mem_append_left _ (hclosed d (hdeps d hd) hd.2 y hy)

/-- A file that cannot be read. -/
theorem Installed.refused (hopen : openPackage store (depPath m) = none) (hs : RunInv store r s) :
    Installed store r s m (-1) s := by
  refine ⟨ends_none hopen, .refl, hs, iff_of_true (by decide) fun h => ?_, fun h => absurd (by decide) h⟩
  have hself : Readable store m := h m .refl
  rw [Readable, hopen] at hself
  exact absurd hself (by decide)

/-- A package, behind the loop over its dependencies. -/
theorem Installed.resolved {missing : Nat} (hopen : openPackage store (depPath m) = some f)
    (hname : f.name.take 63 = m) (hself : ∀ d, Needs store r d m → ¬Below store r m d) (hm : m ∉ s.names)
    (hres : Resolved store r s f.deps missing s') : ∃ ret s'', Installed store r s m ret s'' := by
  have hneeds {d : List UInt8} : Needs store r d m ↔ d ∈ f.deps ∧ d ∉ r.names := by rw [Needs, depsAt_some hopen]
  have hadds : Adds (fun x => Below store r x m) s s' := hres.adds.mono fun x ⟨d, hd, hnew, hx⟩ =>
    hx.tail (hneeds.mpr ⟨hd, hnew⟩)
  have hends := ends_loop hopen hres.ends
  have hread := (readable_below_iff hopen).trans hres.missed.symm
  by_cases hmissing : missing = 0
  · rw [if_pos hmissing] at hends
    have hok : (0 : Int) < 0 ↔ ¬∀ y, Below store r y m → Readable store y :=
      iff_of_false (by decide) fun h => h (hread.mpr hmissing)
    by_cases hfull : maxInstalled ≤ s'.names.length
    · -- the registry is full, and the package is not registered
      have hsame : (pkgRegistryAdd s' f.name f.version (elfPath f)).2 = s' := by
        rw [pkgRegistryAdd, dif_pos (by simpa [Registry.names] using hfull)]
      rw [hsame] at hends
      exact ⟨0, s', hends, hadds, hres.inv, hok, fun _ => .inl hfull⟩
    · have hnames : (pkgRegistryAdd s' f.name f.version (elfPath f)).2.names = s'.names ++ [m] := by
        rw [names_add, if_neg hfull, hname]
      have hdeps := (hres.there hmissing).resolve_left hfull
      have hnot : m ∉ s'.names := by
        obtain ⟨more, hmore, -, hfrom⟩ := hres.adds
        rw [hmore, List.mem_append]
        rintro (hthere | hthere)
        · exact hm hthere
        · obtain ⟨-, d, hd, hnew, hx⟩ := hfrom m hthere
          exact hself d (hneeds.mpr ⟨hd, hnew⟩) hx
      refine ⟨0, _, hends, hadds.trans ⟨[m], hnames, List.pairwise_singleton _ m, fun x hx => ?_⟩,
        hres.inv.register hnames hfull (hread.mpr hmissing) fun d hd => hdeps d (hneeds.mp hd).1, hok, fun _ => .inr ?_⟩
      · obtain rfl := List.mem_singleton.mp hx
        exact ⟨hnot, .refl⟩
      · rw [hnames]
        exact List.mem_append_right _ (List.mem_singleton_self m)
  · rw [if_neg hmissing] at hends
    exact ⟨-1, s', hends, hadds, hres.inv, iff_of_true (by decide) (fun h => hmissing (hread.mp h)),
      fun h => absurd (by decide) h⟩

/-- **The call for a package with well-founded needs.** -/
theorem installed_of_acc (hacc : Acc (Needs store r) m)
    (hnamed : ∀ x, Below store r x m → ∀ f, openPackage store (depPath x) = some f → f.name.take 63 = x)
    (hs : RunInv store r s) (hm : m ∉ s.names) : ∃ ret s', Installed store r s m ret s' := by
  induction hacc generalizing s with
  | intro m hbelow ih =>
    cases hopen : openPackage store (depPath m) with
    | none => exact ⟨-1, s, .refused hopen hs⟩
    | some f =>
      have hneeds {d : List UInt8} (hd : d ∈ f.deps) (hnew : d ∉ r.names) : Needs store r d m :=
        ⟨by rwa [depsAt_some hopen], hnew⟩
      have hcalls (d : List UInt8) (hd : d ∈ f.deps) (hnew : d ∉ r.names) (s : Registry) (hs : RunInv store r s)
          (hd' : d ∉ s.names) : ∃ ret s', Installed store r s d ret s' :=
        ih d (hneeds hd hnew) (fun x hx => hnamed x (hx.tail (hneeds hd hnew))) hs hd'
      obtain ⟨missing, s₁, hres⟩ := resolved_of_installed hcalls hs
      exact Installed.resolved hopen (hnamed m .refl f hopen) (fun d hd => not_below_of_acc ⟨m, hbelow⟩ hd) hm hres

/-! ## The call for a file -/

/-- The call for a file whose needs are well founded: what it returns and leaves registered. -/
theorem ends_of_acc (hopen : openPackage store path = some f)
    (hacc : ∀ d ∈ f.deps, d ∉ r.names → Acc (Needs store r) d) (hnamed : Named store r path) :
    ∃ missing s, Resolved store r r f.deps missing s ∧
      if missing = 0 then Ends store r path 0 (pkgRegistryAdd s f.name f.version (elfPath f)).2
      else Ends store r path (-1) s := by
  have hasked {d x : List UInt8} (hd : d ∈ f.deps) (hnew : d ∉ r.names) (hx : Below store r x d) :
      Asked store r path x := ⟨d, by rwa [depsAt_some hopen], hnew, hx⟩
  have hcalls (d : List UInt8) (hd : d ∈ f.deps) (hnew : d ∉ r.names) (s : Registry) (hs : RunInv store r s)
      (hd' : d ∉ s.names) : ∃ ret s', Installed store r s d ret s' :=
    installed_of_acc (hacc d hd hnew) (fun x hx => hnamed x (hasked hd hnew hx)) hs hd'
  obtain ⟨missing, s, hres⟩ := resolved_of_installed hcalls .start
  exact ⟨missing, s, hres, ends_loop hopen hres.ends⟩

/-- **A call that ends has well-founded needs.** -/
theorem acc_of_ends (hopen : openPackage store path = some f) (hnamed : Named store r path)
    (h : Ends store r path ret s) : ∀ d ∈ f.deps, d ∉ r.names → Acc (Needs store r) d := by
  obtain ⟨fuel, h⟩ := h
  cases fuel with
  | zero => simp [pkgInstall] at h
  | succ fuel =>
    rw [pkgInstall_succ, hopen] at h
    obtain ⟨out, hloop, -⟩ := Option.map_eq_some_iff.mp h
    refine (acc_of_loop (fun d hd hnew s res hs hcall => acc_of_install (fun x hx => ?_) hs hcall) .start hloop).1
    exact hnamed x ⟨d, by rwa [depsAt_some hopen], hnew, hx⟩

/-- The names behind the call, counted. -/
theorem count_registered {more : List (List UInt8)} (hnames : s.names = r.names ++ more) (hnodup : more.Nodup) :
    (pkgRegistryAdd s f.name f.version (elfPath f)).2.names.count m =
      r.names.count m + (if m ∈ more then 1 else 0) +
        (if m = f.name.take 63 ∧ r.names.length + more.length < maxInstalled then 1 else 0) := by
  have hmore : more.count m = if m ∈ more then 1 else 0 := by
    rw [List.Nodup.count hnodup]
  rw [names_add, hnames, List.length_append]
  by_cases hfull : maxInstalled ≤ r.names.length + more.length
  · have hno : ¬(m = f.name.take 63 ∧ r.names.length + more.length < maxInstalled) := by omega
    rw [if_pos hfull, if_neg hno, List.count_append, hmore, Nat.add_zero]
  · rw [if_neg hfull, List.count_append, List.count_append, hmore, List.count_singleton]
    congr 1
    by_cases hself : m = f.name.take 63
    · simp [hself, Nat.lt_of_not_le hfull]
    · simp [hself, Ne.symm hself]

/-- What is asked for is reachable. -/
theorem Asked.reachable (hopen : openPackage store path = some f) (h : Asked store r path m) :
    Reachable store f m := by
  obtain ⟨d, hd, -, hbelow⟩ := h
  rw [depsAt_some hopen] at hd
  exact .inr ⟨d, hd, hbelow.lift id fun _ _ hneeds => hneeds.1⟩

theorem asked_notMem (h : Asked store r path m) : m ∉ r.names := by
  obtain ⟨d, -, hnew, hbelow⟩ := h
  cases ReflTransGen.cases_head hbelow with
  | inl heq => rwa [heq]
  | inr hstep =>
    obtain ⟨c, hneeds, -⟩ := hstep
    exact hneeds.2

/-- The loop misses nothing exactly where all that is asked for can be read. -/
theorem missed_iff {missing : Nat} (hopen : openPackage store path = some f)
    (hres : Resolved store r r f.deps missing s) :
    missing = 0 ↔ ∀ m, Asked store r path m → Readable store m := by
  rw [hres.missed]
  constructor
  · rintro h m ⟨d, hd, hnew, hbelow⟩
    rw [depsAt_some hopen] at hd
    exact h d hd hnew m hbelow
  · exact fun h d hd hnew y hy => h y ⟨d, by rwa [depsAt_some hopen], hnew, hy⟩

/-- What the loop has added is asked for, and while there is room it is all of that. -/
theorem added {missing : Nat} (hopen : openPackage store path = some f) (hres : Resolved store r r f.deps missing s)
    (hmissing : missing = 0) :
    ∃ more, s.names = r.names ++ more ∧ more.Nodup ∧ (∀ x ∈ more, Asked store r path x) ∧
      (maxInstalled ≤ r.names.length + more.length ∨ ∀ x, Asked store r path x → x ∈ more) := by
  obtain ⟨more, hnames, hnodup, hmore⟩ := hres.adds
  refine ⟨more, hnames, hnodup, fun x hx => ?_, ?_⟩
  · obtain ⟨-, d, hd, hnew, hbelow⟩ := hmore x hx
    exact ⟨d, by rwa [depsAt_some hopen], hnew, hbelow⟩
  · by_cases hfull : maxInstalled ≤ s.names.length
    · rw [hnames, List.length_append] at hfull
      exact .inl hfull
    · refine .inr fun x hx => ?_
      have hthere := (hres.there hmissing).resolve_left hfull
      have hx' := hx
      obtain ⟨d, hd, hnew, hbelow⟩ := hx
      rw [depsAt_some hopen] at hd
      have hmem := hres.inv.closed.resolve_left hfull d (hthere d hd) hnew x hbelow
      rw [hnames] at hmem
      exact (List.mem_append.mp hmem).resolve_left (asked_notMem hx')

/-- Enough room for all that is asked for is room for each of it. -/
theorem added_all {asked more : List (List UInt8)} (hasked : asked.Nodup) (hmem : ∀ m, m ∈ asked ↔ Asked store r path m)
    (hroom : r.names.length + asked.length ≤ maxInstalled) (hmore : more.Nodup)
    (hsub : ∀ x ∈ more, Asked store r path x)
    (hall : maxInstalled ≤ r.names.length + more.length ∨ ∀ x, Asked store r path x → x ∈ more) :
    more.Perm asked := by
  have hsubperm : more.Subperm asked := hmore.subperm fun x hx => (hmem x).mpr (hsub x hx)
  rcases hall with hfull | hall
  · exact hsubperm.perm_of_length_le (by omega)
  · exact (List.perm_ext_iff_of_nodup hmore hasked).mpr fun x => ⟨fun hx => (hmem x).mpr (hsub x hx),
      fun hx => hall x ((hmem x).mp hx)⟩

/-- **When the installation of dependencies does what it is for**, in a store whose files carry the
    names that they are stored under. -/
theorem pkg_install_deps_iff (hnamed : Named store r path) : InstallsAll store r path ↔ DepsFit store r path := by
  constructor
  · rintro ⟨⟨ret, r', hends⟩, hall⟩ f hopen
    have hacc := acc_of_ends hopen hnamed hends
    refine ⟨hacc, fun hread => ?_⟩
    obtain ⟨missing, s, hres, hret⟩ := ends_of_acc hopen hacc hnamed
    have hmissing := (missed_iff hopen hres).mpr hread
    rw [if_pos hmissing] at hret
    obtain ⟨more, hnames, hnodup, hsub, hfull⟩ := added hopen hres hmissing
    have hcount (m : List UInt8) (hm : Reachable store f m) := hall _ f hret hopen m hm
    simp only [count_registered hnames hnodup] at hcount
    -- what is asked for is registered once, so it is among the names added
    have hadded (x : List UInt8) (hx : Asked store r path x) : x ∈ more := by
      rcases hfull with hfull | hin
      · by_contra hnot
        have hone := hcount x (hx.reachable hopen)
        have hno : ¬(x = f.name.take 63 ∧ r.names.length + more.length < maxInstalled) := by omega
        rw [List.count_eq_zero.mpr (asked_notMem hx), if_neg hnot, if_neg hno] at hone
        exact absurd hone (by decide)
      · exact hin x hx
    have hlength : r.names.length + more.length ≤ maxInstalled := by
      rw [← List.length_append, ← hnames]
      exact length_names_le s
    exact ⟨more, hnodup, fun m => ⟨hsub m, hadded m⟩, hlength, hcount⟩
  · intro h
    cases hopen : openPackage store path with
    | none => exact ⟨⟨-1, r, ends_none hopen⟩, fun r' f _ hf => by simp [hopen] at hf⟩
    | some f =>
      obtain ⟨hacc, hfit⟩ := h f hopen
      obtain ⟨missing, s, hres, hret⟩ := ends_of_acc hopen hacc hnamed
      by_cases hmissing : missing = 0
      · rw [if_pos hmissing] at hret
        refine ⟨⟨0, _, hret⟩, fun r' f' hends hf m hm => ?_⟩
        obtain rfl : f = f' := Option.some.inj (hopen.symm.trans hf)
        obtain ⟨-, rfl⟩ := hret.unique hends
        obtain ⟨asked, hasked, hmem, hroom, hcount⟩ := hfit ((missed_iff hopen hres).mp hmissing)
        obtain ⟨more, hnames, hnodup, hsub, hfull⟩ := added hopen hres hmissing
        have hperm := added_all hasked hmem hroom hnodup hsub hfull
        rw [count_registered hnames hnodup, hperm.length_eq]
        simp only [hperm.mem_iff]
        exact hcount m hm
      · rw [if_neg hmissing] at hret
        refine ⟨⟨-1, _, hret⟩, fun r' f' hends _ => ?_⟩
        exact absurd (hret.unique hends).1 (by decide)

/-- A package `a` that depends on `a`. -/
def selfFile : CpkgFile where
  bytes := ofString "CPKG" ++ List.replicate 8 0 ++ ofString "a" ++ List.replicate 207 0 ++
    leBytes 4 1 ++ ofString "a" ++ List.replicate 83 0
  above := []

def selfStore : CpkgStore := fun path => if path = depPath (ofString "a") then some selfFile else none

theorem selfFile_opens : cpkgHeaderSize ≤ selfFile.bytes.length ∧ selfFile.magic = cpkgMagic := by
  decide +kernel

theorem selfFile_reads : selfFile.deps = [ofString "a"] ∧ selfFile.name.take 63 = ofString "a" := by
  decide +kernel

theorem openPackage_selfStore : openPackage selfStore (depPath (ofString "a")) = some selfFile := by
  rw [openPackage, selfStore, if_pos rfl]
  exact Option.filter_eq_some_iff.mpr ⟨rfl, decide_eq_true selfFile_opens⟩

theorem asked_selfStore {m : List UInt8} (h : Asked selfStore pkgRegistryInit (depPath (ofString "a")) m) :
    m = ofString "a" := by
  obtain ⟨d, hd, -, hbelow⟩ := h
  rw [depsAt_some openPackage_selfStore, selfFile_reads.1, List.mem_singleton] at hd
  rw [hd] at hbelow
  induction hbelow using ReflTransGen.head_induction_on with
  | refl => rfl
  | head hneeds _ ih =>
    rw [Needs, ih, depsAt_some openPackage_selfStore, selfFile_reads.1] at hneeds
    exact List.mem_singleton.mp hneeds.1

theorem named_selfStore : Named selfStore pkgRegistryInit (depPath (ofString "a")) := by
  intro m hm f hf
  rw [asked_selfStore hm] at hf ⊢
  rw [← Option.some.inj (openPackage_selfStore.symm.trans hf)]
  exact selfFile_reads.2

theorem pkg_install_deps_iff_self :
    Named selfStore pkgRegistryInit (depPath (ofString "a")) ∧
      (InstallsAll selfStore pkgRegistryInit (depPath (ofString "a")) ↔
        DepsFit selfStore pkgRegistryInit (depPath (ofString "a"))) :=
  ⟨named_selfStore, pkg_install_deps_iff named_selfStore⟩

/-- **A package that depends on itself is never installed**: the calls go on for ever. -/
theorem self_dependency_endless : ¬InstallsAll selfStore pkgRegistryInit (depPath (ofString "a")) := by
  rintro ⟨⟨ret, r', hends⟩, -⟩
  have hself : ofString "a" ∈ selfFile.deps := by
    rw [selfFile_reads.1]
    exact List.mem_singleton_self _
  have hnew : ofString "a" ∉ pkgRegistryInit.names := List.not_mem_nil
  have hacc := acc_of_ends openPackage_selfStore named_selfStore hends _ hself hnew
  have hneeds : Needs selfStore pkgRegistryInit (ofString "a") (ofString "a") :=
    ⟨by rwa [depsAt_some openPackage_selfStore], hnew⟩
  exact not_below_of_acc hacc hneeds .refl

end Crimson.Pkg.Exec

import Crimson.Lib.Words
import Crimson.Str.Model

/-!
# Packages that install their dependencies (`pkg_exec.c`)

`pkg_install` of the package executor reads a `.cpkg` file, installs what it depends on and is
not registered, and registers it; the two functions call each other. `pkgInstall` takes a bound
on how deep they do, and gives nothing where the bound is reached; `Ends` is the call that
returns.

A file is its bytes and what follows its buffer in memory. The signature is only reported, and
the binary is written under `/data/apps`, from where no package is read; both are left out. A
file that cannot be opened, or for which there is no memory, is a path without a file.
-/

set_option autoImplicit false

namespace Crimson.Pkg.Exec

open Crimson.Lib Crimson.Str

/-! ## Package files -/

structure CpkgFile where
  bytes : List UInt8
  above : List UInt8

/-- The files under their paths. -/
abbrev CpkgStore := List UInt8 → Option CpkgFile

/-- `sizeof(cpkg_header_t)` and `sizeof(pkg_dep_t)`. -/
def cpkgHeaderSize : Nat := 224
def pkgDepSize : Nat := 84

/-- `CPKG_MAGIC`. -/
def cpkgMagic : Nat := 0x474B5043

namespace CpkgFile

variable (f : CpkgFile)

/-- The string at an offset of the buffer. -/
def str (off : Nat) : List UInt8 := cstr ((f.bytes ++ f.above).drop off)

def magic : Nat := wordAt f.bytes 0 4
def name : List UInt8 := f.str 12
def version : List UInt8 := f.str 76
def appId : List UInt8 := f.str 92
def depCount : Nat := wordAt f.bytes 220 4

/-- `deps[i].name`. -/
def depName (i : Nat) : List UInt8 := f.str (cpkgHeaderSize + i * pkgDepSize)

def deps : List (List UInt8) := (List.range f.depCount).map f.depName

end CpkgFile

/-! ## The registry -/

/-- `MAX_INSTALLED`. -/
def maxInstalled : Nat := 256

structure RegEntry where
  name : List UInt8
  version : List UInt8
  path : List UInt8
  pid : Nat
deriving DecidableEq

/-- `g_pkg_registry`: the entries up to `count`. -/
structure Registry where
  entries : List RegEntry
  bounded : entries.length ≤ maxInstalled

def Registry.names (r : Registry) : List (List UInt8) := r.entries.map fun e => e.name

/-- `pkg_registry_init`. -/
def pkgRegistryInit : Registry := ⟨[], Nat.zero_le _⟩

def pkgRegistryAdd (r : Registry) (name version path : List UInt8) : Int × Registry :=
  if h : maxInstalled ≤ r.entries.length then (-1, r)
  else
    (0, { entries := r.entries ++ [⟨name.take 63, version.take 15, path.take 127, 0⟩]
          bounded := by simp; omega })

def pkgRegistryIsInstalled (r : Registry) (name : List UInt8) : Bool := r.entries.any fun e => e.name = name

/-! ## Installation -/

/-- The path of a dependency, in an array of 128 bytes. -/
def depPath (name : List UInt8) : List UInt8 := (ofString "/store/packages/" ++ name ++ ofString ".cpkg").take 127

/-- The path of the binary; `install_dir` is cut off too. -/
def elfPath (f : CpkgFile) : List UInt8 :=
  let installDir := (ofString "/data/apps/" ++ f.appId).take 127
  (installDir ++ ofString "/binary.elf").take 127

/-- The loop of `pkg_resolve_deps`, with what it calls to install. -/
def resolveLoop (install : Registry → List UInt8 → Option (Int × Registry)) :
    List (List UInt8) → Registry → Nat → Option (Nat × Registry)
  | [], r, missing => some (missing, r)
  | dep :: deps, r, missing =>
    if pkgRegistryIsInstalled r dep then resolveLoop install deps r missing
    else
      match install r (depPath dep) with
      | none => none
      | some (ret, r) => resolveLoop install deps r (if ret < 0 then missing + 1 else missing)

def pkgResolveDeps (install : Registry → List UInt8 → Option (Int × Registry)) (deps : List (List UInt8))
    (r : Registry) : Option (Int × Registry) :=
  (resolveLoop install deps r 0).map fun out => (if out.1 = 0 then 0 else -1, out.2)

/-- `pkg_install`, with calls at most `fuel` deep. -/
def pkgInstall (store : CpkgStore) : Nat → Registry → List UInt8 → Option (Int × Registry)
  | 0, _, _ => none
  | fuel + 1, r, cpkgPath =>
    match store cpkgPath with
    | none => some (-1, r)
    | some f =>
      if f.bytes.length < cpkgHeaderSize then some (-1, r)
      else if f.magic ≠ cpkgMagic then some (-1, r)
      else
        match if 0 < f.depCount then pkgResolveDeps (pkgInstall store fuel) f.deps r else some (0, r) with
        | none => none
        | some (resolved, r) =>
          if resolved < 0 then some (-1, r) else some (0, (pkgRegistryAdd r f.name f.version (elfPath f)).2)

/-- A package file that the checks let through. -/
def openPackage (store : CpkgStore) (path : List UInt8) : Option CpkgFile :=
  (store path).filter fun f => cpkgHeaderSize ≤ f.bytes.length ∧ f.magic = cpkgMagic

/-- The call returns. -/
def Ends (store : CpkgStore) (r : Registry) (path : List UInt8) (ret : Int) (r' : Registry) : Prop :=
  ∃ fuel, pkgInstall store fuel r path = some (ret, r')

/-- The loop returns, having missed `missing` more. -/
def LoopEnds (store : CpkgStore) (deps : List (List UInt8)) (r : Registry) (missing : Nat) (r' : Registry) : Prop :=
  ∃ fuel, ∀ before, resolveLoop (pkgInstall store fuel) deps r before = some (before + missing, r')

variable {store : CpkgStore} {r r' : Registry} {path name : List UInt8} {f : CpkgFile} {ret : Int}
  {deps : List (List UInt8)} {fuel n : Nat}

/-! ## The registry's lemmas -/

theorem isInstalled_iff : pkgRegistryIsInstalled r name = true ↔ name ∈ r.names := by
  simp [pkgRegistryIsInstalled, Registry.names]

theorem names_add (name version path : List UInt8) : (pkgRegistryAdd r name version path).2.names =
    if maxInstalled ≤ r.names.length then r.names else r.names ++ [name.take 63] := by
  unfold pkgRegistryAdd Registry.names
  rw [List.length_map]
  split
  · rfl
  · rw [List.map_append]
    rfl

theorem length_names_le (r : Registry) : r.names.length ≤ maxInstalled := by
  rw [Registry.names, List.length_map]
  exact r.bounded

/-! ## One call -/

/-- **One call**, from the file that the checks let through. -/
theorem pkgInstall_succ : pkgInstall store (fuel + 1) r path =
    match openPackage store path with
    | none => some (-1, r)
    | some f => (resolveLoop (pkgInstall store fuel) f.deps r 0).map fun out =>
      if out.1 = 0 then (0, (pkgRegistryAdd out.2 f.name f.version (elfPath f)).2) else (-1, out.2) := by
  rw [pkgInstall, openPackage]
  cases store path with
  | none => rfl
  | some f =>
    by_cases hsize : f.bytes.length < cpkgHeaderSize
    · simp [hsize, Option.filter, Nat.not_le_of_lt hsize]
    · by_cases hmagic : f.magic = cpkgMagic
      · have hok : (some f).filter (fun f => cpkgHeaderSize ≤ f.bytes.length ∧ f.magic = cpkgMagic) = some f := by
          simp [Option.filter, hmagic, Nat.le_of_not_lt hsize]
        simp only [hsize, if_false, hmagic, ne_eq, not_true_eq_false, hok]
        by_cases hcount : 0 < f.depCount
        · rw [if_pos hcount, pkgResolveDeps]
          cases resolveLoop (pkgInstall store fuel) f.deps r 0 with
          | none => rfl
          | some out =>
            by_cases hmissing : out.1 = 0 <;> simp [hmissing]
        · have hdeps : f.deps = [] := by
            rw [CpkgFile.deps, Nat.eq_zero_of_not_pos hcount]
            rfl
          simp [hcount, hdeps, resolveLoop]
      · simp [hsize, hmagic, Option.filter]

/-- A deeper bound changes nothing. -/
theorem resolveLoop_mono {install install' : Registry → List UInt8 → Option (Int × Registry)}
    (h : ∀ r path out, install r path = some out → install' r path = some out) {missing : Nat} {out : Nat × Registry}
    (hloop : resolveLoop install deps r missing = some out) : resolveLoop install' deps r missing = some out := by
  induction deps generalizing r missing with
  | nil => exact hloop
  | cons dep deps ih =>
    simp only [resolveLoop] at hloop ⊢
    split at hloop
    · rename_i hthere
      rw [if_pos hthere]
      exact ih hloop
    · rename_i hthere
      rw [if_neg hthere]
      cases hcall : install r (depPath dep) with
      | none => simp [hcall] at hloop
      | some res =>
        rw [hcall] at hloop
        rw [h _ _ _ hcall]
        exact ih hloop

theorem pkgInstall_mono_succ {out : Int × Registry} (h : pkgInstall store fuel r path = some out) :
    pkgInstall store (fuel + 1) r path = some out := by
  induction fuel generalizing r path out with
  | zero => simp [pkgInstall] at h
  | succ fuel ih =>
    rw [pkgInstall_succ] at h ⊢
    cases hopen : openPackage store path with
    | none => rw [hopen] at h; exact h
    | some f =>
      rw [hopen] at h
      simp only [Option.map_eq_some_iff] at h ⊢
      obtain ⟨res, hloop, hout⟩ := h
      exact ⟨res, resolveLoop_mono (fun _ _ _ hcall => ih hcall) hloop, hout⟩

theorem pkgInstall_mono {fuel' : Nat} {out : Int × Registry} (hle : fuel ≤ fuel')
    (h : pkgInstall store fuel r path = some out) : pkgInstall store fuel' r path = some out := by
  induction fuel', hle using Nat.le_induction with
  | base => exact h
  | succ fuel' _ ih => exact pkgInstall_mono_succ ih

theorem Ends.unique {ret' : Int} {r'' : Registry} (h : Ends store r path ret r') (h' : Ends store r path ret' r'') :
    ret = ret' ∧ r' = r'' := by
  obtain ⟨fuel, h⟩ := h
  obtain ⟨fuel', h'⟩ := h'
  have heq := (pkgInstall_mono (Nat.le_max_left fuel fuel') h).symm.trans (pkgInstall_mono (Nat.le_max_right fuel fuel') h')
  simpa using heq

/-! ## Rules for calls that return -/

theorem ends_none (h : openPackage store path = none) : Ends store r path (-1) r :=
  ⟨1, by rw [pkgInstall_succ, h]⟩

theorem ends_loop {missing : Nat} (h : openPackage store path = some f) (hloop : LoopEnds store f.deps r missing r') :
    if missing = 0 then Ends store r path 0 (pkgRegistryAdd r' f.name f.version (elfPath f)).2
    else Ends store r path (-1) r' := by
  obtain ⟨fuel, hloop⟩ := hloop
  have hcall := hloop 0
  rw [Nat.zero_add] at hcall
  split
  · rename_i hmissing
    exact ⟨fuel + 1, by simp [pkgInstall_succ, h, hcall, hmissing]⟩
  · rename_i hmissing
    exact ⟨fuel + 1, by simp [pkgInstall_succ, h, hcall, hmissing]⟩

theorem loopEnds_nil : LoopEnds store [] r 0 r := ⟨0, fun _ => rfl⟩

theorem loopEnds_there {missing : Nat} (h : name ∈ r.names) (hrest : LoopEnds store deps r missing r') :
    LoopEnds store (name :: deps) r missing r' := by
  obtain ⟨fuel, hrest⟩ := hrest
  exact ⟨fuel, fun before => by rw [resolveLoop, if_pos (isInstalled_iff.mpr h), hrest before]⟩

theorem loopEnds_install {missing : Nat} {r'' : Registry} (h : name ∉ r.names) (hcall : Ends store r (depPath name) ret r')
    (hrest : LoopEnds store deps r' missing r'') :
    LoopEnds store (name :: deps) r ((if ret < 0 then 1 else 0) + missing) r'' := by
  obtain ⟨fuel, hcall⟩ := hcall
  obtain ⟨fuel', hrest⟩ := hrest
  refine ⟨max fuel fuel', fun before => ?_⟩
  have hnot : ¬pkgRegistryIsInstalled r name = true := fun h' => h (isInstalled_iff.mp h')
  rw [resolveLoop, if_neg hnot, pkgInstall_mono (Nat.le_max_left _ _) hcall]
  have hmono := resolveLoop_mono (fun _ _ _ => pkgInstall_mono (Nat.le_max_right fuel fuel'))
    (hrest (if ret < 0 then before + 1 else before))
  simp only [hmono]
  split <;> simp [Nat.add_assoc]

end Crimson.Pkg.Exec

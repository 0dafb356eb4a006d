import Crimson.Security.Mac
import Crimson.Str.Compare
import Mathlib.Data.List.FinRange

/-!
# The rules of a sandbox (`security.c`)

A sandbox has a table of rules, and a check goes through it in order: the first rule of the
type whose target is what the path starts with decides. `sandbox_create` puts "deny `/`" before
the rules that allow four devices, so no absolute path gets past it (`sandboxCheckAccess_root`).

A slot of the table of sandboxes is given by its number. The audit log and the locks are not
modelled.
-/

set_option autoImplicit false

namespace Crimson.Security

open Crimson.Str

/-- `SANDBOX_MAX`. -/
def sandboxMax : Nat := 64

/-- `SB_NAME_LEN`. -/
def sbNameLen : Nat := 64

/-- `SB_MAX_RULES`. -/
def sbMaxRules : Nat := 32

/-- The size of the field `target` of a rule. -/
def sbTargetLen : Nat := 256

def sbRuleAllow : UInt32 := 1
def sbRuleDeny : UInt32 := 2
def sbRuleReadOnly : UInt32 := 3
def sbRuleLog : UInt32 := 4

def sbTargetFile : UInt32 := 1

/-- `SEC_CTX_CONFIDENTIAL`. -/
def secCtxConfidential : UInt32 := 3

/-- `SEC_TYPE_PROCESS`. -/
def secTypeProcess : UInt32 := 1

/-- `MAC_FLAG_SANDBOXED`. -/
def macFlagSandboxed : UInt32 := 0x02

/-- `SEC_DOMAIN_MAX`. -/
def secDomainMax : Nat := 6

/-- `sandbox_rule_t`, without its unused flags. -/
structure SandboxRule where
  action : UInt32
  targetType : UInt32
  target : List UInt8
deriving DecidableEq, Repr

/-- `sandbox_limits_t`, without the bitmap of system calls. -/
structure SandboxLimits where
  cpuTimeMs : UInt64
  memoryMaxBytes : UInt64
  maxOpenFiles : UInt32
  maxProcesses : UInt32
  maxNetBandwidthKbps : UInt32
deriving DecidableEq, Repr

/-- `sandbox_t`: `rules` are the first `rule_count` entries of the table. -/
structure Sandbox where
  id : Nat
  name : List UInt8
  owner : Int32
  active : UInt32
  label : MacLabel
  rules : List SandboxRule
  limits : SandboxLimits
deriving DecidableEq, Repr

/-- The fields of `g_security` that sandboxes use. -/
structure Sandboxes where
  defaultLabels : Fin secDomainMax → MacLabel
  sandboxes : Fin sandboxMax → Sandbox
  sandboxCount : UInt32

/-- A slot with another content. -/
def Sandboxes.set (s : Sandboxes) (i : Fin sandboxMax) (sb : Sandbox) : Sandboxes :=
  { s with sandboxes := Function.update s.sandboxes i sb }

def macLabelInit (s : Sandboxes) (domain context : UInt32) : MacLabel where
  domain := domain
  context := context
  type := secTypeProcess
  caps := if h : domain.toNat < secDomainMax then (s.defaultLabels ⟨domain.toNat, h⟩).caps else 0
  flags := 0

/-- 0 or -1, and the state; a null target is `none`. -/
def sandboxAddRule (s : Sandboxes) (sbId : Nat) (action targetType : UInt32) (target : Option (List UInt8)) :
    Int × Sandboxes :=
  match target with
  | none => (-1, s)
  | some target =>
    if h : sbId < sandboxMax then
      let sb := s.sandboxes ⟨sbId, h⟩
      if sb.active = 0 then (-1, s)
      else if sbMaxRules ≤ sb.rules.length then (-1, s)
      else
        let rule := { action := action, targetType := targetType, target := target.take (sbTargetLen - 1) }
        (0, s.set ⟨sbId, h⟩ { sb with rules := sb.rules ++ [rule] })
    else (-1, s)

/-- What `memset` leaves of a label. -/
def noLabel : MacLabel := { domain := 0, context := 0, type := 0, caps := 0, flags := 0 }

def noLimits : SandboxLimits where
  cpuTimeMs := 0
  memoryMaxBytes := 0
  maxOpenFiles := 0
  maxProcesses := 0
  maxNetBandwidthKbps := 0

/-- What `sandbox_init` leaves. -/
def sandboxInit (defaultLabels : Fin secDomainMax → MacLabel) : Sandboxes where
  defaultLabels := defaultLabels
  sandboxes := fun i =>
    { id := i.val, name := [], owner := 0, active := 0, label := noLabel, rules := [], limits := noLimits }
  sandboxCount := 0

/-- The search of `sandbox_create` for a free slot. -/
def freeSandbox (s : Sandboxes) : Option (Fin sandboxMax) :=
  (List.finRange sandboxMax).find? fun i => (s.sandboxes i).active = 0

def fileRule (s : Sandboxes) (i : Fin sandboxMax) (action : UInt32) (target : String) : Sandboxes :=
  (sandboxAddRule s i.val action sbTargetFile (some (ofString target))).2

/-- "Default rules: deny everything, allow basic file access". -/
def defaultRules (s : Sandboxes) (i : Fin sandboxMax) : Sandboxes :=
  let s := fileRule s i sbRuleDeny "/"
  let s := fileRule s i sbRuleAllow "/dev/null"
  let s := fileRule s i sbRuleAllow "/dev/zero"
  let s := fileRule s i sbRuleAllow "/dev/random"
  fileRule s i sbRuleAllow "/dev/urandom"

/-- "Default limits". -/
def defaultLimits : SandboxLimits where
  cpuTimeMs := 30000
  memoryMaxBytes := 64 * 1024 * 1024
  maxOpenFiles := 64
  maxProcesses := 4
  maxNetBandwidthKbps := 0

/-- The slot as it is before the rules. -/
def newSandbox (s : Sandboxes) (i : Fin sandboxMax) (name : List UInt8) (owner : Int32) : Sandbox where
  id := i.val
  name := name.take (sbNameLen - 1)
  owner := owner
  active := 1
  label := { macLabelInit s secDomainIsolated secCtxConfidential with flags := macFlagSandboxed ||| macFlagNoNetwork }
  rules := []
  limits := noLimits

/-- The number of the new sandbox, `none` for -1, and the state. -/
def sandboxCreate (s : Sandboxes) (name : Option (List UInt8)) (owner : Int32) : Option (Fin sandboxMax) × Sandboxes :=
  match name with
  | none => (none, s)
  | some name =>
    match freeSandbox s with
    | none => (none, s)
    | some i =>
      let s := defaultRules (s.set i (newSandbox s i name owner)) i
      let s := s.set i { s.sandboxes i with limits := defaultLimits }
      (some i, { s with sandboxCount := s.sandboxCount + 1 })

/-- The loop of `sandbox_check_access`. -/
def checkRules (targetType : UInt32) (target : List UInt8) (access : UInt32) : List SandboxRule → Int
  | [] => -1
  | rule :: rules =>
    if rule.targetType = targetType ∧ strncmp (charAt target) (charAt rule.target) rule.target.length = 0 then
      if rule.action = sbRuleAllow then 0
      else if rule.action = sbRuleDeny then -1
      else if rule.action = sbRuleReadOnly then
        if access = macPermRead then 0 else -1
      else if rule.action = sbRuleLog then 0
      -- the switch has no other case: the loop goes on
      else checkRules targetType target access rules
    else checkRules targetType target access rules

/-- 0 is allowed, -1 is denied; a null target is `none`. -/
def sandboxCheckAccess (s : Sandboxes) (sbId : Nat) (targetType : UInt32) (target : Option (List UInt8))
    (access : UInt32) : Int :=
  match target with
  | none => -1
  | some target =>
    if h : sbId < sandboxMax then
      let sb := s.sandboxes ⟨sbId, h⟩
      if sb.active = 0 then 0 else checkRules targetType target access sb.rules
    else -1

/-- A path that starts at the root. -/
def Absolute (p : List UInt8) : Prop := charAt p 0 = 47

/-- What the default rules are to allow. -/
def basicDevices : List (List UInt8) :=
  [ofString "/dev/null", ofString "/dev/zero", ofString "/dev/random", ofString "/dev/urandom"]

/-- The first of the default rules. -/
def denyRoot : SandboxRule := { action := sbRuleDeny, targetType := sbTargetFile, target := ofString "/" }

/-- The sandbox in a slot is active, and the rule it tries first is `denyRoot`. -/
structure DeniesRoot (s : Sandboxes) (i : Fin sandboxMax) : Prop where
  active : (s.sandboxes i).active ≠ 0
  first : (s.sandboxes i).rules.head? = some denyRoot

variable {s s' : Sandboxes} {i : Fin sandboxMax} {sb : Sandbox} {p : List UInt8} {access action targetType : UInt32}
  {target : Option (List UInt8)} {sbId : Nat} {name : Option (List UInt8)} {owner : Int32}

@[simp] theorem Sandboxes.set_self : (s.set i sb).sandboxes i = sb := Function.update_self ..

theorem Sandboxes.set_of_ne {j : Fin sandboxMax} (h : i ≠ j) : (s.set j sb).sandboxes i = s.sandboxes i :=
  Function.update_of_ne h ..

/-! ## The first rule -/

/-- What a rule for "/" is tried on: every absolute path. -/
theorem matches_root : strncmp (charAt p) (charAt (ofString "/")) (ofString "/").length = 0 ↔ Absolute p := by
  have hlength : (ofString "/").length = 1 := by decide
  have hchar : charAt (ofString "/") 0 = 47 := by decide
  have hne : ∀ j, j < 1 → charAt (ofString "/") j ≠ 0 := by
    intro j hj
    obtain rfl : j = 0 := by omega
    decide
  rw [hlength, strncmp_eq_zero_iff hne]
  constructor
  · intro h
    exact (h 0 Nat.one_pos).trans hchar
  · intro h j hj
    obtain rfl : j = 0 := by omega
    exact h.trans hchar.symm

/-- **Behind a rule that denies "/" no rule for files is reached.** -/
theorem DeniesRoot.denies (h : DeniesRoot s i) (habs : Absolute p) :
    sandboxCheckAccess s i.val sbTargetFile (some p) access = -1 := by
  obtain ⟨rules, hrules⟩ : ∃ rules, (s.sandboxes i).rules = denyRoot :: rules := by
    cases hr : (s.sandboxes i).rules with
    | nil =>
      have hfirst := h.first
      rw [hr] at hfirst
      cases hfirst
    | cons rule rules =>
      have hfirst := h.first
      rw [hr, List.head?_cons] at hfirst
      cases hfirst
      exact ⟨rules, rfl⟩
  have hloop : checkRules sbTargetFile p access (denyRoot :: rules) = -1 := by
    rw [checkRules, if_pos ⟨rfl, matches_root.mpr habs⟩]
    rfl
  simp only [sandboxCheckAccess, i.isLt, dif_pos, if_neg h.active, hrules, hloop]

/-! ## What later rules change -/

/-- Rules are added at the end, so the first one stays. -/
theorem DeniesRoot.addRule (h : DeniesRoot s i) : DeniesRoot (sandboxAddRule s sbId action targetType target).2 i := by
  unfold sandboxAddRule
  split
  · exact h
  · split
    · dsimp only
      split
      · exact h
      · split
        · exact h
        · rename_i hsb _ _
          by_cases hi : i = ⟨sbId, hsb⟩
          · subst hi
            constructor
            · simpa using h.active
            · simp [h.first]
          · constructor
            · rw [Sandboxes.set_of_ne hi]
              exact h.active
            · rw [Sandboxes.set_of_ne hi]
              exact h.first
    · exact h

theorem DeniesRoot.fileRule {target : String} (h : DeniesRoot s i) : DeniesRoot (fileRule s i action target) i :=
  h.addRule

/-- The first rule that goes into an empty table. -/
theorem deniesRoot_fileRule (hactive : (s.sandboxes i).active ≠ 0) (hrules : (s.sandboxes i).rules = []) :
    DeniesRoot (fileRule s i sbRuleDeny "/") i := by
  have hstep : fileRule s i sbRuleDeny "/" = s.set i { s.sandboxes i with rules := [denyRoot] } := by
    simp only [fileRule, sandboxAddRule, i.isLt, dif_pos, if_neg hactive, hrules]
    rfl
  rw [hstep]
  constructor
  · simpa using hactive
  · simp

theorem deniesRoot_defaultRules (hactive : (s.sandboxes i).active ≠ 0) (hrules : (s.sandboxes i).rules = []) :
    DeniesRoot (defaultRules s i) i :=
  (deniesRoot_fileRule hactive hrules).fileRule.fileRule.fileRule.fileRule

theorem deniesRoot_sandboxCreate (h : sandboxCreate s name owner = (some i, s')) : DeniesRoot s' i := by
  unfold sandboxCreate at h
  split at h
  · cases h
  · split at h
    · cases h
    · rename_i name _ j _
      obtain ⟨hi, rfl⟩ := Prod.mk.inj h
      obtain rfl := Option.some.inj hi
      have hrules : DeniesRoot (defaultRules (s.set j (newSandbox s j name owner)) j) j :=
        deniesRoot_defaultRules (by simp [newSandbox]) (by simp [newSandbox])
      constructor
      · simpa using hrules.active
      · simpa using hrules.first

/-- **No absolute path is allowed in a new sandbox.** -/
theorem sandboxCheckAccess_root (h : sandboxCreate s name owner = (some i, s')) (habs : Absolute p) :
    sandboxCheckAccess s' i.val sbTargetFile (some p) access = -1 :=
  (deniesRoot_sandboxCreate h).denies habs

/-- **The default policy is what it is to be for a path exactly if the path is none of the
    devices.** -/
theorem default_policy_iff (h : sandboxCreate s name owner = (some i, s')) (habs : Absolute p) (access : UInt32) :
    (sandboxCheckAccess s' i.val sbTargetFile (some p) access = 0 ↔ p ∈ basicDevices) ↔ p ∉ basicDevices := by
  rw [sandboxCheckAccess_root h habs]
  simp

theorem default_policy_etc :
    (sandboxCheckAccess (sandboxCreate (sandboxInit fun _ => noLabel) (some (ofString "app")) 7).2 0 sbTargetFile
      (some (ofString "/etc/passwd")) macPermRead = 0 ↔ ofString "/etc/passwd" ∈ basicDevices) :=
  (default_policy_iff (s := sandboxInit fun _ => noLabel) (i := ⟨0, by decide⟩) (p := ofString "/etc/passwd")
    (Prod.ext (by decide) rfl) rfl macPermRead).mpr (by decide)

/-- The first of the devices is denied. -/
theorem default_policy_devNull :
    (sandboxCreate (sandboxInit fun _ => noLabel) (some (ofString "app")) 7).1 = some ⟨0, by decide⟩ ∧
      ofString "/dev/null" ∈ basicDevices ∧
      sandboxCheckAccess (sandboxCreate (sandboxInit fun _ => noLabel) (some (ofString "app")) 7).2 0 sbTargetFile
        (some (ofString "/dev/null")) macPermRead = -1 := by
  decide

end Crimson.Security

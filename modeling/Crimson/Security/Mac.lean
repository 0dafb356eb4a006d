import Crimson.Lib.Run

/-!
# Mandatory access control (`security.c`)

A decision of `mac_check_access` passes four layers: the enforcing switch, the kernel
domain's full access, the rules about capabilities and object types, and the policy table
with the default rule after it. Only the table changes at run time, and only by
appending, so the first entry for a pair of domains decides for that pair ever after.

The labels are arguments of the check, and the audit log is not modelled: nothing in a
decision reads it.
-/

set_option autoImplicit false

namespace Crimson.Security

open Crimson.Lib

/-! MAC domains. -/

def secDomainKernel : UInt32 := 0
def secDomainSystem : UInt32 := 1
def secDomainService : UInt32 := 2
def secDomainApp : UInt32 := 3
def secDomainIsolated : UInt32 := 4
def secDomainPenTest : UInt32 := 5

/-! MAC permissions. -/

def macPermRead : UInt32 := 0x01
def macPermWrite : UInt32 := 0x02
def macPermExec : UInt32 := 0x04
def macPermAdmin : UInt32 := 0x80

/-! Object types. -/

def secTypeFile : UInt32 := 2
def secTypeSocket : UInt32 := 3

/-- `CAP_SYS_ADMIN`. -/
def capSysAdmin : UInt64 := (1 : UInt64) <<< 13

/-- `MAC_FLAG_NO_NETWORK`. -/
def macFlagNoNetwork : UInt32 := 0x08

/-- `mac_label_t`. -/
structure MacLabel where
  domain : UInt32
  context : UInt32
  type : UInt32
  caps : UInt64
  flags : UInt32
deriving DecidableEq, Repr

/-- `mac_policy_t`, without its unused flags. -/
structure MacPolicy where
  subjectDomain : UInt32
  objectDomain : UInt32
  permissions : UInt32
deriving DecidableEq, Repr

/-- The fields of `g_security` that access control uses: `policies` are the first
    `policy_count` entries of the table. -/
structure Mac where
  macEnforcing : UInt32
  policies : List MacPolicy
deriving DecidableEq, Repr

/-- The length of the array `policies`. -/
def maxPolicies : Nat := 128

/-- What `mac_init` leaves of the policy table. -/
def macInit : Mac where
  macEnforcing := 1
  policies := []

/-- An entry is for these two domains. -/
def MacPolicy.isFor (pol : MacPolicy) (subject object : UInt32) : Bool :=
  pol.subjectDomain = subject ∧ pol.objectDomain = object

/-- The rules before the policy table: true is a jump to `deny`. -/
def ruleDenies (subject object : MacLabel) (perm : UInt32) : Bool :=
  (perm &&& macPermAdmin ≠ 0 ∧ subject.caps &&& capSysAdmin = 0) ∨
  (object.type = secTypeFile ∧
    ((subject.domain = secDomainIsolated ∧ object.domain = secDomainSystem) ∨
      (subject.domain = secDomainApp ∧ object.domain = secDomainSystem ∧ perm &&& macPermWrite ≠ 0))) ∨
  (object.type = secTypeSocket ∧ subject.flags &&& macFlagNoNetwork ≠ 0)

/-- The search of `mac_check_access`: the first entry for the pair of domains. -/
def policyFor (policies : List MacPolicy) (subject object : UInt32) : Option MacPolicy :=
  policies.find? fun pol => pol.isFor subject object

/-- 0 is allowed, -1 is denied; a null label is `none`. -/
def macCheckAccess (m : Mac) (subject object : Option MacLabel) (perm : UInt32) : Int :=
  if m.macEnforcing = 0 then 0
  else
    match subject, object with
    | some subject, some object =>
      if subject.domain = secDomainKernel then 0
      else if ruleDenies subject object perm then -1
      else
        match policyFor m.policies subject.domain object.domain with
        | some pol => if pol.permissions &&& perm = perm then 0 else -1
        | none =>
          if subject.domain = object.domain then 0
          else if perm = macPermRead then 0
          else -1
    | _, _ => -1

def macAddPolicy (m : Mac) (subjectDomain objectDomain perms : UInt32) : Mac :=
  if maxPolicies ≤ m.policies.length then m
  else
    { m with
      policies := m.policies ++
        [{ subjectDomain := subjectDomain, objectDomain := objectDomain, permissions := perms }] }

def macLoadDefaultPolicies (m : Mac) : Mac :=
  let m := macAddPolicy m secDomainApp secDomainKernel 0
  let m := macAddPolicy m secDomainApp secDomainSystem macPermRead
  let m := macAddPolicy m secDomainIsolated secDomainSystem 0
  let m := macAddPolicy m secDomainPenTest secDomainSystem (macPermRead ||| macPermExec)
  let m := macAddPolicy m secDomainService secDomainKernel 0
  macAddPolicy m secDomainSystem secDomainKernel macPermRead

/-- The arguments of one `mac_add_policy`. -/
structure AddPolicy where
  subjectDomain : UInt32
  objectDomain : UInt32
  perms : UInt32
deriving DecidableEq, Repr

def macStep (m : Mac) (a : AddPolicy) : Option Mac :=
  some (macAddPolicy m a.subjectDomain a.objectDomain a.perms)

/-- Every request of the one domain on the other is within `perms`, or is denied. -/
def GrantsWithin (m : Mac) (subject object perms : UInt32) : Prop :=
  ∀ (s o : MacLabel) (perm : UInt32), s.domain = subject → o.domain = object →
    ¬(perms &&& perm = perm) → macCheckAccess m (some s) (some o) perm = -1

/-- Every request for some permission of the one domain on the other is denied. -/
def DeniesAll (m : Mac) (subject object : UInt32) : Prop :=
  ∀ (s o : MacLabel) (perm : UInt32), s.domain = subject → o.domain = object → perm ≠ 0 →
    macCheckAccess m (some s) (some o) perm = -1

/-! ## The first entry decides -/

theorem policyFor_append {policies : List MacPolicy} {subject object : UInt32} {pol : MacPolicy}
    (h : policyFor policies subject object = some pol) (later : List MacPolicy) :
    policyFor (policies ++ later) subject object = some pol := by
  unfold policyFor at h ⊢
  rw [List.find?_append, h, Option.some_or]

theorem macAddPolicy_enforcing (m : Mac) (s o perms : UInt32) :
    (macAddPolicy m s o perms).macEnforcing = m.macEnforcing := by
  unfold macAddPolicy
  split <;> rfl

/-- An addition extends the table or leaves it. -/
theorem macAddPolicy_prefix (m : Mac) (s o perms : UInt32) :
    ∃ later, (macAddPolicy m s o perms).policies = m.policies ++ later := by
  unfold macAddPolicy
  split
  · exact ⟨[], by simp⟩
  · exact ⟨_, rfl⟩

/-- **An entry that decides is never overruled**: what a pair of domains may do is settled
    by the first entry for it. -/
theorem policyFor_add {m : Mac} {subject object : UInt32} {pol : MacPolicy}
    (h : policyFor m.policies subject object = some pol) (s o perms : UInt32) :
    policyFor (macAddPolicy m s o perms).policies subject object = some pol := by
  obtain ⟨later, hlater⟩ := macAddPolicy_prefix m s o perms
  rw [hlater]
  exact policyFor_append h later

/-- A pair with an entry is confined to the entry's permissions, in enforcing mode. The
    rules before the table can only deny more; only the kernel passes them by. -/
theorem grantsWithin_of_policy {m : Mac} {subject object : UInt32} {pol : MacPolicy}
    (henf : m.macEnforcing ≠ 0) (hkernel : subject ≠ secDomainKernel)
    (h : policyFor m.policies subject object = some pol) :
    GrantsWithin m subject object pol.permissions := by
  rintro s o perm rfl rfl hperm
  unfold macCheckAccess
  simp only [if_neg henf, if_neg hkernel, h, if_neg hperm, ite_self]

/-! ## The default policies -/

def defaultPolicies : List MacPolicy :=
  [⟨secDomainApp, secDomainKernel, 0⟩,
   ⟨secDomainApp, secDomainSystem, macPermRead⟩,
   ⟨secDomainIsolated, secDomainSystem, 0⟩,
   ⟨secDomainPenTest, secDomainSystem, macPermRead ||| macPermExec⟩,
   ⟨secDomainService, secDomainKernel, 0⟩,
   ⟨secDomainSystem, secDomainKernel, macPermRead⟩]

theorem macLoadDefaultPolicies_policies {m : Mac} (h : m.policies = []) :
    (macLoadDefaultPolicies m).policies = defaultPolicies := by
  simp [macLoadDefaultPolicies, macAddPolicy, maxPolicies, defaultPolicies, h]

theorem macLoadDefaultPolicies_enforcing (m : Mac) :
    (macLoadDefaultPolicies m).macEnforcing = m.macEnforcing := by
  simp only [macLoadDefaultPolicies, macAddPolicy_enforcing]

/-- The invariant: for each default entry's domains, that entry is the one found. -/
structure DefaultsFirst (m : Mac) : Prop where
  enforcing : m.macEnforcing ≠ 0
  first : ∀ pol ∈ defaultPolicies, policyFor m.policies pol.subjectDomain pol.objectDomain = some pol

theorem DefaultsFirst.load {m : Mac} (henf : m.macEnforcing ≠ 0) (h : m.policies = []) :
    DefaultsFirst (macLoadDefaultPolicies m) where
  enforcing := by
    rw [macLoadDefaultPolicies_enforcing]
    exact henf
  first := by
    rw [macLoadDefaultPolicies_policies h]
    decide

theorem DefaultsFirst.step {m m' : Mac} {a : AddPolicy} (h : DefaultsFirst m)
    (hs : macStep m a = some m') : DefaultsFirst m' := by
  obtain rfl := Option.some.inj hs
  refine ⟨?_, fun pol hpol => policyFor_add (h.first pol hpol) _ _ _⟩
  rw [macAddPolicy_enforcing]
  exact h.enforcing

theorem DefaultsFirst.within {m : Mac} (h : DefaultsFirst m) (pol : MacPolicy)
    (hpol : pol ∈ defaultPolicies) (hkernel : pol.subjectDomain ≠ secDomainKernel) :
    GrantsWithin m pol.subjectDomain pol.objectDomain pol.permissions :=
  grantsWithin_of_policy h.enforcing hkernel (h.first pol hpol)

/-- Confined to nothing is denied everything. -/
theorem GrantsWithin.deniesAll {m : Mac} {subject object : UInt32} (h : GrantsWithin m subject object 0) :
    DeniesAll m subject object := by
  intro s o perm hs ho hperm
  refine h s o perm hs ho ?_
  rw [UInt32.zero_and]
  exact Ne.symm hperm

/-- The confinement that the default policies state. -/
structure DefaultConfinement (m : Mac) : Prop where
  appKernel : DeniesAll m secDomainApp secDomainKernel
  serviceKernel : DeniesAll m secDomainService secDomainKernel
  isolatedSystem : DeniesAll m secDomainIsolated secDomainSystem
  appSystem : GrantsWithin m secDomainApp secDomainSystem macPermRead
  systemKernel : GrantsWithin m secDomainSystem secDomainKernel macPermRead
  penTestSystem : GrantsWithin m secDomainPenTest secDomainSystem (macPermRead ||| macPermExec)

theorem DefaultsFirst.confinement {m : Mac} (h : DefaultsFirst m) : DefaultConfinement m where
  appKernel := (h.within ⟨secDomainApp, secDomainKernel, 0⟩ (by decide) (by decide)).deniesAll
  serviceKernel := (h.within ⟨secDomainService, secDomainKernel, 0⟩ (by decide) (by decide)).deniesAll
  isolatedSystem := (h.within ⟨secDomainIsolated, secDomainSystem, 0⟩ (by decide) (by decide)).deniesAll
  appSystem := h.within ⟨secDomainApp, secDomainSystem, macPermRead⟩ (by decide) (by decide)
  systemKernel := h.within ⟨secDomainSystem, secDomainKernel, macPermRead⟩ (by decide) (by decide)
  penTestSystem := h.within ⟨secDomainPenTest, secDomainSystem, macPermRead ||| macPermExec⟩ (by decide) (by decide)

/-- **The default policies cannot be weakened**: after they are loaded on an empty table
    in enforcing mode, the confinement they state holds after any additions. -/
theorem default_policies_stand {m : Mac} (henf : m.macEnforcing ≠ 0) (h : m.policies = [])
    (adds : List AddPolicy) : Always macStep DefaultConfinement (macLoadDefaultPolicies m) adds :=
  (always_of_step (fun _ _ _ h hs => h.step hs) (DefaultsFirst.load henf h)).mono
    fun _ hs => hs.confinement

/-- Three additions that would open every pair, on the table `mac_init` leaves. -/
theorem default_policies_stand_adds :
    Always macStep DefaultConfinement (macLoadDefaultPolicies macInit)
      [⟨secDomainApp, secDomainKernel, 0xFF⟩, ⟨secDomainSystem, secDomainKernel, 0xFF⟩,
        ⟨secDomainIsolated, secDomainSystem, 0xFF⟩] :=
  default_policies_stand (by decide) rfl _

end Crimson.Security

import Crimson.Lib.Run

/-!
# Verified boot (`security.c`)

Two entry points share one word, `boot_state`: `vb_verify_partition` checks one partition
against the header and turns the state red on a mismatch, `vb_verify_chain` is to turn it
green. Beside the state, `VbRun` keeps the history the property is about: which entries
of the header have been verified, and whether a verification has failed.

`vb_verify_chain` has an empty loop where the partitions would be verified, and looks at
nothing but the header's magic. `green_earned_iff` says what its callers would have to
see to themselves. The hash is a parameter.
-/

set_option autoImplicit false

namespace Crimson.Security

open Crimson.Lib

/-- `VB_MAGIC`. -/
def vbMagic : UInt32 := 0x56424F4F

inductive BootState where
  | green
  | yellow
  | orange
  | red
  | eio
deriving DecidableEq, Repr

/-- The fields of `vb_partition_t` that verification reads; `name` is the string at the field. -/
structure VbPartition where
  name : List UInt8
  hash : List UInt8
  rollbackIndex : UInt32
deriving DecidableEq, Repr

/-- The fields of `vb_header_t` that verification reads. The array is given by its entries
    in memory, however many the count says there are. -/
structure VbHeader where
  magic : UInt32
  partitionCount : UInt32
  partitions : Nat → VbPartition

/-- The fields of `g_security` that verified boot uses. -/
structure Vb where
  vbHeader : VbHeader
  bootState : BootState
  rollbackIndex : UInt32

/-- The search of `vb_verify_partition`: the first entry of that name. -/
def findPartition (h : VbHeader) (name : List UInt8) : Option Nat :=
  (List.range h.partitionCount.toNat).find? fun i => (h.partitions i).name = name

/-- `vb_verify_partition`, over the hash function; a null pointer is `none`. -/
def vbVerifyPartition (pkgHashSha256 : List UInt8 → List UInt8) (v : Vb) (name data : Option (List UInt8)) :
    Int × Vb :=
  match name, data with
  | some name, some data =>
    if data = [] then (-1, v)
    else
      match findPartition v.vbHeader name with
      | none => (-1, v)
      | some i =>
        let part := v.vbHeader.partitions i
        if pkgHashSha256 data ≠ part.hash then (-1, { v with bootState := .red })
        else if part.rollbackIndex < v.rollbackIndex then (-1, { v with bootState := .red })
        else (0, v)
  | _, _ => (-1, v)

/-- `vb_verify_chain`; its loop over the partitions has no body. -/
def vbVerifyChain (v : Vb) : Int × Vb :=
  if v.vbHeader.magic ≠ vbMagic then (-1, { v with bootState := .red })
  else (0, { v with bootState := .green })

/-! ## Runs -/

/-- The state with its history: the entries verified with success, and whether a
    verification has turned the state red. -/
structure VbRun where
  vb : Vb
  verified : List Nat
  failed : Bool

inductive VbOp where
  | verifyPartition (name data : Option (List UInt8))
  | verifyChain
deriving DecidableEq, Repr

/-- A call, noted in the history. -/
def vbStep (pkgHashSha256 : List UInt8 → List UInt8) (s : VbRun) : VbOp → Option VbRun
  | .verifyPartition name data =>
    let r := vbVerifyPartition pkgHashSha256 s.vb name data
    some
      { vb := r.2
        verified := if r.1 = 0 then (name.bind (findPartition s.vb.vbHeader)).toList ++ s.verified else s.verified
        failed := s.failed || r.2.bootState = .red }
  | .verifyChain =>
    let r := vbVerifyChain s.vb
    some { s with vb := r.2, failed := s.failed || r.2.bootState = .red }

/-- Every entry the header lists has been verified. -/
def AllVerified (s : VbRun) : Prop := ∀ i, i < s.vb.vbHeader.partitionCount.toNat → i ∈ s.verified

/-- Green is earned: all that the header lists has been verified, and nothing has failed. -/
def GreenEarned (s : VbRun) : Prop := s.vb.bootState = .green → AllVerified s ∧ s.failed = false

/-- The header passes and nothing is missing when the chain is declared good. -/
def ChainReady (s : VbRun) : VbOp → Prop
  | .verifyChain => s.vb.vbHeader.magic = vbMagic → AllVerified s ∧ s.failed = false
  | .verifyPartition _ _ => True

/-- What `vb_init` and a header leave. -/
def vbStart (header : VbHeader) (rollbackIndex : UInt32) : VbRun where
  vb := { vbHeader := header, bootState := .orange, rollbackIndex := rollbackIndex }
  verified := []
  failed := false

/-! ## The sharp condition -/

/-- A partition check leaves the header, and the state too unless it turns it red. -/
theorem vbVerifyPartition_cases (hash : List UInt8 → List UInt8) (v : Vb) (name data : Option (List UInt8)) :
    (vbVerifyPartition hash v name data).2 = v ∨
      (vbVerifyPartition hash v name data).2 = { v with bootState := .red } := by
  unfold vbVerifyPartition
  split
  · split
    · exact Or.inl rfl
    · split
      · exact Or.inl rfl
      · simp only
        split
        · exact Or.inr rfl
        · split
          · exact Or.inr rfl
          · exact Or.inl rfl
  · exact Or.inl rfl

theorem vbVerifyChain_header (v : Vb) : (vbVerifyChain v).2.vbHeader = v.vbHeader := by
  unfold vbVerifyChain
  split <;> rfl

theorem vbVerifyChain_green (v : Vb) : (vbVerifyChain v).2.bootState = .green ↔ v.vbHeader.magic = vbMagic := by
  unfold vbVerifyChain
  split <;> simp_all

theorem GreenEarned.step {hash : List UInt8 → List UInt8} {s s' : VbRun} {op : VbOp} (h : GreenEarned s)
    (hready : ChainReady s op) (hs : vbStep hash s op = some s') : GreenEarned s' := by
  cases op with
  | verifyPartition name data =>
    obtain rfl := Option.some.inj hs
    intro hgreen
    simp only at hgreen
    rcases vbVerifyPartition_cases hash s.vb name data with hv | hv
    · rw [hv] at hgreen
      obtain ⟨hall, hfail⟩ := h hgreen
      refine ⟨?_, by simp [hv, hfail, hgreen]⟩
      intro i hi
      simp only [hv] at hi ⊢
      split
      · exact List.mem_append_right _ (hall i hi)
      · exact hall i hi
    · rw [hv] at hgreen
      exact absurd hgreen (by simp)
  | verifyChain =>
    obtain rfl := Option.some.inj hs
    intro hgreen
    obtain ⟨hall, hfail⟩ := hready ((vbVerifyChain_green s.vb).mp hgreen)
    refine ⟨?_, ?_⟩
    · intro i hi
      simp only [vbVerifyChain_header] at hi
      exact hall i hi
    · simp only at hgreen
      simp [hgreen, hfail]

/-- A chain declared green too early is not earned, then. -/
theorem vbStep_unready {hash : List UInt8 → List UInt8} {s s' : VbRun} {op : VbOp} (hready : ¬ChainReady s op)
    (hs : vbStep hash s op = some s') : ¬GreenEarned s' := by
  cases op with
  | verifyPartition name data => exact absurd trivial hready
  | verifyChain =>
    obtain rfl := Option.some.inj hs
    obtain ⟨hmagic, hmissing⟩ := Classical.not_imp.mp hready
    intro h
    have hstate := (vbVerifyChain_green s.vb).mpr hmagic
    obtain ⟨hall, hfail⟩ := h hstate
    refine hmissing ⟨?_, ?_⟩
    · intro i hi
      refine hall i ?_
      simp only [vbVerifyChain_header]
      exact hi
    · simp only [hstate] at hfail
      simpa using hfail

/-- **Green is earned throughout a run exactly when every `vb_verify_chain` of it meets a
    header that does not pass, or comes when all the header lists has been verified and
    nothing has failed.** -/
theorem green_earned_iff (hash : List UInt8 → List UInt8) (header : VbHeader) (rollbackIndex : UInt32)
    (ops : List VbOp) :
    Always (vbStep hash) GreenEarned (vbStart header rollbackIndex) ops ↔
      Meets (vbStep hash) ChainReady (vbStart header rollbackIndex) ops := by
  refine always_iff_meets (fun _ h => h) (fun _ _ _ h hg hs => h.step hg hs) (fun _ _ _ _ hg hs => vbStep_unready hg hs) ?_
  intro hgreen
  exact absurd hgreen (by simp [vbStart])

/-- A header with one partition, `boot`. -/
def oneHeader : VbHeader where
  magic := vbMagic
  partitionCount := 1
  partitions := fun _ => { name := [98, 111, 111, 116], hash := [1], rollbackIndex := 0 }

/-- The only partition fails its check, and the chain is declared green. -/
theorem green_unearned :
    ¬Always (vbStep id) GreenEarned (vbStart oneHeader 0)
      [.verifyPartition (some [98, 111, 111, 116]) (some [2]), .verifyChain] := by
  intro h
  have hgreen := (h.2 _ rfl).2 _ rfl
  exact absurd (hgreen rfl).2 (by decide)

end Crimson.Security

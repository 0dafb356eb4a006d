import Crimson.Lib.Run
import Crimson.Sandbox.Model

/-!
# Sandbox isolation (`sandbox.c`)

Beside the table, `SandboxRun` remembers for each slot the process its sandbox was created
for. A call for a process is confined when it answers by that process's own sandbox and
changes no other. Since `sandbox_get` takes the first sandbox in use, a call is confined
exactly when that one is the caller's own, or when the mistake happens to make no
difference: `isolation_iff`.
-/

set_option autoImplicit false

namespace Crimson.Sandbox

open Crimson.Sched Crimson.Proc Crimson.Lib

section

variable {μ : Type}

/-- The subsystem, and whom each sandbox was created for. -/
structure SandboxRun (μ : Type) where
  st : SandboxState μ
  owner : Slot → Option Int

inductive SandboxOp where
  | create (pid : Int) (level : SandboxLevel) (appId : List UInt8)
  | destroy (pid : Int)
  | checkCap (pid : Int) (cap : UInt64)
  | grantCap (cpu : Nat) (pid : Int) (cap : UInt64)
  | revokeCap (pid : Int) (cap : UInt64)
deriving DecidableEq, Repr

/-- The process a call is for. -/
def SandboxOp.pid : SandboxOp → Int
  | .create pid _ _ | .destroy pid | .checkCap pid _ | .grantCap _ pid _ | .revokeCap pid _ => pid

def ownSandbox (s : SandboxRun μ) (pid : Int) : Option Slot :=
  (List.finRange maxSandboxes).find? fun i => s.owner i = some pid

/-- One call for a live process; a process is given a sandbox only when it has none. -/
def sandboxStep (ops : MemOps μ) (s : SandboxRun μ) (op : SandboxOp) : Option (SandboxRun μ) :=
  if processGetByPid s.st.procs op.pid = none then none
  else
    match op with
    | .create pid level appId =>
      if (ownSandbox s pid).isSome then none
      else
        (sandboxCreate ops s.st pid level appId).map fun r =>
          { st := r.2
            owner :=
              match r.1 with
              | some i => Function.update s.owner i (some pid)
              | none => s.owner }
    | .destroy pid =>
      some
        { st := sandboxDestroy ops s.st pid
          owner :=
            match sandboxGet s.st pid with
            | some i => Function.update s.owner i none
            | none => s.owner }
    | .checkCap pid cap => some { s with st := (sandboxCheckCap s.st pid cap).2 }
    | .grantCap cpu pid cap => some { s with st := (sandboxGrantCap s.st cpu pid cap).2 }
    | .revokeCap pid cap => some { s with st := (sandboxRevokeCap s.st pid cap).2 }

def sandboxStart (procs : ProcTable μ) (cap : ProcRef → UInt64) : SandboxRun μ where
  st := sandboxInit procs cap
  owner := fun _ => none

/-- The answer that `pid`'s own sandbox gives; a process without one may do anything. -/
def ownAnswer (s : SandboxRun μ) (pid : Int) (cap : UInt64) : Int :=
  match ownSandbox s pid with
  | none => 1
  | some i =>
    if (s.st.sandboxes i).level = .unrestricted then 1
    else if (s.st.sandboxes i).allows cap then 1
    else 0

/-- The sandboxes of the other processes are untouched. -/
def OthersKept (s : SandboxRun μ) (pid : Int) (s' : SandboxRun μ) : Prop :=
  ∀ j q, s.owner j = some q → q ≠ pid → s'.st.sandboxes j = s.st.sandboxes j ∧ s'.owner j = some q

/-- A call for a process concerns that process's sandbox alone. -/
def Confined (s : SandboxRun μ) (op : SandboxOp) (s' : SandboxRun μ) : Prop :=
  match op with
  | .checkCap pid cap => (sandboxCheckCap s.st pid cap).1 = ownAnswer s pid cap
  | op => OthersKept s op.pid s'

/-- Taking the sandbox in slot `i` for the process's own makes no difference to the call. -/
def Harmless (s : SandboxRun μ) (op : SandboxOp) (i : Slot) : Prop :=
  match op with
  | .create _ _ _ => True
  | .destroy _ => False
  | .checkCap pid cap => (s.st.sandboxes i).allows cap = true ↔ ownAnswer s pid cap = 1
  | .grantCap cpu _ cap =>
    grantDenied s.st cpu = true ∨ (s.st.sandboxes i).capGranted ||| cap = (s.st.sandboxes i).capGranted
  | .revokeCap _ cap => (s.st.sandboxes i).capGranted &&& ~~~cap = (s.st.sandboxes i).capGranted

/-- The first sandbox in use is the process's own, or taking it for that does no harm. -/
def FirstIsOwn (s : SandboxRun μ) (op : SandboxOp) : Prop :=
  ∀ i, sandboxGet s.st op.pid = some i → s.owner i = some op.pid ∨ Harmless s op i

/-! ## The invariant -/

/-- The slots with memory are those of some process, and a process has one at most. -/
structure SandboxInv (s : SandboxRun μ) : Prop where
  free : ∀ i, s.owner i = none → (s.st.sandboxes i).memBase = 0
  used : ∀ i p, s.owner i = some p → (s.st.sandboxes i).memBase ≠ 0
  once : ∀ i j p, s.owner i = some p → s.owner j = some p → i = j

theorem SandboxInv.start (procs : ProcTable μ) (cap : ProcRef → UInt64) :
    SandboxInv (sandboxStart procs cap) :=
  ⟨fun _ _ => rfl, fun _ _ h => absurd h (by simp [sandboxStart]), fun _ _ _ h => absurd h (by simp [sandboxStart])⟩

/-- A change of contexts that leaves their memory. -/
theorem SandboxInv.congr {s s' : SandboxRun μ} (h : SandboxInv s) (howner : s'.owner = s.owner)
    (hmem : ∀ i, (s'.st.sandboxes i).memBase = (s.st.sandboxes i).memBase) : SandboxInv s' := by
  refine ⟨?_, ?_, ?_⟩
  · intro i hi
    rw [hmem]
    exact h.free i (howner ▸ hi)
  · intro i p hi
    rw [hmem]
    exact h.used i p (howner ▸ hi)
  · intro i j p hi hj
    exact h.once i j p (howner ▸ hi) (howner ▸ hj)

theorem ownSandbox_none {s : SandboxRun μ} {pid : Int} (h : ownSandbox s pid = none) (i : Slot) :
    s.owner i ≠ some pid := by
  have hall := List.find?_eq_none.mp h i (List.mem_finRange i)
  simpa using hall

theorem ownSandbox_owner {s : SandboxRun μ} {pid : Int} {i : Slot} (h : ownSandbox s pid = some i) :
    s.owner i = some pid := by
  simpa using List.find?_some h

theorem SandboxInv.own_eq {s : SandboxRun μ} (h : SandboxInv s) {pid : Int} {i : Slot}
    (hi : s.owner i = some pid) : ownSandbox s pid = some i := by
  cases hown : ownSandbox s pid with
  | none => exact absurd hi (ownSandbox_none hown i)
  | some j => rw [h.once j i pid (ownSandbox_owner hown) hi]

theorem sandboxGet_inUse {st : SandboxState μ} {pid : Int} {i : Slot} (h : sandboxGet st pid = some i) :
    (st.sandboxes i).level ≠ .unrestricted ∧ (st.sandboxes i).memBase ≠ 0 := by
  unfold sandboxGet at h
  cases hp : processGetByPid st.procs pid with
  | none => simp [hp] at h
  | some p =>
    simp only [hp] at h
    simpa [SandboxCtx.inUse] using List.find?_some h

/-- The sandbox found was created for somebody. -/
theorem SandboxInv.owned {s : SandboxRun μ} (h : SandboxInv s) {pid : Int} {i : Slot}
    (hi : sandboxGet s.st pid = some i) : ∃ q, s.owner i = some q := by
  cases howner : s.owner i with
  | none => exact absurd (h.free i howner) (sandboxGet_inUse hi).2
  | some q => exact ⟨q, rfl⟩

/-- With none found for a live process, none is in use. -/
theorem sandboxGet_none {st : SandboxState μ} {pid : Int} (hlive : processGetByPid st.procs pid ≠ none)
    (h : sandboxGet st pid = none) (i : Slot) (hmem : (st.sandboxes i).memBase ≠ 0) :
    (st.sandboxes i).level = .unrestricted := by
  unfold sandboxGet at h
  cases hp : processGetByPid st.procs pid with
  | none => exact absurd hp hlive
  | some p =>
    simp only [hp] at h
    have hall := List.find?_eq_none.mp h i (List.mem_finRange i)
    by_contra hlevel
    simp [SandboxCtx.inUse, hlevel, hmem] at hall

/-! ## What the calls do to the table -/

theorem modCtx_ctx (st : SandboxState μ) (i j : Slot) (f : SandboxCtx → SandboxCtx) :
    (st.modCtx i f).sandboxes j = if j = i then f (st.sandboxes i) else st.sandboxes j := by
  by_cases hj : j = i
  · rw [if_pos hj, hj]
    exact Function.update_self _ _ _
  · rw [if_neg hj]
    exact Function.update_of_ne hj _ _

/-- A call made one context of the table anew. -/
def CtxSet (s : SandboxRun μ) (i : Slot) (c : SandboxCtx) (s' : SandboxRun μ) : Prop :=
  ∀ j, s'.st.sandboxes j = if j = i then c else s.st.sandboxes j

theorem CtxSet.modCtx (s : SandboxRun μ) (i : Slot) (f : SandboxCtx → SandboxCtx) :
    CtxSet s i (f (s.st.sandboxes i)) { s with st := s.st.modCtx i f } :=
  fun j => modCtx_ctx s.st i j f

/-- **Who is hit**: setting a context of another process is noticed, unless nothing in it
    changes. -/
theorem CtxSet.othersKept_iff {s s' : SandboxRun μ} {i : Slot} {c : SandboxCtx} (h : CtxSet s i c s')
    (howner : s'.owner = s.owner) {q : Int} (hq : s.owner i = some q) (pid : Int) :
    OthersKept s pid s' ↔ s.owner i = some pid ∨ c = s.st.sandboxes i := by
  constructor
  · intro hkept
    by_cases hpid : q = pid
    · exact Or.inl (hpid ▸ hq)
    · have hi := (hkept i q hq hpid).1
      rw [h, if_pos rfl] at hi
      exact Or.inr hi
  · intro hor j r hr hne
    refine ⟨?_, howner ▸ hr⟩
    rw [h]
    by_cases hj : j = i
    · rw [if_pos hj, hj]
      rcases hor with hown | hsame
      · exact absurd (Option.some.inj ((hj ▸ hr).symm.trans hown)) hne
      · exact hsame
    · rw [if_neg hj]

/-- A call that changes no sandbox and gives none away. -/
theorem OthersKept.of_same {s : SandboxRun μ} {st : SandboxState μ} (pid : Int)
    (h : ∀ j, st.sandboxes j = s.st.sandboxes j) : OthersKept s pid { st := st, owner := s.owner } :=
  fun j _ hq _ => ⟨h j, hq⟩

/-- The slot taken for a new sandbox is nobody's. -/
theorem SandboxInv.free_owner {s : SandboxRun μ} (h : SandboxInv s) {i : Slot}
    (hi : freeSandbox s.st = some i) : s.owner i = none := by
  have hfree : (s.st.sandboxes i).level = .unrestricted ∧ (s.st.sandboxes i).memBase = 0 := by
    simpa using List.find?_some hi
  cases howner : s.owner i with
  | none => rfl
  | some p => exact absurd hfree.2 (h.used i p howner)

/-- A creation fills a free slot with memory, or leaves the free slot without. -/
theorem sandboxCreate_cases {ops : MemOps μ} {st : SandboxState μ} {pid : Int} {level : SandboxLevel}
    {appId : List UInt8} {r : Option Slot × SandboxState μ} (h : sandboxCreate ops st pid level appId = some r) :
    (r.1 = none ∧ r.2 = st) ∨ ∃ i c, freeSandbox st = some i ∧
      (∀ j, r.2.sandboxes j = if j = i then c else st.sandboxes j) ∧
      ((r.1 = none ∧ c.memBase = 0) ∨ (r.1 = some i ∧ c.memBase ≠ 0)) := by
  unfold sandboxCreate at h
  split at h
  · exact Or.inl (Option.some.inj h ▸ ⟨rfl, rfl⟩)
  · cases hfree : freeSandbox st with
    | none =>
      simp only [hfree, Option.some.injEq] at h
      exact Or.inl (h ▸ ⟨rfl, rfl⟩)
    | some i =>
      simp only [hfree] at h
      cases hmem : ops.kmalloc st.procs.mem (initCtx level appId).memLimit with
      | none => simp [hmem] at h
      | some m =>
        obtain ⟨memBase, mem⟩ := m
        simp only [hmem] at h
        by_cases hzero : memBase = 0
        · rw [if_pos hzero] at h
          obtain rfl := Option.some.inj h
          refine Or.inr ⟨i, SandboxCtx.zero, rfl, ?_, Or.inl ⟨rfl, rfl⟩⟩
          exact fun j => modCtx_ctx (st.setMem mem) i j fun _ => SandboxCtx.zero
        · rw [if_neg hzero] at h
          obtain rfl := Option.some.inj h
          refine Or.inr ⟨i, { initCtx level appId with memBase := memBase, dataDir := (dataApps ++ appId).take 127 }, rfl, ?_,
            Or.inr ⟨rfl, hzero⟩⟩
          intro j
          simp only [modCtx_ctx]
          rfl

/-- A destruction clears the context found. -/
theorem sandboxDestroy_ctx (ops : MemOps μ) {st : SandboxState μ} {pid : Int} {i : Slot}
    (h : sandboxGet st pid = some i) (j : Slot) :
    (sandboxDestroy ops st pid).sandboxes j = if j = i then SandboxCtx.zero else st.sandboxes j := by
  unfold sandboxDestroy
  simp only [h]
  split
  · exact modCtx_ctx _ i j _
  · exact modCtx_ctx _ i j _

theorem sandboxCheckCap_memBase (st : SandboxState μ) (pid : Int) (cap : UInt64) (j : Slot) :
    ((sandboxCheckCap st pid cap).2.sandboxes j).memBase = (st.sandboxes j).memBase := by
  unfold sandboxCheckCap
  cases sandboxGet st pid with
  | none => rfl
  | some i =>
    simp only
    split
    · rfl
    · split
      · rw [modCtx_ctx]
        split
        · next hj => rw [hj]
        · rfl
      · simp only [modCtx_ctx]
        split
        · next hj => rw [hj]
        · rfl

theorem sandboxGrantCap_cases (st : SandboxState μ) (cpu : Nat) {pid : Int} (cap : UInt64) {i : Slot}
    (h : sandboxGet st pid = some i) :
    (grantDenied st cpu = true ∧ (sandboxGrantCap st cpu pid cap).2 = st) ∨
      (grantDenied st cpu = false ∧ (sandboxGrantCap st cpu pid cap).2 =
        st.modCtx i fun c => { c with capGranted := c.capGranted ||| cap }) := by
  unfold sandboxGrantCap
  simp only [h]
  cases grantDenied st cpu with
  | true => exact Or.inl ⟨rfl, rfl⟩
  | false => exact Or.inr ⟨rfl, rfl⟩

/-- Changing the bits granted is no change exactly when they stay as they are. -/
theorem capGranted_same (c : SandboxCtx) (v : UInt64) : { c with capGranted := v } = c ↔ v = c.capGranted := by
  obtain ⟨level, granted, used, denied, base, limit, app, dir, violations⟩ := c
  simp

theorem SandboxInv.modCtx {s : SandboxRun μ} (h : SandboxInv s) (i : Slot) {f : SandboxCtx → SandboxCtx}
    (hf : (f (s.st.sandboxes i)).memBase = (s.st.sandboxes i).memBase) :
    SandboxInv { s with st := s.st.modCtx i f } := by
  refine h.congr rfl fun j => ?_
  simp only [modCtx_ctx]
  split
  · next hj => rw [hj, hf]
  · rfl

theorem SandboxInv.created {ops : MemOps μ} {s : SandboxRun μ} (h : SandboxInv s) {pid : Int}
    {level : SandboxLevel} {appId : List UInt8} {r : Option Slot × SandboxState μ}
    (hnone : ownSandbox s pid = none) (hr : sandboxCreate ops s.st pid level appId = some r)
    {owner : Slot → Option Int}
    (howner : owner = match r.1 with
      | some i => Function.update s.owner i (some pid)
      | none => s.owner) :
    SandboxInv { st := r.2, owner := owner } ∧ OthersKept s pid { st := r.2, owner := owner } := by
  subst howner
  rcases sandboxCreate_cases hr with ⟨h₁, h₂⟩ | ⟨i, c, hfree, hctx, ⟨h₁, hc⟩ | ⟨h₁, hc⟩⟩
  · rw [h₁, h₂]
    exact ⟨h, OthersKept.of_same pid fun _ => rfl⟩
  · -- a free slot was written and not taken
    have hi := h.free_owner hfree
    rw [h₁]
    refine ⟨⟨?_, ?_, h.once⟩, ?_⟩
    · intro j hj
      simp only [hctx]
      split
      · exact hc
      · exact h.free j hj
    · intro j p hj
      simp only [hctx]
      split
      · next hji =>
        simp only [hji, hi] at hj
        cases hj
      · exact h.used j p hj
    · intro j q hj _
      have hji : j ≠ i := fun hji => by simp [hji, hi] at hj
      exact ⟨by simp only [hctx, if_neg hji], hj⟩
  · have hi := h.free_owner hfree
    rw [h₁]
    have hset : ∀ j, Function.update s.owner i (some pid) j = if j = i then some pid else s.owner j := by
      intro j
      by_cases hj : j = i <;> simp [hj]
    refine ⟨⟨?_, ?_, ?_⟩, ?_⟩
    · intro j hj
      simp only [hset] at hj
      split at hj
      · cases hj
      · next hji =>
        simp only [hctx, if_neg hji]
        exact h.free j hj
    · intro j p hj
      simp only [hset] at hj
      simp only [hctx]
      split at hj
      · next hji => rw [if_pos hji]; exact hc
      · next hji => rw [if_neg hji]; exact h.used j p hj
    · -- the process had none before
      intro j k p hj hk
      simp only [hset] at hj hk
      split at hj <;> split at hk
      · next hji hki => rw [hji, hki]
      · exact absurd (Option.some.inj hj ▸ hk) (ownSandbox_none hnone k)
      · exact absurd (Option.some.inj hk ▸ hj) (ownSandbox_none hnone j)
      · exact h.once j k p hj hk
    · intro j q hj _
      have hji : j ≠ i := fun hji => by simp [hji, hi] at hj
      exact ⟨by simp only [hctx, if_neg hji], by simp only [hset, if_neg hji]; exact hj⟩

theorem SandboxInv.destroyed (ops : MemOps μ) {s : SandboxRun μ} (h : SandboxInv s) {pid : Int} {i : Slot}
    (hi : sandboxGet s.st pid = some i) :
    SandboxInv { st := sandboxDestroy ops s.st pid, owner := Function.update s.owner i none } := by
  have hset : ∀ j, Function.update s.owner i none j = if j = i then none else s.owner j := by
    intro j
    by_cases hj : j = i <;> simp [hj]
  refine ⟨?_, ?_, ?_⟩
  · intro j hj
    simp only [hset] at hj
    simp only [sandboxDestroy_ctx ops hi]
    split at hj
    · next hji => rw [if_pos hji]; rfl
    · next hji => rw [if_neg hji]; exact h.free j hj
  · intro j p hj
    simp only [hset] at hj
    split at hj
    · cases hj
    · next hji =>
      simp only [sandboxDestroy_ctx ops hi, if_neg hji]
      exact h.used j p hj
  · intro j k p hj hk
    simp only [hset] at hj hk
    split at hj <;> split at hk
    · cases hj
    · cases hj
    · cases hk
    · exact h.once j k p hj hk

/-- A destruction hits others unless the sandbox found is the process's own. -/
theorem SandboxInv.destroyed_iff (ops : MemOps μ) {s : SandboxRun μ} (h : SandboxInv s) {pid : Int} {i : Slot}
    (hi : sandboxGet s.st pid = some i) :
    OthersKept s pid { st := sandboxDestroy ops s.st pid, owner := Function.update s.owner i none } ↔
      s.owner i = some pid := by
  obtain ⟨q, hq⟩ := h.owned hi
  constructor
  · intro hkept
    by_contra hne
    have hpid : q ≠ pid := fun hqp => hne (hqp ▸ hq)
    have howner := (hkept i q hq hpid).2
    simp at howner
  · intro hown j r hr hne
    have hji : j ≠ i := fun hji => hne (Option.some.inj ((hji ▸ hr).symm.trans hown))
    exact ⟨by simp only [sandboxDestroy_ctx ops hi, if_neg hji], by rw [← hr]; exact Function.update_of_ne hji _ _⟩

theorem firstIsOwn_none {s : SandboxRun μ} {op : SandboxOp} (hget : sandboxGet s.st op.pid = none) :
    FirstIsOwn s op := by
  intro i hi
  rw [hget] at hi
  cases hi

theorem firstIsOwn_some {s : SandboxRun μ} {op : SandboxOp} {i : Slot} (hget : sandboxGet s.st op.pid = some i) :
    FirstIsOwn s op ↔ s.owner i = some op.pid ∨ Harmless s op i := by
  constructor
  · intro hfirst
    exact hfirst i hget
  · intro hor j hj
    exact Option.some.inj (hget.symm.trans hj) ▸ hor

/-- The check is by the process's own sandbox, or answers as that one would. -/
theorem SandboxInv.check_iff {s : SandboxRun μ} (h : SandboxInv s) {pid : Int} {cap : UInt64}
    (hlive : processGetByPid s.st.procs pid ≠ none) :
    (sandboxCheckCap s.st pid cap).1 = ownAnswer s pid cap ↔ FirstIsOwn s (.checkCap pid cap) := by
  cases hget : sandboxGet s.st pid with
  | none =>
    have hone : ownAnswer s pid cap = 1 := by
      unfold ownAnswer
      cases hown : ownSandbox s pid with
      | none => rfl
      | some i =>
        have hlevel := sandboxGet_none hlive hget i (h.used i pid (ownSandbox_owner hown))
        simp only [hlevel, if_pos]
    exact iff_of_true (by simp [sandboxCheckCap, hget, hone]) (firstIsOwn_none hget)
  | some i =>
    have hlevel := (sandboxGet_inUse hget).1
    have hown : s.owner i = some pid →
        ownAnswer s pid cap = if (s.st.sandboxes i).allows cap then 1 else 0 := by
      intro hown
      simp only [ownAnswer, h.own_eq hown, if_neg hlevel]
    have hanswer : (sandboxCheckCap s.st pid cap).1 = if (s.st.sandboxes i).allows cap then 1 else 0 := by
      simp only [sandboxCheckCap, hget, if_neg hlevel]
      split <;> rfl
    have hbit : ownAnswer s pid cap = 1 ∨ ownAnswer s pid cap = 0 := by
      unfold ownAnswer
      split
      · exact Or.inl rfl
      · split
        · exact Or.inl rfl
        · split
          · exact Or.inl rfl
          · exact Or.inr rfl
    rw [hanswer, firstIsOwn_some hget]
    constructor
    · intro hsame
      refine Or.inr ?_
      rw [Harmless, ← hsame]
      cases (s.st.sandboxes i).allows cap <;> simp
    · intro hfirst
      rcases hfirst with hmine | hharm
      · exact (hown hmine).symm
      · rw [Harmless] at hharm
        cases hallows : (s.st.sandboxes i).allows cap with
        | true => rw [hharm.mp hallows]; rfl
        | false =>
          rcases hbit with hbit | hbit
          · exact absurd (hharm.mpr hbit) (by simp [hallows])
          · rw [hbit]; rfl

/-! ## Runs -/

/-- A step is for a live process. -/
theorem sandboxStep_live {ops : MemOps μ} {s s' : SandboxRun μ} {op : SandboxOp}
    (h : sandboxStep ops s op = some s') : processGetByPid s.st.procs op.pid ≠ none := by
  intro hdead
  unfold sandboxStep at h
  rw [if_pos hdead] at h
  cases h

theorem SandboxInv.step {ops : MemOps μ} {s s' : SandboxRun μ} {op : SandboxOp} (h : SandboxInv s)
    (hs : sandboxStep ops s op = some s') : SandboxInv s' := by
  have hlive := sandboxStep_live hs
  unfold sandboxStep at hs
  rw [if_neg hlive] at hs
  cases op with
  | create pid level appId =>
    simp only at hs
    split at hs
    · cases hs
    · next hnone =>
      obtain ⟨r, hr, rfl⟩ := Option.map_eq_some_iff.mp hs
      exact (h.created (Option.not_isSome_iff_eq_none.mp hnone) hr rfl).1
  | destroy pid =>
    obtain rfl := Option.some.inj hs
    cases hget : sandboxGet s.st pid with
    | none => exact h.congr rfl fun j => by simp [sandboxDestroy, hget]
    | some i => exact h.destroyed ops hget
  | checkCap pid cap =>
    obtain rfl := Option.some.inj hs
    exact h.congr rfl fun j => sandboxCheckCap_memBase s.st pid cap j
  | grantCap cpu pid cap =>
    obtain rfl := Option.some.inj hs
    cases hget : sandboxGet s.st pid with
    | none => exact h.congr rfl fun j => by simp [sandboxGrantCap, hget]
    | some i =>
      rcases sandboxGrantCap_cases s.st cpu cap hget with ⟨_, hsame⟩ | ⟨_, hmod⟩
      · exact h.congr rfl fun j => by simp [hsame]
      · rw [hmod]
        exact h.modCtx i rfl
  | revokeCap pid cap =>
    obtain rfl := Option.some.inj hs
    unfold sandboxRevokeCap
    cases hget : sandboxGet s.st pid with
    | none => exact h
    | some i => exact h.modCtx (f := fun c => { c with capGranted := c.capGranted &&& ~~~cap }) i rfl

/-- **One call**: it is confined exactly when the first sandbox in use is the process's
    own, or taking it for that does no harm. -/
theorem SandboxInv.confined_iff {ops : MemOps μ} {s s' : SandboxRun μ} {op : SandboxOp} (h : SandboxInv s)
    (hs : sandboxStep ops s op = some s') : Confined s op s' ↔ FirstIsOwn s op := by
  have hlive := sandboxStep_live hs
  unfold sandboxStep at hs
  rw [if_neg hlive] at hs
  cases op with
  | create pid level appId =>
    simp only at hs
    split at hs
    · cases hs
    · next hnone =>
      obtain ⟨r, hr, rfl⟩ := Option.map_eq_some_iff.mp hs
      refine iff_of_true (h.created (Option.not_isSome_iff_eq_none.mp hnone) hr rfl).2 ?_
      exact fun i _ => Or.inr trivial
  | destroy pid =>
    obtain rfl := Option.some.inj hs
    cases hget : sandboxGet s.st pid with
    | none =>
      refine iff_of_true ?_ (firstIsOwn_none hget)
      exact OthersKept.of_same pid fun j => by simp [sandboxDestroy, hget]
    | some i =>
      rw [firstIsOwn_some hget]
      exact (h.destroyed_iff ops hget).trans (or_iff_left id).symm
  | checkCap pid cap => exact h.check_iff hlive
  | grantCap cpu pid cap =>
    obtain rfl := Option.some.inj hs
    cases hget : sandboxGet s.st pid with
    | none =>
      refine iff_of_true ?_ (firstIsOwn_none hget)
      exact OthersKept.of_same pid fun j => by simp [sandboxGrantCap, hget]
    | some i =>
      obtain ⟨q, hq⟩ := h.owned hget
      rw [firstIsOwn_some hget, Harmless, SandboxOp.pid]
      rcases sandboxGrantCap_cases s.st cpu cap hget with ⟨hdeny, hsame⟩ | ⟨hallow, hmod⟩
      · refine iff_of_true ?_ (Or.inr (Or.inl hdeny))
        exact OthersKept.of_same pid fun j => by rw [hsame]
      · have hset := CtxSet.modCtx s i fun c => { c with capGranted := c.capGranted ||| cap }
        rw [← hmod] at hset
        refine (hset.othersKept_iff rfl hq pid).trans ?_
        rw [capGranted_same]
        simp [hallow]
  | revokeCap pid cap =>
    obtain rfl := Option.some.inj hs
    cases hget : sandboxGet s.st pid with
    | none =>
      refine iff_of_true ?_ (firstIsOwn_none hget)
      exact OthersKept.of_same pid fun j => by simp [sandboxRevokeCap, hget]
    | some i =>
      obtain ⟨q, hq⟩ := h.owned hget
      have hset := CtxSet.modCtx s i fun c => { c with capGranted := c.capGranted &&& ~~~cap }
      rw [firstIsOwn_some hget, Harmless, SandboxOp.pid]
      unfold Confined sandboxRevokeCap
      simp only [hget]
      refine (hset.othersKept_iff rfl hq pid).trans ?_
      rw [capGranted_same]

/-- **Isolation**, for any live processes and any run of calls: every call concerns the
    sandbox of its own process alone, exactly when at every call the first sandbox in use
    is that one, or taking it for that does no harm. -/
theorem isolation_iff (ops : MemOps μ) (procs : ProcTable μ) (cap : ProcRef → UInt64) (calls : List SandboxOp) :
    AlwaysStep (sandboxStep ops) Confined (sandboxStart procs cap) calls ↔
      Meets (sandboxStep ops) FirstIsOwn (sandboxStart procs cap) calls :=
  alwaysStep_iff_meets (fun _ _ _ h hs => h.step hs) (fun _ _ _ h hs => h.confined_iff hs)
    (SandboxInv.start procs cap)

end

/-- Memory that hands out consecutive addresses. -/
def bumpOps : MemOps Nat where
  kmalloc := fun next size => some (next, next + size)
  kcalloc := fun next n size => some (next, next + n * size)
  kfree := fun next _ => next
  pmmAlloc := fun next => (next, next + 4096)
  pmmFree := fun next _ => next
  vmmInit := fun next _ => next
  vmmFreeAll := fun next _ => next

/-- Every slot of the process table holds a process that is ready. -/
def readyProcs : ProcTable Nat where
  sched :=
    { procs := fun _ => { Process.zero with state := .ready }
      runqueues := fun _ => Runqueue.empty
      numCpus := 1
      waitHead := fun _ => none }
  info := fun _ => ProcInfo.zero
  pidBitmap := fun _ => 0
  numProcesses := 0
  zombieList := none
  mem := 4096

/-- An untrusted process is allowed what the sandbox of the first process allows. -/
theorem isolation_broken :
    ¬AlwaysStep (sandboxStep bumpOps) Confined (sandboxStart readyProcs fun _ => 0)
      [.create 1 .user [97], .create 2 .untrusted [98], .checkCap 2 capStorage] := by
  intro h
  have h₁ := h _ (eq_some_getD (sandboxStart readyProcs fun _ => 0) (by decide +kernel))
  have h₂ := h₁.2 _ (eq_some_getD (sandboxStart readyProcs fun _ => 0) (by decide +kernel))
  have h₃ := h₂.2 _ (eq_some_getD (sandboxStart readyProcs fun _ => 0) (by decide +kernel))
  have hanswer : (sandboxCheckCap _ 2 capStorage).1 = ownAnswer _ 2 capStorage := h₃.1
  exact absurd hanswer (by decide +kernel)

end Crimson.Sandbox

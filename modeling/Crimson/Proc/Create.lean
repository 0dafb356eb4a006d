import Crimson.Proc.Model

/-!
# The ways through `process_create`

It fails before anything is written, or it writes a free slot. From then on only the memory
changes, and what the slot says about its own, until the slot is given back or goes to the
scheduler.
-/

set_option autoImplicit false

namespace Crimson.Proc

open Crimson.Sched

section

variable {μ : Type} {s s' t u : ProcTable μ} {p : ProcRef}

theorem allocPid_bitmap (s : ProcTable μ) : ∃ bitmap, (allocPid s).2 = { s with pidBitmap := bitmap } := by
  unfold allocPid
  split <;> exact ⟨_, rfl⟩

theorem allocPid_refused (h : (allocPid s).1 < 0) : (allocPid s).2 = s := by
  unfold allocPid at h ⊢
  split
  · rfl
  · rename_i i hfind
    rw [hfind] at h
    dsimp only at h
    omega

/-- Only the memory has changed, and fields of slot `p` that say where its own is. -/
structure Filled (p : ProcRef) (t u : ProcTable μ) : Prop where
  sched : u.sched = t.sched
  bitmap : u.pidBitmap = t.pidBitmap
  zombies : u.zombieList = t.zombieList
  others : ∀ q, q ≠ p → u.info q = t.info q
  pid : (u.info p).pid = (t.info p).pid
  children : (u.info p).children = (t.info p).children
  sibling : (u.info p).sibling = (t.info p).sibling

theorem Filled.refl (p : ProcRef) (t : ProcTable μ) : Filled p t t := ⟨rfl, rfl, rfl, fun _ _ => rfl, rfl, rfl, rfl⟩

theorem Filled.setMem (h : Filled p t u) (mem : μ) : Filled p t { u with mem := mem } :=
  ⟨h.sched, h.bitmap, h.zombies, h.others, h.pid, h.children, h.sibling⟩

theorem Filled.modInfo (h : Filled p t u) {f : ProcInfo → ProcInfo} (hpid : (f (u.info p)).pid = (u.info p).pid)
    (hchildren : (f (u.info p)).children = (u.info p).children)
    (hsibling : (f (u.info p)).sibling = (u.info p).sibling) : Filled p t (u.modInfo p f) := by
  refine ⟨h.sched, h.bitmap, h.zombies, fun q hq => ?_, ?_, ?_, ?_⟩
  · simp [ProcTable.modInfo, Function.update_of_ne hq, h.others q hq]
  · simp [ProcTable.modInfo, hpid, h.pid]
  · simp [ProcTable.modInfo, hchildren, h.children]
  · simp [ProcTable.modInfo, hsibling, h.sibling]

theorem Filled.setStack (h : Filled p t u) (stackTop : Nat) : Filled p t (setStack u p stackTop) :=
  h.modInfo (f := fun x => { x with ctxSp := stackTop / 16 * 16 }) rfl rfl rfl

theorem Filled.createPgd (h : Filled p t u) (ops : MemOps μ) (attr : ProcessAttr) :
    Filled p t (createPgd ops u p attr).2 := by
  unfold Proc.createPgd
  split
  · have hpgd := (h.setMem (ops.pmmAlloc u.mem).2).modInfo
      (f := fun x => { x with pgd := (ops.pmmAlloc u.mem).1 }) rfl rfl rfl
    dsimp only
    split
    · exact hpgd
    · exact hpgd.setMem _
  · exact h.modInfo (f := fun x => { x with pgd := 0 }) rfl rfl rfl

theorem Filled.createFinish (h : Filled p t u) {ops : MemOps μ} {attr : ProcessAttr}
    (hs : createFinish ops u p attr = some s') :
    ∃ w, Filled p t w ∧
      s' = { w with numProcesses := w.numProcesses + 1, sched := schedulerAddProcess w.sched p } := by
  have hstack := h.modInfo (f := fun x =>
    { x with stackBase := stackStart x.ctxSp attr.stackSize, stackSize := attr.stackSize }) rfl rfl rfl
  unfold Proc.createFinish at hs
  generalize (u.modInfo p fun x =>
    { x with stackBase := stackStart x.ctxSp attr.stackSize, stackSize := attr.stackSize }) = v at *
  dsimp only at hs
  cases hfd : ops.kcalloc v.mem 1 fdTableSize with
  | none => simp [hfd] at hs
  | some alloc =>
    simp only [hfd, Option.some.injEq] at hs
    exact ⟨_, (hstack.setMem alloc.2).modInfo (f := fun x => { x with fdTable := alloc.1 }) rfl rfl rfl, hs.symm⟩

/-- **What `process_create` can do**: fail and change nothing; or write the first free slot, and
    then give it back or make its process ready. -/
theorem processCreate_ways {ops : MemOps μ} {attr : Option ProcessAttr} {r : Int}
    (hc : processCreate ops s attr = some (r, s')) :
    (r < 0 ∧ s' = s ∧
        ∀ a p, attr = some a → a.entry ≠ 0 → freeSlot s = some p → (allocPid s).1 < 0) ∨
      ∃ a p u, attr = some a ∧ a.entry ≠ 0 ∧ freeSlot s = some p ∧ 0 ≤ (allocPid s).1 ∧
        Filled p (initSlot (allocPid s).2 p (allocPid s).1 a) u ∧
        (r < 0 ∧ s' = abandonSlot u p (allocPid s).1 ∨
          r = (allocPid s).1 ∧
            s' = { u with numProcesses := u.numProcesses + 1, sched := schedulerAddProcess u.sched p }) := by
  unfold processCreate at hc
  cases attr with
  | none =>
    obtain ⟨rfl, rfl⟩ := Prod.mk.inj (Option.some.inj hc)
    exact Or.inl ⟨by decide, rfl, fun a p ha => by cases ha⟩
  | some attr =>
    dsimp only at hc
    by_cases hentry : attr.entry = 0
    · rw [if_pos hentry] at hc
      obtain ⟨rfl, rfl⟩ := Prod.mk.inj (Option.some.inj hc)
      exact Or.inl ⟨by decide, rfl, fun a p ha hne => absurd (Option.some.inj ha ▸ hentry) hne⟩
    rw [if_neg hentry] at hc
    cases hslot : freeSlot s with
    | none =>
      simp only [hslot] at hc
      obtain ⟨rfl, rfl⟩ := Prod.mk.inj (Option.some.inj hc)
      exact Or.inl ⟨by decide, rfl, fun a p _ _ hp => by cases hp⟩
    | some p =>
      simp only [hslot] at hc
      by_cases hpid : (allocPid s).1 < 0
      · simp only [if_pos hpid] at hc
        obtain ⟨rfl, rfl⟩ := Prod.mk.inj (Option.some.inj hc)
        exact Or.inl ⟨by decide, allocPid_refused hpid, fun _ _ _ _ _ => hpid⟩
      simp only [if_neg hpid] at hc
      -- from here on the slot is written, whether the call fails or not
      refine Or.inr ⟨attr, p, ?_⟩
      have hinit := Filled.refl p (initSlot (allocPid s).2 p (allocPid s).1 attr)
      generalize initSlot (allocPid s).2 p (allocPid s).1 attr = t at hinit hc ⊢
      cases hstack : ops.kmalloc t.mem attr.stackSize with
      | none => simp [hstack] at hc
      | some stack =>
        simp only [hstack] at hc
        by_cases hnull : (stack.1 + attr.stackSize) % 2 ^ 64 = attr.stackSize % 2 ^ 64
        · rw [if_pos hnull] at hc
          obtain ⟨rfl, rfl⟩ := Prod.mk.inj (Option.some.inj hc)
          exact ⟨_, rfl, hentry, rfl, by omega, hinit.setMem stack.2, Or.inl ⟨by decide, rfl⟩⟩
        rw [if_neg hnull] at hc
        have hpgd := ((hinit.setMem stack.2).setStack ((stack.1 + attr.stackSize) % 2 ^ 64)).createPgd ops attr
        rcases hres : createPgd ops (setStack { t with mem := stack.2 } p
            ((stack.1 + attr.stackSize) % 2 ^ 64)) p attr with ⟨_ | _, v⟩
        · rw [hres] at hpgd
          simp only [hres] at hc
          obtain ⟨rfl, rfl⟩ := Prod.mk.inj (Option.some.inj hc)
          exact ⟨_, rfl, hentry, rfl, by omega, hpgd.setMem _, Or.inl ⟨by decide, rfl⟩⟩
        · rw [hres] at hpgd
          simp only [hres] at hc
          obtain ⟨w, hw, hrw⟩ := Option.map_eq_some_iff.mp hc
          obtain ⟨rfl, rfl⟩ := Prod.mk.inj hrw
          obtain ⟨w, hfilled, rfl⟩ := hpgd.createFinish hw
          exact ⟨w, rfl, hentry, rfl, by omega, hfilled, Or.inr ⟨rfl, rfl⟩⟩

end

end Crimson.Proc

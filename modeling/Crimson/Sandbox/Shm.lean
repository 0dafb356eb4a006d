import Crimson.Lib.Bag
import Crimson.Lib.Run
import Crimson.Sandbox.Isolation

/-!
# Shared memory (`sandbox.c`)

A table of regions; the slot of a region that is not there has `id` 0. The processes that
have attached to a region stand in its array `clients`, which `shm_attach` appends to without
looking, and from which `shm_detach` takes the first entry of the process, moving the last
one to its place.

Beside the table, `ShmRun` remembers the regions that were created and not destroyed, and for
each the processes that have attached and not detached since. What `kmalloc` answers is an
argument of a call; what happens to processes and sandboxes elsewhere is a step of its own.
-/

set_option autoImplicit false

namespace Crimson.Sandbox

open Crimson.Lib

/-- `SHM_MAX_REGIONS`. -/
def shmMaxRegions : Nat := 64

/-- `clients` has room for eight. -/
def shmMaxClients : Nat := 8

/-- `shm_region_t`. -/
structure ShmRegion where
  id : UInt32
  physAddr : Nat
  size : Nat
  owner : Int
  clients : Nat → Int
  clientCount : Nat
  flags : UInt32

/-- What `kmemset(r, 0, sizeof(*r))` leaves. -/
def ShmRegion.zero : ShmRegion where
  id := 0
  physAddr := 0
  size := 0
  owner := 0
  clients := fun _ => 0
  clientCount := 0
  flags := 0

/-- An index into `g_shm_regions`. -/
abbrev ShmSlot := Fin shmMaxRegions

/-- `g_shm_regions` and `shm_next_id`, with the sandboxes and the processes. -/
structure ShmState (μ : Type) where
  sb : SandboxState μ
  regions : ShmSlot → ShmRegion
  nextId : UInt32

section

variable {μ : Type}

def ShmState.setRegion (s : ShmState μ) (i : ShmSlot) (r : ShmRegion) : ShmState μ :=
  { s with regions := Function.update s.regions i r }

/-- The first slot whose `id` is this. -/
def findRegion (s : ShmState μ) (id : UInt32) : Option ShmSlot :=
  (List.finRange shmMaxRegions).find? fun i => (s.regions i).id = id

/-- `shm_create`, where `kmalloc` answers `mem`; `none` for -1. -/
def shmCreate (s : ShmState μ) (cpu size : Nat) (flags : UInt32) (mem : Nat) : Option UInt32 × ShmState μ :=
  if size = 0 ∨ 16 * 1024 * 1024 < size then (none, s)
  else
    match findRegion s 0 with
    | none => (none, s)
    | some i =>
      if mem = 0 then (none, s)
      else
        let r := { s.regions i with
          id := s.nextId
          physAddr := mem
          size := size
          owner := currentPid s.sb.procs cpu
          clientCount := 0
          flags := flags }
        (some s.nextId, { s.setRegion i r with nextId := s.nextId + 1 })

def shmAttach (s : ShmState μ) (id : UInt32) (client : Int) : Int × ShmState μ :=
  match findRegion s id with
  | none => (-1, s)
  | some i =>
    let r := s.regions i
    if shmMaxClients ≤ r.clientCount then (-1, s)
    else
      let check := sandboxCheckCap s.sb client capIpc
      let s := { s with sb := check.2 }
      if check.1 = 0 then (-1, s)
      else
        (0, s.setRegion i { r with
          clients := Function.update r.clients r.clientCount client
          clientCount := r.clientCount + 1 })

/-- `shm_map`; 0 is the null pointer. -/
def shmMap (s : ShmState μ) (id : UInt32) (pid : Int) : Nat :=
  match findRegion s id with
  | none => 0
  | some i =>
    let r := s.regions i
    if r.owner = pid then r.physAddr
    else if (List.range r.clientCount).any fun j => r.clients j = pid then r.physAddr
    else 0

def shmDetach (s : ShmState μ) (id : UInt32) (pid : Int) : Int × ShmState μ :=
  match findRegion s id with
  | none => (-1, s)
  | some i =>
    let r := s.regions i
    match (List.range r.clientCount).find? fun j => r.clients j = pid with
    | none => (-1, s)
    | some j =>
      (0, s.setRegion i { r with
        clients := swapRemove r.clients j r.clientCount
        clientCount := r.clientCount - 1 })

def shmDestroy (s : ShmState μ) (cpu : Nat) (id : UInt32) : Int × ShmState μ :=
  match findRegion s id with
  | none => (-1, s)
  | some i =>
    let caller := currentPid s.sb.procs cpu
    if (s.regions i).owner = caller then (0, s.setRegion i ShmRegion.zero)
    else
      let check := sandboxCheckCap s.sb caller capAdmin
      let s := { s with sb := check.2 }
      if check.1 = 0 then (-1, s) else (0, s.setRegion i ShmRegion.zero)

/-- The zeroed table. -/
def shmInit (sb : SandboxState μ) : ShmState μ where
  sb := sb
  regions := fun _ => ShmRegion.zero
  nextId := 1

/-- A region created and not destroyed, and who has attached and not detached since. -/
structure LiveRegion where
  id : UInt32
  addr : Nat
  owner : Int
  attached : List Int
deriving DecidableEq

/-- The table, and what has been done with it. -/
structure ShmRun (μ : Type) where
  st : ShmState μ
  live : List LiveRegion

inductive ShmOp (μ : Type) where
  | create (cpu size : Nat) (flags : UInt32) (mem : Nat)
  | attach (id : UInt32) (client : Int)
  | detach (id : UInt32) (pid : Int)
  | destroy (cpu : Nat) (id : UInt32)
  /-- Processes and sandboxes are now these. -/
  | elsewhere (sb : SandboxState μ)

/-- The live regions with the one of this id changed. -/
def modLive (id : UInt32) (f : LiveRegion → LiveRegion) (live : List LiveRegion) : List LiveRegion :=
  live.map fun r => if r.id = id then f r else r

def LiveRegion.attach (r : LiveRegion) (pid : Int) : LiveRegion := { r with attached := pid :: r.attached }

def LiveRegion.detach (r : LiveRegion) (pid : Int) : LiveRegion :=
  { r with attached := r.attached.filter fun p => p ≠ pid }

/-- One call. -/
def shmStep (s : ShmRun μ) : ShmOp μ → Option (ShmRun μ)
  | .create cpu size flags mem =>
    let r := shmCreate s.st cpu size flags mem
    some
      { st := r.2
        live :=
          match r.1 with
          | some id => ⟨id, mem, currentPid s.st.sb.procs cpu, []⟩ :: s.live
          | none => s.live }
  | .attach id client =>
    let r := shmAttach s.st id client
    some { st := r.2, live := if r.1 = 0 then modLive id (·.attach client) s.live else s.live }
  | .detach id pid => some { st := (shmDetach s.st id pid).2, live := modLive id (·.detach pid) s.live }
  | .destroy cpu id =>
    let r := shmDestroy s.st cpu id
    some { st := r.2, live := if r.1 = 0 then s.live.filter fun r => r.id ≠ id else s.live }
  | .elsewhere sb => some { s with st := { s.st with sb := sb } }

def shmStart (sb : SandboxState μ) : ShmRun μ where
  st := shmInit sb
  live := []

/-- **Who can map what**: a live region its owner and those attached to it, what is not live
    nobody; and `client_count` stays within the array. -/
structure ShmAccess (s : ShmRun μ) : Prop where
  addr : ∀ r ∈ s.live, r.addr ≠ 0
  live : ∀ r ∈ s.live, ∀ pid, shmMap s.st r.id pid = r.addr ↔ pid = r.owner ∨ pid ∈ r.attached
  dead : ∀ id pid, (∀ r ∈ s.live, r.id ≠ id) → shmMap s.st id pid = 0
  bound : ∀ i, (s.st.regions i).clientCount ≤ shmMaxClients

/-- The entries of `clients` in use. -/
def ShmRegion.clientList (r : ShmRegion) : List Int := bagList r.clients r.clientCount

/-- A region that is created gets an id that is not 0 and not in use: there have been fewer
    than `2 ^ 32` creations, or the id that comes round again is free. -/
def FreshId (s : ShmRun μ) : ShmOp μ → Prop
  | .create _ size _ mem =>
    size ≠ 0 → size ≤ 16 * 1024 * 1024 → (∃ i, (s.st.regions i).id = 0) → mem ≠ 0 →
      s.st.nextId ≠ 0 ∧ ∀ i, (s.st.regions i).id ≠ s.st.nextId
  | _ => True

instance (s : ShmRun μ) (op : ShmOp μ) : Decidable (FreshId s op) := by
  cases op <;> unfold FreshId <;> infer_instance

/-- A process that detaches from another's region stands in `clients` at most once. -/
def AttachedOnce (s : ShmRun μ) : ShmOp μ → Prop
  | .detach id pid =>
    ∀ i, (s.st.regions i).id = id → id ≠ 0 → (s.st.regions i).owner ≠ pid →
      (s.st.regions i).clientList.count pid ≤ 1
  | _ => True

instance (s : ShmRun μ) (op : ShmOp μ) : Decidable (AttachedOnce s op) := by
  cases op <;> unfold AttachedOnce <;> infer_instance

/-! ## The lookup -/

variable {s : ShmState μ} {id : UInt32} {i : ShmSlot} {pid : Int}

theorem findRegion_id (h : findRegion s id = some i) : (s.regions i).id = id := by
  simpa using List.find?_some h

theorem findRegion_none (h : findRegion s id = none) (i : ShmSlot) : (s.regions i).id ≠ id := by
  have hnone := List.find?_eq_none.mp h i (List.mem_finRange i)
  simpa using hnone

/-- No two slots have one id, apart from the free ones. -/
def Distinct (s : ShmState μ) : Prop := ∀ i j, (s.regions i).id = (s.regions j).id → (s.regions i).id ≠ 0 → i = j

theorem Distinct.findRegion (h : Distinct s) (hid : (s.regions i).id = id) (hne : id ≠ 0) :
    Sandbox.findRegion s id = some i := by
  cases hf : Sandbox.findRegion s id with
  | none => exact absurd hid (findRegion_none hf i)
  | some j =>
    have hj := findRegion_id hf
    rw [h j i (hj.trans hid.symm) (by rw [hj]; exact hne)]

@[simp] theorem setRegion_self {reg : ShmRegion} : (s.setRegion i reg).regions i = reg := Function.update_self ..

theorem setRegion_of_ne {reg : ShmRegion} {j : ShmSlot} (hj : j ≠ i) : (s.setRegion i reg).regions j = s.regions j :=
  Function.update_of_ne hj ..

/-- What holds of all slots, when one is changed. -/
theorem forall_setRegion {P : ShmRegion → Prop} {reg : ShmRegion} (hnew : P reg) (hold : ∀ j, P (s.regions j))
    (j : ShmSlot) : P ((s.setRegion i reg).regions j) := by
  by_cases hj : j = i
  · rw [hj, setRegion_self]
    exact hnew
  · rw [setRegion_of_ne hj]
    exact hold j

/-- A region under an id that no other slot has. -/
theorem Distinct.setRegion (h : Distinct s) {reg : ShmRegion}
    (hnew : reg.id ≠ 0 → ∀ j, j ≠ i → (s.regions j).id ≠ reg.id) : Distinct (s.setRegion i reg) := by
  intro j k hjk hne
  by_cases hj : j = i
  · by_cases hk : k = i
    · rw [hj, hk]
    · rw [hj, setRegion_self] at hne
      rw [hj, setRegion_self, setRegion_of_ne hk] at hjk
      exact absurd hjk.symm (hnew hne k hk)
  · rw [setRegion_of_ne hj] at hjk hne
    by_cases hk : k = i
    · rw [hk, setRegion_self] at hjk
      exact absurd hjk (hnew (hjk ▸ hne) j hj)
    · rw [setRegion_of_ne hk] at hjk
      exact h j k hjk hne

/-- A slot that keeps its id is found as before. -/
theorem findRegion_setRegion {reg : ShmRegion} (hsame : reg.id = (s.regions i).id) (id : UInt32) :
    findRegion (s.setRegion i reg) id = findRegion s id := by
  have hids : ∀ j, ((s.setRegion i reg).regions j).id = (s.regions j).id := by
    intro j
    by_cases hj : j = i
    · rw [hj, setRegion_self, hsame]
    · rw [setRegion_of_ne hj]
  unfold findRegion
  simp only [hids]

/-- What `shm_map` answers from the slot it finds. -/
theorem shmMap_found (h : findRegion s id = some i) :
    shmMap s id pid =
      if (s.regions i).owner = pid ∨ pid ∈ (s.regions i).clientList then (s.regions i).physAddr else 0 := by
  have hany : ((List.range (s.regions i).clientCount).any fun j => (s.regions i).clients j = pid) = true ↔
      pid ∈ (s.regions i).clientList := by
    rw [ShmRegion.clientList, mem_bagList]
    simp
  simp only [shmMap, h]
  by_cases howner : (s.regions i).owner = pid
  · rw [if_pos howner, if_pos (Or.inl howner)]
  · rw [if_neg howner]
    exact if_congr (hany.trans (by simp [howner])) rfl rfl

/-! ## The invariant -/

/-- The slot of a live region. The owner may map it however often it is in `clients`. -/
structure Holds (reg : ShmRegion) (r : LiveRegion) : Prop where
  id : reg.id = r.id
  addr : reg.physAddr = r.addr
  owner : reg.owner = r.owner
  clients : ∀ pid, pid ≠ r.owner → (pid ∈ reg.clientList ↔ pid ∈ r.attached)

structure ShmInv (s : ShmRun μ) : Prop where
  live : ∀ r ∈ s.live, r.id ≠ 0 ∧ r.addr ≠ 0 ∧ ∃ i, Holds (s.st.regions i) r
  slots : ∀ i, (s.st.regions i).id ≠ 0 → ∃ r ∈ s.live, r.id = (s.st.regions i).id
  distinct : Distinct s.st
  free : ∀ i, (s.st.regions i).id = 0 → (s.st.regions i).physAddr = 0
  bound : ∀ i, (s.st.regions i).clientCount ≤ shmMaxClients

theorem ShmInv.access {s : ShmRun μ} (h : ShmInv s) : ShmAccess s := by
  refine ⟨fun r hr => (h.live r hr).2.1, fun r hr pid => ?_, fun id pid hdead => ?_, h.bound⟩
  · obtain ⟨hne, haddr, i, hi⟩ := h.live r hr
    rw [shmMap_found (h.distinct.findRegion hi.id hne), hi.addr, hi.owner]
    have hallowed : (r.owner = pid ∨ pid ∈ (s.st.regions i).clientList) ↔ pid = r.owner ∨ pid ∈ r.attached := by
      by_cases howner : pid = r.owner
      · simp [howner]
      · simp [howner, Ne.symm howner, hi.clients pid howner]
    rw [← hallowed]
    constructor
    · intro hmap
      by_contra hno
      rw [if_neg hno] at hmap
      exact haddr hmap.symm
    · intro hyes
      rw [if_pos hyes]
  · cases hf : findRegion s.st id with
    | none => simp only [shmMap, hf]
    | some i =>
      have hid := findRegion_id hf
      have hzero : (s.st.regions i).physAddr = 0 := by
        refine h.free i ?_
        by_contra hne
        obtain ⟨r, hr, hrid⟩ := h.slots i hne
        exact hdead r hr (hrid.trans hid)
      rw [shmMap_found hf, hzero, ite_self]

/-- **A change to one region**: the slot keeps who it is, and what has changed in it is what has
    changed in the live region. -/
theorem ShmInv.modify {s : ShmRun μ} (h : ShmInv s) {id : UInt32} {i : ShmSlot} (hid : (s.st.regions i).id = id)
    {reg : ShmRegion} {f : LiveRegion → LiveRegion} (hsame : reg.id = (s.st.regions i).id)
    (haddr : reg.physAddr = (s.st.regions i).physAddr) (hbound : reg.clientCount ≤ shmMaxClients)
    (hf : ∀ r, (f r).id = r.id ∧ (f r).addr = r.addr)
    (hholds : ∀ r ∈ s.live, Holds (s.st.regions i) r → Holds reg (f r)) :
    ShmInv { st := s.st.setRegion i reg, live := modLive id f s.live } := by
  refine ⟨?_, ?_, ?_, ?_, forall_setRegion (P := fun r => r.clientCount ≤ shmMaxClients) hbound h.bound⟩
  · intro r' hr'
    obtain ⟨r, hr, rfl⟩ := List.mem_map.mp hr'
    obtain ⟨hne, hra, j, hj⟩ := h.live r hr
    split
    next hrid =>
      -- the region's slot is the one that changes
      obtain rfl : j = i := h.distinct j i (by rw [hj.id, hrid, hid]) (by rw [hj.id]; exact hne)
      refine ⟨by rw [(hf r).1]; exact hne, by rw [(hf r).2]; exact hra, j, ?_⟩
      rw [setRegion_self]
      exact hholds r hr hj
    next hrid =>
      refine ⟨hne, hra, j, ?_⟩
      have hji : j ≠ i := by
        rintro rfl
        exact hrid (hj.id.symm.trans hid)
      rw [setRegion_of_ne hji]
      exact hj
  · have hslots : ∀ j, (s.st.regions j).id ≠ 0 → ∃ r ∈ modLive id f s.live, r.id = (s.st.regions j).id := by
      intro j hj
      obtain ⟨r, hr, hrid⟩ := h.slots j hj
      refine ⟨_, List.mem_map_of_mem hr, ?_⟩
      split
      · rw [(hf r).1, hrid]
      · exact hrid
    refine forall_setRegion (P := fun r => r.id ≠ 0 → ∃ r' ∈ modLive id f s.live, r'.id = r.id) ?_ hslots
    rw [hsame]
    exact hslots i
  · apply h.distinct.setRegion
    intro hne j hj heq
    rw [hsame] at hne heq
    exact hj (h.distinct j i heq (heq ▸ hne))
  · refine forall_setRegion (P := fun r => r.id = 0 → r.physAddr = 0) ?_ h.free
    rw [hsame, haddr]
    exact h.free i

/-- Nothing here depends on the sandboxes. -/
theorem ShmInv.elsewhere {s : ShmRun μ} (h : ShmInv s) (sb : SandboxState μ) :
    ShmInv { s with st := { s.st with sb := sb } } :=
  ⟨h.live, h.slots, h.distinct, h.free, h.bound⟩

/-! ## The calls -/

/-- `shm_create` refuses, or puts the next id and the memory in a free slot. -/
theorem shmCreate_cases (s : ShmState μ) (cpu size : Nat) (flags : UInt32) (mem : Nat) :
    shmCreate s cpu size flags mem = (none, s) ∨
      ∃ i reg, (s.regions i).id = 0 ∧ size ≠ 0 ∧ size ≤ 16 * 1024 * 1024 ∧ mem ≠ 0 ∧
        reg.id = s.nextId ∧ reg.physAddr = mem ∧ reg.owner = currentPid s.sb.procs cpu ∧ reg.clientCount = 0 ∧
        shmCreate s cpu size flags mem = (some s.nextId, { s.setRegion i reg with nextId := s.nextId + 1 }) := by
  unfold shmCreate
  split
  next => exact Or.inl rfl
  next hsize =>
    split
    next => exact Or.inl rfl
    next i hi =>
      split
      next => exact Or.inl rfl
      next hmem => exact Or.inr ⟨i, _, findRegion_id hi, by omega, by omega, hmem, rfl, rfl, rfl, rfl, rfl⟩

/-- **A new region** in a slot that was free, under an id that nobody has. -/
theorem ShmInv.add {s : ShmRun μ} (h : ShmInv s) {i : ShmSlot} (hfree : (s.st.regions i).id = 0) {reg : ShmRegion}
    {mem : Nat} {owner : Int} {next : UInt32} (hid : reg.id = id) (haddr : reg.physAddr = mem)
    (howner : reg.owner = owner) (hnone : reg.clientCount = 0) (hmem : mem ≠ 0) (hne : id ≠ 0)
    (hfresh : ∀ i, (s.st.regions i).id ≠ id) :
    ShmInv { st := { s.st.setRegion i reg with nextId := next }, live := ⟨id, mem, owner, []⟩ :: s.live } := by
  have hothers : ∀ j, (s.st.regions j).id ≠ 0 → j ≠ i := by
    rintro j hj rfl
    exact hj hfree
  have hcount : reg.clientCount ≤ shmMaxClients := hnone ▸ Nat.zero_le _
  have hdistinct : Distinct (s.st.setRegion i reg) := h.distinct.setRegion fun _ j _ => hid ▸ hfresh j
  refine ⟨?_, ?_, hdistinct, ?_, forall_setRegion (P := fun r => r.clientCount ≤ shmMaxClients) hcount h.bound⟩
  · intro r hr
    rcases List.mem_cons.mp hr with rfl | hr
    · refine ⟨hne, hmem, i, ?_⟩
      show Holds ((s.st.setRegion i reg).regions i) _
      rw [setRegion_self]
      refine ⟨hid, haddr, howner, fun pid _ => ?_⟩
      rw [ShmRegion.clientList, hnone, bagList_zero]
    · obtain ⟨hrne, hra, j, hj⟩ := h.live r hr
      refine ⟨hrne, hra, j, ?_⟩
      show Holds ((s.st.setRegion i reg).regions j) r
      rw [setRegion_of_ne (hothers j (by rw [hj.id]; exact hrne))]
      exact hj
  · refine forall_setRegion
      (P := fun r => r.id ≠ 0 → ∃ r' ∈ (⟨id, mem, owner, []⟩ : LiveRegion) :: s.live, r'.id = r.id) ?_ ?_
    · exact fun _ => ⟨_, List.mem_cons_self, hid.symm⟩
    · intro j hj
      obtain ⟨r, hr, hrid⟩ := h.slots j hj
      exact ⟨r, List.mem_cons_of_mem _ hr, hrid⟩
  · exact forall_setRegion (P := fun r => r.id = 0 → r.physAddr = 0) (fun hzero => absurd (hid.symm.trans hzero) hne)
      h.free

/-- **A region destroyed**, with its slot zeroed. -/
theorem ShmInv.remove {s : ShmRun μ} (h : ShmInv s) {i : ShmSlot} (hid : (s.st.regions i).id = id) :
    ShmInv { st := s.st.setRegion i ShmRegion.zero, live := s.live.filter fun r => r.id ≠ id } := by
  have hdistinct : Distinct (s.st.setRegion i ShmRegion.zero) := h.distinct.setRegion fun hne => absurd rfl hne
  have hcount : ShmRegion.zero.clientCount ≤ shmMaxClients := Nat.zero_le _
  refine ⟨?_, ?_, hdistinct, forall_setRegion (P := fun r => r.id = 0 → r.physAddr = 0) (fun _ => rfl) h.free,
    forall_setRegion (P := fun r => r.clientCount ≤ shmMaxClients) hcount h.bound⟩
  · intro r hr
    obtain ⟨hr, hrid⟩ := List.mem_filter.mp hr
    have hrid : r.id ≠ id := by simpa using hrid
    obtain ⟨hne, hra, j, hj⟩ := h.live r hr
    have hji : j ≠ i := by
      rintro rfl
      exact hrid (hj.id.symm.trans hid)
    refine ⟨hne, hra, j, ?_⟩
    rw [setRegion_of_ne hji]
    exact hj
  · intro j hj
    by_cases hji : j = i
    · rw [hji, setRegion_self] at hj
      exact absurd rfl hj
    · rw [setRegion_of_ne hji] at hj ⊢
      obtain ⟨r, hr, hrid⟩ := h.slots j hj
      refine ⟨r, List.mem_filter.mpr ⟨hr, ?_⟩, hrid⟩
      have hother : r.id ≠ id := fun heq => hji (h.distinct j i ((hrid.symm.trans heq).trans hid.symm) hj)
      simpa using hother

/-- A process more in `clients`. -/
theorem Holds.attach {reg : ShmRegion} {r : LiveRegion} (h : Holds reg r) (client : Int) :
    Holds
      { reg with
        clients := Function.update reg.clients reg.clientCount client
        clientCount := reg.clientCount + 1 }
      (r.attach client) := by
  refine ⟨h.id, h.addr, h.owner, fun pid hpid => ?_⟩
  show pid ∈ bagList _ (reg.clientCount + 1) ↔ pid ∈ client :: r.attached
  rw [bagList_push, List.mem_append, List.mem_singleton, List.mem_cons, or_comm]
  exact or_congr Iff.rfl (h.clients pid hpid)

/-- An entry of `pid` less; it was the only one, or `pid` is the owner. -/
theorem Holds.detach {reg : ShmRegion} {r : LiveRegion} (h : Holds reg r) {j : Nat} (hj : j < reg.clientCount)
    (honce : reg.owner ≠ reg.clients j → reg.clientList.count (reg.clients j) ≤ 1) :
    Holds
      { reg with
        clients := swapRemove reg.clients j reg.clientCount
        clientCount := reg.clientCount - 1 }
      (r.detach (reg.clients j)) := by
  have hperm := @bagList_swapRemove _ reg.clients _ _ hj
  refine ⟨h.id, h.addr, h.owner, fun pid hpid => ?_⟩
  show pid ∈ bagList _ (reg.clientCount - 1) ↔ pid ∈ r.attached.filter fun p => p ≠ reg.clients j
  have hattached := h.clients pid hpid
  rw [ShmRegion.clientList, hperm.mem_iff, List.mem_cons] at hattached
  rw [List.mem_filter, ← hattached]
  by_cases hsame : pid = reg.clients j
  · -- the entry taken out was the only one
    have hcount := honce (by rw [h.owner, ← hsame]; exact Ne.symm hpid)
    rw [ShmRegion.clientList, hperm.count_eq, List.count_cons_self] at hcount
    have hgone : pid ∉ bagList (swapRemove reg.clients j reg.clientCount) (reg.clientCount - 1) := by
      rw [hsame]
      exact List.count_eq_zero.mp (by omega)
    exact iff_of_false hgone (by simp [hsame])
  · simp [hsame]

/-- A process that is not in `clients` has nothing to detach from. -/
theorem Holds.detach_absent {reg : ShmRegion} {r : LiveRegion} (h : Holds reg r) (habsent : pid ∉ reg.clientList) :
    Holds reg (r.detach pid) := by
  refine ⟨h.id, h.addr, h.owner, fun p hp => ?_⟩
  show _ ↔ p ∈ r.attached.filter fun q => q ≠ pid
  rw [List.mem_filter, ← h.clients p hp]
  by_cases hsame : p = pid
  · simp [hsame, habsent]
  · simp [hsame]

/-- `shm_detach` finds no entry, or takes out the first one. -/
theorem shmDetach_cases (s : ShmState μ) (id : UInt32) (pid : Int) :
    (shmDetach s id pid = (-1, s) ∧ ∀ i, findRegion s id = some i → pid ∉ (s.regions i).clientList) ∨
      ∃ i j, findRegion s id = some i ∧ j < (s.regions i).clientCount ∧ (s.regions i).clients j = pid ∧
        shmDetach s id pid =
          (0, s.setRegion i { s.regions i with
            clients := swapRemove (s.regions i).clients j (s.regions i).clientCount
            clientCount := (s.regions i).clientCount - 1 }) := by
  cases hf : findRegion s id with
  | none => exact Or.inl ⟨by simp only [shmDetach, hf], fun i hi => nomatch hi⟩
  | some i =>
    cases hw : (List.range (s.regions i).clientCount).find? fun j => (s.regions i).clients j = pid with
    | none =>
      refine Or.inl ⟨by simp only [shmDetach, hf, hw], fun k hk => ?_⟩
      obtain rfl := Option.some.inj hk
      rw [ShmRegion.clientList, mem_bagList]
      rintro ⟨j, hj, hpid⟩
      have hnone := List.find?_eq_none.mp hw j (List.mem_range.mpr hj)
      simp [hpid] at hnone
    | some j =>
      refine Or.inr ⟨i, j, rfl, List.mem_range.mp (List.mem_of_find?_eq_some hw), ?_, by simp only [shmDetach, hf, hw]⟩
      simpa using List.find?_some hw

theorem modLive_eq_self {live : List LiveRegion} {f : LiveRegion → LiveRegion} (h : ∀ r ∈ live, r.id ≠ id) :
    modLive id f live = live := by
  refine (List.map_congr_left fun r hr => ?_).trans (List.map_id live)
  exact if_neg (h r hr)

theorem ShmInv.attachStep {s : ShmRun μ} (h : ShmInv s) (id : UInt32) (client : Int) :
    ShmInv
      { st := (shmAttach s.st id client).2
        live := if (shmAttach s.st id client).1 = 0 then modLive id (·.attach client) s.live else s.live } := by
  unfold shmAttach
  cases hf : findRegion s.st id with
  | none => exact h
  | some i =>
    dsimp only
    split
    next => exact h
    next hroom =>
      split
      next => exact h.elsewhere _
      next =>
        have hmod : ShmInv
            { st := s.st.setRegion i { s.st.regions i with
                clients := Function.update (s.st.regions i).clients (s.st.regions i).clientCount client
                clientCount := (s.st.regions i).clientCount + 1 }
              live := modLive id (·.attach client) s.live } :=
          h.modify (findRegion_id hf) rfl rfl (by dsimp only; omega) (fun r => ⟨rfl, rfl⟩) fun r _ hr => hr.attach client
        exact hmod.elsewhere _

theorem ShmInv.detachStep {s : ShmRun μ} (h : ShmInv s) (id : UInt32) (pid : Int) (honce : AttachedOnce s (.detach id pid)) :
    ShmInv { st := (shmDetach s.st id pid).2, live := modLive id (·.detach pid) s.live } := by
  rcases shmDetach_cases s.st id pid with ⟨he, habsent⟩ | ⟨i, j, hf, hj, rfl, he⟩
  · rw [he]
    cases hf : findRegion s.st id with
    | none =>
      -- no region has the id
      have hnone : ∀ r ∈ s.live, r.id ≠ id := by
        rintro r hr rfl
        obtain ⟨-, -, k, hk⟩ := h.live r hr
        exact findRegion_none hf k hk.id
      rw [modLive_eq_self hnone]
      exact h
    | some i =>
      have hsame : s.st.setRegion i (s.st.regions i) = s.st := by
        unfold ShmState.setRegion
        rw [Function.update_eq_self]
      have hmod : ShmInv { st := s.st.setRegion i (s.st.regions i), live := modLive id (·.detach pid) s.live } :=
        h.modify (findRegion_id hf) rfl rfl (h.bound i) (fun r => ⟨rfl, rfl⟩)
          fun r _ hr => hr.detach_absent (habsent i hf)
      rwa [hsame] at hmod
  · rw [he]
    have hid := findRegion_id hf
    have hbound := h.bound i
    refine h.modify hid rfl rfl (by dsimp only; omega) (fun r => ⟨rfl, rfl⟩) fun r hr hreg => hreg.detach hj ?_
    refine honce i hid ?_
    rw [← hid, hreg.id]
    exact (h.live r hr).1

theorem ShmInv.destroyStep {s : ShmRun μ} (h : ShmInv s) (cpu : Nat) (id : UInt32) :
    ShmInv
      { st := (shmDestroy s.st cpu id).2
        live := if (shmDestroy s.st cpu id).1 = 0 then s.live.filter fun r => r.id ≠ id else s.live } := by
  unfold shmDestroy
  cases hf : findRegion s.st id with
  | none => exact h
  | some i =>
    dsimp only
    split
    next => exact h.remove (findRegion_id hf)
    next =>
      split
      next => exact h.elsewhere _
      next => exact (h.remove (findRegion_id hf)).elsewhere _

theorem shmInv_step (s : ShmRun μ) (op : ShmOp μ) (s' : ShmRun μ) (h : ShmInv s) (hfresh : FreshId s op)
    (honce : AttachedOnce s op) (hs : shmStep s op = some s') : ShmInv s' := by
  cases op with
  | create cpu size flags mem =>
    obtain rfl := Option.some.inj hs
    rcases shmCreate_cases s.st cpu size flags mem with he |
      ⟨i, reg, hfree, hsize, hmax, hmem, hid, haddr, howner, hnone, he⟩
    · rw [he]
      exact h
    · rw [he]
      obtain ⟨hne, hnew⟩ := hfresh hsize hmax ⟨i, hfree⟩ hmem
      exact h.add hfree hid haddr howner hnone hmem hne hnew
  | attach id client =>
    obtain rfl := Option.some.inj hs
    exact h.attachStep id client
  | detach id pid =>
    obtain rfl := Option.some.inj hs
    exact h.detachStep id pid honce
  | destroy cpu id =>
    obtain rfl := Option.some.inj hs
    exact h.destroyStep cpu id
  | elsewhere sb =>
    obtain rfl := Option.some.inj hs
    exact h.elsewhere sb

/-- One entry of two taken out leaves a process that has detached with the right to map. -/
theorem not_access_of_twice (s : ShmRun μ) (op : ShmOp μ) (s' : ShmRun μ) (h : ShmInv s) (honce : ¬AttachedOnce s op)
    (hs : shmStep s op = some s') : ¬ShmAccess s' := by
  cases op with
  | create | attach | destroy | elsewhere => exact absurd trivial honce
  | detach id pid =>
    simp only [AttachedOnce, not_forall, not_le] at honce
    obtain ⟨i, hid, hne, howner, htwice⟩ := honce
    obtain rfl := Option.some.inj hs
    intro hacc
    obtain ⟨r, hr, hrid⟩ := h.slots i (by rw [hid]; exact hne)
    obtain ⟨-, haddr, k, hk⟩ := h.live r hr
    obtain rfl : k = i := h.distinct k i (hk.id.trans hrid) (by rw [hk.id, hrid, hid]; exact hne)
    have hf := h.distinct.findRegion hid hne
    have hrid : r.id = id := hrid.trans hid
    have hmem : r.detach pid ∈ modLive id (·.detach pid) s.live := by
      refine List.mem_map.mpr ⟨r, hr, if_pos hrid⟩
    have hmap := (hacc.live _ hmem pid).mp
    have hnot : ¬(pid = (r.detach pid).owner ∨ pid ∈ (r.detach pid).attached) := by
      simp [LiveRegion.detach, ← hk.owner, Ne.symm howner]
    refine hnot (hmap ?_)
    show shmMap (shmDetach s.st id pid).2 r.id pid = r.addr
    rcases shmDetach_cases s.st id pid with ⟨-, habsent⟩ | ⟨l, j, hl, hj, hpid, he⟩
    · have hzero := List.count_eq_zero.mpr (habsent k hf)
      omega
    · obtain rfl := Option.some.inj (hf.symm.trans hl)
      rw [he]
      refine (shmMap_found (i := k) ?_).trans ?_
      · exact (findRegion_setRegion (by rfl) r.id).trans (hrid ▸ hf)
      have hregion : ∀ reg, (s.st.setRegion k reg).regions k = reg := fun reg => Function.update_self ..
      rw [hregion, if_pos ?_]
      · exact hk.addr
      · refine Or.inr ?_
        show pid ∈ bagList _ _
        -- of two entries one is left
        have hcount := (@bagList_swapRemove _ (s.st.regions k).clients _ _ hj).count_eq pid
        rw [hpid, List.count_cons_self] at hcount
        refine List.count_pos_iff.mp ?_
        have htwice : 1 < (bagList (s.st.regions k).clients (s.st.regions k).clientCount).count pid := htwice
        dsimp only
        omega

theorem shmInv_start (sb : SandboxState μ) : ShmInv (shmStart sb) := by
  refine ⟨fun r hr => absurd hr List.not_mem_nil, fun i hi => absurd rfl hi, fun i j _ hne => absurd rfl hne,
    fun _ _ => rfl, fun _ => Nat.zero_le _⟩

/-- **Access to shared memory, exactly.** With ids that are fresh, who can map what is as it
    should be throughout a run exactly when no process detaches that has attached more than once. -/
theorem access_iff (sb : SandboxState μ) (ops : List (ShmOp μ)) (hfresh : Meets shmStep FreshId (shmStart sb) ops) :
    Always shmStep ShmAccess (shmStart sb) ops ↔ Meets shmStep AttachedOnce (shmStart sb) ops :=
  always_iff_meets_assuming (fun _ => ShmInv.access) shmInv_step
    (fun s op s' h _ => not_access_of_twice s op s' h) (shmInv_start sb) hfresh

end

/-- A machine with no sandboxes, where everything is allowed. -/
def noSandboxes : SandboxState Nat := sandboxInit readyProcs fun _ => 0

/-- Process 5 attaches to a region of the kernel and detaches. -/
theorem access_attach_detach :
    Always shmStep ShmAccess (shmStart noSandboxes) [.create 0 4096 0 0x10000, .attach 1 5, .detach 1 5] :=
  (access_iff noSandboxes [.create 0 4096 0 0x10000, .attach 1 5, .detach 1 5]
    (meets_of_check (fun s op => decide (FreshId s op)) (fun _ _ => of_decide_eq_true) (by decide +kernel))).mpr
    (meets_of_check (fun s op => decide (AttachedOnce s op)) (fun _ _ => of_decide_eq_true) (by decide +kernel))

/-- It attaches twice and detaches once, and can still map the region. -/
theorem detached_still_maps :
    ¬Always shmStep ShmAccess (shmStart noSandboxes)
      [.create 0 4096 0 0x10000, .attach 1 5, .attach 1 5, .detach 1 5] := by
  intro h
  have hlast := h.last (eq_some_getD (shmStart noSandboxes) (by decide +kernel))
  have hmem : (⟨1, 0x10000, 0, []⟩ : LiveRegion) ∈ ((run shmStep (shmStart noSandboxes)
      [.create 0 4096 0 0x10000, .attach 1 5, .attach 1 5, .detach 1 5]).getD (shmStart noSandboxes)).live := by
    decide +kernel
  have hmap := (hlast.live _ hmem 5).mp (by decide +kernel)
  exact absurd hmap (by decide)

end Crimson.Sandbox

import Mathlib.Data.BitVec
import Mathlib.Data.List.Nodup
import Mathlib.Logic.Function.Basic
import Crimson.Lib.Run

/-!
# Spinlocks and the interrupt mask (`sync.c`, `gic.c`)

A spinlock keeps three words: whether it is taken, by which CPU, and the interrupt flags
to put back at the release. `spin_lock` stores the flags there; `spin_lock_irqsave` hands
the caller a second copy; `spin_trylock` stores nothing and masks nothing, so that the
release puts back what some earlier section left in the lock.

Each function is given as the states that it passes, one for each write, with the state it
ends in. `held` is not in the source: it names the locks this CPU has taken.
-/

set_option autoImplicit false

namespace Crimson.Sync

open Crimson.Lib

/-! ## The functions -/

/-- `PSTATE.DAIF`: the four mask bits, of which the IRQs' is bit 1. -/
abbrev Daif := BitVec 4

/-- `mrs x, daif`: the mask bits are the bits 6 to 9 of the word. -/
def Daif.read (d : Daif) : BitVec 64 := d.setWidth 64 <<< 6

/-- `msr daif, x`. -/
def Daif.write (x : BitVec 64) : Daif := x.extractLsb' 6 4

/-- Interrupts are masked. -/
def Daif.irqMasked (d : Daif) : Prop := d.getLsbD 1 = true

instance (d : Daif) : Decidable d.irqMasked := inferInstanceAs (Decidable (_ = _))

/-- `spinlock_t`. -/
structure Spinlock where
  lock : UInt32
  owner : Int
  irqFlags : BitVec 64

/-- `SPINLOCK_INIT`. -/
def spinlockInit : Spinlock where
  lock := 0
  owner := -1
  irqFlags := 0

/-- One CPU, with the locks it shares with the others. -/
structure Cpu where
  /-- `cpu_get_id()` -/
  id : Int
  daif : Daif
  locks : Nat → Spinlock
  held : List Nat

def Cpu.modLock (c : Cpu) (l : Nat) (f : Spinlock → Spinlock) : Cpu :=
  { c with locks := Function.update c.locks l (f (c.locks l)) }

def archSaveIrqDisable (c : Cpu) : BitVec 64 × Cpu := (c.daif.read, { c with daif := c.daif ||| 0xF#4 })

def archRestoreIrq (c : Cpu) (flags : BitVec 64) : Cpu := { c with daif := Daif.write flags }

/-- The exclusive store of 1 succeeds. -/
def acquire (c : Cpu) (l : Nat) : Cpu :=
  { c.modLock l fun x => { x with lock := 1 } with held := l :: c.held }

/-- `stlr wzr, [lock]`. -/
def release (c : Cpu) (l : Nat) : Cpu :=
  { c.modLock l fun x => { x with lock := 0 } with held := c.held.erase l }

/-- `spin_lock`, from the call to the return. It waits, with interrupts masked, until the
    lock is free; the states of the wait are all the first one. -/
def spinLock (c : Cpu) (l : Nat) : List Cpu × Cpu :=
  let (flags, c₁) := archSaveIrqDisable c
  let c₂ := acquire c₁ l
  let c₃ := c₂.modLock l fun x => { x with owner := c.id }
  ([c₁, c₂, c₃], c₃.modLock l fun x => { x with irqFlags := flags })

def spinUnlock (c : Cpu) (l : Nat) : List Cpu × Cpu :=
  let flags := (c.locks l).irqFlags
  let c₁ := release c l
  let c₂ := c₁.modLock l fun x => { x with owner := -1 }
  ([c₁, c₂], archRestoreIrq c₂ flags)

def spinTrylock (c : Cpu) (l : Nat) : Bool × List Cpu × Cpu :=
  if (c.locks l).lock = 0 then
    let c₁ := acquire c l
    (true, [c₁], c₁.modLock l fun x => { x with owner := c.id })
  else (false, [], c)

def spinLockIrqsave (c : Cpu) (l : Nat) : BitVec 64 × List Cpu × Cpu :=
  let (flags, c₁) := archSaveIrqDisable c
  let (passed, c₂) := spinLock c₁ l
  (flags, c₁ :: passed, c₂)

def spinUnlockIrqrestore (c : Cpu) (l : Nat) (flags : BitVec 64) : List Cpu × Cpu :=
  let (passed, c₁) := spinUnlock c l
  (passed ++ [c₁], archRestoreIrq c₁ flags)

/-! ## Properly nested sections -/

/-- A section that has been entered: its lock, and the flags if `spin_lock_irqsave` gave
    the caller any. -/
structure Section where
  lock : Nat
  saved : Option (BitVec 64)

/-- The CPU and the sections it is in, the last entered first. -/
structure Nest where
  cpu : Cpu
  sections : List Section

/-- A call of this CPU that enters a section, or that leaves the last one entered; or
    another CPU has had a lock that this one does not hold, and left it as it says. -/
inductive Act where
  | lock (l : Nat)
  | trylock (l : Nat)
  | lockIrqsave (l : Nat)
  | leave
  | elsewhere (l : Nat) (x : Spinlock)

/-- The states an action passes, and the one it ends in. A section is entered when the
    lock is free, and left by the function that belongs to the one it was entered by. -/
def act (n : Nest) : Act → Option (List Cpu × Nest)
  | .lock l =>
    if (n.cpu.locks l).lock = 0 then
      let (passed, c) := spinLock n.cpu l
      some (passed, ⟨c, ⟨l, none⟩ :: n.sections⟩)
    else none
  | .trylock l =>
    match spinTrylock n.cpu l with
    | (true, passed, c) => some (passed, ⟨c, ⟨l, none⟩ :: n.sections⟩)
    | (false, _) => none
  | .lockIrqsave l =>
    if (n.cpu.locks l).lock = 0 then
      let (flags, passed, c) := spinLockIrqsave n.cpu l
      some (passed, ⟨c, ⟨l, some flags⟩ :: n.sections⟩)
    else none
  | .leave =>
    match n.sections with
    | [] => none
    | ⟨l, none⟩ :: rest =>
      let (passed, c) := spinUnlock n.cpu l
      some (passed, ⟨c, rest⟩)
    | ⟨l, some flags⟩ :: rest =>
      let (passed, c) := spinUnlockIrqrestore n.cpu l flags
      some (passed, ⟨c, rest⟩)
  | .elsewhere l x =>
    if l ∈ n.cpu.held then none
    else some ([], ⟨n.cpu.modLock l fun _ => x, n.sections⟩)

def nestStep (n : Nest) (a : Act) : Option Nest := (act n a).map Prod.snd

/-- At every moment of the action at which a lock is held, interrupts are masked. -/
def MaskedWhileHeld (n : Nest) (a : Act) : Prop :=
  ∀ passed n', act n a = some (passed, n') → ∀ c ∈ passed ++ [n'.cpu], c.held ≠ [] → c.daif.irqMasked

/-- **The interrupt discipline** of a run: interrupts are masked while a lock is held, and
    outside all sections the mask is `d`. -/
def Disciplined (d : Daif) (n : Nest) (acts : List Act) : Prop :=
  Always nestStep (fun n => n.sections = [] → n.cpu.daif = d) n acts ∧
    AlwaysStep nestStep (fun n a _ => MaskedWhileHeld n a) n acts

/-- What a `spin_trylock` has to find: interrupts masked, and in the lock the flags that its
    release may put back, the present ones outside all sections. -/
def TrylockOk (n : Nest) : Act → Prop
  | .trylock l =>
    n.cpu.daif.irqMasked ∧
      if n.sections = [] then Daif.write (n.cpu.locks l).irqFlags = n.cpu.daif
      else (Daif.write (n.cpu.locks l).irqFlags).irqMasked
  | _ => True

/-! ## What an action can do -/

theorem Daif.write_read (d : Daif) : Daif.write d.read = d := by
  revert d
  decide

theorem Daif.irqMasked_or (d : Daif) : (d ||| 0xF#4).irqMasked := by
  unfold Daif.irqMasked
  rw [BitVec.getLsbD_or]
  simp

/-- The mask that the release of the section puts back in the end. -/
def backTo (locks : Nat → Spinlock) (sec : Section) : Daif :=
  Daif.write (sec.saved.getD (locks sec.lock).irqFlags)

/-- An action, by its effect. The first three kinds of call have one effect on the locks,
    and differ in what they do to the mask and to the flags. -/
inductive Acted (n : Nest) : Act → List Cpu → Nest → Prop where
  | enter {a : Act} {l : Nat} {saved : Option (BitVec 64)} {passed : List Cpu} {n' : Nest}
      (free : (n.cpu.locks l).lock = 0) (taken : (n'.cpu.locks l).lock = 1)
      (sections : n'.sections = ⟨l, saved⟩ :: n.sections) (held : n'.cpu.held = l :: n.cpu.held)
      (others : ∀ k, k ≠ l → n'.cpu.locks k = n.cpu.locks k)
      (steady : ∀ c ∈ passed, c.daif = n'.cpu.daif)
      (how : (a = .trylock l ∧ saved = none ∧ n'.cpu.daif = n.cpu.daif ∧
          (n'.cpu.locks l).irqFlags = (n.cpu.locks l).irqFlags) ∨
        ((∀ k, a ≠ .trylock k) ∧ n'.cpu.daif.irqMasked ∧ backTo n'.cpu.locks ⟨l, saved⟩ = n.cpu.daif ∧
          (saved ≠ none → (Daif.write (n'.cpu.locks l).irqFlags).irqMasked))) :
      Acted n a passed n'
  | leave {sec : Section} {rest : List Section} {passed : List Cpu} {n' : Nest}
      (sections : n.sections = sec :: rest) (sections' : n'.sections = rest)
      (held : n'.cpu.held = n.cpu.held.erase sec.lock)
      (others : ∀ k, k ≠ sec.lock → n'.cpu.locks k = n.cpu.locks k)
      (daif : n'.cpu.daif = backTo n.cpu.locks sec)
      (passing : ∀ c ∈ passed, c.held = n.cpu.held.erase sec.lock ∧
        (c.daif = n.cpu.daif ∨ sec.saved ≠ none ∧ c.daif = Daif.write (n.cpu.locks sec.lock).irqFlags))
      (between : sec.saved ≠ none → ∃ c ∈ passed, c.held = n.cpu.held.erase sec.lock ∧
        c.daif = Daif.write (n.cpu.locks sec.lock).irqFlags) :
      Acted n .leave passed n'
  | elsewhere {l : Nat} {x : Spinlock} (off : l ∉ n.cpu.held) :
      Acted n (.elsewhere l x) [] ⟨n.cpu.modLock l fun _ => x, n.sections⟩

section Fields

variable (c : Cpu) (l : Nat) (f : Spinlock → Spinlock)

@[simp] theorem Cpu.modLock_daif : (c.modLock l f).daif = c.daif := rfl
@[simp] theorem Cpu.modLock_held : (c.modLock l f).held = c.held := rfl
@[simp] theorem Cpu.modLock_locks : (c.modLock l f).locks = Function.update c.locks l (f (c.locks l)) := rfl
@[simp] theorem acquire_daif : (acquire c l).daif = c.daif := rfl
@[simp] theorem acquire_held : (acquire c l).held = l :: c.held := rfl
@[simp] theorem acquire_locks :
    (acquire c l).locks = Function.update c.locks l { c.locks l with lock := 1 } := rfl
@[simp] theorem release_daif : (release c l).daif = c.daif := rfl
@[simp] theorem release_held : (release c l).held = c.held.erase l := rfl
@[simp] theorem release_locks :
    (release c l).locks = Function.update c.locks l { c.locks l with lock := 0 } := rfl

end Fields

theorem acted_of_act {n n' : Nest} {a : Act} {passed : List Cpu} (ha : act n a = some (passed, n')) :
    Acted n a passed n' := by
  cases a with
  | lock l =>
    rw [act] at ha
    by_cases hfree : (n.cpu.locks l).lock = 0
    · rw [if_pos hfree] at ha
      obtain ⟨rfl, rfl⟩ := Prod.mk.inj (Option.some.inj ha)
      clear ha
      refine .enter (l := l) hfree ?_ rfl rfl ?_ ?_ (Or.inr ⟨?_, ?_, ?_, ?_⟩)
      · simp
      · intro k hk
        simp [Function.update_of_ne hk]
      · simp
      · simp
      · exact Daif.irqMasked_or n.cpu.daif
      · simp [backTo, Daif.write_read]
      · simp
    · rw [if_neg hfree] at ha
      simp at ha
  | trylock l =>
    rw [act, spinTrylock] at ha
    by_cases hfree : (n.cpu.locks l).lock = 0
    · rw [if_pos hfree] at ha
      obtain ⟨rfl, rfl⟩ := Prod.mk.inj (Option.some.inj ha)
      clear ha
      refine .enter (l := l) hfree ?_ rfl rfl ?_ ?_ (Or.inl ⟨rfl, rfl, rfl, ?_⟩)
      · simp
      · intro k hk
        simp [Function.update_of_ne hk]
      · simp
      · simp
    · rw [if_neg hfree] at ha
      simp at ha
  | lockIrqsave l =>
    rw [act] at ha
    by_cases hfree : (n.cpu.locks l).lock = 0
    · rw [if_pos hfree] at ha
      obtain ⟨rfl, rfl⟩ := Prod.mk.inj (Option.some.inj ha)
      clear ha
      refine .enter (l := l) hfree ?_ rfl rfl ?_ ?_ (Or.inr ⟨?_, ?_, ?_, ?_⟩)
      · simp
      · intro k hk
        simp [Function.update_of_ne hk]
      · simp [BitVec.or_assoc]
      · simp
      · exact Daif.irqMasked_or _
      · simp [backTo, Daif.write_read]
      · intro _
        -- The lock's own copy was taken after the caller's, with interrupts masked.
        simp only [Cpu.modLock_locks, Function.update_self, Daif.write_read]
        exact Daif.irqMasked_or n.cpu.daif
    · rw [if_neg hfree] at ha
      simp at ha
  | leave =>
    rw [act] at ha
    cases hsec : n.sections with
    | nil => simp [hsec] at ha
    | cons sec rest =>
      obtain ⟨l, saved⟩ := sec
      rw [hsec] at ha
      cases saved with
      | none =>
        obtain ⟨rfl, rfl⟩ := Prod.mk.inj (Option.some.inj ha)
        clear ha
        refine .leave hsec rfl rfl ?_ rfl ?_ ?_
        · intro k hk
          simp [archRestoreIrq, Function.update_of_ne hk]
        · simp
        · simp
      | some flags =>
        obtain ⟨rfl, rfl⟩ := Prod.mk.inj (Option.some.inj ha)
        clear ha
        refine .leave hsec rfl rfl ?_ rfl ?_ ?_
        · intro k hk
          simp [archRestoreIrq, Function.update_of_ne hk]
        · simp [archRestoreIrq]
        · intro _
          exact ⟨_, List.mem_append_right _ (List.mem_singleton.mpr rfl), rfl, rfl⟩
  | elsewhere l x =>
    rw [act] at ha
    by_cases hheld : l ∈ n.cpu.held
    · rw [if_pos hheld] at ha
      simp at ha
    · rw [if_neg hheld] at ha
      obtain ⟨rfl, rfl⟩ := Prod.mk.inj (Option.some.inj ha)
      exact .elsewhere hheld

/-! ## What is put back -/

/-- The mask that has to hold when the sections `rest` are what is left. -/
def Restored (d : Daif) (rest : List Section) (v : Daif) : Prop := if rest = [] then v = d else v.irqMasked

/-- Every section puts back what has to hold after it, and on the way there too: the release
    of an `irqsave` section passes through the flags that are in the lock. -/
def Restores (d : Daif) (locks : Nat → Spinlock) : List Section → Prop
  | [] => True
  | sec :: rest =>
    Restored d rest (backTo locks sec) ∧
      (sec.saved ≠ none → rest ≠ [] → (Daif.write (locks sec.lock).irqFlags).irqMasked) ∧
        Restores d locks rest

theorem Restores.congr {d : Daif} {locks locks' : Nat → Spinlock} {secs : List Section}
    (h : Restores d locks secs) (hc : ∀ l ∈ secs.map Section.lock, locks' l = locks l) :
    Restores d locks' secs := by
  induction secs with
  | nil => trivial
  | cons sec rest ih =>
    obtain ⟨hback, hway, hrest⟩ := h
    have hl : locks' sec.lock = locks sec.lock := hc sec.lock (by simp)
    refine ⟨?_, ?_, ih hrest fun l hm => hc l (by simp [hm])⟩
    · rwa [backTo, hl]
    · rwa [hl]

/-- The locks of the sections are the ones held, each once, and each is taken. -/
structure Entered (n : Nest) : Prop where
  held : n.cpu.held = n.sections.map Section.lock
  nodup : n.cpu.held.Nodup
  taken : ∀ l ∈ n.cpu.held, (n.cpu.locks l).lock = 1

/-- A lock that is free is not held. -/
theorem Entered.off {n : Nest} (h : Entered n) {l : Nat} (hfree : (n.cpu.locks l).lock = 0) :
    l ∉ n.cpu.held := by
  intro hl
  have htaken := h.taken l hl
  rw [hfree] at htaken
  exact absurd htaken (by decide)

theorem Entered.erase {n : Nest} (h : Entered n) {sec : Section} {rest : List Section}
    (hsec : n.sections = sec :: rest) :
    n.cpu.held.erase sec.lock = rest.map Section.lock ∧ sec.lock ∉ rest.map Section.lock := by
  have hnd := h.nodup
  rw [h.held, hsec, List.map_cons] at hnd ⊢
  exact ⟨List.erase_cons_head .., (List.nodup_cons.mp hnd).1⟩

theorem Entered.acted {n n' : Nest} {a : Act} {passed : List Cpu} (h : Entered n)
    (ha : Acted n a passed n') : Entered n' := by
  cases ha with
  | enter free taken sections held others steady how =>
    have hoff := h.off free
    refine ⟨by rw [held, sections, h.held, List.map_cons], by rw [held]; exact h.nodup.cons hoff, ?_⟩
    intro k hk
    rw [held] at hk
    rcases List.mem_cons.mp hk with rfl | hk
    · exact taken
    · rw [others k fun hkl => hoff (hkl ▸ hk)]
      exact h.taken k hk
  | leave sections sections' held others daif passing between =>
    obtain ⟨herase, hoff⟩ := h.erase sections
    refine ⟨by rw [held, sections', herase], by rw [held]; exact h.nodup.erase _, ?_⟩
    intro k hk
    rw [held, herase] at hk
    rw [others k fun hkl => hoff (hkl ▸ hk)]
    refine h.taken k ?_
    rw [h.held, sections]
    exact List.mem_cons_of_mem _ hk
  | @elsewhere l x off =>
    refine ⟨h.held, h.nodup, ?_⟩
    intro k hk
    have hkl : k ≠ l := fun hkl => off (hkl ▸ hk)
    rw [Cpu.modLock_locks, Function.update_of_ne hkl]
    exact h.taken k hk

theorem nestStep_eq_some {n n' : Nest} {a : Act} :
    nestStep n a = some n' ↔ ∃ passed, act n a = some (passed, n') := by
  unfold nestStep
  rw [Option.map_eq_some_iff]
  constructor
  · rintro ⟨⟨passed, n''⟩, ha, rfl⟩
    exact ⟨passed, ha⟩
  · rintro ⟨passed, ha⟩
    exact ⟨_, ha, rfl⟩

theorem Entered.step {n n' : Nest} {a : Act} (h : Entered n) (ha : nestStep n a = some n') : Entered n' := by
  obtain ⟨passed, ha⟩ := nestStep_eq_some.mp ha
  exact h.acted (acted_of_act ha)

/-- **One action under the condition.** Interrupts stay masked, and what the sections put
    back stays right. -/
theorem Entered.keeps {d : Daif} {n n' : Nest} {a : Act} (h : Entered n)
    (hmask : Restored d n.sections n.cpu.daif) (hback : Restores d n.cpu.locks n.sections)
    (hok : TrylockOk n a) (ha : nestStep n a = some n') :
    Restored d n'.sections n'.cpu.daif ∧ Restores d n'.cpu.locks n'.sections ∧ MaskedWhileHeld n a := by
  obtain ⟨passed, hact⟩ := nestStep_eq_some.mp ha
  have hwhile (hc : ∀ c ∈ passed ++ [n'.cpu], c.held ≠ [] → c.daif.irqMasked) : MaskedWhileHeld n a := by
    intro passed' n'' ha'
    obtain ⟨rfl, rfl⟩ := Prod.mk.inj (Option.some.inj (hact.symm.trans ha'))
    exact hc
  cases acted_of_act hact with
  | @enter _ l saved _ _ free taken sections held others steady how =>
    have hoff := h.off free
    have hold : ∀ k ∈ n.sections.map Section.lock, n'.cpu.locks k = n.cpu.locks k := by
      intro k hk
      refine others k fun hkl => hoff ?_
      rw [← hkl, h.held]
      exact hk
    have hmasked : n'.cpu.daif.irqMasked := by
      rcases how with ⟨rfl, -, hdaif, -⟩ | ⟨-, hmasked, -, -⟩
      · rw [hdaif]
        exact hok.1
      · exact hmasked
    have hnew : Restored d n.sections (backTo n'.cpu.locks ⟨l, saved⟩) := by
      rcases how with ⟨rfl, rfl, -, hflags⟩ | ⟨-, -, hdaif, -⟩
      · -- The lock puts back what it was found with.
        have hkeep := hok.2
        unfold Restored at hmask ⊢
        unfold backTo
        simp only [Option.getD_none, hflags]
        by_cases hs : n.sections = []
        · rw [if_pos hs] at hkeep hmask ⊢
          rw [hkeep, hmask]
        · rwa [if_neg hs] at hkeep ⊢
      · rwa [hdaif]
    refine ⟨?_, ?_, hwhile ?_⟩
    · rw [sections, Restored, if_neg (List.cons_ne_nil _ _)]
      exact hmasked
    · rw [sections]
      refine ⟨hnew, ?_, hback.congr hold⟩
      rintro hs -
      rcases how with ⟨-, hnone, -, -⟩ | ⟨-, -, -, hflags⟩
      · exact absurd hnone hs
      · exact hflags hs
    · intro c hc _
      rcases List.mem_append.mp hc with hc | hc
      · rw [steady c hc]
        exact hmasked
      · rw [List.mem_singleton.mp hc]
        exact hmasked
  | @leave sec rest _ _ sections sections' held others daif passing between =>
    obtain ⟨herase, hoff⟩ := h.erase sections
    rw [sections] at hback
    obtain ⟨hhead, hway, hrest⟩ := hback
    have hbefore : n.cpu.daif.irqMasked := by
      rwa [sections, Restored, if_neg (List.cons_ne_nil _ _)] at hmask
    have hnil : n.cpu.held.erase sec.lock ≠ [] → rest ≠ [] := by
      rintro hne rfl
      exact hne (by rw [herase, List.map_nil])
    refine ⟨?_, ?_, hwhile ?_⟩
    · rwa [sections', daif]
    · rw [sections']
      refine hrest.congr fun k hk => others k ?_
      rintro rfl
      exact hoff hk
    · intro c hc hne
      rcases List.mem_append.mp hc with hc | hc
      · obtain ⟨hc, hd | ⟨hs, hd⟩⟩ := passing c hc
        · rwa [hd]
        · rw [hd]
          exact hway hs (hnil (hc ▸ hne))
      · rw [List.mem_singleton.mp hc] at hne ⊢
        rw [daif]
        rwa [Restored, if_neg (hnil (held ▸ hne))] at hhead
  | @elsewhere l x off =>
    refine ⟨hmask, hback.congr ?_, hwhile ?_⟩
    · intro k hk
      have hkl : k ≠ l := by
        rintro rfl
        exact off (h.held ▸ hk)
      rw [Cpu.modLock_locks, Function.update_of_ne hkl]
    · intro c hc hne
      rw [List.nil_append, List.mem_singleton] at hc
      rw [hc] at hne ⊢
      have hs : n.sections ≠ [] := by
        intro hs
        have hheld := h.held
        rw [hs] at hheld
        exact hne hheld
      rwa [Restored, if_neg hs] at hmask

/-- **One action, backwards.** If interrupts stay masked, the sections before the action put
    back what they have to when those after it do. -/
theorem Entered.restores_back {d : Daif} {n n' : Nest} {a : Act} (h : Entered n)
    (hmask : Restored d n'.sections n'.cpu.daif) (hback : Restores d n'.cpu.locks n'.sections)
    (hheld : MaskedWhileHeld n a) (ha : nestStep n a = some n') : Restores d n.cpu.locks n.sections := by
  obtain ⟨passed, hact⟩ := nestStep_eq_some.mp ha
  have hmoments := hheld passed n' hact
  cases acted_of_act hact with
  | @enter _ l saved _ _ free taken sections held others steady how =>
    rw [sections] at hback
    refine hback.2.2.congr fun k hk => (others k fun hkl => h.off free ?_).symm
    rw [← hkl, h.held]
    exact hk
  | @leave sec rest _ _ sections sections' held others daif passing between =>
    obtain ⟨herase, hoff⟩ := h.erase sections
    rw [sections'] at hback hmask
    rw [sections]
    refine ⟨by rwa [daif] at hmask, ?_, hback.congr fun k hk => (others k ?_).symm⟩
    · intro hs hne
      obtain ⟨c, hc, hch, hcd⟩ := between hs
      rw [← hcd]
      refine hmoments c (List.mem_append_left _ hc) ?_
      rw [hch, herase]
      simpa using hne
    · rintro rfl
      exact hoff hk
  | @elsewhere l x off =>
    refine hback.congr fun k hk => ?_
    have hkl : k ≠ l := by
      rintro rfl
      exact off (h.held ▸ hk)
    rw [Cpu.modLock_locks, Function.update_of_ne hkl]

/-! ## Runs -/

/-- No section is open, and no lock is held. -/
structure Outside (n : Nest) : Prop where
  sections : n.sections = []
  held : n.cpu.held = []

theorem Outside.entered {n : Nest} (h : Outside n) : Entered n := by
  refine ⟨by rw [h.held, h.sections, List.map_nil], by rw [h.held]; exact List.nodup_nil, ?_⟩
  intro l hl
  rw [h.held] at hl
  exact absurd hl List.not_mem_nil

/-- A run that meets the condition keeps the discipline. -/
theorem disciplined_of_meets {d : Daif} {n : Nest} {acts : List Act} (h : Entered n)
    (hmask : Restored d n.sections n.cpu.daif) (hback : Restores d n.cpu.locks n.sections)
    (hok : Meets nestStep TrylockOk n acts) : Disciplined d n acts := by
  have hall : Always nestStep (fun n => Entered n ∧ Restored d n.sections n.cpu.daif ∧
      Restores d n.cpu.locks n.sections) n acts := by
    refine always_of_meets ?_ ⟨h, hmask, hback⟩ hok
    rintro n a n' ⟨h, hmask, hback⟩ hok ha
    obtain ⟨hmask', hback', -⟩ := h.keeps hmask hback hok ha
    exact ⟨h.step ha, hmask', hback'⟩
  refine ⟨hall.mono ?_, alwaysStep_of_always ?_ hall hok⟩
  · rintro n ⟨-, hmask, -⟩ hs
    rwa [Restored, if_pos hs] at hmask
  · rintro n a n' ⟨h, hmask, hback⟩ hok ha
    exact (h.keeps hmask hback hok ha).2.2

/-- Interrupts are masked after an action that leaves a section open. -/
theorem Entered.restored {d : Daif} {n n' : Nest} {a : Act} (h : Entered n)
    (hd : n'.sections = [] → n'.cpu.daif = d) (hheld : MaskedWhileHeld n a)
    (ha : nestStep n a = some n') : Restored d n'.sections n'.cpu.daif := by
  obtain ⟨passed, hact⟩ := nestStep_eq_some.mp ha
  unfold Restored
  split_ifs with hs
  · exact hd hs
  · refine hheld passed n' hact n'.cpu (by simp) ?_
    rw [(h.step ha).held]
    simpa using hs

/-- A disciplined run that closes all its sections met the condition, and its open sections
    put back what they have to. -/
theorem meets_of_disciplined {d : Daif} {n n' : Nest} {acts : List Act} (h : Entered n)
    (hdis : Disciplined d n acts) (hr : run nestStep n acts = some n') (hend : n'.sections = []) :
    Meets nestStep TrylockOk n acts ∧ Restores d n.cpu.locks n.sections := by
  induction acts generalizing n with
  | nil =>
    obtain rfl := Option.some.inj hr
    rw [hend]
    exact ⟨trivial, trivial⟩
  | cons a acts ih =>
    simp only [run, Option.bind_eq_some_iff] at hr
    obtain ⟨t, ht, hr⟩ := hr
    obtain ⟨⟨hd, halways⟩, hsteps⟩ := hdis
    obtain ⟨hheld, hsteps⟩ := hsteps t ht
    obtain ⟨hmeets, hback⟩ := ih (h.step ht) ⟨halways t ht, hsteps⟩ hr
    have hmask := h.restored (halways t ht).head hheld ht
    refine ⟨?_, h.restores_back hmask hback hheld ht⟩
    intro t' ht'
    obtain rfl := Option.some.inj (ht.symm.trans ht')
    refine ⟨?_, hmeets⟩
    obtain ⟨passed, hact⟩ := nestStep_eq_some.mp ht
    cases acted_of_act hact with
    | @enter _ l saved _ _ free taken sections held others steady how =>
      rcases how with ⟨rfl, rfl, hdaif, hflags⟩ | ⟨hother, -⟩
      · rw [sections] at hback hmask
        have hhead := hback.1
        unfold backTo at hhead
        simp only [Option.getD_none, hflags] at hhead
        rw [Restored, if_neg (List.cons_ne_nil _ _), hdaif] at hmask
        refine ⟨hmask, ?_⟩
        unfold Restored at hhead
        by_cases hs : n.sections = []
        · rw [if_pos hs] at hhead ⊢
          rw [hhead, hd hs]
        · rwa [if_neg hs] at hhead ⊢
      · cases a with
        | trylock l => exact absurd rfl (hother l)
        | lock l => trivial
        | lockIrqsave l => trivial
        | leave => trivial
        | elsewhere l x => trivial
    | leave => trivial
    | elsewhere => trivial

/-- **The interrupt discipline of the spinlocks.** From outside all sections, every properly
    nested run whose `spin_trylock`s find interrupts masked and the right flags in the lock
    is disciplined; and a run that leaves all its sections is so only then. -/
theorem spinlock_discipline {n : Nest} (h : Outside n) (acts : List Act) :
    (Meets nestStep TrylockOk n acts → Disciplined n.cpu.daif n acts) ∧
      ∀ n', run nestStep n acts = some n' → n'.sections = [] →
        (Disciplined n.cpu.daif n acts ↔ Meets nestStep TrylockOk n acts) := by
  have hsound : Meets nestStep TrylockOk n acts → Disciplined n.cpu.daif n acts := by
    refine disciplined_of_meets h.entered ?_ ?_
    · rw [Restored, if_pos h.sections]
    · rw [h.sections]
      trivial
  refine ⟨hsound, ?_⟩
  intro n' hr hend
  exact ⟨fun hdis => (meets_of_disciplined h.entered hdis hr hend).1, hsound⟩

/-- A CPU on which interrupts are open and every lock is as `SPINLOCK_INIT` leaves it. -/
def freshCpu : Nest := ⟨⟨0, 0, fun _ => spinlockInit, []⟩, []⟩

theorem freshCpu_outside : Outside freshCpu := ⟨rfl, rfl⟩

instance (n : Nest) : (a : Act) → Decidable (TrylockOk n a)
  | .trylock _ => inferInstanceAs (Decidable (_ ∧ _))
  | .lock _ => inferInstanceAs (Decidable True)
  | .lockIrqsave _ => inferInstanceAs (Decidable True)
  | .leave => inferInstanceAs (Decidable True)
  | .elsewhere _ _ => inferInstanceAs (Decidable True)

/-- `spin_lock` around `spin_lock_irqsave` around `spin_trylock`, the last on a lock that
    another CPU has left with its interrupts masked. -/
theorem spinlock_discipline_nested :
    Disciplined freshCpu.cpu.daif freshCpu
      [.elsewhere 3 ⟨0, -1, 0x3C0⟩, .lock 1, .lockIrqsave 2, .trylock 3, .leave, .leave, .leave] :=
  (spinlock_discipline freshCpu_outside _).1
    (meets_of_check (fun n a => decide (TrylockOk n a)) (fun _ _ h => of_decide_eq_true h) (by decide))

/-- **A `spin_trylock` with interrupts open** holds its lock with interrupts open. -/
theorem trylock_not_disciplined :
    Outside freshCpu ∧ (∃ n', run nestStep freshCpu [.trylock 0, .leave] = some n' ∧ n'.sections = []) ∧
      ¬Disciplined freshCpu.cpu.daif freshCpu [.trylock 0, .leave] := by
  refine ⟨freshCpu_outside, ⟨_, rfl, rfl⟩, ?_⟩
  rintro ⟨-, hsteps⟩
  obtain ⟨hheld, -⟩ := hsteps _ rfl
  exact absurd (hheld _ _ rfl (acquire freshCpu.cpu 0) (by simp) (by simp)) (by decide)

end Crimson.Sync

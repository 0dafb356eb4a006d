import Mathlib.Data.List.TakeWhile
import Crimson.Lib.Run
import Crimson.Lib.Memory

/-!
# System calls and capabilities (`syscall.c`)

The table of `syscall_dispatch`, and what each of its handlers does to the memory: a handler
is a function to its result and a list of effects, the stores it makes through pointers it
was handed, the pages it takes and gives back, the pixels it draws, and the one store to
`cap[0]`. What a handler learns from elsewhere (the bytes of a file, an event, a random
number, the result of what it calls) is in its environment, as are the stores that the rest
of the kernel makes to objects of its own.

No handler names `cap[0]` but `sys_cr_proc_set_cap`, and that one asks nobody. The pointers
are not checked either. `caps_confined` is what is left: as long as a process sets no bit it
lacks, and hands over and gives back only memory of its own, its capabilities do not grow.
-/

set_option autoImplicit false

namespace Crimson.Syscall

open Crimson.Lib

/-- The arguments of a system call, as the words in the registers. -/
structure CallArgs where
  a0 : UInt64
  a1 : UInt64
  a2 : UInt64
  a3 : UInt64
  a4 : UInt64
  a5 : UInt64
deriving DecidableEq, Repr

/-- What a call learns from the rest of the kernel: the result of the function a handler
    calls, the bytes a file or the generator delivers, the event and the battery state as
    they lie in memory, the status of a child, the display, the pages `pmm_alloc_n` finds,
    and the stores made to the kernel's own objects. -/
structure CallEnv where
  ret : Int
  data : List (BitVec 8)
  event : Option (List (BitVec 8))
  battery : List (BitVec 8)
  stat : Nat
  fbWidth : UInt32
  fbHeight : UInt32
  fbPitch : UInt32
  fb : Nat
  region : Nat
  kernel : List (Nat × BitVec 8)

/-- What a handler does to memory. -/
inductive Effect where
  | store (addr : Nat) (bytes : List (BitVec 8))
  | blit (dstX dstY w h : UInt32) (src : UInt64)
  | take (addr pages : Nat)
  | release (addr pages : Nat)
  | setCap (cap : Nat) (enable : Bool)
  | exit
deriving DecidableEq, Repr

/-- A word as the bytes it has in memory. -/
def wordBytes (n x : Nat) : List (BitVec 8) := (List.range n).map fun i => BitVec.ofNat 8 (x / 256 ^ i)

/-- Through a pointer of the caller, if it is not null. -/
def storeIf (addr : UInt64) (bytes : List (BitVec 8)) : List Effect :=
  if addr = 0 then [] else [.store addr.toNat bytes]

/-- `-STATUS_ERROR`, `-STATUS_NOMEM`, `-STATUS_INVAL`, `-STATUS_UNIMPL`. -/
def statusError : Int := -1
def statusNomem : Int := -2
def statusInval : Int := -3
def statusUnimpl : Int := -7

/-! ## The handlers -/

/-- `syscall_fn_t`. -/
abbrev Handler := CallEnv → CallArgs → Int × List Effect

/-- A handler that makes no store of its own. -/
def passes : Handler := fun env _ => (env.ret, [])

def sysRead : Handler := fun env a =>
  if a.a0 = 0 then (0, []) else (env.ret, [.store a.a1.toNat (env.data.take a.a2.toNat)])

def sysWrite : Handler := fun env a =>
  if a.a0 = 1 ∨ a.a0 = 2 then (a.a2.toInt64.toInt, []) else (env.ret, [])

def sysOpen : Handler := passes
def sysClose : Handler := fun _ _ => (0, [])
def sysLseek : Handler := passes
def sysBrkCall : Handler := passes

def sysMmapCall : Handler := fun env a =>
  let pages := (a.a1.toNat + 4095) % 2 ^ 64 / 4096
  if env.region = 0 then (statusNomem, []) else (env.region, [.take env.region pages])

def sysMunmapCall : Handler := fun _ a =>
  let pages := (a.a1.toNat + 4095) % 2 ^ 64 / 4096
  (0, [.release a.a0.toNat pages])

def sysExit : Handler := fun _ _ => (0, [.exit])
def sysGetpid : Handler := passes
def sysSchedYield : Handler := fun _ _ => (0, [])
def sysNanosleep : Handler := fun _ _ => (0, [])
def sysKill : Handler := passes
def sysClone : Handler := fun _ _ => (statusUnimpl, [])

def sysWait4 : Handler := fun env a =>
  (env.ret, if 0 < env.ret then storeIf a.a1 (wordBytes 4 env.stat) else [])

def sysIoctl : Handler := fun _ _ => (statusUnimpl, [])

def sysCrDisplayInfo : Handler := fun env a =>
  (0, storeIf a.a0 (wordBytes 4 env.fbWidth.toNat) ++ storeIf a.a1 (wordBytes 4 env.fbHeight.toNat) ++
    storeIf a.a2 (wordBytes 4 env.fbPitch.toNat) ++ storeIf a.a3 (wordBytes 8 env.fb))

def sysCrFbBlit : Handler := fun _ a =>
  (0, if a.a4 = 0 then [] else [.blit a.a0.toUInt32 a.a1.toUInt32 a.a2.toUInt32 a.a3.toUInt32 a.a4])

/-- `sizeof(touch_event_t)` is 32. -/
def sysCrTouchRead : Handler := fun env a =>
  if a.a0 = 0 then (statusInval, [])
  else
    match env.event with
    | some event => (0, [.store a.a0.toNat (event.take 32)])
    | none => (-1, [])

def sysCrAudioOpen : Handler := passes

/-- `sizeof(battery_state_t)` is 36. -/
def sysCrPmGetBattery : Handler := fun env a => (0, storeIf a.a0 (env.battery.take 36))

def sysCrCryptoRandom : Handler := fun env a => (0, [.store a.a0.toNat (env.data.take a.a1.toNat)])
def sysCrNetConnect : Handler := passes

/-- `sys_cr_proc_set_cap`, called by a process. -/
def sysCrProcSetCap : Handler := fun _ a =>
  let cap := a.a0.toInt64.toInt
  if cap < 0 ∨ 64 ≤ cap then (statusInval, []) else (0, [.setCap cap.toNat (a.a1 ≠ 0)])

/-- `syscall_table` after `syscall_init`. -/
def syscallTable : Nat → Option Handler
  | 63 => some sysRead
  | 64 => some sysWrite
  | 56 => some sysOpen
  | 57 => some sysClose
  | 62 => some sysLseek
  | 214 => some sysBrkCall
  | 222 => some sysMmapCall
  | 215 => some sysMunmapCall
  | 93 => some sysExit
  | 172 => some sysGetpid
  | 124 => some sysSchedYield
  | 101 => some sysNanosleep
  | 129 => some sysKill
  | 220 => some sysClone
  | 260 => some sysWait4
  | 29 => some sysIoctl
  | 1024 => some sysCrDisplayInfo
  | 1025 => some sysCrFbBlit
  | 1026 => some sysCrTouchRead
  | 1027 => some sysCrAudioOpen
  | 1030 => some sysCrPmGetBattery
  | 1032 => some sysCrCryptoRandom
  | 1034 => some sysCrNetConnect
  | 1037 => some sysCrProcSetCap
  | _ => none

/-- `syscall_dispatch`. -/
def syscallDispatch (num : Int) (env : CallEnv) (args : CallArgs) : Int × List Effect :=
  if num < 0 ∨ 1100 ≤ num then (statusUnimpl, [])
  else
    match syscallTable num.toNat with
    | none => (statusUnimpl, [])
    | some handler => handler env args

/-! ## The memory -/

/-- Where things lie: `cap[0]` of the calling process, which is an entry of the process table
    in the kernel's image, and behind the image the pages of the allocator. -/
structure Layout where
  capAddr : Nat
  heapPage : Nat
  image : capAddr + 8 ≤ 4096 * heapPage
  memory : heapPage ≤ 2 ^ 52

/-- The memory, what the caller has of it (its stack, and by number the pages it has mapped),
    whether it has exited, and whether it has kept its hands off the kernel's memory. -/
structure CallerState where
  mem : Mem
  stack : Nat → Bool
  mapped : Nat → Bool
  exited : Bool
  intact : Bool

/-- The caller's own memory. -/
def CallerState.own (s : CallerState) (x : Nat) : Bool := s.stack x || s.mapped (x / 4096)

def capWord (k : Layout) (s : CallerState) : Nat := load64 s.mem k.capAddr

/-- Bytes stored from an address on; addresses wrap. -/
def storeList (m : Mem) (addr : Nat) (bytes : List (BitVec 8)) : Mem := fun x =>
  bytes.getD ((x + (2 ^ 64 - addr % 2 ^ 64)) % 2 ^ 64) (m x)

/-- A row of `display_blit`, while the column is on the screen. -/
def blitRow (env : CallEnv) (dstX w pitch : UInt32) (src : UInt64) (y row : UInt32) (m : Mem) : Mem :=
  ((List.range w.toNat).takeWhile fun col => dstX + col.toUInt32 < env.fbWidth).foldl
    (fun m col =>
      let c := load32 m ((src.toNat + 4 * (row * (pitch / 4) + col.toUInt32).toNat) % 2 ^ 64)
      store32 m (env.fb + 4 * (y * env.fbWidth + dstX + col.toUInt32).toNat) c)
    m

/-- `display_blit` without alpha, onto the screen at `env.fb`. -/
def displayBlit (env : CallEnv) (dstX dstY w h pitch : UInt32) (src : UInt64) (m : Mem) : Mem :=
  ((List.range h.toNat).takeWhile fun row => dstY + row.toUInt32 < env.fbHeight).foldl
    (fun m row => blitRow env dstX w pitch src (dstY + row.toUInt32) row.toUInt32 m)
    m

/-- The page that round `i` of `sys_munmap` gives back. -/
def releasedPage (addr i : Nat) : Nat := (addr + i * 4096) % 2 ^ 64 / 4096

/-- What the process may do: store into its own memory, give back pages it has mapped, and
    set the bits it has. -/
def Effect.Allowed (k : Layout) (s : CallerState) : Effect → Prop
  | .store addr bytes => ∀ i < bytes.length, s.own ((addr + i) % 2 ^ 64) = true
  | .release addr pages => ∀ i < pages, s.mapped (releasedPage addr i) = true
  | .setCap cap enable => enable = true → (capWord k s).testBit cap = true
  | _ => True

instance (k : Layout) (s : CallerState) (e : Effect) : Decidable (e.Allowed k s) := by
  cases e <;> unfold Effect.Allowed <;> infer_instance

def Effect.apply (k : Layout) (env : CallEnv) (s : CallerState) (e : Effect) : CallerState :=
  match e with
  | .store addr bytes =>
    { s with mem := storeList s.mem addr bytes, intact := s.intact && decide (e.Allowed k s) }
  | .blit dstX dstY w h src => { s with mem := displayBlit env dstX dstY w h (w * 4) src s.mem }
  | .take addr pages =>
    { s with
      mem := fillBytes s.mem addr (pages * 4096 % 2 ^ 64) 0
      mapped := fun p => s.mapped p || decide (addr / 4096 ≤ p ∧ p < addr / 4096 + pages) }
  | .release addr pages =>
    { s with
      mapped := fun p => s.mapped p && !decide ((p + 2 ^ 52 - addr / 4096) % 2 ^ 52 < pages)
      intact := s.intact && decide (e.Allowed k s) }
  | .setCap cap enable =>
    let mask := 2 ^ cap
    let word := if enable then capWord k s ||| mask else capWord k s &&& (2 ^ 64 - 1 - mask)
    { s with mem := store64 s.mem k.capAddr word }
  | .exit => { s with exited := true }

/-! ## Runs -/

/-- A system call of the process, or what the rest of the system does to the memory in between
    (or while the call is suspended). -/
inductive CallOp where
  | call (num : Int) (args : CallArgs) (env : CallEnv)
  | others (mem : Mem)

/-- The kernel's own stores, the screen and the pages of the allocator are not `cap[0]`. -/
def EnvFits (k : Layout) (env : CallEnv) : Prop :=
  (∀ store ∈ env.kernel, store.1 < k.capAddr ∨ k.capAddr + 8 ≤ store.1) ∧
    (env.fb + 4 * (env.fbWidth.toNat * env.fbHeight.toNat) ≤ k.capAddr ∨ k.capAddr + 8 ≤ env.fb) ∧
    (env.region = 0 ∨ k.heapPage ≤ env.region / 4096)

instance (k : Layout) (env : CallEnv) : Decidable (EnvFits k env) := by
  unfold EnvFits
  infer_instance

/-- A step. A process that has exited makes no calls; the kernel keeps to its own memory as
    long as the process has left that alone. -/
def callStep (k : Layout) (s : CallerState) : CallOp → Option CallerState
  | .others mem => some { s with mem := mem }
  | .call num args env =>
    if s.exited = true then none
    else if s.intact = true ∧ ¬EnvFits k env then none
    else
      let s := (syscallDispatch num env args).2.foldl (Effect.apply k env) s
      some { s with mem := env.kernel.foldl (fun m store => storeBytes m store.1 1 store.2.toNat) s.mem }

/-- No bit of `cap[0]` is set by a call of a process without `CAP_ADMIN`. -/
def GainsNothing (k : Layout) (s : CallerState) (op : CallOp) (s' : CallerState) : Prop :=
  match op with
  | .others _ => True
  | .call _ _ _ =>
    (capWord k s).testBit 0 = false → ∀ i, (capWord k s').testBit i = true → (capWord k s).testBit i = true

/-- Every effect is allowed when its turn comes. -/
def EffectsAllowed (k : Layout) (env : CallEnv) : CallerState → List Effect → Prop
  | _, [] => True
  | s, e :: es => e.Allowed k s ∧ EffectsAllowed k env (e.apply k env s) es

/-- The condition on a call. -/
def CallAllowed (k : Layout) (s : CallerState) : CallOp → Prop
  | .others _ => True
  | .call num args env => EffectsAllowed k env s (syscallDispatch num env args).2

/-- A process with some memory for its stack, which is not `cap[0]`. -/
def callerStart (k : Layout) (mem : Mem) (stack : Nat → Bool) : CallerState where
  mem := mem
  stack := fun x => stack x && !decide (k.capAddr ≤ x ∧ x < k.capAddr + 8)
  mapped := fun _ => false
  exited := false
  intact := true

/-! ## What leaves `cap[0]` alone -/

/-- The two memories have the same `cap[0]`. -/
def SameCap (k : Layout) (m m' : Mem) : Prop := AgreeOn m m' k.capAddr 8

theorem SameCap.refl (k : Layout) (m : Mem) : SameCap k m m := fun _ _ _ => rfl

theorem SameCap.trans {k : Layout} {m m' m'' : Mem} (h : SameCap k m m') (h' : SameCap k m' m'') : SameCap k m m'' :=
  AgreeOn.trans h h'

theorem sameCap_foldl {α : Type*} {k : Layout} {f : Mem → α → Mem} (l : List α)
    (h : ∀ m, ∀ a ∈ l, SameCap k m (f m a)) (m : Mem) : SameCap k m (l.foldl f m) := by
  induction l generalizing m with
  | nil => exact SameCap.refl k m
  | cons a l ih =>
    refine (h m a List.mem_cons_self).trans ?_
    exact ih (fun m b hb => h m b (List.mem_cons_of_mem a hb)) (f m a)

/-- A store that keeps to other addresses. -/
theorem sameCap_storeList {k : Layout} {addr : Nat} {bytes : List (BitVec 8)} (m : Mem)
    (h : ∀ i < bytes.length, ¬(k.capAddr ≤ (addr + i) % 2 ^ 64 ∧ (addr + i) % 2 ^ 64 < k.capAddr + 8)) :
    SameCap k m (storeList m addr bytes) := by
  have himage := k.image
  have hmemory := k.memory
  intro x hlow hhigh
  unfold storeList
  have hx : (addr + (x + (2 ^ 64 - addr % 2 ^ 64)) % 2 ^ 64) % 2 ^ 64 = x := by omega
  have hout : bytes.length ≤ (x + (2 ^ 64 - addr % 2 ^ 64)) % 2 ^ 64 := by
    by_contra hin
    have := h _ (Nat.lt_of_not_le hin)
    rw [hx] at this
    exact this ⟨hlow, hhigh⟩
  rw [List.getD_eq_getElem?_getD, List.getElem?_eq_none hout, Option.getD_none]

/-- A pixel on the screen is a word of the screen. -/
theorem pixel_lt {env : CallEnv} {dstX y : UInt32} {col : Nat} (hy : y < env.fbHeight)
    (hx : dstX + col.toUInt32 < env.fbWidth) :
    (y * env.fbWidth + dstX + col.toUInt32).toNat < env.fbWidth.toNat * env.fbHeight.toNat := by
  rw [UInt32.lt_iff_toNat_lt] at hx hy
  rw [UInt32.add_assoc, UInt32.toNat_add, UInt32.toNat_mul]
  have hrow : (y.toNat + 1) * env.fbWidth.toNat ≤ env.fbHeight.toNat * env.fbWidth.toNat := Nat.mul_le_mul_right _ hy
  rw [Nat.succ_mul] at hrow
  calc ((y.toNat * env.fbWidth.toNat) % 2 ^ 32 + (dstX + col.toUInt32).toNat) % 2 ^ 32
      ≤ y.toNat * env.fbWidth.toNat + (dstX + col.toUInt32).toNat :=
        (Nat.mod_le _ _).trans (Nat.add_le_add_right (Nat.mod_le _ _) _)
    _ < env.fbHeight.toNat * env.fbWidth.toNat := by omega
    _ = env.fbWidth.toNat * env.fbHeight.toNat := Nat.mul_comm _ _

/-- Drawing stays on the screen, whatever the coordinates. -/
theorem sameCap_displayBlit {k : Layout} {env : CallEnv}
    (hscreen : env.fb + 4 * (env.fbWidth.toNat * env.fbHeight.toNat) ≤ k.capAddr ∨ k.capAddr + 8 ≤ env.fb)
    (dstX dstY w h pitch : UInt32) (src : UInt64) (m : Mem) :
    SameCap k m (displayBlit env dstX dstY w h pitch src m) := by
  unfold displayBlit blitRow
  refine sameCap_foldl _ ?_ m
  intro m row hrow
  refine sameCap_foldl _ ?_ m
  intro m col hcol
  have hy : dstY + row.toUInt32 < env.fbHeight := by simpa using List.mem_takeWhile_imp hrow
  have hx : dstX + col.toUInt32 < env.fbWidth := by simpa using List.mem_takeWhile_imp hcol
  have hpixel := pixel_lt hy hx
  apply agreeOn_store32
  omega

/-! ## One effect -/

/-- The process has nothing of `cap[0]`, and the kernel's memory is as the kernel left it. -/
structure Apart (k : Layout) (s : CallerState) : Prop where
  stack : ∀ x, k.capAddr ≤ x → x < k.capAddr + 8 → s.stack x = false
  mapped : ∀ p, s.mapped p = true → k.heapPage ≤ p
  intact : s.intact = true

theorem Apart.own {k : Layout} {s : CallerState} (h : Apart k s) {x : Nat} (hx : s.own x = true) :
    ¬(k.capAddr ≤ x ∧ x < k.capAddr + 8) := by
  rintro ⟨hlow, hhigh⟩
  have himage := k.image
  simp only [CallerState.own, h.stack x hlow hhigh, Bool.false_or] at hx
  have := h.mapped _ hx
  omega

/-- The bits of the second word are bits of the first. -/
def NoNewBits (w w' : Nat) : Prop := ∀ i, w'.testBit i = true → w.testBit i = true

theorem NoNewBits.refl (w : Nat) : NoNewBits w w := fun _ h => h

theorem NoNewBits.trans {w w' w'' : Nat} (h : NoNewBits w w') (h' : NoNewBits w' w'') : NoNewBits w w'' :=
  fun i hi => h i (h' i hi)

/-- Setting a bit that is set, or clearing one, sets none. -/
theorem setCap_noNewBits {k : Layout} {s : CallerState} {env : CallEnv} {cap : Nat} {enable : Bool}
    (h : Effect.Allowed k s (.setCap cap enable)) :
    NoNewBits (capWord k s) (capWord k (Effect.apply k env s (.setCap cap enable))) := by
  intro i hi
  unfold capWord Effect.apply load64 store64 at hi
  simp only [loadBytes_storeBytes_same] at hi
  rw [show (256 : Nat) ^ 8 = 2 ^ 64 from rfl, Nat.testBit_mod_two_pow, Bool.and_eq_true] at hi
  cases enable with
  | true =>
    rw [if_pos rfl, Nat.testBit_or, Bool.or_eq_true, Nat.testBit_two_pow] at hi
    rcases hi.2 with hold | hcap
    · exact hold
    · have heq : cap = i := by simpa using hcap
      exact heq ▸ h rfl
  | false =>
    rw [if_neg (by decide), Nat.testBit_and, Bool.and_eq_true] at hi
    exact hi.2.1

theorem capWord_sameCap {k : Layout} {s s' : CallerState} (h : SameCap k s.mem s'.mem) : capWord k s' = capWord k s :=
  load64_congr h

/-- The pages taken are pages of the allocator. -/
def Effect.Fits (k : Layout) : Effect → Prop
  | .take addr _ => k.heapPage ≤ addr / 4096
  | _ => True

/-- **One allowed effect** sets no bit and leaves the process apart from its capabilities. -/
theorem Apart.apply {k : Layout} {env : CallEnv} {s : CallerState} {e : Effect} (h : Apart k s) (henv : EnvFits k env)
    (hfits : e.Fits k) (he : e.Allowed k s) :
    Apart k (e.apply k env s) ∧ NoNewBits (capWord k s) (capWord k (e.apply k env s)) := by
  cases e with
  | store addr bytes =>
    have hsame : SameCap k s.mem (Effect.apply k env s (.store addr bytes)).mem :=
      sameCap_storeList s.mem fun i hi => h.own (he i hi)
    refine ⟨⟨h.stack, h.mapped, by simp [Effect.apply, h.intact, he]⟩, ?_⟩
    rw [capWord_sameCap hsame]
    exact NoNewBits.refl _
  | blit dstX dstY w h' src =>
    have hsame : SameCap k s.mem (Effect.apply k env s (.blit dstX dstY w h' src)).mem :=
      sameCap_displayBlit henv.2.1 _ _ _ _ _ _ s.mem
    refine ⟨⟨h.stack, h.mapped, h.intact⟩, ?_⟩
    rw [capWord_sameCap hsame]
    exact NoNewBits.refl _
  | take addr pages =>
    have himage := k.image
    have hsame : SameCap k s.mem (Effect.apply k env s (.take addr pages)).mem := by
      apply agreeOn_fillBytes
      simp only [Effect.Fits] at hfits
      omega
    refine ⟨⟨h.stack, ?_, h.intact⟩, ?_⟩
    · intro p hp
      simp only [Effect.apply, Bool.or_eq_true, decide_eq_true_eq] at hp
      rcases hp with hp | ⟨hp, _⟩
      · exact h.mapped p hp
      · exact le_trans hfits hp
    · rw [capWord_sameCap hsame]
      exact NoNewBits.refl _
  | release addr pages =>
    refine ⟨⟨h.stack, ?_, by simp [Effect.apply, h.intact, he]⟩, NoNewBits.refl _⟩
    intro p hp
    simp only [Effect.apply, Bool.and_eq_true] at hp
    exact h.mapped p hp.1
  | setCap cap enable =>
    refine ⟨⟨h.stack, h.mapped, h.intact⟩, ?_⟩
    exact setCap_noNewBits he
  | exit => exact ⟨⟨h.stack, h.mapped, h.intact⟩, NoNewBits.refl _⟩

/-! ## A call -/

@[simp]
theorem store_fits {k : Layout} {addr : Nat} {bytes : List (BitVec 8)} : (Effect.store addr bytes).Fits k := trivial

@[simp]
theorem blit_fits {k : Layout} {x y w h : UInt32} {src : UInt64} : (Effect.blit x y w h src).Fits k := trivial

@[simp]
theorem release_fits {k : Layout} {addr pages : Nat} : (Effect.release addr pages).Fits k := trivial

@[simp]
theorem setCap_fits {k : Layout} {cap : Nat} {enable : Bool} : (Effect.setCap cap enable).Fits k := trivial

@[simp]
theorem exit_fits {k : Layout} : Effect.exit.Fits k := trivial

@[simp]
theorem storeIf_fits {k : Layout} {addr : UInt64} {bytes : List (BitVec 8)} {e : Effect} (h : e ∈ storeIf addr bytes) :
    e.Fits k := by
  unfold storeIf at h
  split at h
  · cases h
  · rw [List.mem_singleton.mp h]
    exact store_fits

/-- Of all the handlers, only `sys_mmap` takes pages, and those are the allocator's. -/
theorem syscallTable_fits {k : Layout} {env : CallEnv} (henv : EnvFits k env) {n : Nat} {handler : Handler}
    (h : syscallTable n = some handler) (args : CallArgs) : ∀ e ∈ (handler env args).2, e.Fits k := by
  intro e he
  unfold syscallTable at h
  split at h
  case h_7 =>
    obtain rfl := Option.some.inj h
    simp only [sysMmapCall] at he
    split at he
    · simp at he
    · next hregion =>
      rw [List.mem_singleton.mp he]
      exact henv.2.2.resolve_left hregion
  case h_25 => cases h
  all_goals
    obtain rfl := Option.some.inj h
    simp only [passes, sysRead, sysWrite, sysOpen, sysClose, sysLseek, sysBrkCall, sysMunmapCall, sysExit, sysGetpid,
      sysSchedYield, sysNanosleep, sysKill, sysClone, sysWait4, sysIoctl, sysCrDisplayInfo, sysCrFbBlit,
      sysCrTouchRead, sysCrAudioOpen, sysCrPmGetBattery, sysCrCryptoRandom, sysCrNetConnect, sysCrProcSetCap] at he
    grind [store_fits, blit_fits, release_fits, setCap_fits, exit_fits, storeIf_fits]

theorem dispatch_fits {k : Layout} {env : CallEnv} (henv : EnvFits k env) (num : Int) (args : CallArgs) :
    ∀ e ∈ (syscallDispatch num env args).2, e.Fits k := by
  unfold syscallDispatch
  split
  · simp
  · cases htable : syscallTable num.toNat with
    | none => simp
    | some handler => exact syscallTable_fits henv htable args

theorem Apart.effects {k : Layout} {env : CallEnv} (henv : EnvFits k env) (es : List Effect) :
    ∀ {s : CallerState}, Apart k s → (∀ e ∈ es, e.Fits k) → EffectsAllowed k env s es →
      Apart k (es.foldl (Effect.apply k env) s) ∧ NoNewBits (capWord k s) (capWord k (es.foldl (Effect.apply k env) s)) := by
  induction es with
  | nil => exact fun h _ _ => ⟨h, NoNewBits.refl _⟩
  | cons e es ih =>
    intro s h hfits hallowed
    obtain ⟨happly, hbits⟩ := h.apply henv (hfits e List.mem_cons_self) hallowed.1
    obtain ⟨hrest, hbits'⟩ := ih happly (fun e' he' => hfits e' (List.mem_cons_of_mem e he')) hallowed.2
    exact ⟨hrest, hbits.trans hbits'⟩

theorem sameCap_kernel {k : Layout} {env : CallEnv} (henv : EnvFits k env) (m : Mem) :
    SameCap k m (env.kernel.foldl (fun m store => storeBytes m store.1 1 store.2.toNat) m) := by
  refine sameCap_foldl _ ?_ m
  intro m store hstore
  apply agreeOn_storeBytes
  have := henv.1 store hstore
  omega

theorem Apart.step {k : Layout} {s s' : CallerState} {op : CallOp} (h : Apart k s) (hallowed : CallAllowed k s op)
    (hs : callStep k s op = some s') : Apart k s' ∧ GainsNothing k s op s' := by
  cases op with
  | others mem =>
    obtain rfl := Option.some.inj hs
    exact ⟨⟨h.stack, h.mapped, h.intact⟩, trivial⟩
  | call num args env =>
    unfold callStep at hs
    simp only at hs
    split at hs
    · cases hs
    · split at hs
      · cases hs
      · next hfit =>
        have henv : EnvFits k env := by
          by_contra hno
          exact hfit ⟨h.intact, hno⟩
        obtain rfl := Option.some.inj hs
        obtain ⟨hrest, hbits⟩ := h.effects henv _ (dispatch_fits henv num args) hallowed
        refine ⟨⟨hrest.stack, hrest.mapped, hrest.intact⟩, ?_⟩
        -- The kernel's own stores come last, and elsewhere.
        generalize (syscallDispatch num env args).2.foldl (Effect.apply k env) s = t at hrest hbits ⊢
        have hword : capWord k { t with mem := env.kernel.foldl (fun m store => storeBytes m store.1 1 store.2.toNat) t.mem } =
            capWord k t := load64_congr (sameCap_kernel henv t.mem)
        intro _ i hi
        rw [hword] at hi
        exact hbits i hi

theorem apart_start (k : Layout) (mem : Mem) (stack : Nat → Bool) : Apart k (callerStart k mem stack) := by
  refine ⟨?_, ?_, rfl⟩
  · intro x hlow hhigh
    simp [callerStart, hlow, hhigh]
  · intro p hp
    simp [callerStart] at hp

/-- **Capability confinement**, over every sequence of system calls that a process makes with
    its own memory and its own bits. -/
theorem caps_confined (k : Layout) (mem : Mem) (stack : Nat → Bool) (ops : List CallOp)
    (hallowed : Meets (callStep k) (CallAllowed k) (callerStart k mem stack) ops) :
    AlwaysStep (callStep k) (GainsNothing k) (callerStart k mem stack) ops := by
  have halways : Always (callStep k) (Apart k) (callerStart k mem stack) ops := by
    refine always_of_meets ?_ (apart_start k mem stack) hallowed
    intro s op s' h hop hs
    exact (h.step hop hs).1
  refine alwaysStep_of_always ?_ halways hallowed
  intro s op s' h hop hs
  exact (h.step hop hs).2

/-! ## Two processes -/

def sampleLayout : Layout where
  capAddr := 0x40100000
  heapPage := 0x40600
  image := by decide
  memory := by decide

def sampleCallEnv : CallEnv where
  ret := 4
  data := [1, 2, 3, 4]
  event := none
  battery := []
  stat := 0
  fbWidth := 720
  fbHeight := 1440
  fbPitch := 2880
  fb := 0x41000000
  region := 0
  kernel := []

/-- A page for the stack, and a memory in which `cap[0]` is `8`. -/
def sampleCaller : CallerState :=
  callerStart sampleLayout (fun x => if x = 0x40100000 then 8 else 0) fun x => 0x50000000 ≤ x && x < 0x50001000

theorem caps_confined_sample :
    AlwaysStep (callStep sampleLayout) (GainsNothing sampleLayout) sampleCaller
      [.call 63 ⟨3, 0x50000000, 16, 0, 0, 0⟩ sampleCallEnv, .call 1037 ⟨3, 0, 0, 0, 0, 0⟩ sampleCallEnv] := by
  apply caps_confined
  have hread : (syscallDispatch 63 sampleCallEnv ⟨3, 0x50000000, 16, 0, 0, 0⟩).2 = [.store 0x50000000 [1, 2, 3, 4]] := by
    decide +kernel
  have hdrop : (syscallDispatch 1037 sampleCallEnv ⟨3, 0, 0, 0, 0, 0⟩).2 = [.setCap 3 false] := by decide +kernel
  intro s _
  refine ⟨?_, ?_⟩
  · rw [CallAllowed, hread]
    exact ⟨by decide +kernel, trivial⟩
  · intro s' _
    refine ⟨?_, trivial⟩
    rw [CallAllowed, hdrop]
    exact ⟨fun h => absurd h (by decide), trivial⟩

/-- A process with one other capability asks for `CAP_ADMIN`, and has it. -/
theorem admin_for_the_asking :
    ¬AlwaysStep (callStep sampleLayout) (GainsNothing sampleLayout) sampleCaller
      [.call 1037 ⟨0, 1, 0, 0, 0, 0⟩ sampleCallEnv] := by
  intro h
  have hs := eq_some_getD (o := callStep sampleLayout sampleCaller (.call 1037 ⟨0, 1, 0, 0, 0, 0⟩ sampleCallEnv))
    sampleCaller (by decide +kernel)
  have hgains := (h _ hs).1 (by decide +kernel) 0 (by decide +kernel)
  revert hgains
  decide +kernel

end Crimson.Syscall

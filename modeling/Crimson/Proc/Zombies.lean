import Crimson.Lib.Linked
import Crimson.Proc.Family
import Crimson.Proc.Pids

/-!
# Children lists and the zombie list

Both lists run through the one field `sibling`. `process_exit` puts the process in front of
the zombie list, and so overwrites its place on its parent's list; `process_create` clears
the field of a slot that may still be on the zombie list.

`Kin` adds to the table what the lists are meant to say: which slots hold a process, which
of those have exited and are not reaped yet, and whose child each one is (`process_exit`
rewrites the `ppid` of the children and moves none of them, so they stay on the list they
are on). `kinOk_iff` says in which runs the lists keep saying it.
-/

set_option autoImplicit false

namespace Crimson.Proc

open Crimson.Lib Crimson.Sched

variable {μ : Type}

/-- What has become of a slot. -/
inductive Fate where
  | free
  | alive
  /-- Exited, and not reaped yet. -/
  | exited
deriving DecidableEq, Repr

structure Kin (μ : Type) where
  table : ProcTable μ
  fate : ProcRef → Fate
  parentOf : ProcRef → Option ProcRef

def ProcTable.sibling (s : ProcTable μ) (p : ProcRef) : Option ProcRef := (s.info p).sibling

/-- The lists say what they should. -/
structure KinOk (s : Kin μ) : Prop where
  children : ∀ p, s.fate p ≠ .free → ∃ l, Linked s.table.sibling (s.table.info p).children l ∧ l.Nodup ∧
    ∀ c, c ∈ l ↔ s.parentOf c = some p
  zombies : ∃ z, Linked s.table.sibling s.table.zombieList z ∧ z.Nodup ∧ ∀ c, s.fate c = .exited → c ∈ z

/-! ## The steps -/

/-- The process on the CPU, if it can make a call: one that has exited never comes back
    from its yield (`kernel_panic`). -/
def Kin.caller (s : Kin μ) (cpu : Nat) : Option ProcRef :=
  (s.table.sched.runqueues cpu).current.bind fun p => if s.fate p = .alive then some p else none

/-- `child` has been reaped: it is nobody's child any more, and nobody is its child. -/
def Kin.bury (s : Kin μ) (child : ProcRef) (t : ProcTable μ) : Kin μ where
  table := t
  fate := Function.update s.fate child .free
  parentOf := fun c => if c = child ∨ s.parentOf c = some child then none else s.parentOf c

/-- `process_create` has returned `r`, having found the free slot `slot`. -/
def Kin.bear (s : Kin μ) (slot : Option ProcRef) (r : Int × ProcTable μ) : Kin μ :=
  match slot with
  | some p => { s with table := r.2, fate := if 0 ≤ r.1 then Function.update s.fate p .alive else s.fate }
  | none => { s with table := r.2 }

def kinStep (ops : MemOps μ) (s : Kin μ) : FamilyOp → Option (Kin μ)
  | .create attr => (processCreate ops s.table attr).map fun r => s.bear (freeSlot s.table) r
  | .exit cpu code =>
    (s.caller cpu).bind fun p =>
      (exitMark s.table p code).map fun t => { s with table := t, fate := Function.update s.fate p .exited }
  | .wait cpu pid nohang =>
    (s.caller cpu).bind fun p =>
      (processWait ops s.table cpu pid nohang).map fun r =>
        match findZombie s.table pid maxProcesses (s.table.info p).children none with
        | some (.found child _) => s.bury child r.table
        | _ => { s with table := r.table }
  | .reap => (processReapZombies s.table).map fun t => { s with table := t }
  | .sched op =>
    (schedStep s.table.sched op).map fun sched => { s with table := { s.table with sched := sched } }

/-- The states a run may start from: the children lists are well formed, and there are no
    zombies. -/
structure KinStart (s : Kin μ) : Prop where
  ok : KinOk s
  empty : s.table.zombieList = none
  used : ∀ p, s.fate p = .free ↔ s.table.state p = .unused
  zombie : ∀ p, s.table.state p ≠ .zombie
  kin : ∀ c p, s.parentOf c = some p → s.fate c ≠ .free ∧ s.fate p ≠ .free

/-- The steps that keep the lists. A process that exits is not on the zombie list already
    and, if it is somebody's child, its sibling is the head of the zombie list, so that the
    write changes nothing. A slot that is taken while it is still on the zombie list has no
    unreaped zombie behind it. -/
def KinKeeps (s : Kin μ) : FamilyOp → Prop
  | .exit cpu _ => ∀ p, s.caller cpu = some p →
    (∀ z, Linked s.table.sibling s.table.zombieList z → p ∉ z) ∧
      (s.parentOf p ≠ none → s.table.sibling p = s.table.zombieList)
  | .create attr => ∀ p, TakesSlot s.table attr p → ∀ z₁ z₂,
    Linked s.table.sibling s.table.zombieList (z₁ ++ p :: z₂) → ∀ c ∈ z₂, s.fate c ≠ .exited
  | _ => True

/-- The invariant behind `KinOk`. -/
structure KinInv (s : Kin μ) : Prop where
  ok : KinOk s
  used : ∀ p, s.fate p ≠ .free → s.table.state p ≠ .unused
  kin : ∀ c p, s.parentOf c = some p → s.fate c ≠ .free ∧ s.fate p ≠ .free

theorem KinStart.inv {s : Kin μ} (h : KinStart s) : KinInv s :=
  ⟨h.ok, fun p hp hunused => hp ((h.used p).mpr hunused), h.kin⟩

/-- Nothing that the lists depend on has changed. -/
theorem KinInv.congr {s : Kin μ} (h : KinInv s) {t : ProcTable μ} (hinfo : t.info = s.table.info)
    (hzombies : t.zombieList = s.table.zombieList)
    (hstate : ∀ p, s.table.state p ≠ .unused → t.state p ≠ .unused) : KinInv { s with table := t } := by
  have hsib : t.sibling = s.table.sibling := funext fun p => congrArg (fun i => (i p).sibling) hinfo
  refine ⟨⟨?_, ?_⟩, fun p hp => hstate p (h.used p hp), h.kin⟩
  · intro p hp
    obtain ⟨l, hl⟩ := h.ok.children p hp
    refine ⟨l, ?_⟩
    show Linked t.sibling (t.info p).children l ∧ _
    rw [hsib, hinfo]
    exact hl
  · obtain ⟨z, hz⟩ := h.ok.zombies
    refine ⟨z, ?_⟩
    show Linked t.sibling t.zombieList z ∧ _
    rw [hsib, hzombies]
    exact hz

theorem StateFrame.used {s s' : SchedState} (h : StateFrame s s') {p : ProcRef}
    (hp : (s.procs p).state ≠ .unused) : (s'.procs p).state ≠ .unused := by
  rcases h p with hp' | hp'
  · rwa [hp']
  · rcases hp' with hp' | hp' | hp' | hp' <;> simp [hp']

/-! ## `process_create` -/

/-- A child list does not run through a slot that holds no process. -/
theorem KinInv.child_ne {s : Kin μ} (h : KinInv s) {p q : ProcRef} {l : List ProcRef}
    (hl : ∀ c, c ∈ l ↔ s.parentOf c = some q) (hp : s.fate p = .free) : ∀ c ∈ l, c ≠ p := by
  rintro c hc rfl
  exact (h.kin c q ((hl c).mp hc)).1 hp

/-- The fates when the slot `p` has been tried. -/
theorem Kin.fate_bear_ne {s : Kin μ} {p q : ProcRef} (hq : q ≠ p) (r : Int × ProcTable μ) :
    (s.bear (some p) r).fate q = s.fate q := by
  simp only [Kin.bear]
  split
  · exact Function.update_of_ne hq _ _
  · rfl

theorem Kin.fate_bear_self {s : Kin μ} {p : ProcRef} (hfree : s.fate p = .free) (r : Int × ProcTable μ) :
    (s.bear (some p) r).fate p ≠ .exited := by
  simp only [Kin.bear]
  split
  · simp
  · simp [hfree]

/-- The zombie list is cut behind the slot, if it runs through it, with no unreaped zombie lost. -/
theorem KinInv.create_zombies {s : Kin μ} (h : KinInv s) {t : ProcTable μ} {p : ProcRef}
    (hlist : t.zombieList = s.table.zombieList) (hsib : ∀ q, q ≠ p → t.sibling q = s.table.sibling q)
    (hnone : t.sibling p = none)
    (hkeeps : ∀ z₁ z₂, Linked s.table.sibling s.table.zombieList (z₁ ++ p :: z₂) → ∀ c ∈ z₂, s.fate c ≠ .exited) :
    ∃ z, Linked t.sibling t.zombieList z ∧ z.Nodup ∧ ∀ c, c ≠ p → s.fate c = .exited → c ∈ z := by
  rw [hlist]
  obtain ⟨z, hz, hnd, hmem⟩ := h.ok.zombies
  by_cases hp : p ∈ z
  · obtain ⟨z₁, z₂, rfl⟩ := List.append_of_mem hp
    have hcut := hz.cut hsib hnone
    refine ⟨z₁ ++ [p], hcut, hcut.nodup, ?_⟩
    intro c hcp hc
    rcases List.mem_append.mp (hmem c hc) with hc₁ | hc₁
    · exact List.mem_append.mpr (Or.inl hc₁)
    · rcases List.mem_cons.mp hc₁ with rfl | hc₂
      · exact absurd rfl hcp
      · exact absurd hc (hkeeps z₁ z₂ hz c hc₂)
  · refine ⟨z, ?_, hnd, fun c _ hc => hmem c hc⟩
    exact hz.congr fun c hc => hsib c fun hcp => hp (hcp ▸ hc)

theorem KinInv.create {ops : MemOps μ} {s : Kin μ} (h : KinInv s) {attr : Option ProcessAttr}
    {r : Int × ProcTable μ} (hc : processCreate ops s.table attr = some r)
    (hkeeps : KinKeeps s (.create attr)) : KinInv (s.bear (freeSlot s.table) r) := by
  obtain ⟨r, t⟩ := r
  rcases processCreate_links hc with ⟨hneg, -, rfl⟩ | ⟨p, htakes, hlinks, hstate⟩
  · have hr : ¬0 ≤ r := by omega
    cases freeSlot s.table with
    | none => exact h
    | some q =>
      simp only [Kin.bear, if_neg hr]
      exact h
  have hunused : s.table.state p = .unused := by
    rcases freeSlot_spec s.table with ⟨hno, -⟩ | ⟨q, hq, hunused, -⟩
    · exact absurd (hno.symm.trans htakes.2.1) (by simp)
    · exact Option.some.inj (hq.symm.trans htakes.2.1) ▸ hunused
  have hfree : s.fate p = .free := by
    by_contra hp
    exact h.used p hp hunused
  rw [htakes.2.1]
  have hsib : ∀ q, q ≠ p → t.sibling q = s.table.sibling q :=
    fun q hq => congrArg ProcInfo.sibling (hlinks.info q hq)
  have hfate : ∀ q, q ≠ p → (s.bear (some p) (r, t)).fate q = s.fate q := fun q hq => Kin.fate_bear_ne hq _
  refine ⟨⟨?_, ?_⟩, ?_, ?_⟩
  · intro q hq
    by_cases hqp : q = p
    · -- The new process: no children, and nobody names the slot as a parent.
      subst hqp
      refine ⟨[], hlinks.children, List.nodup_nil, ?_⟩
      intro c
      refine ⟨fun hmem => absurd hmem (by simp), fun hc => absurd hfree (h.kin c q hc).2⟩
    · rw [hfate q hqp] at hq
      obtain ⟨l, hl, hnd, hmem⟩ := h.ok.children q hq
      refine ⟨l, ?_, hnd, hmem⟩
      show Linked t.sibling (t.info q).children l
      rw [hlinks.info q hqp]
      exact hl.congr fun c hc => hsib c (h.child_ne hmem hfree c hc)
  · obtain ⟨z, hz, hnd, hmem⟩ := h.create_zombies hlinks.zombies hsib hlinks.sibling (hkeeps p htakes)
    refine ⟨z, hz, hnd, ?_⟩
    intro c hc
    have hcp : c ≠ p := fun hcp => Kin.fate_bear_self hfree _ (hcp ▸ hc)
    exact hmem c hcp (hfate c hcp ▸ hc)
  · intro q hq
    show t.state q ≠ .unused
    by_cases hqp : q = p
    · subst hqp
      rcases hstate with ⟨hneg, -⟩ | ⟨-, hready⟩
      · have hr : ¬0 ≤ r := by omega
        simp only [Kin.bear, if_neg hr] at hq
        exact absurd hfree hq
      · rw [hready]
        decide
    · rw [hfate q hqp] at hq
      rw [hlinks.state q hqp]
      exact h.used q hq
  · intro c q hc
    obtain ⟨hcf, hqf⟩ := h.kin c q hc
    rw [hfate c fun hcp => hcf (hcp ▸ hfree), hfate q fun hqp => hqf (hqp ▸ hfree)]
    exact ⟨hcf, hqf⟩

/-- A zombie behind the slot is lost from the list. -/
theorem create_loses {ops : MemOps μ} {s : Kin μ} {attr : Option ProcessAttr} {r : Int × ProcTable μ}
    (hc : processCreate ops s.table attr = some r) (hkeeps : ¬KinKeeps s (.create attr)) : ¬KinOk (s.bear (freeSlot s.table) r) := by
  obtain ⟨r, t⟩ := r
  simp only [KinKeeps, not_forall] at hkeeps
  obtain ⟨p, htakes, z₁, z₂, hz, c, hc₂, hexited⟩ := hkeeps
  have hexited : s.fate c = .exited := not_not.mp hexited
  rcases processCreate_links hc with ⟨-, hno, -⟩ | ⟨p', htakes', hlinks, hstate⟩
  · exact absurd htakes (hno p)
  have hpp : p' = p := Option.some.inj (htakes'.2.1.symm.trans htakes.2.1)
  subst hpp
  rw [htakes.2.1]
  have hnd := Linked.nodup hz
  have hcp : c ≠ p' := fun hcp =>
    (List.nodup_cons.mp (List.nodup_append.mp hnd).2.1).1 (hcp ▸ hc₂)
  have hcz : c ∉ z₁ := fun hcz => (List.nodup_append.mp hnd).2.2 c hcz c (by simp [hc₂]) rfl
  have hcut : Linked t.sibling t.zombieList (z₁ ++ [p']) := by
    rw [hlinks.zombies]
    exact hz.cut (fun d hd => congrArg ProcInfo.sibling (hlinks.info d hd)) hlinks.sibling
  intro hok
  obtain ⟨z, hz', -, hmem⟩ := hok.zombies
  have hzz : z = z₁ ++ [p'] := Linked.unique hz' hcut
  have hc' := hmem c ((Kin.fate_bear_ne hcp _).trans hexited)
  rw [hzz] at hc'
  simp [hcz, hcp] at hc'

/-! ## `process_exit` -/

theorem Kin.caller_eq_some {s : Kin μ} {cpu : Nat} {p : ProcRef} :
    s.caller cpu = some p ↔ (s.table.sched.runqueues cpu).current = some p ∧ s.fate p = .alive := by
  unfold Kin.caller
  rw [Option.bind_eq_some_iff]
  constructor
  · rintro ⟨q, hq, hp⟩
    split at hp
    · obtain rfl := Option.some.inj hp
      exact ⟨hq, ‹_›⟩
    · exact absurd hp (by simp)
  · rintro ⟨hcur, halive⟩
    exact ⟨p, hcur, if_pos halive⟩

theorem exitMark_sibling {s t : ProcTable μ} {p : ProcRef} {code : Int} (he : exitMark s p code = some t) :
    t.sibling = Function.update s.sibling p s.zombieList := by
  funext q
  refine ((exitMark_links he).2.2.1 q).trans ?_
  by_cases hq : q = p
  · rw [if_pos hq, hq, Function.update_self]
  · rw [if_neg hq, Function.update_of_ne hq]
    rfl

theorem KinInv.exit {s : Kin μ} (h : KinInv s) {t : ProcTable μ} {p : ProcRef} {code : Int}
    (halive : s.fate p = .alive) (he : exitMark s.table p code = some t)
    (hoff : ∀ z, Linked s.table.sibling s.table.zombieList z → p ∉ z)
    (hnext : s.parentOf p ≠ none → s.table.sibling p = s.table.zombieList) :
    KinInv { s with table := t, fate := Function.update s.fate p .exited } := by
  obtain ⟨hz, hchildren, -, hstate⟩ := exitMark_links he
  have hsib := exitMark_sibling he
  have hfree : ∀ q, Function.update s.fate p .exited q ≠ .free ↔ s.fate q ≠ .free := by
    intro q
    by_cases hq : q = p
    · simp [hq, halive]
    · simp [hq]
  refine ⟨⟨?_, ?_⟩, ?_, ?_⟩
  · intro q hq
    obtain ⟨l, hl, hnd, hmem⟩ := h.ok.children q ((hfree q).mp hq)
    refine ⟨l, ?_, hnd, hmem⟩
    show Linked t.sibling (t.info q).children l
    rw [hchildren q, hsib]
    by_cases hp : p ∈ l
    · -- The link is overwritten with the value it has.
      have hself : Function.update s.table.sibling p s.table.zombieList = s.table.sibling := by
        rw [← hnext (by rw [(hmem p).mp hp]; simp)]
        exact Function.update_eq_self p s.table.sibling
      rw [hself]
      exact hl
    · exact hl.update_of_notMem hp
  · obtain ⟨z, hzl, hnd, hmem⟩ := h.ok.zombies
    have hp := hoff z hzl
    refine ⟨p :: z, ?_, List.nodup_cons.mpr ⟨hp, hnd⟩, ?_⟩
    · show Linked t.sibling t.zombieList (p :: z)
      rw [hz, hsib]
      refine ⟨rfl, ?_⟩
      rw [Function.update_self]
      exact hzl.update_of_notMem hp
    · intro c hc
      by_cases hcp : c = p
      · simp [hcp]
      · refine List.mem_cons_of_mem p (hmem c ?_)
        exact (Function.update_of_ne hcp _ _).symm.trans hc
  · intro q hq
    show t.state q ≠ .unused
    rw [hstate q]
    split
    · decide
    · exact h.used q ((hfree q).mp hq)
  · intro c q hc
    exact ⟨(hfree c).mpr (h.kin c q hc).1, (hfree q).mpr (h.kin c q hc).2⟩

/-- An exit outside the guard breaks a list: it ties the zombie list in a loop, or gives the
    parent the zombies for the rest of its children. -/
theorem KinInv.exit_breaks {s : Kin μ} (h : KinInv s) {t : ProcTable μ} {p : ProcRef} {code : Int}
    (he : exitMark s.table p code = some t)
    (hbad : ¬((∀ z, Linked s.table.sibling s.table.zombieList z → p ∉ z) ∧
      (s.parentOf p ≠ none → s.table.sibling p = s.table.zombieList))) :
    ¬KinOk { s with table := t, fate := Function.update s.fate p .exited } := by
  obtain ⟨hz, hchildren, -, -⟩ := exitMark_links he
  have hsib := exitMark_sibling he
  obtain ⟨z, hzl, hznd, -⟩ := h.ok.zombies
  intro hok
  by_cases hp : p ∈ z
  · -- From `p` the walk goes to the old head, and from there back to `p`.
    obtain ⟨z₁, z₂, rfl⟩ := List.append_of_mem hp
    have hp₁ : p ∉ z₁ := fun hp₁ => (List.nodup_append.mp hznd).2.2 p hp₁ p (by simp) rfl
    obtain ⟨m, h₁, h₂⟩ := segment_append.mp hzl
    have hloop : Segment t.sibling (some p) (p :: z₁) (some p) := by
      refine ⟨rfl, ?_⟩
      rw [hsib, Function.update_self, ← h₂.1]
      exact h₁.update_of_notMem hp₁
    obtain ⟨z', hz', -, -⟩ := hok.zombies
    refine hloop.not_linked (by simp) (l := z') ?_
    rw [← hz]
    exact hz'
  · have hoff : ∀ z', Linked s.table.sibling s.table.zombieList z' → p ∉ z' :=
      fun z' hz' => Linked.unique hzl hz' ▸ hp
    have hkin : ¬(s.parentOf p ≠ none → s.table.sibling p = s.table.zombieList) :=
      fun hkin => hbad ⟨hoff, hkin⟩
    obtain ⟨hparent, hne⟩ := Classical.not_imp.mp hkin
    obtain ⟨q, hq⟩ := Option.ne_none_iff_exists'.mp hparent
    have hqf := (h.kin p q hq).2
    obtain ⟨l, hl, hnd, hmem⟩ := h.ok.children q hqf
    obtain ⟨l₁, l₂, rfl⟩ := List.append_of_mem ((hmem p).mpr hq)
    have hp₁ : p ∉ l₁ := fun hp₁ => (List.nodup_append.mp hnd).2.2 p hp₁ p (by simp) rfl
    obtain ⟨m, h₁, h₂⟩ := segment_append.mp hl
    -- Behind `p` the list of `q` is now the zombie list.
    have hl' : Linked t.sibling (t.info q).children (l₁ ++ p :: z) := by
      rw [hchildren q, hsib]
      refine segment_append.mpr ⟨m, h₁.update_of_notMem hp₁, h₂.1, ?_⟩
      rw [Function.update_self]
      exact hzl.update_of_notMem hp
    have hqf' : Function.update s.fate p .exited q ≠ .free := by
      by_cases hqp : q = p
      · simp [hqp]
      · simpa [hqp] using hqf
    obtain ⟨l', hlq, -, hmem'⟩ := hok.children q hqf'
    have hll : l' = l₁ ++ p :: z := Linked.unique hlq hl'
    have hnd' := Linked.nodup hl'
    have hsame : ∀ c, c ∈ l₂ ↔ c ∈ z := by
      have hboth : ∀ c, c ∈ l₁ ++ p :: l₂ ↔ c ∈ l₁ ++ p :: z :=
        fun c => (hmem c).trans (hll ▸ hmem' c).symm
      have hbehind : ∀ {v : List ProcRef}, (l₁ ++ p :: v).Nodup → ∀ c ∈ v, c ∉ l₁ ∧ c ≠ p := by
        intro v hv c hc
        refine ⟨fun hc₁ => (List.nodup_append.mp hv).2.2 c hc₁ c (by simp [hc]) rfl, ?_⟩
        rintro rfl
        exact (List.nodup_cons.mp (List.nodup_append.mp hv).2.1).1 hc
      intro c
      constructor
      · intro hc
        obtain ⟨hc₁, hcp⟩ := hbehind hnd c hc
        simpa [hc₁, hcp] using (hboth c).mp (by simp [hc])
      · intro hc
        obtain ⟨hc₁, hcp⟩ := hbehind hnd' c hc
        simpa [hc₁, hcp] using (hboth c).mpr (by simp [hc])
    have hlz : l₂ = z := Linked.eq_of_mem_iff h₂.2 hzl hsame
    refine hne ?_
    rw [Linked.next_eq hl, hlz]
    exact hzl.head_eq.symm

/-! ## `process_wait` -/

/-- The search goes down the list of children and stops at one that is a zombie. -/
theorem findZombie_spec {s : ProcTable μ} {pid : Int} {fuel : Nat} {l : List ProcRef}
    {child prev : Option ProcRef} {r : ChildSearch} (hl : Linked s.sibling child l)
    (hf : findZombie s pid fuel child prev = some r) :
    r = .exhausted ∨ ∃ c l₁ l₂, l = l₁ ++ c :: l₂ ∧ r = .found c (l₁.getLast?.or prev) := by
  induction l generalizing fuel child prev with
  | nil =>
    rw [segment_nil.mp hl] at hf
    refine Or.inl (Option.some.inj (hf.symm.trans ?_))
    cases fuel <;> rfl
  | cons c l ih =>
    rw [hl.1] at hf
    cases fuel with
    | zero => exact absurd hf (by simp [findZombie])
    | succ fuel =>
      unfold findZombie at hf
      split at hf
      · exact Or.inr ⟨c, [], l, rfl, (Option.some.inj hf).symm⟩
      · rcases ih hl.2 hf with hr | ⟨d, l₁, l₂, rfl, rfl⟩
        · exact Or.inl hr
        · refine Or.inr ⟨d, c :: l₁, l₂, rfl, ?_⟩
          cases l₁ with
          | nil => rfl
          | cons b l₁ => simp [List.getLast?_cons]

theorem modSibling_sibling (s : ProcTable μ) (y : ProcRef) (next : Option ProcRef) :
    (s.modInfo y fun x => { x with sibling := next }).sibling = Function.update s.sibling y next := by
  funext q
  by_cases hq : q = y
  · simp [ProcTable.modInfo, ProcTable.sibling, hq]
  · simp [ProcTable.modInfo, ProcTable.sibling, Function.update_of_ne hq]

theorem modSibling_children (s : ProcTable μ) (y q : ProcRef) (next : Option ProcRef) :
    ((s.modInfo y fun x => { x with sibling := next }).info q).children = (s.info q).children := by
  by_cases hq : q = y
  · simp [ProcTable.modInfo, hq]
  · simp [ProcTable.modInfo, Function.update_of_ne hq]

/-- The child found is taken off its parent's list; `prev` is the one before it, if any. -/
def unlinkChild (s : ProcTable μ) (p c : ProcRef) (prev : Option ProcRef) : ProcTable μ :=
  match prev with
  | some prev => s.modInfo prev fun x => { x with sibling := (s.info c).sibling }
  | none => s.modInfo p fun x => { x with children := (s.info c).sibling }

theorem unlinkChild_frame (s : ProcTable μ) (p c : ProcRef) (prev : Option ProcRef) :
    (unlinkChild s p c prev).sched = s.sched ∧ (unlinkChild s p c prev).zombieList = s.zombieList := by
  cases prev <;> exact ⟨rfl, rfl⟩

theorem unlinkChild_children (s : ProcTable μ) (p c : ProcRef) (prev : Option ProcRef) (q : ProcRef) :
    ((unlinkChild s p c prev).info q).children =
      if q = p ∧ prev = none then s.sibling c else (s.info q).children := by
  cases prev with
  | some y =>
    rw [if_neg fun hq => Option.some_ne_none y hq.2]
    exact modSibling_children s y q _
  | none =>
    by_cases hq : q = p
    · simp [unlinkChild, ProcTable.modInfo, hq, ProcTable.sibling]
    · simp [unlinkChild, ProcTable.modInfo, hq]

theorem unlinkChild_sibling (s : ProcTable μ) (p c : ProcRef) (prev : Option ProcRef) :
    (unlinkChild s p c prev).sibling =
      match prev with
      | some y => Function.update s.sibling y (s.sibling c)
      | none => s.sibling := by
  cases prev with
  | some y => exact modSibling_sibling s y _
  | none =>
    funext q
    by_cases hq : q = p
    · simp [unlinkChild, ProcTable.modInfo, hq, ProcTable.sibling]
    · simp [unlinkChild, ProcTable.modInfo, Function.update_of_ne hq, ProcTable.sibling]

/-- `process_cleanup` touches no link, and frees one slot. -/
theorem processCleanup_frame (ops : MemOps μ) (s : ProcTable μ) (c : ProcRef) :
    (processCleanup ops s c).info = s.info ∧ (processCleanup ops s c).zombieList = s.zombieList ∧
      ∀ q, (processCleanup ops s c).state q = if q = c then .unused else s.state q := by
  obtain ⟨mem, hmem⟩ := processCleanup_mem ops s c
  obtain ⟨bitmap, hfree⟩ := freePid_same { s with mem := mem } (s.info c).pid
  rw [hmem, hfree]
  refine ⟨rfl, rfl, ?_⟩
  intro q
  by_cases hq : q = c
  · simp [ProcTable.setState, ProcTable.state, hq]
  · simp [ProcTable.setState, ProcTable.state, hq]

theorem processWait_cases {ops : MemOps μ} {s : ProcTable μ} {cpu : Nat} {pid : Int} {nohang : Bool}
    {p : ProcRef} {r : WaitResult μ} (hcur : (s.sched.runqueues cpu).current = some p)
    (hw : processWait ops s cpu pid nohang = some r) :
    (∃ c prev, findZombie s pid maxProcesses (s.info p).children none = some (.found c prev) ∧
        r.table = processCleanup ops (unlinkChild s p c prev) c) ∨
      findZombie s pid maxProcesses (s.info p).children none = some .exhausted ∧
        r.table.info = s.info ∧ r.table.zombieList = s.zombieList ∧ StateFrame s.sched r.table.sched := by
  unfold processWait at hw
  simp only [hcur] at hw
  cases hf : findZombie s pid maxProcesses (s.info p).children none with
  | none => simp [hf] at hw
  | some search =>
    simp only [hf] at hw
    cases search with
    | found c prev =>
      obtain rfl := Option.some.inj hw
      exact Or.inl ⟨c, prev, rfl, rfl⟩
    | exhausted =>
      refine Or.inr ⟨rfl, ?_⟩
      dsimp only at hw
      split at hw
      · obtain rfl := Option.some.inj hw
        exact ⟨rfl, rfl, StateFrame.refl _⟩
      · split at hw
        · obtain rfl := Option.some.inj hw
          exact ⟨rfl, rfl, StateFrame.refl _⟩
        · obtain rfl := Option.some.inj hw
          exact ⟨rfl, rfl, (schedulerYield_frame s.sched cpu).state⟩

/-- Taking `c` off the list of `p`, given the list: it goes from there, from the zombie list
    if that has it behind the same process, and no other list runs through the place. -/
theorem unlinkChild_lists {s : Kin μ} {p c : ProcRef} {l₁ l₂ : List ProcRef}
    (hl : Linked s.table.sibling (s.table.info p).children (l₁ ++ c :: l₂))
    (hmem : ∀ d, d ∈ l₁ ++ c :: l₂ ↔ s.parentOf d = some p) :
    Linked (unlinkChild s.table p c l₁.getLast?).sibling
        ((unlinkChild s.table p c l₁.getLast?).info p).children (l₁ ++ l₂) ∧
      (∀ q, q ≠ p → ∀ l, Linked s.table.sibling (s.table.info q).children l →
        (∀ d, d ∈ l ↔ s.parentOf d = some q) →
        Linked (unlinkChild s.table p c l₁.getLast?).sibling
          ((unlinkChild s.table p c l₁.getLast?).info q).children l) ∧
      ∀ z, Linked s.table.sibling s.table.zombieList z →
        ∃ z', Linked (unlinkChild s.table p c l₁.getLast?).sibling s.table.zombieList z' ∧
          ∀ d, d ∈ z → d ≠ c → d ∈ z' := by
  rcases List.eq_nil_or_concat l₁ with rfl | ⟨l, y, rfl⟩
  · simp only [List.nil_append, List.getLast?_nil, unlinkChild_sibling, unlinkChild_children, and_true]
    refine ⟨by simpa using hl.2, ?_, fun z hz => ⟨z, hz, fun d hd _ => hd⟩⟩
    intro q hq l hlq _
    rwa [if_neg hq]
  · rw [List.concat_eq_append] at hl hmem ⊢
    simp only [List.getLast?_concat, unlinkChild_sibling, unlinkChild_children, reduceCtorEq, and_false,
      if_false]
    rw [List.append_assoc, List.singleton_append] at hl hmem ⊢
    have hnext : s.table.sibling y = some c := Linked.next_eq hl
    refine ⟨Linked.unlink hl, ?_, ?_⟩
    · intro q hq l' hlq hmemq
      refine hlq.update_of_notMem fun hy => hq ?_
      exact Option.some.inj (((hmemq y).mp hy).symm.trans ((hmem y).mp (by simp)))
    · intro z hz
      by_cases hy : y ∈ z
      · obtain ⟨z₁, z₂, rfl⟩ := List.append_of_mem hy
        cases z₂ with
        | nil => exact absurd (hnext.symm.trans (Linked.next_eq hz)) (by simp)
        | cons d z₂ =>
          have hdc : d = c := (Option.some.inj (hnext.symm.trans (Linked.next_eq hz))).symm
          subst hdc
          refine ⟨z₁ ++ y :: z₂, Linked.unlink hz, ?_⟩
          intro e he hec
          simpa [hec] using he
      · exact ⟨z, hz.update_of_notMem hy, fun d hd _ => hd⟩

/-- The fates behind a burial. -/
theorem Kin.fate_bury_ne {s : Kin μ} {c q : ProcRef} (hq : q ≠ c) (t : ProcTable μ) : (s.bury c t).fate q = s.fate q :=
  Function.update_of_ne hq _ _

theorem Kin.not_free_bury {s : Kin μ} {c q : ProcRef} {t : ProcTable μ} (hq : (s.bury c t).fate q ≠ .free) :
    q ≠ c ∧ s.fate q ≠ .free := by
  have hqc : q ≠ c := by
    rintro rfl
    exact hq (Function.update_self _ _ _)
  exact ⟨hqc, Kin.fate_bury_ne hqc t ▸ hq⟩

theorem Kin.parentOf_bury {s : Kin μ} {c q : ProcRef} (hq : q ≠ c) (t : ProcTable μ) (d : ProcRef) :
    (s.bury c t).parentOf d = some q ↔ s.parentOf d = some q ∧ d ≠ c := by
  simp only [Kin.bury]
  by_cases hdc : d = c
  · simp [hdc]
  · by_cases hpc : s.parentOf d = some c
    · rw [if_pos (Or.inr hpc), hpc]
      refine ⟨fun hno => absurd hno (by simp), fun hcq => absurd (Option.some.inj hcq.1) (Ne.symm hq)⟩
    · rw [if_neg (not_or.mpr ⟨hdc, hpc⟩)]
      exact ⟨fun hd => ⟨hd, hdc⟩, fun hd => hd.1⟩

theorem Kin.parentOf_bury_self {s : Kin μ} {c d : ProcRef} {t : ProcTable μ} : (s.bury c t).parentOf d ≠ some c := by
  simp only [Kin.bury]
  intro hd
  split at hd
  · exact absurd hd (by simp)
  · rename_i hno
    exact hno (Or.inr hd)

/-- What is left of the children of `p` when `c` has been unlinked. -/
theorem mem_unlinked {α : Type} {l₁ l₂ : List α} {c d : α} (hnd : (l₁ ++ c :: l₂).Nodup) :
    d ∈ l₁ ++ l₂ ↔ d ∈ l₁ ++ c :: l₂ ∧ d ≠ c := by
  have hc₁ : c ∉ l₁ := fun hc => (List.nodup_append.mp hnd).2.2 c hc c (by simp) rfl
  have hc₂ : c ∉ l₂ := (List.nodup_cons.mp (List.nodup_append.mp hnd).2.1).1
  constructor
  · intro hd
    refine ⟨?_, ?_⟩
    · rcases List.mem_append.mp hd with hd | hd <;> simp [hd]
    · rintro rfl
      exact (List.mem_append.mp hd).elim hc₁ hc₂
  · rintro ⟨hd, hdc⟩
    simpa [hdc] using hd

/-- **Reaping a child** keeps the lists. -/
theorem KinInv.bury {ops : MemOps μ} {s : Kin μ} (h : KinInv s) {p c : ProcRef} {pid : Int} {fuel : Nat}
    {prev : Option ProcRef} (hp : s.fate p ≠ .free)
    (hf : findZombie s.table pid fuel (s.table.info p).children none = some (.found c prev)) :
    KinInv (s.bury c (processCleanup ops (unlinkChild s.table p c prev) c)) := by
  obtain ⟨l, hl, hnd, hmem⟩ := h.ok.children p hp
  rcases findZombie_spec hl hf with hno | ⟨c', l₁, l₂, rfl, hfound⟩
  · exact absurd hno (by simp)
  obtain ⟨rfl, rfl⟩ := ChildSearch.found.inj hfound
  rw [Option.or_none]
  obtain ⟨hown, hothers, hzombies⟩ := unlinkChild_lists hl hmem
  obtain ⟨hsched, hzlist⟩ := unlinkChild_frame s.table p c l₁.getLast?
  have hstate : ∀ q, (Proc.unlinkChild s.table p c l₁.getLast?).state q = s.table.state q :=
    fun q => by rw [ProcTable.state, hsched, ProcTable.state]
  generalize Proc.unlinkChild s.table p c l₁.getLast? = u at *
  obtain ⟨hinfo, hzcl, hstcl⟩ := processCleanup_frame ops u c
  generalize processCleanup ops u c = t at *
  have hsib : t.sibling = u.sibling := funext fun q => congrArg (fun i => (i q).sibling) hinfo
  refine ⟨⟨?_, ?_⟩, ?_, ?_⟩
  · intro q hq
    obtain ⟨hqc, hqf⟩ := Kin.not_free_bury hq
    show ∃ l, Linked t.sibling (t.info q).children l ∧ _
    rw [hsib, hinfo]
    by_cases hqp : q = p
    · subst hqp
      refine ⟨l₁ ++ l₂, hown, hown.nodup, ?_⟩
      intro d
      rw [Kin.parentOf_bury hqc, ← hmem]
      exact mem_unlinked hnd
    · -- another parent's list does not have `c`
      obtain ⟨lq, hlq, hndq, hmemq⟩ := h.ok.children q hqf
      refine ⟨lq, hothers q hqp lq hlq hmemq, hndq, ?_⟩
      intro d
      rw [Kin.parentOf_bury hqc, hmemq]
      refine ⟨fun hd => ⟨hd, ?_⟩, fun hd => hd.1⟩
      rintro rfl
      have hdp := (hmem d).mp (by simp)
      exact hqp (Option.some.inj (hd.symm.trans hdp))
  · obtain ⟨z, hz, -, hzmem⟩ := h.ok.zombies
    obtain ⟨z', hz', hkeep⟩ := hzombies z hz
    refine ⟨z', ?_, hz'.nodup, ?_⟩
    · show Linked t.sibling t.zombieList z'
      rw [hsib, hzcl, hzlist]
      exact hz'
    · intro d hd
      have hdc : d ≠ c := by
        rintro rfl
        exact absurd ((Function.update_self _ _ _).symm.trans hd) (by simp)
      exact hkeep d (hzmem d (Kin.fate_bury_ne hdc t ▸ hd)) hdc
  · intro q hq
    obtain ⟨hqc, hqf⟩ := Kin.not_free_bury hq
    show t.state q ≠ .unused
    rw [hstcl q, if_neg hqc, hstate q]
    exact h.used q hqf
  · intro d q hd
    have hqc : q ≠ c := by
      rintro rfl
      exact Kin.parentOf_bury_self hd
    obtain ⟨hd, hdc⟩ := (Kin.parentOf_bury hqc t d).mp hd
    rw [Kin.fate_bury_ne hdc, Kin.fate_bury_ne hqc]
    exact h.kin d q hd

/-! ## `process_reap_zombies` -/

/-- Unlinking a free slot behind `y` leaves every list of slots in use alone. -/
theorem unlink_free {s : ProcTable μ} {y p : ProcRef} (hy : s.sibling y = some p)
    (hp : s.state p = .unused) {h : Option ProcRef} {l : List ProcRef} (hl : Linked s.sibling h l)
    (hused : ∀ c ∈ l, s.state c ≠ .unused) : Linked (Function.update s.sibling y (s.sibling p)) h l := by
  refine hl.update_of_notMem fun hmem => ?_
  obtain ⟨l₁, l₂, rfl⟩ := List.append_of_mem hmem
  have hnext := hy.symm.trans (Linked.next_eq hl)
  cases l₂ with
  | nil => exact absurd hnext (by simp)
  | cons d l₂ =>
    obtain rfl := Option.some.inj hnext
    exact hused p (by simp) hp

/-- **The loop of `process_reap_zombies`**: of `kept ++ rest` the walk has passed `kept`; the
    slots in use of `rest` stay on the list, and lists of slots in use are not touched. -/
theorem reapWalk_spec {rest : List ProcRef} {fuel : Nat} {kept : List ProcRef} {proc : Option ProcRef}
    {s s' : ProcTable μ} (hl : Linked s.sibling s.zombieList (kept ++ rest)) (hproc : proc = rest.head?)
    (hw : reapWalk fuel proc kept.getLast? s = some s') :
    s'.sched = s.sched ∧ (∀ q, (s'.info q).children = (s.info q).children) ∧
      (∃ z, Linked s'.sibling s'.zombieList z ∧ ∀ c ∈ kept ++ rest, s.state c ≠ .unused ∨ c ∈ kept → c ∈ z) ∧
      ∀ h l, Linked s.sibling h l → (∀ c ∈ l, s.state c ≠ .unused) → Linked s'.sibling h l := by
  induction rest generalizing fuel kept proc s with
  | nil =>
    subst hproc
    have hs : s' = s := by
      cases fuel <;> exact (Option.some.inj hw).symm
    subst hs
    exact ⟨rfl, fun _ => rfl, ⟨kept ++ [], hl, fun c hc _ => hc⟩, fun h l hl _ => hl⟩
  | cons p rest ih =>
    subst hproc
    cases fuel with
    | zero => exact absurd hw (by simp [reapWalk])
    | succ fuel =>
      have hnext : (s.info p).sibling = rest.head? := Linked.next_eq hl
      simp only [List.head?_cons, reapWalk] at hw
      by_cases hunused : s.state p = .unused
      · rw [if_pos hunused] at hw
        have hkeep : ∀ c ∈ kept ++ p :: rest, s.state c ≠ .unused ∨ c ∈ kept → c ∈ kept ++ rest := by
          intro c hc hor
          by_cases hcp : c = p
          · rcases hor with hor | hor
            · exact absurd hunused (hcp ▸ hor)
            · exact List.mem_append.mpr (Or.inl hor)
          · simpa [hcp] using hc
        -- with nothing passed the head of the list moves, and otherwise the link of the last one passed
        rcases List.eq_nil_or_concat kept with rfl | ⟨l, y, rfl⟩
        · simp only [List.getLast?_nil] at hw
          have hl' : Linked s.sibling rest.head? rest := hnext ▸ hl.2
          obtain ⟨hsched, hchildren, ⟨z, hz, hmem⟩, hlists⟩ :=
            @ih fuel [] _ { s with zombieList := (s.info p).sibling } (by rw [List.nil_append]; exact hl.2) hnext hw
          exact ⟨hsched, hchildren, ⟨z, hz, fun c hc hor => hmem c (hkeep c hc hor) hor⟩, hlists⟩
        · rw [List.concat_eq_append] at hl hw hkeep ⊢
          rw [List.getLast?_concat] at hw
          have hy : s.sibling y = some p := by
            rw [List.append_assoc, List.singleton_append] at hl
            exact Linked.next_eq hl
          have hsib : (s.modInfo y fun x => { x with sibling := (s.info p).sibling }).sibling =
            Function.update s.sibling y (s.sibling p) := modSibling_sibling s y _
          have hl' : Linked (Function.update s.sibling y (s.sibling p)) s.zombieList ((l ++ [y]) ++ rest) := by
            rw [List.append_assoc, List.singleton_append] at hl ⊢
            exact Linked.unlink hl
          rw [← hsib] at hl'
          have hw : reapWalk fuel (s.info p).sibling (l ++ [y]).getLast?
              (s.modInfo y fun x => { x with sibling := (s.info p).sibling }) = some s' := by
            rw [List.getLast?_concat]
            exact hw
          obtain ⟨hsched, hchildren, ⟨z, hz, hmem⟩, hlists⟩ := ih hl' hnext hw
          refine ⟨hsched, fun q => (hchildren q).trans (modSibling_children s y q _),
            ⟨z, hz, fun c hc hor => hmem c (hkeep c hc hor) hor⟩, ?_⟩
          intro h l' hl'' hused
          refine hlists h l' ?_ hused
          rw [hsib]
          exact unlink_free hy hunused hl'' hused
      · rw [if_neg hunused] at hw
        have hlast : some p = (kept ++ [p]).getLast? := List.getLast?_concat.symm
        rw [hlast] at hw
        have hsplit : kept ++ p :: rest = (kept ++ [p]) ++ rest := by simp
        rw [hsplit] at hl
        obtain ⟨hsched, hchildren, ⟨z, hz, hmem⟩, hlists⟩ := ih hl hnext hw
        refine ⟨hsched, hchildren, ⟨z, hz, ?_⟩, hlists⟩
        intro c hc hor
        refine hmem c (hsplit ▸ hc) ?_
        rcases hor with hor | hor
        · exact Or.inl hor
        · exact Or.inr (List.mem_append.mpr (Or.inl hor))

theorem KinInv.reap {s : Kin μ} (h : KinInv s) {t : ProcTable μ}
    (hr : processReapZombies s.table = some t) : KinInv { s with table := t } := by
  obtain ⟨z, hz, -, hzmem⟩ := h.ok.zombies
  obtain ⟨hsched, hchildren, ⟨z', hz', hkeep⟩, hlists⟩ := @reapWalk_spec _ z maxProcesses [] _ _ _ hz hz.head_eq hr
  refine ⟨⟨?_, z', hz', hz'.nodup, ?_⟩, ?_, h.kin⟩
  · intro p hp
    obtain ⟨l, hl, hnd, hmem⟩ := h.ok.children p hp
    refine ⟨l, ?_, hnd, hmem⟩
    show Linked t.sibling (t.info p).children l
    rw [hchildren p]
    exact hlists _ l hl fun c hc => h.used c (h.kin c p ((hmem c).mp hc)).1
  · intro c hc
    have hc : s.fate c = .exited := hc
    exact hkeep c (hzmem c hc) (Or.inl (h.used c (by rw [hc]; decide)))
  · intro p hp
    show t.state p ≠ .unused
    rw [ProcTable.state, hsched]
    exact h.used p hp

/-! ## Runs -/

/-- **Step lemma** for the lists. -/
theorem KinInv.step {ops : MemOps μ} {s s' : Kin μ} {op : FamilyOp} (h : KinInv s)
    (hkeeps : KinKeeps s op) (hs : kinStep ops s op = some s') : KinInv s' := by
  cases op with
  | create attr =>
    obtain ⟨r, hr, rfl⟩ := Option.map_eq_some_iff.mp hs
    exact h.create hr hkeeps
  | exit cpu code =>
    obtain ⟨p, hp, hs⟩ := Option.bind_eq_some_iff.mp hs
    obtain ⟨t, ht, rfl⟩ := Option.map_eq_some_iff.mp hs
    obtain ⟨hoff, hnext⟩ := hkeeps p hp
    exact h.exit (Kin.caller_eq_some.mp hp).2 ht hoff hnext
  | wait cpu pid nohang =>
    obtain ⟨p, hp, hs⟩ := Option.bind_eq_some_iff.mp hs
    obtain ⟨r, hr, rfl⟩ := Option.map_eq_some_iff.mp hs
    obtain ⟨hcur, halive⟩ := Kin.caller_eq_some.mp hp
    rcases processWait_cases hcur hr with ⟨c, prev, hf, htable⟩ | ⟨hf, hinfo, hzombies, hstate⟩
    · simp only [hf]
      rw [htable]
      exact h.bury (by rw [halive]; decide) hf
    · simp only [hf]
      exact h.congr hinfo hzombies fun q hq => StateFrame.used hstate hq
  | reap =>
    obtain ⟨t, ht, rfl⟩ := Option.map_eq_some_iff.mp hs
    exact h.reap ht
  | sched op =>
    obtain ⟨t, ht, rfl⟩ := Option.map_eq_some_iff.mp hs
    exact h.congr rfl rfl fun q hq => StateFrame.used (schedStep_frame ht) hq

/-- A step outside the guard breaks a list at once. -/
theorem KinInv.step_breaks {ops : MemOps μ} {s s' : Kin μ} {op : FamilyOp} (h : KinInv s)
    (hbad : ¬KinKeeps s op) (hs : kinStep ops s op = some s') : ¬KinOk s' := by
  cases op with
  | create attr =>
    obtain ⟨r, hr, rfl⟩ := Option.map_eq_some_iff.mp hs
    exact create_loses hr hbad
  | exit cpu code =>
    obtain ⟨p, hp, hs⟩ := Option.bind_eq_some_iff.mp hs
    obtain ⟨t, ht, rfl⟩ := Option.map_eq_some_iff.mp hs
    refine h.exit_breaks ht fun hboth => hbad ?_
    intro q hq
    exact Option.some.inj (hp.symm.trans hq) ▸ hboth
  | wait cpu pid nohang => exact absurd trivial hbad
  | reap => exact absurd trivial hbad
  | sched op => exact absurd trivial hbad

/-- **When the family lists stay right.** From any state whose children lists are well
    formed and that has no zombies, in any run of creations, exits, waits, reaps and
    scheduler calls: every children list enumerates exactly the unreaped children and the
    zombie list every unreaped zombie in every state of the run, if and only if every step
    meets `KinKeeps`. -/
theorem kinOk_iff (ops : MemOps μ) (s : Kin μ) (hstart : KinStart s) (is : List FamilyOp) :
    Always (kinStep ops) KinOk s is ↔ Meets (kinStep ops) KinKeeps s is :=
  always_iff_meets (fun _ h => h.ok) (fun _ _ _ h hg hs => h.step hg hs)
    (fun _ _ _ h hbad hs => h.step_breaks hbad hs) hstart.inv

/-! A parent in slot 0 with the children 1 and 2, each running on a CPU of its own. -/

def twoChildrenTable : ProcTable Nat where
  sched :=
    { procs := fun p => { Process.zero with state := if p.val < 3 then .running else .unused }
      runqueues := fun c =>
        { Runqueue.empty with current := if c = 0 then some 1 else if c = 1 then some 2 else none }
      numCpus := 2
      waitHead := fun _ => none }
  info := fun p =>
    { ProcInfo.zero with
      pid := p.val + 1
      children := if p = 0 then some 1 else none
      sibling := if p = 1 then some 2 else none }
  pidBitmap := Function.update (fun _ => 0) 0 15
  numProcesses := 3
  zombieList := none
  mem := 0x50000000

def twoChildren : Kin Nat where
  table := twoChildrenTable
  fate := fun p => if p.val < 3 then .alive else .free
  parentOf := fun p => if p = 1 ∨ p = 2 then some 0 else none

theorem twoChildren_start : KinStart twoChildren where
  ok := by
    refine ⟨?_, [], rfl, List.nodup_nil, ?_⟩
    · intro p _
      by_cases hp : p = 0
      · subst hp
        refine ⟨[1, 2], ⟨rfl, rfl, rfl⟩, by decide, ?_⟩
        intro c
        simp [twoChildren, or_iff_not_imp_left]
      · refine ⟨[], by simp [twoChildren, twoChildrenTable, hp], List.nodup_nil, ?_⟩
        intro c
        simp [twoChildren, Ne.symm hp]
    · intro c hc
      simp only [twoChildren] at hc
      split at hc <;> exact absurd hc (by decide)
  empty := rfl
  used := by
    intro p
    by_cases hp : p.val < 3 <;> simp [twoChildren, twoChildrenTable, ProcTable.state, hp]
  zombie := by
    intro p
    by_cases hp : p.val < 3 <;> simp [twoChildren, twoChildrenTable, ProcTable.state, hp]
  kin := by
    intro c p hc
    simp only [twoChildren] at hc ⊢
    split at hc
    · rename_i hor
      obtain rfl := Option.some.inj hc
      rcases hor with rfl | rfl <;> decide
    · exact absurd hc (by simp)

def secondExited : Kin Nat := (kinStep upwardOps twoChildren (.exit 1 7)).getD twoChildren

/-- The younger child exits first, then the elder: nothing is overwritten. -/
theorem kinOk_last_first :
    Always (kinStep upwardOps) KinOk twoChildren [.exit 1 7, .exit 0 7] := by
  refine (kinOk_iff upwardOps twoChildren twoChildren_start [.exit 1 7, .exit 0 7]).mpr ?_
  intro s hs
  have hfirst : KinKeeps twoChildren (.exit 1 7) := by
    intro p hp
    have hp₂ : some 2 = some p := Eq.trans (by decide +kernel) hp
    obtain rfl := Option.some.inj hp₂
    refine ⟨fun z hz => ?_, fun _ => by decide +kernel⟩
    have hnil : Linked twoChildren.table.sibling twoChildren.table.zombieList [] := rfl
    rw [Linked.unique hz hnil]
    simp
  refine ⟨hfirst, ?_⟩
  have hs' : kinStep upwardOps twoChildren (.exit 1 7) = some secondExited :=
    eq_some_getD twoChildren (by decide +kernel)
  obtain rfl := Option.some.inj (hs.symm.trans hs')
  intro s' _
  refine ⟨?_, trivial⟩
  intro p hp
  have hp₁ : some 1 = some p := Eq.trans (by decide +kernel) hp
  obtain rfl := Option.some.inj hp₁
  refine ⟨fun z hz => ?_, fun _ => by decide +kernel⟩
  have hz₂ : Linked secondExited.table.sibling secondExited.table.zombieList [2] := by
    refine ⟨?_, ?_⟩
    · decide +kernel
    · show secondExited.table.sibling 2 = none
      decide +kernel
  rw [Linked.unique hz hz₂]
  decide

/-- The elder child exits first, and takes its brother off the list. -/
theorem first_exit_loses_second :
    KinStart twoChildren ∧ ¬Always (kinStep upwardOps) KinOk twoChildren [.exit 0 7] := by
  refine ⟨twoChildren_start, fun h => ?_⟩
  have hs : kinStep upwardOps twoChildren (.exit 0 7) =
      some ((kinStep upwardOps twoChildren (.exit 0 7)).getD twoChildren) :=
    eq_some_getD twoChildren (by decide +kernel)
  refine twoChildren_start.inv.step_breaks (fun hkeeps => ?_) hs (h.2 _ hs)
  have hnext := (hkeeps 1 (by decide +kernel)).2 (by decide +kernel)
  exact absurd hnext (by decide +kernel)

end Crimson.Proc

import Mathlib.Data.List.Basic

/-!
# Runs of a partial step function

A system is a step function `step : σ → ι → Option σ`: the label says which
operation is taken (and with which arguments, or by which party), and `none` says
that the operation is not possible in that state. A run is a list of labels.

Three predicates speak about *all* the states of a run, not about its last one:

* `Always P`: `P` holds in the first state and in every state reached after it;
* `Meets g`: every step taken satisfies the guard `g`, read in the state before it;
* `AlwaysStep R`: every step taken satisfies the step property `R`.

`always_of_meets` is the invariant rule, relative to a guard, and `always_iff_meets`
is its sharp form: when a step outside the guard breaks the property at once, the
runs on which the property holds throughout are exactly the guarded ones.
-/

set_option autoImplicit false

namespace Crimson.Lib

variable {σ ι : Type*}

/-- The state a list of steps leads to, if every one of them is possible. -/
def run (step : σ → ι → Option σ) : σ → List ι → Option σ
  | s, [] => some s
  | s, i :: is => (step s i).bind fun s' => run step s' is

/-- A result that is there is its value: the form in which a run on fixed inputs is evaluated. -/
theorem eq_some_getD {α : Type*} {o : Option α} (d : α) (h : o.isSome = true) : o = some (o.getD d) := by
  cases o with
  | none => exact absurd h (by simp)
  | some a => rfl

/-- `P` in every state of the run, the first one included. -/
def Always (step : σ → ι → Option σ) (P : σ → Prop) : σ → List ι → Prop
  | s, [] => P s
  | s, i :: is => P s ∧ ∀ s', step s i = some s' → Always step P s' is

/-- Every step of the run that is taken satisfies `g` in the state before it. -/
def Meets (step : σ → ι → Option σ) (g : σ → ι → Prop) : σ → List ι → Prop
  | _, [] => True
  | s, i :: is => ∀ s', step s i = some s' → g s i ∧ Meets step g s' is

/-- Every step of the run that is taken satisfies `R`. -/
def AlwaysStep (step : σ → ι → Option σ) (R : σ → ι → σ → Prop) : σ → List ι → Prop
  | _, [] => True
  | s, i :: is => ∀ s', step s i = some s' → R s i s' ∧ AlwaysStep step R s' is

variable {step : σ → ι → Option σ} {P Q : σ → Prop} {g : σ → ι → Prop}

theorem Always.head {s : σ} {is : List ι} (h : Always step P s is) : P s := by
  cases is with
  | nil => exact h
  | cons i is => exact h.1

theorem Always.mono (hPQ : ∀ s, P s → Q s) {is : List ι} {s : σ}
    (h : Always step P s is) : Always step Q s is := by
  induction is generalizing s with
  | nil => exact hPQ s h
  | cons i is ih =>
    refine ⟨hPQ s h.1, ?_⟩
    intro s' hs
    exact ih (h.2 s' hs)

/-- What holds throughout a run holds where it ends. -/
theorem Always.last {is : List ι} {s s' : σ} (h : Always step P s is)
    (hr : run step s is = some s') : P s' := by
  induction is generalizing s with
  | nil =>
    simp only [run, Option.some.injEq] at hr
    exact hr ▸ h
  | cons i is ih =>
    simp only [run, Option.bind_eq_some_iff] at hr
    obtain ⟨t, ht, hr⟩ := hr
    exact ih (h.2 t ht) hr

theorem meets_of_forall {is : List ι} {s : σ} (h : ∀ s, ∀ i ∈ is, g s i) : Meets step g s is := by
  induction is generalizing s with
  | nil => trivial
  | cons i is ih =>
    intro s' _
    exact ⟨h s i (by simp), ih fun t j hj => h t j (by simp [hj])⟩

theorem Meets.mono {g' : σ → ι → Prop} (h : ∀ s i, g s i → g' s i) {is : List ι} {s : σ}
    (hg : Meets step g s is) : Meets step g' s is := by
  induction is generalizing s with
  | nil => trivial
  | cons i is ih =>
    intro s' hs
    obtain ⟨hgi, hrest⟩ := hg s' hs
    exact ⟨h s i hgi, ih hrest⟩

theorem Meets.and {g' : σ → ι → Prop} {is : List ι} {s : σ} (h : Meets step g s is)
    (h' : Meets step g' s is) : Meets step (fun s i => g s i ∧ g' s i) s is := by
  induction is generalizing s with
  | nil => trivial
  | cons i is ih =>
    intro s' hs
    obtain ⟨hg, hrest⟩ := h s' hs
    obtain ⟨hg', hrest'⟩ := h' s' hs
    exact ⟨⟨hg, hg'⟩, ih hrest hrest'⟩

theorem meets_append {is js : List ι} {s : σ} (h : Meets step g s is)
    (h' : ∀ s', run step s is = some s' → Meets step g s' js) : Meets step g s (is ++ js) := by
  induction is generalizing s with
  | nil => exact h' s rfl
  | cons i is ih =>
    intro s' hs
    obtain ⟨hgi, hrest⟩ := h s' hs
    refine ⟨hgi, ih hrest ?_⟩
    intro t ht
    refine h' t ?_
    rw [run, hs]
    exact ht

/-- A check of every step that is taken, which a run on fixed inputs evaluates. -/
def checkSteps (step : σ → ι → Option σ) (check : σ → ι → Bool) : σ → List ι → Bool
  | _, [] => true
  | s, i :: is =>
    match step s i with
    | none => true
    | some s' => check s i && checkSteps step check s' is

theorem meets_of_check (check : σ → ι → Bool) (h : ∀ s i, check s i = true → g s i) {is : List ι} {s : σ}
    (hc : checkSteps step check s is = true) : Meets step g s is := by
  induction is generalizing s with
  | nil => trivial
  | cons i is ih =>
    intro s' hs
    simp only [checkSteps, hs, Bool.and_eq_true] at hc
    exact ⟨h s i hc.1, ih hc.2⟩

/-- **The invariant rule, relative to a guard**: a property that every guarded step
    preserves holds in every state of a guarded run. -/
theorem always_of_meets (hstep : ∀ s i s', P s → g s i → step s i = some s' → P s')
    {is : List ι} {s : σ} (hP : P s) (hg : Meets step g s is) : Always step P s is := by
  induction is generalizing s with
  | nil => exact hP
  | cons i is ih =>
    refine ⟨hP, ?_⟩
    intro s' hs
    obtain ⟨hgi, hrest⟩ := hg s' hs
    exact ih (hstep s i s' hP hgi hs) hrest

/-- A guard that an invariant implies is met throughout. -/
theorem meets_of_invariant {I : σ → Prop} (hIg : ∀ s i, I s → g s i)
    (hstep : ∀ s i s', I s → step s i = some s' → I s') {is : List ι} {s : σ} (hI : I s) :
    Meets step g s is := by
  induction is generalizing s with
  | nil => trivial
  | cons i is ih =>
    intro s' hs
    exact ⟨hIg s i hI, ih (hstep s i s' hI hs)⟩

/-- The invariant rule with no guard. -/
theorem always_of_step (hstep : ∀ s i s', P s → step s i = some s' → P s')
    {is : List ι} {s : σ} (hP : P s) : Always step P s is := by
  induction is generalizing s with
  | nil => exact hP
  | cons i is ih =>
    refine ⟨hP, ?_⟩
    intro s' hs
    exact ih (hstep s i s' hP hs)

/-- A step property that follows from an invariant holds at every step of a run on
    which the invariant holds and the guard is met. -/
theorem alwaysStep_of_always {R : σ → ι → σ → Prop}
    (hR : ∀ s i s', P s → g s i → step s i = some s' → R s i s')
    {is : List ι} {s : σ} (hP : Always step P s is) (hg : Meets step g s is) :
    AlwaysStep step R s is := by
  induction is generalizing s with
  | nil => trivial
  | cons i is ih =>
    intro s' hs
    exact ⟨hR s i s' hP.1 (hg s' hs).1 hs, ih (hP.2 s' hs) (hg s' hs).2⟩

/-- **The sharp invariant rule**, on runs whose every step meets an assumption `a`. `I`
    is an invariant of guarded steps that implies `P`; a step outside the guard taken
    from `I` ends in a state without `P`. Then `P` holds throughout a run exactly when
    every step of the run meets the guard. -/
theorem always_iff_meets_assuming {I : σ → Prop} {a : σ → ι → Prop} (hIP : ∀ s, I s → P s)
    (hstep : ∀ s i s', I s → a s i → g s i → step s i = some s' → I s')
    (hbad : ∀ s i s', I s → a s i → ¬ g s i → step s i = some s' → ¬ P s')
    {is : List ι} {s : σ} (hI : I s) (ha : Meets step a s is) :
    Always step P s is ↔ Meets step g s is := by
  induction is generalizing s with
  | nil => exact ⟨fun _ => trivial, fun _ => hIP s hI⟩
  | cons i is ih =>
    constructor
    · intro h s' hs
      obtain ⟨hai, harest⟩ := ha s' hs
      have hg : g s i := by
        by_contra hng
        exact hbad s i s' hI hai hng hs (h.2 s' hs).head
      exact ⟨hg, (ih (hstep s i s' hI hai hg hs) harest).mp (h.2 s' hs)⟩
    · intro h
      refine ⟨hIP s hI, ?_⟩
      intro s' hs
      obtain ⟨hg, hrest⟩ := h s' hs
      obtain ⟨hai, harest⟩ := ha s' hs
      exact (ih (hstep s i s' hI hai hg hs) harest).mpr hrest

theorem meets_true {is : List ι} {s : σ} : Meets step (fun _ _ => True) s is := by
  induction is generalizing s with
  | nil => trivial
  | cons i is ih =>
    intro s' _
    exact ⟨trivial, ih⟩

/-- The sharp invariant rule with no assumption. -/
theorem always_iff_meets {I : σ → Prop} (hIP : ∀ s, I s → P s)
    (hstep : ∀ s i s', I s → g s i → step s i = some s' → I s')
    (hbad : ∀ s i s', I s → ¬ g s i → step s i = some s' → ¬ P s')
    {is : List ι} {s : σ} (hI : I s) : Always step P s is ↔ Meets step g s is :=
  always_iff_meets_assuming hIP (fun s i s' h _ => hstep s i s' h) (fun s i s' h _ => hbad s i s' h)
    hI meets_true

/-- Guards that an invariant and an assumption make equivalent are met by the same runs. -/
theorem meets_iff_assuming {I : σ → Prop} {a g' : σ → ι → Prop} (hkeep : ∀ s i s', I s → step s i = some s' → I s')
    (hiff : ∀ s i s', I s → a s i → step s i = some s' → (g s i ↔ g' s i)) {is : List ι} {s : σ} (hI : I s)
    (ha : Meets step a s is) : Meets step g s is ↔ Meets step g' s is := by
  induction is generalizing s with
  | nil => exact Iff.rfl
  | cons i is ih =>
    refine forall₂_congr fun s' hs => ?_
    obtain ⟨hai, harest⟩ := ha s' hs
    exact and_congr (hiff s i s' hI hai hs) (ih (hkeep s i s' hI hs) harest)

/-- **The sharp rule for a step property**: where, given an invariant of all steps, a step
    has `R` exactly when it was guarded, a run has `R` throughout exactly when it is guarded. -/
theorem alwaysStep_iff_meets {I : σ → Prop} {R : σ → ι → σ → Prop}
    (hkeep : ∀ s i s', I s → step s i = some s' → I s')
    (hiff : ∀ s i s', I s → step s i = some s' → (R s i s' ↔ g s i)) {is : List ι} {s : σ} (hI : I s) :
    AlwaysStep step R s is ↔ Meets step g s is := by
  induction is generalizing s with
  | nil => exact Iff.rfl
  | cons i is ih => exact forall₂_congr fun s' hs => and_congr (hiff s i s' hI hs) (ih (hkeep s i s' hI hs))

/-- **The sharp rule for a state property and a step property together.** `I` is kept by
    every step. A guarded step from `P` keeps `P` and has `R`; a step that keeps `P` and has
    `R` was guarded. Then the two hold throughout a run exactly when `P` holds at its start
    and every step meets the guard. -/
theorem always_step_iff {I : σ → Prop} {R : σ → ι → σ → Prop}
    (hkeep : ∀ s i s', I s → step s i = some s' → I s')
    (hstep : ∀ s i s', I s → P s → g s i → step s i = some s' → P s' ∧ R s i s')
    (hback : ∀ s i s', I s → P s → step s i = some s' → P s' → R s i s' → g s i)
    {is : List ι} {s : σ} (hI : I s) :
    (Always step P s is ∧ AlwaysStep step R s is) ↔ (P s ∧ Meets step g s is) := by
  induction is generalizing s with
  | nil => exact ⟨fun h => ⟨h.1, trivial⟩, fun h => ⟨h.1, trivial⟩⟩
  | cons i is ih =>
    constructor
    · rintro ⟨⟨hP, hrest⟩, hR⟩
      refine ⟨hP, ?_⟩
      intro s' hs
      obtain ⟨hRi, hRrest⟩ := hR s' hs
      have hnext := (ih (hkeep s i s' hI hs)).mp ⟨hrest s' hs, hRrest⟩
      exact ⟨hback s i s' hI hP hs hnext.1 hRi, hnext.2⟩
    · rintro ⟨hP, hg⟩
      have hnext : ∀ s', step s i = some s' →
          R s i s' ∧ Always step P s' is ∧ AlwaysStep step R s' is := by
        intro s' hs
        obtain ⟨hgi, hgrest⟩ := hg s' hs
        obtain ⟨hP', hRi⟩ := hstep s i s' hI hP hgi hs
        exact ⟨hRi, (ih (hkeep s i s' hI hs)).mpr ⟨hP', hgrest⟩⟩
      exact ⟨⟨hP, fun s' hs => (hnext s' hs).2.1⟩, fun s' hs => ⟨(hnext s' hs).1, (hnext s' hs).2.2⟩⟩

/-- **The sharp rule with an invariant that only guarded steps keep.** Under an assumption `a` on the
    steps, a guarded step keeps `I` and has `R`, and a step after which `P` holds and that
    has `R` was guarded. -/
theorem always_step_iff_assuming {I : σ → Prop} {a : σ → ι → Prop} {R : σ → ι → σ → Prop} (hIP : ∀ s, I s → P s)
    (hstep : ∀ s i s', I s → a s i → g s i → step s i = some s' → I s' ∧ R s i s')
    (hback : ∀ s i s', I s → a s i → step s i = some s' → P s' → R s i s' → g s i)
    {is : List ι} {s : σ} (hI : I s) (ha : Meets step a s is) :
    (Always step P s is ∧ AlwaysStep step R s is) ↔ Meets step g s is := by
  induction is generalizing s with
  | nil => exact ⟨fun _ => trivial, fun _ => ⟨hIP s hI, trivial⟩⟩
  | cons i is ih =>
    constructor
    · rintro ⟨⟨-, hrest⟩, hR⟩
      intro s' hs
      obtain ⟨hRi, hRrest⟩ := hR s' hs
      obtain ⟨hai, harest⟩ := ha s' hs
      have hgi := hback s i s' hI hai hs (hrest s' hs).head hRi
      exact ⟨hgi, (ih (hstep s i s' hI hai hgi hs).1 harest).mp ⟨hrest s' hs, hRrest⟩⟩
    · intro hg
      have hnext : ∀ s', step s i = some s' →
          R s i s' ∧ Always step P s' is ∧ AlwaysStep step R s' is := by
        intro s' hs
        obtain ⟨hgi, hgrest⟩ := hg s' hs
        obtain ⟨hai, harest⟩ := ha s' hs
        obtain ⟨hI', hRi⟩ := hstep s i s' hI hai hgi hs
        exact ⟨hRi, (ih hI' harest).mpr hgrest⟩
      exact ⟨⟨hIP s hI, fun s' hs => (hnext s' hs).2.1⟩, fun s' hs => ⟨(hnext s' hs).1, (hnext s' hs).2.2⟩⟩

/-- **Simulation**: when every step is matched by a step of another system, so is every run. -/
theorem run_simulates {τ κ : Type*} {astep : τ → κ → Option τ} {R : σ → τ → Prop} {f : ι → κ}
    (h : ∀ s i s' t, R s t → step s i = some s' → ∃ t', astep t (f i) = some t' ∧ R s' t')
    {is : List ι} {s s' : σ} {t : τ} (hR : R s t) (hr : run step s is = some s') :
    ∃ t', run astep t (is.map f) = some t' ∧ R s' t' := by
  induction is generalizing s t with
  | nil =>
    simp only [run, Option.some.injEq] at hr
    exact ⟨t, rfl, hr ▸ hR⟩
  | cons i is ih =>
    simp only [run, Option.bind_eq_some_iff] at hr
    obtain ⟨u, hu, hr⟩ := hr
    obtain ⟨v, hv, hRv⟩ := h s i u t hR hu
    obtain ⟨t', ht', hRt'⟩ := ih hRv hr
    refine ⟨t', ?_, hRt'⟩
    rw [List.map_cons, run, hv]
    exact ht'

theorem run_append {is js : List ι} {s : σ} : run step s (is ++ js) = (run step s is).bind fun t => run step t js := by
  induction is generalizing s with
  | nil => rfl
  | cons i is ih => simp [run, Option.bind_assoc, ih]

/-- The steps behind any state that a guarded run passes are guarded. -/
theorem Meets.behind {is js : List ι} {s t : σ} (h : Meets step g s (is ++ js)) (hr : run step s is = some t) :
    Meets step g t js := by
  induction is generalizing s with
  | nil =>
    obtain rfl := Option.some.inj hr
    exact h
  | cons i is ih =>
    simp only [run, Option.bind_eq_some_iff] at hr
    obtain ⟨u, hu, hr⟩ := hr
    exact ih (h u hu).2 hr

/-- And so are those before it. -/
theorem Meets.before {is js : List ι} {s : σ} (h : Meets step g s (is ++ js)) : Meets step g s is := by
  induction is generalizing s with
  | nil => trivial
  | cons i is ih =>
    intro t ht
    obtain ⟨hgi, hrest⟩ := h t ht
    exact ⟨hgi, ih hrest⟩

/-- What holds of every step of a run holds of the steps behind any state it passes. -/
theorem AlwaysStep.behind {R : σ → ι → σ → Prop} {is js : List ι} {s t : σ} (h : AlwaysStep step R s (is ++ js))
    (hr : run step s is = some t) : AlwaysStep step R t js := by
  induction is generalizing s with
  | nil =>
    obtain rfl := Option.some.inj hr
    exact h
  | cons i is ih =>
    simp only [run, Option.bind_eq_some_iff] at hr
    obtain ⟨u, hu, hr⟩ := hr
    exact ih (h u hu).2 hr

/-- **From steps to a run**: a reflexive and transitive relation that every step has, the
    whole run has. -/
theorem AlwaysStep.relates {R : σ → ι → σ → Prop} {T : σ → σ → Prop} (hrefl : ∀ s, T s s)
    (htrans : ∀ s t u, T s t → T t u → T s u) {is : List ι} (hT : ∀ s, ∀ i ∈ is, ∀ t, R s i t → T s t) {s s' : σ}
    (h : AlwaysStep step R s is) (hr : run step s is = some s') : T s s' := by
  induction is generalizing s with
  | nil =>
    obtain rfl := Option.some.inj hr
    exact hrefl s
  | cons i is ih =>
    simp only [run, Option.bind_eq_some_iff] at hr
    obtain ⟨t, ht, hr⟩ := hr
    obtain ⟨hi, hrest⟩ := h t ht
    refine htrans s t s' (hT s i List.mem_cons_self t hi) ?_
    exact ih (fun s j hj => hT s j (List.mem_cons_of_mem i hj)) hrest hr

/-- **The progress rule.** While `P` lasts, the counter of the state goes up with each step that `b`
    counts, but the invariant `I` bounds it by `B`. Then a run that counts beyond `B` has a step that ends
    `P`, and at most the step that would take the counter to `B + 1`. -/
theorem exists_leaving_step {I : σ → Prop} {count : σ → Nat} {b : ι → Bool} {B : Nat}
    (hkeep : ∀ s i s', I s → g s i → step s i = some s' → I s') (hbound : ∀ s, I s → count s ≤ B)
    (hcount : ∀ s i s', I s → g s i → P s → step s i = some s' → P s' → count s' = count s + [i].countP b)
    {is : List ι} {s s' : σ} (hI : I s) (hP : P s) (hg : Meets step g s is) (hr : run step s is = some s')
    (hlong : B < count s + is.countP b) :
    ∃ pre i post t t', is = pre ++ i :: post ∧ count s + (pre ++ [i]).countP b ≤ B + 1 ∧ run step s pre = some t ∧
      step t i = some t' ∧ I t ∧ g t i ∧ P t ∧ ¬ P t' := by
  induction is generalizing s with
  | nil =>
    have hle := hbound s hI
    rw [List.countP_nil] at hlong
    omega
  | cons i is ih =>
    simp only [run, Option.bind_eq_some_iff] at hr
    obtain ⟨u, hu, hr⟩ := hr
    obtain ⟨hgi, hg⟩ := hg u hu
    by_cases hPu : P u
    · have hcu := hcount s i u hI hgi hP hu hPu
      have hsplit (js : List ι) : (i :: js).countP b = [i].countP b + js.countP b := by
        rw [← List.singleton_append, List.countP_append]
      rw [hsplit] at hlong
      obtain ⟨pre, j, post, t, t', rfl, hle, ht, hj⟩ := ih (hkeep s i u hI hgi hu) hPu hg hr (by omega)
      refine ⟨i :: pre, j, post, t, t', rfl, ?_, ?_, hj⟩
      · rw [List.cons_append, hsplit]
        omega
      · rw [run, hu]
        exact ht
    · have hle := hbound s hI
      have hone : [i].countP b ≤ 1 := List.countP_le_length
      refine ⟨[], i, is, s, u, rfl, ?_, rfl, hu, hI, hgi, hP, hPu⟩
      rw [List.nil_append]
      omega

/-- A set that holds the first state and is closed under the steps holds the last one. -/
theorem run_mem {S : σ → Prop} (hstep : ∀ s i s', S s → step s i = some s' → S s') {is : List ι} {s s' : σ}
    (hs : S s) (hr : run step s is = some s') : S s' :=
  (always_of_step hstep hs).last hr

end Crimson.Lib

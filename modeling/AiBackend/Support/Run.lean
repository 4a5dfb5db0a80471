import Mathlib.Algebra.GroupWithZero.Nat
import Mathlib.Data.List.Basic
import Mathlib.Data.List.Induction

/-!
# Runs of a state machine

A step function and a list of inputs determine a run.  The rules below turn
facts about one step into facts about every transition of a run: an invariant
under a condition on the steps taken, and an equivalence between a law of the
transitions and a condition on them.
-/

namespace AiBackend.Run

variable {σ ι : Type}

/-- One transition of a run. -/
structure Transition (σ ι : Type) where
  before : σ
  input : ι
  after : σ

/-- The transitions of the run on a list of inputs, in order. -/
def trace (step : σ → ι → σ) : σ → List ι → List (Transition σ ι)
  | _, [] => []
  | s, i :: inputs => ⟨s, i, step s i⟩ :: trace step (step s i) inputs

/-- The state in which the run ends. -/
def final (step : σ → ι → σ) (s : σ) (inputs : List ι) : σ :=
  inputs.foldl step s

theorem final_append (step : σ → ι → σ) (s : σ) (inputs later : List ι) :
    final step s (inputs ++ later) = final step (final step s inputs) later :=
  List.foldl_append

theorem trace_append (step : σ → ι → σ) (s : σ) (inputs later : List ι) :
    trace step s (inputs ++ later) =
      trace step s inputs ++ trace step (final step s inputs) later := by
  induction inputs generalizing s with
  | nil => rfl
  | cons i inputs ih =>
      rw [List.cons_append, trace, trace, ih, List.cons_append]
      rfl

theorem input_mem_of_mem_trace {step : σ → ι → σ} {s : σ} {inputs : List ι}
    {t : Transition σ ι} (h : t ∈ trace step s inputs) : t.input ∈ inputs := by
  induction inputs generalizing s with
  | nil => cases h
  | cons i inputs ih =>
      rw [trace, List.mem_cons] at h
      rcases h with rfl | h
      · exact List.mem_cons_self
      · exact List.mem_cons_of_mem _ (ih h)

/-- A run that takes a step ends in the state behind one of its transitions. -/
theorem exists_after_eq_final (step : σ → ι → σ) (s : σ) (i : ι) (inputs : List ι) :
    ∃ t ∈ trace step s (i :: inputs), t.after = final step s (i :: inputs) := by
  induction inputs generalizing s i with
  | nil => exact ⟨_, List.mem_cons_self, rfl⟩
  | cons j inputs ih =>
      obtain ⟨t, ht, hafter⟩ := ih (step s i) j
      exact ⟨t, List.mem_cons_of_mem _ ht, hafter⟩

/-- A condition met by every step keeps an invariant that one such step
preserves. -/
theorem final_of_steps {step : σ → ι → σ} {I : σ → Prop}
    (Good : σ → ι → Prop) (hstep : ∀ s i, I s → Good s i → I (step s i))
    {s : σ} {inputs : List ι} (hs : I s)
    (hgood : ∀ t ∈ trace step s inputs, Good t.before t.input) :
    I (final step s inputs) := by
  induction inputs generalizing s with
  | nil => exact hs
  | cons i inputs ih =>
      refine ih (hstep s i hs (hgood ⟨s, i, step s i⟩ (by simp [trace]))) ?_
      intro t ht
      exact hgood t (by simp [trace, ht])

/-- The last output of a run. -/
def lastOutput {α : Type} (out : Transition σ ι → Option α) (ts : List (Transition σ ι)) :
    Option α :=
  (ts.filterMap out).getLast?

theorem lastOutput_append {α : Type} (out : Transition σ ι → Option α)
    (ts later : List (Transition σ ι)) :
    lastOutput out (ts ++ later) = (lastOutput out later).or (lastOutput out ts) := by
  rw [lastOutput, List.filterMap_append, List.getLast?_append]
  rfl

/-- A state records the last output if every output is recorded when it is
made, and kept by the steps that make none. -/
theorem final_of_lastOutput {α : Type} {step : σ → ι → σ} {I : σ → Prop}
    {R : α → σ → Prop} {out : Transition σ ι → Option α} (Good : σ → ι → Prop)
    (hstep : ∀ s i, I s → Good s i → I (step s i))
    (hmade : ∀ s i a, I s → Good s i → out ⟨s, i, step s i⟩ = some a →
      R a (step s i))
    (hkept : ∀ s i a, I s → Good s i → out ⟨s, i, step s i⟩ = none → R a s →
      R a (step s i))
    {s : σ} {inputs : List ι} (hs : I s)
    (hgood : ∀ t ∈ trace step s inputs, Good t.before t.input) {a : α}
    (hlast : lastOutput out (trace step s inputs) = some a) :
    R a (final step s inputs) := by
  have hrecorded : ∀ (inputs : List ι) (s : σ), I s →
      (∀ t ∈ trace step s inputs, Good t.before t.input) →
      lastOutput out (trace step s inputs) = some a ∨
        lastOutput out (trace step s inputs) = none ∧ R a s →
      R a (final step s inputs) := by
    intro inputs
    induction inputs with
    | nil =>
        rintro s - - (hlast | ⟨-, hs⟩)
        · cases hlast
        · exact hs
    | cons i inputs ih =>
        intro s hs hgood hlast
        simp only [trace, List.forall_mem_cons] at hgood
        obtain ⟨hfirst, hrest⟩ := hgood
        refine ih (step s i) (hstep s i hs hfirst) hrest ?_
        cases hout : out ⟨s, i, step s i⟩ with
        | none =>
            simp only [lastOutput, trace, List.filterMap_cons, hout] at hlast ⊢
            exact hlast.imp id fun h => ⟨h.1, hkept s i a hs hfirst hout h.2⟩
        | some b =>
            simp only [lastOutput, trace, List.filterMap_cons, hout,
              List.getLast?_cons] at hlast ⊢
            rcases hlast with hlast | ⟨hnone, -⟩
            · cases hlater : ((trace step (step s i) inputs).filterMap out).getLast? with
              | some c => exact .inl (by simpa [hlater] using hlast)
              | none =>
                  obtain rfl : b = a := by simpa [hlater] using hlast
                  exact .inr ⟨rfl, hmade s i b hs hfirst hout⟩
            · cases hnone
  exact hrecorded inputs s hs hgood (Or.inl hlast)

/-- Under an invariant that such steps keep, every transition obeys whatever
law one such step obeys. -/
theorem trace_of_steps {step : σ → ι → σ} {I : σ → Prop}
    {L : Transition σ ι → Prop} (Good : σ → ι → Prop)
    (hstep : ∀ s i, I s → Good s i → I (step s i))
    (hlaw : ∀ s i, I s → Good s i → L ⟨s, i, step s i⟩)
    {s : σ} {inputs : List ι} (hs : I s)
    (hgood : ∀ t ∈ trace step s inputs, Good t.before t.input) :
    ∀ t ∈ trace step s inputs, L t := by
  induction inputs generalizing s with
  | nil => exact fun t ht => absurd ht List.not_mem_nil
  | cons i inputs ih =>
      simp only [trace, List.forall_mem_cons] at hgood ⊢
      obtain ⟨hfirst, hrest⟩ := hgood
      exact ⟨hlaw s i hs hfirst, ih (hstep s i hs hfirst) hrest⟩

/-- Under an invariant that lawful steps re-establish, a run is lawful at
every transition exactly when every step meets the condition that makes one
step lawful. -/
theorem trace_forall_iff {step : σ → ι → σ} {I : σ → Prop}
    {L : Transition σ ι → Prop} (Good : σ → ι → Prop)
    (hiff : ∀ s i, I s → (L ⟨s, i, step s i⟩ ↔ Good s i))
    (hinv : ∀ s i, I s → L ⟨s, i, step s i⟩ → I (step s i))
    {s : σ} (hs : I s) (inputs : List ι) :
    (∀ t ∈ trace step s inputs, L t) ↔
      ∀ t ∈ trace step s inputs, Good t.before t.input := by
  induction inputs generalizing s with
  | nil => simp [trace]
  | cons i inputs ih =>
      simp only [trace, List.forall_mem_cons]
      constructor
      · intro h
        obtain ⟨hlaw, hrest⟩ := h
        exact ⟨(hiff s i hs).mp hlaw, (ih (hinv s i hs hlaw)).mp hrest⟩
      · intro h
        obtain ⟨hgood, hrest⟩ := h
        have hlaw := (hiff s i hs).mpr hgood
        exact ⟨hlaw, (ih (hinv s i hs hlaw)).mpr hrest⟩

/-- What relates a state to the transitions that have led to it holds at the end
of a run, if it holds at the start and every step adds its transition to it, as
long as the transitions obey a law that also their beginnings obey. -/
theorem history_of_steps {step : σ → ι → σ} {I : List (Transition σ ι) → σ → Prop}
    {G : List (Transition σ ι) → Prop} (hshorter : ∀ past t, G (past ++ [t]) → G past)
    (hstep : ∀ past s i, I past s → G (past ++ [⟨s, i, step s i⟩]) →
      I (past ++ [⟨s, i, step s i⟩]) (step s i))
    {s : σ} (hs : I [] s) (inputs : List ι) (hgood : G (trace step s inputs)) :
    I (trace step s inputs) (final step s inputs) := by
  induction inputs using List.reverseRecOn with
  | nil => exact hs
  | append_singleton inputs i ih =>
      have htrace : trace step s (inputs ++ [i]) = trace step s inputs ++
          [⟨final step s inputs, i, step (final step s inputs) i⟩] :=
        trace_append step s inputs [i]
      rw [htrace] at hgood ⊢
      rw [final_append]
      exact hstep _ _ i (ih (hshorter _ _ hgood)) hgood

/-- If every step that counts lowers a potential, and every input raises it by
its credit at most, no run has more such steps than its potential and credits
add up to. -/
theorem countP_trace_le (step : σ → ι → σ) (potential : σ → ℕ) (credit : ι → ℕ)
    (p : Transition σ ι → Bool)
    (hstep : ∀ s i, potential (step s i) + (if p ⟨s, i, step s i⟩ then 1 else 0) ≤
      potential s + credit i) (s : σ) (inputs : List ι) :
    (trace step s inputs).countP p + potential (final step s inputs) ≤
      potential s + (inputs.map credit).sum := by
  induction inputs generalizing s with
  | nil => exact Nat.le_of_eq (Nat.zero_add _)
  | cons i inputs ih =>
      have hfirst := hstep s i
      have hrest := ih (step s i)
      rw [trace, List.countP_cons, List.map_cons, List.sum_cons]
      change _ + potential (final step (step s i) inputs) ≤ _
      omega

end AiBackend.Run

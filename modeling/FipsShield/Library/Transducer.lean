import Mathlib.Data.List.Induction

/-! Runs of a deterministic machine that answers every input with a list of
outputs, and the induction over whole runs that its invariants rest on. -/
namespace FipsShield.Transducer
universe u v w
variable {S : Type u} {I : Type v} {O : Type w} (step : S → I → S × List O)

/-- State reached and outputs emitted, in order, by a list of inputs. -/
def run (start : S) : List I → S × List O
  | [] => (start,[])
  | input::rest =>
    let next := step start input
    let later := run next.1 rest
    (later.1,next.2 ++ later.2)

@[simp] theorem run_nil (start : S) : run step start [] = (start,[]) := rfl

theorem run_cons (start : S) (input : I) (rest : List I) :
    run step start (input::rest) =
      ((run step (step start input).1 rest).1,
        (step start input).2 ++ (run step (step start input).1 rest).2) := rfl

theorem run_append (start : S) (first second : List I) :
    run step start (first ++ second) =
      ((run step (run step start first).1 second).1,
        (run step start first).2 ++ (run step (run step start first).1 second).2) := by
  induction first generalizing start with
  | nil => rfl
  | cons input rest ih => simp only [List.cons_append,run_cons,ih,List.append_assoc]

theorem run_concat (start : S) (first : List I) (input : I) :
    run step start (first ++ [input]) =
      ((step (run step start first).1 input).1,
        (run step start first).2 ++ (step (run step start first).1 input).2) := by
  simp [run_append,run_cons]

/-- A relation between the inputs so far, the state and the outputs so far that
holds at the start and survives each step holds after every run. -/
theorem invariant {step : S → I → S × List O} {start : S}
    {P : List I → S → List O → Prop} (initial : P [] start [])
    (preserved : ∀ before state outputs input, P before state outputs →
      P (before ++ [input]) (step state input).1 (outputs ++ (step state input).2))
    (inputs : List I) : P inputs (run step start inputs).1 (run step start inputs).2 := by
  induction inputs using List.reverseRecOn with
  | nil => exact initial
  | append_singleton before input ih =>
    rw [run_concat]
    exact preserved _ _ _ _ ih

/-- A relation between the state and the outputs so far that survives each input of a kind
survives every run of them. -/
theorem keeps {step : S → I → S × List O} {Q : I → Prop} {P : S → List O → Prop}
    (preserved : ∀ state outputs input, Q input → P state outputs →
      P (step state input).1 (outputs ++ (step state input).2))
    {start : S} {outputs : List O} (initial : P start outputs) {inputs : List I} (all : ∀ input ∈ inputs, Q input) :
    P (run step start inputs).1 (outputs ++ (run step start inputs).2) := by
  induction inputs generalizing start outputs with
  | nil => rwa [run_nil,List.append_nil]
  | cons input rest ih =>
    rw [run_cons,← List.append_assoc]
    exact ih (preserved _ _ _ (all input (by simp)) initial) fun next member => all next (by simp [member])

theorem place_concat {P : List I → I → Prop} {inputs : List I} {last : I} :
    (∃ before input later, inputs ++ [last] = before ++ input::later ∧ P before input) ↔
      (∃ before input later, inputs = before ++ input::later ∧ P before input) ∨ P inputs last := by
  constructor
  · intro found
    obtain ⟨before,input,later,same,holds⟩ := found
    induction later using List.reverseRecOn with
    | nil =>
      obtain ⟨rfl,single⟩ := List.append_inj' same rfl
      obtain ⟨rfl,_⟩ := List.cons.inj single
      exact Or.inr holds
    | append_singleton others final _ =>
      rw [← List.cons_append,← List.append_assoc] at same
      exact Or.inl ⟨before,input,others,(List.append_inj' same rfl).1,holds⟩
  · intro either
    rcases either with ⟨before,input,later,rfl,holds⟩ | holds
    · exact ⟨before,input,later ++ [last],by simp,holds⟩
    · exact ⟨inputs,last,[],rfl,holds⟩

/-- What holds at every place of a list with one more input holds at those of the list
and at the last one. -/
theorem places_concat {P : List I → I → Prop} {inputs : List I} {last : I} :
    (∀ before input later, inputs ++ [last] = before ++ input::later → P before input) ↔
      (∀ before input later, inputs = before ++ input::later → P before input) ∧ P inputs last := by
  have none := not_congr (@place_concat I (fun before input => ¬ P before input) inputs last)
  simpa only [not_exists,not_and,not_or,not_not] using none

/-- A state that is only ever entered by a hit is reached exactly by the runs with one. -/
theorem reached_iff {step : S → I → S × List O} {start : S} {bad : S → Prop} {hit : S → I → Prop}
    (initial : ¬ bad start)
    (entered : ∀ before input, bad (step (run step start before).1 input).1 ↔
      bad (run step start before).1 ∨ hit (run step start before).1 input)
    (inputs : List I) : bad (run step start inputs).1 ↔
      ∃ before input later, inputs = before ++ input::later ∧ hit (run step start before).1 input := by
  induction inputs using List.reverseRecOn with
  | nil => simp [initial]
  | append_singleton earlier last ih => rw [run_concat,entered,ih,place_concat]

/-! ## What holds of every input where it is met -/

/-- A condition on each input and the state it meets, all along a run. -/
def Throughout (P : S → I → Prop) : S → List I → Prop
  | _, [] => True
  | start, input::rest => P start input ∧ Throughout P (step start input).1 rest

instance decidableThroughout {P : S → I → Prop} [∀ state input, Decidable (P state input)] (start : S) :
    (inputs : List I) → Decidable (Throughout step P start inputs)
  | [] => .isTrue trivial
  | input::rest =>
    have := decidableThroughout (P := P) (step start input).1 rest
    instDecidableAnd

/-- One condition follows from two others at every state that keeps an invariant, so it
follows all along a run. -/
theorem Throughout.implies {step : S → I → S × List O} {K : S → Prop} {C P Q : S → I → Prop}
    (preserved : ∀ state input, K state → K (step state input).1)
    (onestep : ∀ state input, K state → C state input → P state input → Q state input)
    {start : S} (initial : K start) {inputs : List I} (context : Throughout step C start inputs)
    (holds : Throughout step P start inputs) : Throughout step Q start inputs := by
  induction inputs generalizing start with
  | nil => trivial
  | cons input rest ih =>
    obtain ⟨now,later⟩ := context
    obtain ⟨first,others⟩ := holds
    exact ⟨onestep start input initial now first,ih (preserved start input initial) later others⟩

end FipsShield.Transducer

/-!
# Runs of a step function

A system is a step function `step : σ → ε → σ` over its events; a run is the
fold of the step over a list of events. `Guarded G` says that every event of a
run meets `G` in the state it is taken from, which is how a property is stated
for "every run whose steps all meet the condition".

The induction over runs is done once here: `run_invariant` for a property of
states, `guarded_invariant` for one that the guard helps to preserve.
-/

namespace Riverix.Lib

universe u v

variable {σ : Type u} {ε : Type v} {step : σ → ε → σ} {G : σ → ε → Prop} {I : σ → Prop}

/-- The state after the events `es`, taken in order. -/
def run (step : σ → ε → σ) (s : σ) (es : List ε) : σ := es.foldl step s

/-- Every event of the run meets `G` in the state it is taken from. -/
def Guarded (step : σ → ε → σ) (G : σ → ε → Prop) : σ → List ε → Prop
  | _, [] => True
  | s, e :: es => G s e ∧ Guarded step G (step s e) es

instance Guarded.decidable [∀ s e, Decidable (G s e)] :
    ∀ (s : σ) (es : List ε), Decidable (Guarded step G s es)
  | _, [] => isTrue trivial
  | s, e :: es =>
    have := Guarded.decidable (step s e) es
    inferInstanceAs (Decidable (G s e ∧ Guarded step G (step s e) es))

/-- What meets a guard meets a weaker one. -/
theorem Guarded.mono {H : σ → ε → Prop} (hGH : ∀ s e, G s e → H s e) :
    ∀ (es : List ε) {s : σ}, Guarded step G s es → Guarded step H s es
  | [], _, h => h
  | _ :: es, _, h => ⟨hGH _ _ h.1, h.2.mono hGH es⟩

@[simp] theorem run_nil (s : σ) : run step s [] = s := rfl

@[simp] theorem run_cons (s : σ) (e : ε) (es : List ε) :
    run step s (e :: es) = run step (step s e) es := rfl

/-- A property that a guarded step preserves holds after every guarded run. -/
theorem guarded_invariant (hstep : ∀ s e, I s → G s e → I (step s e)) :
    ∀ (es : List ε) {s : σ}, I s → Guarded step G s es → I (run step s es)
  | [], _, hI, _ => hI
  | e :: es, s, hI, hG => guarded_invariant hstep es (hstep s e hI hG.1) hG.2

/-- A property that every step preserves holds after every run. -/
theorem run_invariant (hstep : ∀ s e, I s → I (step s e)) :
    ∀ (es : List ε) {s : σ}, I s → I (run step s es)
  | [], _, hI => hI
  | e :: es, s, hI => run_invariant hstep es (hstep s e hI)

/-- How many events of the run meet `P` in the state they are taken from. -/
def occurrences (step : σ → ε → σ) (P : σ → ε → Bool) : σ → List ε → Nat
  | _, [] => 0
  | s, e :: es => (if P s e then 1 else 0) + occurrences step P (step s e) es

/-- A potential that each of these events lowers, and no event raises, bounds their number. -/
theorem guarded_occurrences_le {P : σ → ε → Bool} {potential : σ → Nat}
    (hstep : ∀ s e, I s → G s e →
      I (step s e) ∧ potential (step s e) + (if P s e then 1 else 0) ≤ potential s) :
    ∀ (es : List ε) {s : σ}, I s → Guarded step G s es → occurrences step P s es ≤ potential s
  | [], _, _, _ => Nat.zero_le _
  | e :: es, s, hI, hG => by
    obtain ⟨hnext, hlower⟩ := hstep s e hI hG.1
    have hrest := guarded_occurrences_le hstep es hnext hG.2
    unfold occurrences
    omega

/-- What holds of the state in the result of a call. -/
theorem via {P : σ → Prop} {p : σ × ε} {s : σ} {out : ε} (h : P p.1) (he : p = (s, out)) : P s := by
  rw [he] at h
  exact h

end Riverix.Lib

import Mathlib.Data.List.Basic

/-!
# Requests with one answer each

A log of a service that takes one request at a time: requests are asked, things are noted,
and a request is answered to someone. `pending` is the request that is still open, with
what has been noted since it was asked. A log is `Orderly` if a request is only asked when
none is open, and only the open one is answered, as `ok` allows.

The log is kept with its newest entry first.
-/

namespace Riverix.Lib

universe u v w x

variable {ρ : Type u} {ν : Type v} {ω : Type w} {α : Type x}

/-- What happened. -/
inductive LogEntry (ρ : Type u) (ν : Type v) (ω : Type w) (α : Type x)
  | asked (request : ρ)
  | noted (note : ν)
  | answered (receiver : ω) (answer : α)

/-- The open request, and what was noted since. -/
def pending : List (LogEntry ρ ν ω α) → Option (ρ × List ν)
  | [] => none
  | .asked r :: _ => some (r, [])
  | .noted n :: log => (pending log).map fun p => (p.1, n :: p.2)
  | .answered .. :: _ => none

/-- One request at a time, one answer for each. -/
def Orderly (ok : ρ → List ν → ω → α → Prop) : List (LogEntry ρ ν ω α) → Prop
  | [] => True
  | .asked _ :: log => pending log = none ∧ Orderly ok log
  | .noted _ :: log => Orderly ok log
  | .answered o a :: log => (∃ r ns, pending log = some (r, ns) ∧ ok r ns o a) ∧ Orderly ok log

variable {ok : ρ → List ν → ω → α → Prop} {log mid : List (LogEntry ρ ν ω α)} {r r' : ρ}
  {o : ω} {a : α} {ns : List ν}

/-- Notes collect behind the open request. -/
theorem pending_noted (ns : List ν) (log : List (LogEntry ρ ν ω α)) :
    pending (ns.map .noted ++ log) = (pending log).map fun p => (p.1, ns ++ p.2) := by
  induction ns with
  | nil => simp
  | cons n ns ih =>
    rw [List.map_cons, List.cons_append, pending, ih, Option.map_map]
    rfl

theorem orderly_noted (ns : List ν) (h : Orderly ok log) : Orderly ok (ns.map .noted ++ log) := by
  induction ns with
  | nil => exact h
  | cons n ns ih => exact ih

theorem Orderly.of_append (h : Orderly ok (mid ++ log)) : Orderly ok log := by
  induction mid with
  | nil => exact h
  | cons e mid ih =>
    cases e with
    | noted n => exact ih h
    | asked r => exact ih h.2
    | answered o a => exact ih h.2

/-- Where the open request stands in the log. -/
theorem pending_some (h : pending log = some (r, ns)) :
    ∃ pre, log = ns.map .noted ++ .asked r :: pre := by
  induction log generalizing ns with
  | nil => exact absurd h (by simp [pending])
  | cons e log ih =>
    cases e with
    | asked r₁ =>
      obtain ⟨rfl, rfl⟩ := Prod.mk.inj (Option.some.inj h)
      exact ⟨log, rfl⟩
    | answered o a => exact absurd h (by simp [pending])
    | noted n =>
      unfold pending at h
      obtain ⟨⟨r₁, ns₁⟩, hp, heq⟩ := Option.map_eq_some_iff.mp h
      obtain ⟨rfl, rfl⟩ := Prod.mk.inj heq
      obtain ⟨pre, rfl⟩ := ih hp
      exact ⟨pre, rfl⟩

/-- **Every answer** is to the request that was asked last, and the first to it: nothing
but notes lies between the two. -/
theorem Orderly.answered (h : Orderly ok (mid ++ .answered o a :: log)) :
    ∃ r ns pre, log = ns.map .noted ++ .asked r :: pre ∧ ok r ns o a := by
  obtain ⟨⟨r, ns, hp, hok⟩, -⟩ := h.of_append
  obtain ⟨pre, hpre⟩ := pending_some hp
  exact ⟨r, ns, pre, hpre, hok⟩

theorem pending_none_of_asked (h : pending (mid ++ .asked r :: log) = none) :
    ∃ o a, LogEntry.answered o a ∈ mid := by
  induction mid with
  | nil => exact absurd h (by simp [pending])
  | cons e mid ih =>
    cases e with
    | asked r' => exact absurd h (by simp [pending])
    | answered o a => exact ⟨o, a, List.mem_cons_self ..⟩
    | noted n =>
      rw [List.cons_append, pending, Option.map_eq_none_iff] at h
      obtain ⟨o, a, hmem⟩ := ih h
      exact ⟨o, a, List.mem_cons_of_mem _ hmem⟩

/-- **Every request** is answered before the next one is asked. -/
theorem Orderly.asked {later : List (LogEntry ρ ν ω α)}
    (h : Orderly ok (later ++ .asked r' :: (mid ++ .asked r :: log))) :
    ∃ o a, LogEntry.answered o a ∈ mid :=
  pending_none_of_asked h.of_append.1

end Riverix.Lib

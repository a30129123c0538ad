import Mathlib.Data.Finset.Card

/-!
# Running a pipeline (`run_pipeline`)

The shell opens all pipes of a pipeline, forks all stages, closes its ends of the pipes and
waits for the children. Here is the shell process alone: its descriptor table and the children
it has not waited for. What the kernel answers to a call is given: `pipe` takes the two lowest
free descriptors unless it fails for another reason, `fork` returns a pid or fails.

A call that fails makes `run_pipeline` return at once. What it had acquired by then stays with
the shell: nothing only if the first of all calls failed.
-/

namespace Riverix.User

/-- `VFS_MAX_FDS` -/
abbrev maxFds : Nat := 16

/-- A descriptor table: the open file behind each descriptor. -/
abbrev FdTable := Nat → Option Nat

/-- The shell process. -/
structure Shell where
  fds : FdTable
  /-- Forked and not waited for. -/
  children : List Nat
  pipeCalls : Nat
  forkCalls : Nat

/-- What the kernel answers to the `k`-th call: whether a pipe cannot be made, the pid of a new
child, and the status with which a child exits. -/
structure Answers where
  pipeFails : Nat → Bool
  forkPid : Nat → Option Nat
  exitStatus : Nat → Nat

/-- The lowest free descriptor. -/
def lowestFree (fds : FdTable) : Option Nat := (List.range maxFds).find? fun i => fds i == none

namespace Shell

/-- `pipe`: the descriptors of the read end and of the write end. -/
def pipe (a : Answers) (s : Shell) : Shell × Option (List Nat) :=
  let failed := ({ s with pipeCalls := s.pipeCalls + 1 }, none)
  if a.pipeFails s.pipeCalls then failed
  else match lowestFree s.fds with
    | none => failed
    | some r => match lowestFree (Function.update s.fds r (some s.pipeCalls)) with
      | none => failed
      | some w =>
        ({ s with
            fds := Function.update (Function.update s.fds r (some s.pipeCalls)) w (some s.pipeCalls)
            pipeCalls := s.pipeCalls + 1 }, some [r, w])

/-- `fork`, in the parent. -/
def fork (a : Answers) (s : Shell) : Shell × Option Nat :=
  match a.forkPid s.forkCalls with
  | none => ({ s with forkCalls := s.forkCalls + 1 }, none)
  | some pid => ({ s with forkCalls := s.forkCalls + 1, children := pid :: s.children }, some pid)

/-- `close` -/
def close (s : Shell) (fd : Nat) : Shell := { s with fds := Function.update s.fds fd none }

/-- `waitpid`: the status of the child, if there is such a child. -/
def waitpid (a : Answers) (s : Shell) (pid : Nat) : Shell × Option Nat :=
  if pid ∈ s.children then ({ s with children := s.children.erase pid }, some (a.exitStatus pid))
  else (s, none)

end Shell

open Shell

/-- The loop over the pipes; the result is `pipefds`, row after row. -/
def openPipes (a : Answers) : Nat → Shell → Shell × Option (List Nat)
  | 0, s => (s, some [])
  | n + 1, s => match s.pipe a with
    | (s, none) => (s, none)
    | (s, some ends) => match openPipes a n s with
      | (s, none) => (s, none)
      | (s, some pipefds) => (s, some (ends ++ pipefds))

/-- The loop over the stages; the result is `pids`. -/
def forkStages (a : Answers) : Nat → Shell → Shell × Option (List Nat)
  | 0, s => (s, some [])
  | n + 1, s => match s.fork a with
    | (s, none) => (s, none)
    | (s, some pid) => match forkStages a n s with
      | (s, none) => (s, none)
      | (s, some pids) => (s, some (pid :: pids))

/-- `wait_children` -/
def waitChildren (a : Answers) : List Nat → Shell → Shell × Nat
  | [], s => (s, 0)
  | pid :: pids, s => match s.waitpid a pid with
    | (s, some 0) => waitChildren a pids s
    | (s, _) => ((waitChildren a pids s).1, 1)

/-- `run_pipeline` in the shell process. -/
def runPipeline (a : Answers) (stageCount : Nat) (s : Shell) : Shell × Nat :=
  match openPipes a (stageCount - 1) s with
  | (s, none) => (s, 1)
  | (s, some pipefds) => match forkStages a stageCount s with
    | (s, none) => (s, 1)
    | (s, some pids) => waitChildren a pids (pipefds.foldl close s)

/-- The descriptors are as before, and so are the children that wait to be waited for. -/
structure Released (s s' : Shell) : Prop where
  fds : s'.fds = s.fds
  children : s'.children = s.children

/-! ## Descriptors -/

section Descriptors

variable {fds : FdTable} {i d n : Nat} {a : Answers} {s s' : Shell}

/-- The number of free descriptors. -/
def freeFds (fds : FdTable) : Nat := ((Finset.range maxFds).filter fun i => fds i = none).card

theorem lowestFree_some (h : lowestFree fds = some i) : i < maxFds ∧ fds i = none := by
  have hi := List.find?_some h
  exact ⟨List.mem_range.mp (List.mem_of_find?_eq_some h), by simpa using hi⟩

theorem lowestFree_none_iff (fds : FdTable) : lowestFree fds = none ↔ freeFds fds = 0 := by
  unfold lowestFree freeFds
  rw [List.find?_eq_none, Finset.card_eq_zero, Finset.filter_eq_empty_iff]
  simp

theorem freeFds_fill (h : i < maxFds) (hf : fds i = none) :
    freeFds (Function.update fds i (some d)) + 1 = freeFds fds := by
  have hset : ((Finset.range maxFds).filter fun j => Function.update fds i (some d) j = none)
      = ((Finset.range maxFds).filter fun j => fds j = none).erase i := by
    ext j
    by_cases hj : j = i
    · subst hj
      simp
    · simp [hj]
  unfold freeFds
  rw [hset, Finset.card_erase_add_one (Finset.mem_filter.mpr ⟨Finset.mem_range.mpr h, hf⟩)]

/-- A descriptor table in which these descriptors, free before, were taken. -/
structure Taken (fds fds' : FdTable) (taken : List Nat) : Prop where
  before : ∀ i ∈ taken, fds i = none
  after : ∀ i ∈ taken, fds' i ≠ none
  others : ∀ i, i ∉ taken → fds' i = fds i

theorem Taken.append {fds' fds'' : FdTable} {t t' : List Nat} (h : Taken fds fds' t)
    (h' : Taken fds' fds'' t') : Taken fds fds'' (t ++ t') := by
  have hapart : ∀ i ∈ t, i ∉ t' := fun i hi hi' => h.after i hi (h'.before i hi')
  refine ⟨fun i hi => ?_, fun i hi => ?_, fun i hi => ?_⟩
  · rcases List.mem_append.mp hi with hi | hi
    · exact h.before i hi
    · by_cases ht : i ∈ t
      · exact h.before i ht
      · rw [← h.others i ht]
        exact h'.before i hi
  · rcases List.mem_append.mp hi with hi | hi
    · rw [h'.others i (hapart i hi)]
      exact h.after i hi
    · exact h'.after i hi
  · rw [List.mem_append, not_or] at hi
    rw [h'.others i hi.2, h.others i hi.1]

theorem Taken.fill (hf : fds i = none) : Taken fds (Function.update fds i (some d)) [i] := by
  refine ⟨fun j hj => ?_, fun j hj => ?_, fun j hj => ?_⟩
  · rw [List.mem_singleton.mp hj]
    exact hf
  · rw [List.mem_singleton.mp hj, Function.update_self]
    simp
  · exact Function.update_of_ne (fun h => hj (List.mem_singleton.mpr h)) ..

/-- What was taken shows. -/
theorem Taken.ne {fds' : FdTable} {t : List Nat} (h : Taken fds fds' t) (hne : t ≠ []) :
    fds' ≠ fds := by
  obtain ⟨i, hi⟩ := List.exists_mem_of_ne_nil t hne
  rintro rfl
  exact h.after i hi (h.before i hi)

theorem foldl_close_fds (fs : List Nat) (s : Shell) (i : Nat) :
    (fs.foldl close s).fds i = if i ∈ fs then none else s.fds i := by
  induction fs generalizing s with
  | nil => rfl
  | cons f fs ih =>
    rw [List.foldl_cons, ih]
    by_cases hi : i = f
    · subst hi
      simp [close]
    · simp [close, hi]

theorem foldl_close_children (fs : List Nat) (s : Shell) :
    (fs.foldl close s).children = s.children := by
  induction fs generalizing s with
  | nil => rfl
  | cons f fs ih => exact ih (s.close f)

/-! ## The loops -/

/-- The call after `j` more pipes succeeds: nothing is in its way, and there are descriptors for
all of them. -/
def Opens (a : Answers) (s : Shell) (j : Nat) : Prop :=
  a.pipeFails (s.pipeCalls + j) = false ∧ 2 * (j + 1) ≤ freeFds s.fds

theorem pipe_fails (h : ¬ Opens a s 0) :
    s.pipe a = ({ s with pipeCalls := s.pipeCalls + 1 }, none) := by
  unfold Shell.pipe
  split
  · rfl
  next hok =>
  split
  · rfl
  next r hr =>
  obtain ⟨hlt, hfree⟩ := lowestFree_some hr
  have hcount := freeFds_fill (d := s.pipeCalls) hlt hfree
  have hfull : freeFds (Function.update s.fds r (some s.pipeCalls)) = 0 := by
    by_contra hne
    exact h ⟨by simpa using hok, by omega⟩
  rw [(lowestFree_none_iff _).mpr hfull]

theorem pipe_opens (h : Opens a s 0) :
    ∃ fds' r w, s.pipe a = ({ s with fds := fds', pipeCalls := s.pipeCalls + 1 }, some [r, w]) ∧
      Taken s.fds fds' [r, w] ∧ freeFds fds' + 2 = freeFds s.fds := by
  obtain ⟨hok, hfree⟩ := h
  obtain ⟨r, hr⟩ := Option.ne_none_iff_exists'.mp (mt (lowestFree_none_iff s.fds).mp (by omega))
  obtain ⟨hrlt, hrfree⟩ := lowestFree_some hr
  have hcount := freeFds_fill (d := s.pipeCalls) hrlt hrfree
  obtain ⟨w, hw⟩ := Option.ne_none_iff_exists'.mp
    (mt (lowestFree_none_iff (Function.update s.fds r (some s.pipeCalls))).mp (by omega))
  obtain ⟨hwlt, hwfree⟩ := lowestFree_some hw
  have hcount' := freeFds_fill (d := s.pipeCalls) hwlt hwfree
  refine ⟨_, r, w, ?_, (Taken.fill hrfree).append (Taken.fill (d := s.pipeCalls) hwfree), by omega⟩
  unfold Shell.pipe
  rw [Nat.add_zero] at hok
  simp [hok, hr, hw]

theorem opens_shift {fds' : FdTable} (h : freeFds fds' + 2 = freeFds s.fds) (j : Nat) :
    Opens a { s with fds := fds', pipeCalls := s.pipeCalls + 1 } j ↔ Opens a s (j + 1) := by
  unfold Opens
  rw [Nat.add_right_comm, Nat.add_assoc]
  refine and_congr Iff.rfl ?_
  show 2 * (j + 1) ≤ freeFds fds' ↔ _
  omega

/-- All pipes are open, or some are and the shell does not know which. -/
theorem openPipes_cases (a : Answers) (n : Nat) (s : Shell) :
    (∀ j < n, Opens a s j) ∧ (∃ fds' t, openPipes a n s
        = ({ s with fds := fds', pipeCalls := s.pipeCalls + n }, some t) ∧
        Taken s.fds fds' t ∧ (n ≠ 0 → t ≠ [])) ∨
      ¬ (∀ j < n, Opens a s j) ∧ ∃ fds' t calls, openPipes a n s
        = ({ s with fds := fds', pipeCalls := calls }, none) ∧
        Taken s.fds fds' t ∧ (t = [] ↔ ¬ Opens a s 0) := by
  induction n generalizing s with
  | zero =>
    exact .inl ⟨fun j hj => absurd hj (Nat.not_lt_zero j), s.fds, [], rfl,
      ⟨by simp, by simp, fun _ _ => rfl⟩, fun h => absurd rfl h⟩
  | succ n ih =>
    unfold openPipes
    by_cases h0 : Opens a s 0
    · obtain ⟨fds', r, w, hpipe, htaken, hcount⟩ := pipe_opens h0
      rw [hpipe]
      dsimp only
      have hall : (∀ j < n, Opens a { s with fds := fds', pipeCalls := s.pipeCalls + 1 } j) ↔
          ∀ j < n + 1, Opens a s j := by
        simp only [opens_shift hcount]
        refine ⟨fun h j hj => ?_, fun h j hj => h (j + 1) (by omega)⟩
        cases j with
        | zero => exact h0
        | succ j => exact h j (by omega)
      rcases ih { s with fds := fds', pipeCalls := s.pipeCalls + 1 } with
        ⟨hopen, fds'', t, he, ht, -⟩ | ⟨hopen, fds'', t, calls, he, ht, -⟩
      · rw [he]
        refine .inl ⟨hall.mp hopen, fds'', _, ?_, htaken.append ht, fun _ => by simp⟩
        simp [Nat.add_assoc, Nat.add_comm 1 n]
      · rw [he]
        exact .inr ⟨mt hall.mpr hopen, fds'', _, calls, rfl, htaken.append ht, by simp [h0]⟩
    · rw [pipe_fails h0]
      exact .inr ⟨fun h => h0 (h 0 (Nat.succ_pos n)), s.fds, [], _, rfl,
        ⟨by simp, by simp, fun _ _ => rfl⟩, by simp [h0]⟩

/-- All stages were forked, or the fork of one has failed. -/
theorem forkStages_cases (a : Answers) (n : Nat) (s : Shell) :
    (∀ i < n, a.forkPid (s.forkCalls + i) ≠ none) ∧ (∃ pids, forkStages a n s
        = ({ s with children := pids.reverse ++ s.children, forkCalls := s.forkCalls + n },
          some pids)) ∨
      ¬ (∀ i < n, a.forkPid (s.forkCalls + i) ≠ none) ∧ ∃ s', forkStages a n s = (s', none) ∧
        s'.fds = s.fds ∧ (n = 1 → s'.children = s.children) := by
  induction n generalizing s with
  | zero => exact .inl ⟨fun i hi => absurd hi (Nat.not_lt_zero i), [], rfl⟩
  | succ n ih =>
    unfold forkStages Shell.fork
    cases hpid : a.forkPid s.forkCalls with
    | none => exact .inr ⟨fun h => h 0 (Nat.succ_pos n) hpid, _, rfl, rfl, fun _ => rfl⟩
    | some pid =>
      dsimp only
      have hall : (∀ i < n, a.forkPid (s.forkCalls + 1 + i) ≠ none) ↔
          ∀ i < n + 1, a.forkPid (s.forkCalls + i) ≠ none := by
        refine ⟨fun h i hi => ?_, fun h i hi => ?_⟩
        · cases i with
          | zero => simp [hpid]
          | succ i =>
            rw [← Nat.add_assoc, Nat.add_right_comm]
            exact h i (by omega)
        · rw [Nat.add_assoc, Nat.add_comm 1 i]
          exact h (i + 1) (by omega)
      rcases ih { s with forkCalls := s.forkCalls + 1, children := pid :: s.children } with
        ⟨hok, pids, he⟩ | ⟨hfail, s', he, hfds, -⟩
      · rw [he]
        refine .inl ⟨hall.mp hok, pid :: pids, ?_⟩
        simp [Nat.add_assoc, Nat.add_comm 1 n]
      · rw [he]
        refine .inr ⟨mt hall.mpr hfail, s', rfl, hfds, fun hn => absurd hfail ?_⟩
        obtain rfl : n = 0 := by omega
        simp

theorem waitChildren_state (a : Answers) (pids : List Nat) (s : Shell) :
    (waitChildren a pids s).1 = { s with children := pids.foldl List.erase s.children } := by
  induction pids generalizing s with
  | nil => rfl
  | cons pid pids ih =>
    have hwait : (s.waitpid a pid).1 = { s with children := s.children.erase pid } := by
      unfold Shell.waitpid
      split
      · rfl
      next h => rw [List.erase_of_not_mem h]
    unfold waitChildren
    split
    all_goals
      rename_i he
      rw [he] at hwait
      dsimp only at hwait ⊢
      rw [hwait]
      exact ih _

/-- The new children stand in front, in whatever order, and waiting for them leaves the others. -/
theorem foldl_erase_front {front pids : List Nat} (h : front.Perm pids) (others : List Nat) :
    pids.foldl List.erase (front ++ others) = others := by
  induction pids generalizing front with
  | nil => rw [h.eq_nil]; rfl
  | cons pid pids ih =>
    obtain ⟨hmem, hperm⟩ := List.cons_perm_iff_perm_erase.mp h.symm
    rw [List.foldl_cons, List.erase_append_left _ hmem]
    exact ih hperm.symm

end Descriptors

/-- **A pipeline releases what it acquired exactly when no call fails late.** For every number of
stages and every pattern of failing calls: it has one stage, or its first pipe cannot be made,
or all pipes and all forks succeed. -/
theorem runPipeline_releases_iff (a : Answers) (s : Shell) (stageCount : Nat) (h : 1 ≤ stageCount) :
    Released s (runPipeline a stageCount s).1 ↔
      stageCount = 1 ∨ ¬ Opens a s 0 ∨
        (∀ j < stageCount - 1, Opens a s j) ∧
          ∀ i < stageCount, a.forkPid (s.forkCalls + i) ≠ none := by
  unfold runPipeline
  rcases openPipes_cases a (stageCount - 1) s with
    ⟨hopen, fds', t, he, ht, hne⟩ | ⟨hopen, fds', t, calls, he, ht, hfirst⟩
  · rw [he]
    dsimp only
    rcases forkStages_cases a stageCount
        { s with fds := fds', pipeCalls := s.pipeCalls + (stageCount - 1) } with
      ⟨hfork, pids, hf⟩ | ⟨hfork, s', hf, hfds, hchildren⟩
    · refine iff_of_true ?_ (.inr (.inr ⟨hopen, hfork⟩))
      rw [hf]
      rw [waitChildren_state]
      refine ⟨funext fun i => ?_, ?_⟩
      · show (t.foldl close _).fds i = _
        rw [foldl_close_fds]
        split
        next hi => exact (ht.before i hi).symm
        next hi => exact ht.others i hi
      · show pids.foldl List.erase (t.foldl close _).children = _
        rw [foldl_close_children]
        exact foldl_erase_front (List.reverse_perm pids) _
    · rw [hf]
      by_cases hone : stageCount = 1
      · refine iff_of_true ⟨?_, hchildren hone⟩ (.inl hone)
        subst hone
        rw [hfds]
        have hnil : t = [] := by
          have : openPipes a 0 s = (s, some []) := rfl
          rw [this] at he
          exact (Option.some.inj (Prod.mk.inj he).2).symm
        subst hnil
        exact funext fun i => ht.others i List.not_mem_nil
      · refine iff_of_false (fun hr => ht.ne (hne (by omega)) (hfds.symm.trans hr.fds)) ?_
        rintro (hc | hc | hc)
        · exact hone hc
        · exact hc (hopen 0 (by omega))
        · exact hfork hc.2
  · rw [he]
    have hone : stageCount ≠ 1 := fun hc => hopen fun j hj => absurd hj (by omega)
    by_cases h0 : Opens a s 0
    · refine iff_of_false (fun hr => ht.ne (fun hn => hfirst.mp hn h0) hr.fds) ?_
      rintro (hc | hc | hc)
      · exact hone hc
      · exact hc h0
      · exact hopen hc.1
    · refine iff_of_true ⟨?_, rfl⟩ (.inr (.inl h0))
      obtain rfl := hfirst.mpr h0
      exact funext fun i => ht.others i List.not_mem_nil

/-- The shell with its three standard descriptors. -/
def freshShell : Shell := ⟨fun i => if i < 3 then some i else none, [], 0, 0⟩

theorem runPipeline_releases_three :
    Released freshShell
      (runPipeline ⟨fun _ => false, fun k => some (k + 2), fun _ => 0⟩ 3 freshShell).1 :=
  (runPipeline_releases_iff _ freshShell 3 (by decide)).mpr
    (.inr (.inr ⟨fun _ _ => ⟨rfl, by have : freeFds freshShell.fds = 13 := by decide
                                     omega⟩, fun _ _ => by simp⟩))

/-- The second fork of a pipeline of two stages fails: the first child is left alone with a pipe
whose write end the shell keeps open. -/
theorem failed_fork_leaks :
    (runPipeline ⟨fun _ => false, fun k => if k = 0 then some 2 else none, fun _ => 0⟩ 2
        freshShell).1.children = [2] ∧
      (runPipeline ⟨fun _ => false, fun k => if k = 0 then some 2 else none, fun _ => 0⟩ 2
        freshShell).1.fds 4 = some 0 ∧
      freshShell.children = [] ∧ freshShell.fds 4 = none := by decide

end Riverix.User

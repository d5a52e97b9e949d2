import Mathlib.Data.List.Basic

/-! The fair counting semaphore of an event loop.

A task that finds the semaphore locked queues up. A permit that is given back goes to the first task
of the queue that was not handed one, and the task takes it at its next turn; until then the
permit is neither free nor held. -/
namespace SglangOmni.Lib

/-- The free permits, and the queue: each task with whether it was handed a permit. -/
structure Semaphore where
  value : Nat
  waiters : List (Nat × Bool)
  deriving DecidableEq

namespace Semaphore

def create (value : Nat) : Semaphore := ⟨value, []⟩

def locked (s : Semaphore) : Bool := s.value == 0 || !s.waiters.isEmpty

/-- The queue once its first task without a permit is handed one. -/
def handNext : List (Nat × Bool) → Option (List (Nat × Bool))
  | [] => none
  | (task, true) :: rest => (handNext rest).map ((task, true) :: ·)
  | (task, false) :: rest => some ((task, true) :: rest)

def wakeUpNext (s : Semaphore) : Semaphore :=
  match handNext s.waiters with
  | none => s
  | some waiters => ⟨s.value - 1, waiters⟩

def release (s : Semaphore) : Semaphore := wakeUpNext { s with value := s.value + 1 }

/-- `true` when the permit was taken at once; the task is in the queue otherwise. -/
def acquire (s : Semaphore) (task : Nat) : Semaphore × Bool :=
  if s.locked then ({ s with waiters := s.waiters ++ [(task, false)] }, false)
  else ({ s with value := s.value - 1 }, true)

def handed (s : Semaphore) (task : Nat) : Bool := (task, true) ∈ s.waiters

/-- The turn of a task that was handed a permit. -/
def resume (s : Semaphore) (task : Nat) : Semaphore :=
  let s : Semaphore := { s with waiters := s.waiters.erase (task, true) }
  if 0 < s.value then s.wakeUpNext else s

/-- A task that is cancelled in the queue passes on the permit it was handed. -/
def withdraw (s : Semaphore) (task : Nat) : Semaphore :=
  if s.handed task then { s with waiters := s.waiters.erase (task, true) }.release
  else { s with waiters := s.waiters.erase (task, false) }

/-- Nobody of the queue is handed a permit any more, when all of its tasks are being cancelled. -/
def disband (s : Semaphore) : Semaphore := { s with waiters := s.waiters.filter (·.2) }

/-- The permits that nobody holds: the free ones and those on their way to a task. -/
def permits (s : Semaphore) : Nat := s.value + s.waiters.countP (·.2)

@[simp] theorem permits_create (value : Nat) : (create value).permits = value := rfl

theorem countP_handNext {waiters next : List (Nat × Bool)} (h : handNext waiters = some next) :
    next.countP (·.2) = waiters.countP (·.2) + 1 := by
  induction waiters generalizing next with
  | nil => cases h
  | cons e rest ih =>
    obtain ⟨task, _ | _⟩ := e
    · cases h
      simp
    · obtain ⟨next', hn, rfl⟩ := Option.map_eq_some_iff.mp h
      simpa using ih hn

variable {s : Semaphore}

theorem permits_wakeUpNext (h : 0 < s.value) : s.wakeUpNext.permits = s.permits := by
  cases hn : handNext s.waiters with
  | none => rw [wakeUpNext, hn]
  | some next =>
    rw [wakeUpNext, hn]
    show s.value - 1 + next.countP (·.2) = s.value + s.waiters.countP (·.2)
    rw [countP_handNext hn]
    omega

theorem permits_release (s : Semaphore) : s.release.permits = s.permits + 1 := by
  rw [release, permits_wakeUpNext (Nat.succ_pos _)]
  exact Nat.add_right_comm s.value 1 (s.waiters.countP (·.2))

theorem acquire_of_locked (task : Nat) (h : s.locked = true) :
    s.acquire task = ({ s with waiters := s.waiters ++ [(task, false)] }, false) := if_pos h

theorem acquire_of_unlocked (task : Nat) (h : s.locked = false) :
    s.acquire task = ({ s with value := s.value - 1 }, true) := by
  rw [acquire, if_neg (by simp [h])]

theorem value_pos (h : s.locked = false) : 0 < s.value := by
  by_contra hv
  have hzero : s.value = 0 := by omega
  rw [locked, hzero] at h
  cases h

/-- A task takes a permit, or takes none and queues up. -/
theorem permits_acquire (s : Semaphore) (task : Nat) :
    (s.acquire task).1.permits + (s.acquire task).2.toNat = s.permits := by
  cases h : s.locked with
  | true =>
    rw [acquire_of_locked task h]
    simp [permits]
  | false =>
    have := value_pos h
    rw [acquire_of_unlocked task h]
    simp only [permits, Bool.toNat_true]
    omega

/-- The task holds the permit it was handed. -/
theorem permits_resume {task : Nat} (h : s.handed task = true) :
    (s.resume task).permits + 1 = s.permits := by
  have hmem : (task, true) ∈ s.waiters := by simpa [handed] using h
  have hpos : 0 < s.waiters.countP (·.2) := List.countP_pos_iff.mpr ⟨_, hmem, rfl⟩
  have herase : (s.waiters.erase (task, true)).countP (·.2) + 1 = s.waiters.countP (·.2) := by
    rw [(List.perm_cons_erase hmem).countP_eq, List.countP_cons_of_pos rfl]
  have hsame : (s.resume task).permits = s.value + (s.waiters.erase (task, true)).countP (·.2) := by
    by_cases hv : 0 < s.value
    · rw [resume, if_pos hv]
      exact permits_wakeUpNext hv
    · rw [resume, if_neg hv]
      rfl
  rw [hsame, permits]
  omega

theorem permits_withdraw (s : Semaphore) (task : Nat) : (s.withdraw task).permits = s.permits := by
  unfold withdraw
  split
  · next h =>
    have hmem : (task, true) ∈ s.waiters := by simpa [handed] using h
    rw [permits_release]
    show s.value + (s.waiters.erase (task, true)).countP (·.2) + 1 = s.value + s.waiters.countP (·.2)
    rw [(List.perm_cons_erase hmem).countP_eq, List.countP_cons_of_pos rfl]
    exact Nat.add_assoc ..
  · show s.value + (s.waiters.erase (task, false)).countP (·.2) = s.value + s.waiters.countP (·.2)
    by_cases hmem : (task, false) ∈ s.waiters
    · rw [(List.perm_cons_erase hmem).countP_eq, List.countP_cons_of_neg (by simp)]
    · rw [List.erase_of_not_mem hmem]

theorem permits_disband (s : Semaphore) : s.disband.permits = s.permits := by
  simp [permits, disband, List.countP_filter]

/-! ### The queue -/

/-- The tasks in the queue. -/
def tasks (s : Semaphore) : List Nat := s.waiters.map Prod.fst

/-- While a task waits, no permit is free, or one is on its way. -/
def Fair (s : Semaphore) : Prop := ∀ task, (task, false) ∈ s.waiters → s.value = 0 ∨ ∃ other, (other, true) ∈ s.waiters

theorem handNext_spec (waiters : List (Nat × Bool)) :
    match handNext waiters with
    | none => ∀ task, (task, false) ∉ waiters
    | some next => next.map Prod.fst = waiters.map Prod.fst ∧ ∃ task, (task, true) ∈ next := by
  induction waiters with
  | nil => exact fun _ h => nomatch h
  | cons e rest ih =>
    obtain ⟨task, _ | _⟩ := e
    · exact ⟨rfl, task, List.mem_cons_self⟩
    · simp only [handNext]
      cases hrest : handNext rest with
      | none =>
        rw [hrest] at ih
        intro other hin
        cases List.mem_cons.mp hin with
        | inl heq => cases heq
        | inr hin => exact ih other hin
      | some next =>
        rw [hrest] at ih
        exact ⟨congrArg (task :: ·) ih.1, task, List.mem_cons_self⟩

theorem tasks_wakeUpNext (s : Semaphore) : s.wakeUpNext.tasks = s.tasks := by
  have hspec := handNext_spec s.waiters
  unfold wakeUpNext
  cases hn : handNext s.waiters with
  | none => rfl
  | some next =>
    rw [hn] at hspec
    exact hspec.1

theorem fair_wakeUpNext (s : Semaphore) : s.wakeUpNext.Fair := by
  have hspec := handNext_spec s.waiters
  unfold wakeUpNext
  cases hn : handNext s.waiters with
  | none =>
    rw [hn] at hspec
    exact fun task hin => absurd hin (hspec task)
  | some next =>
    rw [hn] at hspec
    exact fun _ _ => .inr hspec.2

theorem fair_create (value : Nat) : (create value).Fair := fun _ h => nomatch h

theorem fair_disband (s : Semaphore) : s.disband.Fair := by
  intro task hin
  have hhanded := (List.mem_filter.mp hin).2
  cases hhanded

theorem tasks_release (s : Semaphore) : s.release.tasks = s.tasks := tasks_wakeUpNext _

theorem fair_release (s : Semaphore) : s.release.Fair := fair_wakeUpNext _

/-- A task that takes no permit goes to the end of the queue. -/
theorem tasks_acquire (s : Semaphore) (task : Nat) :
    (s.acquire task).1.tasks = if (s.acquire task).2 then s.tasks else s.tasks ++ [task] := by
  cases h : s.locked with
  | true =>
    rw [acquire_of_locked task h]
    exact List.map_append
  | false => rw [acquire_of_unlocked task h]; rfl

theorem fair_acquire (h : s.Fair) (task : Nat) : (s.acquire task).1.Fair := by
  cases hl : s.locked with
  | true =>
    rw [acquire_of_locked task hl]
    intro other hin
    simp only [locked, Bool.or_eq_true, beq_iff_eq, Bool.not_eq_true', List.isEmpty_eq_false_iff] at hl
    obtain hzero | hne := hl
    · exact .inl hzero
    · -- the head of the queue was handed a permit, or the queue was fair to it
      obtain ⟨⟨head, handed⟩, hhead⟩ := List.exists_mem_of_ne_nil _ hne
      cases handed with
      | true => exact .inr ⟨head, List.mem_append_left _ hhead⟩
      | false =>
        obtain hzero | ⟨first, hfirst⟩ := h head hhead
        · exact .inl hzero
        · exact .inr ⟨first, List.mem_append_left _ hfirst⟩
  | false =>
    rw [acquire_of_unlocked task hl]
    simp only [locked, Bool.or_eq_false_iff, Bool.not_eq_false', List.isEmpty_iff] at hl
    intro other hin
    rw [show s.waiters = [] from hl.2] at hin
    cases hin

/-- A task leaves the queue, in which it stood once. -/
theorem tasks_erase {waiters : List (Nat × Bool)} (h : (waiters.map Prod.fst).Nodup) {task : Nat} {handed : Bool}
    (hin : (task, handed) ∈ waiters) : (waiters.erase (task, handed)).map Prod.fst =
      (waiters.map Prod.fst).erase task := by
  induction waiters with
  | nil => cases hin
  | cons e rest ih =>
    rw [List.map_cons, List.nodup_cons] at h
    by_cases he : e = (task, handed)
    · subst he
      rw [List.erase_cons_head, List.map_cons, List.erase_cons_head]
    · have hrest : (task, handed) ∈ rest := (List.mem_cons.mp hin).resolve_left (Ne.symm he)
      have hne : e.1 ≠ task := fun heq => h.1 (heq ▸ List.mem_map_of_mem hrest)
      rw [List.erase_cons_tail (by simpa using he), List.map_cons, List.map_cons,
        List.erase_cons_tail (by simpa using hne), ih h.2 hrest]

theorem tasks_resume (hd : s.tasks.Nodup) {task : Nat} (h : s.handed task = true) :
    (s.resume task).tasks = s.tasks.erase task := by
  have hmem : (task, true) ∈ s.waiters := by simpa [handed] using h
  have herase := tasks_erase hd hmem
  unfold resume
  dsimp only
  split
  · rw [tasks_wakeUpNext]
    exact herase
  · exact herase

theorem fair_resume (s : Semaphore) (task : Nat) : (s.resume task).Fair := by
  unfold resume
  dsimp only
  split
  · exact fair_wakeUpNext _
  · next hzero => exact fun _ _ => .inl (Nat.eq_zero_of_not_pos hzero)

theorem tasks_withdraw (hd : s.tasks.Nodup) (task : Nat) : (s.withdraw task).tasks = s.tasks.erase task := by
  unfold withdraw
  split
  · next h =>
    have hmem : (task, true) ∈ s.waiters := by simpa [handed] using h
    rw [tasks_release]
    exact tasks_erase hd hmem
  · next h =>
    by_cases hmem : (task, false) ∈ s.waiters
    · exact tasks_erase hd hmem
    · have hout : task ∉ s.tasks := by
        intro hin
        obtain ⟨⟨_, handed⟩, hwaits, rfl⟩ := List.mem_map.mp hin
        cases handed with
        | true => exact h (decide_eq_true hwaits)
        | false => exact hmem hwaits
      rw [List.erase_of_not_mem hout]
      exact congrArg (List.map Prod.fst) (List.erase_of_not_mem hmem)

theorem fair_withdraw (h : s.Fair) (task : Nat) : (s.withdraw task).Fair := by
  unfold withdraw
  split
  · exact fair_release _
  · intro other hin
    obtain hzero | ⟨first, hfirst⟩ := h other (List.mem_of_mem_erase hin)
    · exact .inl hzero
    · exact .inr ⟨first, (List.mem_erase_of_ne (by simp)).mpr hfirst⟩

/-- When there are permits and nobody holds one, a task that waits was handed one, or another was. -/
theorem exists_handed (h : s.Fair) (hpermits : 0 < s.permits) {task : Nat} (hin : task ∈ s.tasks) :
    ∃ other, s.handed other = true := by
  have hsome : (∃ other, (other, true) ∈ s.waiters) → ∃ other, s.handed other = true :=
    fun ⟨other, hother⟩ => ⟨other, decide_eq_true hother⟩
  apply hsome
  obtain ⟨⟨_, handed⟩, hwaits, rfl⟩ := List.mem_map.mp hin
  cases handed with
  | true => exact ⟨_, hwaits⟩
  | false =>
    obtain hzero | hother := h _ hwaits
    · unfold permits at hpermits
      rw [hzero, Nat.zero_add] at hpermits
      obtain ⟨⟨other, handed⟩, hother, hh⟩ := List.countP_pos_iff.mp hpermits
      cases hh
      exact ⟨other, hother⟩
    · exact hother

end Semaphore
end SglangOmni.Lib

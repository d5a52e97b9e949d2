import SglangOmni.Lib.Seqlock
import Mathlib.Data.Fin.VecNotation

/-! The admission slots: `SlotCodec`.

A slot is a sequence number and seven words in shared memory. Its data plane writes it (`write`); when that process has
died, the supervisor writes it (`reclaim`), or holds its number odd over a transfer (`begin_write`, `write_fields`,
`end_write`), and then a new data plane does. All of them store in the same order, and any of them may die on the
way. -/
namespace SglangOmni.Router.SlotCodec
open Lib

abbrev Word := BitVec 64

/-- The fields of `_FIELDS_FORMAT`, packed; a seventh word pads the slot. -/
structure Fields where
  inflight : Word
  peakSum : Word
  rejectedTotal : Word
  generation : Word
  pid : Word
  heartbeatTs : Word
  deriving DecidableEq

def Fields.pack (f : Fields) : Fin 7 → Word :=
  ![f.inflight, f.peakSum, f.rejectedTotal, f.generation, f.pid, f.heartbeatTs, 0]

structure SlotView where
  seq : Nat
  fields : Fields
  deriving DecidableEq

/-- `SlotView(*fields[:7])`. -/
def slotView (v : Seqlock.View Word) : SlotView :=
  ⟨v.seq, v.words.getD 0 0, v.words.getD 1 0, v.words.getD 2 0, v.words.getD 3 0, v.words.getD 4 0, v.words.getD 5 0⟩

/-- A process that maps the slots does one thing: it starts to write a slot that nobody else writes, it stores or loads
one word, or the writer dies. -/
inductive Event where
  /-- `write`, or `begin_write` and, when the marker is stored, `write_fields` and `end_write`. -/
  | beginWrite (fields : Fields)
  /-- `write` of a slot whose owner was reaped. -/
  | reclaim (now : Word)
  | store
  | die
  | load (reader : Nat)

def Event.toSeqlock : Event → Seqlock.Event 7 Word
  | .beginWrite fields => .begin fields.pack
  | .reclaim now => .begin (Fields.pack ⟨0, 0, 0, 0, 0, now⟩)
  | .store => .store
  | .die => .die
  | .load reader => .load reader

def step (s : Seqlock.State 7 Word) (e : Event) : Seqlock.State 7 Word := Seqlock.step s e.toSeqlock

/-- The slot of a file that `create_admission_file` has written, after a history. -/
def runs (es : List Event) : Seqlock.State 7 Word := run step (Seqlock.State.create fun _ => 0) es

/-- What `read` has returned, and what each completed write left. -/
def views (es : List Event) : List SlotView := (runs es).returned.map slotView

def writes (es : List Event) : List SlotView := (runs es).completed.map slotView

theorem runs_eq (es : List Event) :
    runs es = run Seqlock.step (Seqlock.State.create fun _ => 0) (es.map Event.toSeqlock) := by
  unfold runs
  generalize Seqlock.State.create (fun _ : Fin 7 => (0 : Word)) = s
  induction es generalizing s with
  | nil => rfl
  | cons e rest ih => exact ih _

/-- A slot view shows the number of its write, and no two writes have one number. -/
theorem slotView_unique {es : List Event} {i j : Nat} {v w : Seqlock.View Word} (hi : (runs es).completed[i]? = some v)
    (hj : (runs es).completed[j]? = some w) (h : slotView v = slotView w) : i = j := by
  have hsound : Seqlock.Sound (runs es) := runs_eq es ▸ Seqlock.sound_run _ _
  exact hsound.seq_inj hi hj (congrArg SlotView.seq h)

/-- **Main theorem.** Every view that `read` returns, to any reader and after any history of stores, loads, deaths and
new writers, shows the fields of exactly one completed write. -/
theorem read_not_torn (es : List Event) : ∀ v ∈ views es, ∃! i : Nat, (writes es)[i]? = some v := by
  intro v hv
  obtain ⟨words, hwords, rfl⟩ := List.mem_map.mp hv
  have hreturned : words ∈ (run Seqlock.step (Seqlock.State.create fun _ => 0) (es.map Event.toSeqlock)).returned :=
    runs_eq es ▸ hwords
  obtain ⟨i, hi, _⟩ := Seqlock.returned_once _ _ hreturned
  rw [← runs_eq es] at hi
  refine ⟨i, ?_, fun j hj => ?_⟩
  · show (writes es)[i]? = some (slotView words)
    rw [writes, List.getElem?_map, hi]
    rfl
  · obtain ⟨other, hother, hview⟩ := Option.map_eq_some_iff.mp ((List.getElem?_map ..).symm.trans hj)
    exact slotView_unique hother hi hview

/-- A data plane dies with two words of its slot stored, the supervisor reclaims it, and a read follows. -/
def readAfterReclaim : List Event :=
  [.beginWrite ⟨1, 2, 3, 4, 5, 6⟩, .store, .store, .store, .die, .reclaim 7] ++ List.replicate 9 .store ++
    List.replicate 10 (.load 0)

theorem read_not_torn_reclaimed :
    views readAfterReclaim = [⟨2, 0, 0, 0, 0, 0, 7⟩] ∧
      ∃! i : Nat, (writes readAfterReclaim)[i]? = some ⟨2, 0, 0, 0, 0, 0, 7⟩ :=
  ⟨by decide +kernel, read_not_torn readAfterReclaim _ (by decide +kernel)⟩

end SglangOmni.Router.SlotCodec

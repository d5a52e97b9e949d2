import SglangOmni.Lib.History
import Mathlib.Data.List.OfFn

/-! A sequence lock, word by word.

A cell is a sequence number and `n` words. A writer makes the number odd, stores the words one at a time and makes the
number even; it may die before any of its stores, and the next writer goes on from whatever number it finds. A reader
loads the number, every word, and the number again, and believes what it loaded if both numbers are the same and even.
There is one writer at a time, and any number of readers.

The number never goes back, and while it is even nothing is stored: so what a reader believes is what one write left
(`returned_once`). -/
namespace SglangOmni.Lib.Seqlock

variable {n : Nat} {W : Type}

structure Cell (n : Nat) (W : Type) where
  seq : Nat
  words : Fin n → W

/-- What is read, and what a write leaves. -/
structure View (W : Type) where
  seq : Nat
  words : List W
  deriving DecidableEq

def Cell.view (c : Cell n W) : View W := ⟨c.seq, List.ofFn c.words⟩

/-- A write in progress, and how many of its stores are done. -/
structure Write (n : Nat) (W : Type) where
  marker : Nat
  values : Fin n → W
  stored : Nat := 0

/-- A read in progress: the number before, and what was copied so far. -/
structure Read (W : Type) where
  seqBefore : Nat
  seqCopied : Option Nat := none
  copied : List W := []

structure State (n : Nat) (W : Type) where
  cell : Cell n W
  writer : Option (Write n W) := none
  readers : Nat → Option (Read W) := fun _ => none
  /-- History: what each completed write left, and what was returned to readers. -/
  completed : List (View W)
  returned : List (View W) := []

/-- The cell as it was created, which is the first write. -/
def State.create (words : Fin n → W) : State n W := { cell := ⟨0, words⟩, completed := [⟨0, List.ofFn words⟩] }

inductive Event (n : Nat) (W : Type) where
  | begin (values : Fin n → W)
  | store
  | die
  | load (reader : Nat)

/-- `seq | 1`. -/
def madeOdd (seq : Nat) : Nat := seq ||| 1

/-- The next store of the writer: the marker, each word, the number after the marker. -/
def storeNext (s : State n W) (w : Write n W) : State n W :=
  if w.stored = 0 then { s with cell := { s.cell with seq := w.marker }, writer := some { w with stored := 1 } }
  else if h : w.stored - 1 < n then
    { s with
      cell := { s.cell with words := Function.update s.cell.words ⟨w.stored - 1, h⟩ (w.values ⟨w.stored - 1, h⟩) }
      writer := some { w with stored := w.stored + 1 } }
  else
    { s with
      cell := { s.cell with seq := w.marker + 1 }
      writer := none
      completed := s.completed ++ [⟨w.marker + 1, List.ofFn w.values⟩] }

def setReader (s : State n W) (i : Nat) (r : Option (Read W)) : State n W :=
  { s with readers := Function.update s.readers i r }

/-- The next load of a reader: the number before, the number and each word, the number after. An odd number, and one
that has changed, begin the read again. -/
def loadNext (s : State n W) (i : Nat) : State n W :=
  match s.readers i with
  | none => if s.cell.seq % 2 = 0 then setReader s i (some { seqBefore := s.cell.seq }) else s
  | some r =>
    match r.seqCopied with
    | none => setReader s i (some { r with seqCopied := some s.cell.seq })
    | some seq =>
      if h : r.copied.length < n then
        setReader s i (some { r with copied := r.copied ++ [s.cell.words ⟨r.copied.length, h⟩] })
      else if s.cell.seq = r.seqBefore then
        { setReader s i none with returned := s.returned ++ [⟨seq, r.copied⟩] }
      else setReader s i none

def step (s : State n W) : Event n W → State n W
  | .begin values =>
    match s.writer with
    | none => { s with writer := some { marker := madeOdd s.cell.seq, values } }
    | some _ => s
  | .store =>
    match s.writer with
    | none => s
    | some w => storeNext s w
  | .die => { s with writer := none }
  | .load i => loadNext s i

/-! ### Numbers -/

theorem madeOdd_odd (seq : Nat) : madeOdd seq % 2 = 1 := by
  unfold madeOdd
  rw [Nat.or_mod_two_eq_one]
  exact .inr rfl

theorem le_madeOdd (seq : Nat) : seq ≤ madeOdd seq := Nat.left_le_or

/-! ### What every step keeps -/

/-- What the writer has done so far. -/
structure Write.Sound (c : Cell n W) (w : Write n W) : Prop where
  before : w.stored = 0 → w.marker = madeOdd c.seq
  marked : 0 < w.stored → c.seq = w.marker ∧ w.marker % 2 = 1 ∧ w.stored ≤ n + 1
  words : ∀ k : Fin n, k + 1 < w.stored → c.words k = w.values k

/-- What a reader has copied is what is there, as long as the number is the one it began with. -/
structure Read.Sound (c : Cell n W) (r : Read W) : Prop where
  even : r.seqBefore % 2 = 0
  le : r.seqBefore ≤ c.seq
  length : r.copied.length ≤ n
  seq : c.seq = r.seqBefore → ∀ q, r.seqCopied = some q → q = r.seqBefore
  copied : c.seq = r.seqBefore → r.copied = (List.ofFn c.words).take r.copied.length

structure Sound (s : State n W) : Prop where
  le : ∀ v ∈ s.completed, v.seq ≤ s.cell.seq
  increasing : s.completed.Pairwise fun v w => v.seq < w.seq
  stable : s.cell.seq % 2 = 0 → s.cell.view ∈ s.completed
  writer : ∀ w, s.writer = some w → w.Sound s.cell
  readers : ∀ i r, s.readers i = some r → r.Sound s.cell
  returned : ∀ v ∈ s.returned, v ∈ s.completed

variable {s : State n W}

theorem sound_create (words : Fin n → W) : Sound (State.create words) where
  le v hv := by rw [List.mem_singleton.mp hv]; exact Nat.le_refl _
  increasing := List.pairwise_singleton _ _
  stable _ := List.mem_singleton_self _
  writer w hw := nomatch hw
  readers i r hr := nomatch hr
  returned v hv := nomatch hv

/-- The number moves on: no reader can end with the number it began with. -/
theorem Read.Sound.moved {c c' : Cell n W} {r : Read W} (h : r.Sound c) (le : c.seq ≤ c'.seq)
    (ne : c'.seq ≠ r.seqBefore) : r.Sound c' where
  even := h.even
  le := Nat.le_trans h.le le
  length := h.length
  seq heq := absurd heq ne
  copied heq := absurd heq ne

theorem Read.Sound.odd {c c' : Cell n W} {r : Read W} (h : r.Sound c) (le : c.seq ≤ c'.seq)
    (odd : c'.seq % 2 = 1) : r.Sound c' :=
  h.moved le fun heq => by
    have heven := h.even
    omega

theorem Sound.storeNext (h : Sound s) {w : Write n W} (hw : s.writer = some w) : Sound (storeNext s w) := by
  have hwrite := h.writer w hw
  unfold Seqlock.storeNext
  split
  · next hzero =>
    have hmarker := hwrite.before hzero
    have hodd : w.marker % 2 = 1 := hmarker ▸ madeOdd_odd _
    have hle : s.cell.seq ≤ w.marker := hmarker ▸ le_madeOdd _
    refine ⟨fun v hv => Nat.le_trans (h.le v hv) hle, h.increasing, fun heven => ?_, fun w' hw' => ?_, fun i r hr => ?_,
      h.returned⟩
    · exact absurd (show w.marker % 2 = 0 from heven) (by omega)
    · cases hw'
      refine ⟨fun hone => absurd hone Nat.one_ne_zero, fun _ => ⟨rfl, hodd, Nat.succ_le_succ (Nat.zero_le n)⟩,
        fun k hk => ?_⟩
      exact absurd hk (by simp)
    · exact (h.readers i r hr).odd hle hodd
  · next hzero =>
    obtain ⟨hseq, hodd, hcount⟩ := hwrite.marked (Nat.pos_of_ne_zero hzero)
    split
    · next hword =>
      refine ⟨h.le, h.increasing, fun heven => ?_, fun w' hw' => ?_, fun i r hr => ?_, h.returned⟩
      · exact absurd (show s.cell.seq % 2 = 0 from heven) (by omega)
      · cases hw'
        refine ⟨fun hsucc => absurd hsucc (Nat.succ_ne_zero _), fun _ => ⟨hseq, hodd, ?_⟩, fun k hk => ?_⟩
        · show w.stored + 1 ≤ n + 1
          omega
        · by_cases hlast : k = ⟨w.stored - 1, hword⟩
          · subst hlast
            exact Function.update_self _ _ _
          · have hne : (k : Nat) ≠ w.stored - 1 := fun heq => hlast (Fin.ext heq)
            exact (Function.update_of_ne hlast _ _).trans (hwrite.words k (by simp only at hk; omega))
      · exact (h.readers i r hr).odd (Nat.le_refl _) (show s.cell.seq % 2 = 1 by omega)
    · next hend =>
      have hwords : s.cell.words = w.values := funext fun k => hwrite.words k (by have := k.isLt; omega)
      refine ⟨fun v hv => ?_, ?_, fun _ => ?_, (fun w' hw' => nomatch hw'), fun i r hr => ?_, fun v hv => ?_⟩
      · obtain hv | hv := List.mem_append.mp hv
        · have hle := h.le v hv
          show v.seq ≤ w.marker + 1
          omega
        · rw [List.mem_singleton.mp hv]
      · refine List.pairwise_append.mpr ⟨h.increasing, List.pairwise_singleton _ _, fun v hv v' hv' => ?_⟩
        rw [List.mem_singleton.mp hv']
        have hle := h.le v hv
        show v.seq < w.marker + 1
        omega
      · refine List.mem_append.mpr (.inr (List.mem_singleton.mpr ?_))
        rw [Cell.view, hwords]
      · have hle := (h.readers i r hr).le
        exact (h.readers i r hr).moved (show s.cell.seq ≤ w.marker + 1 by omega)
          (show w.marker + 1 ≠ r.seqBefore by omega)
      · exact List.mem_append_left _ (h.returned v hv)

/-- A reader takes the place of another. -/
theorem Sound.setReader (h : Sound s) (i : Nat) {r : Option (Read W)} (hr : ∀ r', r = some r' → r'.Sound s.cell) :
    Sound (setReader s i r) where
  le := h.le
  increasing := h.increasing
  stable := h.stable
  writer := h.writer
  readers j r' hj := by
    simp only [Seqlock.setReader] at hj
    by_cases hji : j = i
    · rw [hji, Function.update_self] at hj
      exact hr r' hj
    · rw [Function.update_of_ne hji] at hj
      exact h.readers j r' hj
  returned := h.returned

/-- A read that ends with the number it began with has copied the cell. -/
theorem Read.Sound.whole {c : Cell n W} {r : Read W} (h : r.Sound c) {seq : Nat} (hseq : r.seqCopied = some seq)
    (hlength : ¬ r.copied.length < n) (hsame : c.seq = r.seqBefore) : (⟨seq, r.copied⟩ : View W) = c.view := by
  have hle := h.length
  have hcopied := h.copied hsame
  rw [List.take_of_length_le (by rw [List.length_ofFn]; omega)] at hcopied
  rw [Cell.view, ← hcopied, h.seq hsame seq hseq, hsame]

theorem Sound.loadNext (h : Sound s) (i : Nat) : Sound (loadNext s i) := by
  unfold Seqlock.loadNext
  split
  · split
    · next heven =>
      refine h.setReader i fun r' hr' => ?_
      cases hr'
      exact ⟨heven, Nat.le_refl _, Nat.zero_le _, (fun _ q hq => nomatch hq), fun _ => rfl⟩
    · exact h
  · next r hr =>
    have hread := h.readers i r hr
    split
    · refine h.setReader i fun r' hr' => ?_
      cases hr'
      exact { hread with seq := fun hsame q hq => (Option.some.inj hq).symm.trans hsame }
    · next seq hseq =>
      split
      · next hmore =>
        refine h.setReader i fun r' hr' => ?_
        cases hr'
        refine ⟨hread.even, hread.le, ?_, hread.seq, fun hsame => ?_⟩
        · rw [List.length_append]
          exact hmore
        · have hlength : r.copied.length < (List.ofFn s.cell.words).length := by
            rw [List.length_ofFn]
            exact hmore
          rw [List.length_append, List.length_singleton, List.take_succ_eq_append_getElem hlength,
            ← hread.copied hsame, List.getElem_ofFn]
      · next hall =>
        split
        · next hsame =>
          have hset : Sound (Seqlock.setReader s i none) := h.setReader i fun _ hnone => nomatch hnone
          have hview := hread.whole hseq hall hsame
          have heven : s.cell.seq % 2 = 0 := by
            rw [hsame]
            exact hread.even
          refine { hset with returned := fun v hv => ?_ }
          obtain hv | hv := List.mem_append.mp hv
          · exact h.returned v hv
          · rw [List.mem_singleton.mp hv, hview]
            exact h.stable heven
        · exact h.setReader i fun _ hnone => nomatch hnone

theorem Sound.step (h : Sound s) (e : Event n W) : Sound (step s e) := by
  cases e with
  | begin values =>
    simp only [Seqlock.step]
    split
    · refine { h with writer := fun w hw => ?_ }
      cases hw
      exact ⟨fun _ => rfl, fun hpos => absurd hpos (Nat.lt_irrefl 0), fun k hk => absurd hk (Nat.not_lt_zero _)⟩
    · exact h
  | store =>
    simp only [Seqlock.step]
    split
    · exact h
    · next w hw => exact h.storeNext hw
  | die => exact { h with writer := fun w hw => nomatch hw }
  | load i => exact h.loadNext i

theorem sound_run (words : Fin n → W) (es : List (Event n W)) : Sound (run step (State.create words) es) :=
  run_invariant (sound_create words) (fun _ e h => h.step e) es

/-- No two completed writes have one number. -/
theorem Sound.seq_inj (h : Sound s) {i j : Nat} {v w : View W} (hi : s.completed[i]? = some v)
    (hj : s.completed[j]? = some w) (hseq : v.seq = w.seq) : i = j := by
  obtain ⟨hilt, rfl⟩ := List.getElem?_eq_some_iff.mp hi
  obtain ⟨hjlt, rfl⟩ := List.getElem?_eq_some_iff.mp hj
  have hlt := List.pairwise_iff_getElem.mp h.increasing
  obtain hij | hij | hij := Nat.lt_trichotomy i j
  · exact absurd hseq (Nat.ne_of_lt (hlt i j hilt hjlt hij))
  · exact hij
  · exact absurd hseq.symm (Nat.ne_of_lt (hlt j i hjlt hilt hij))

/-- Whatever a read returns is what exactly one completed write left. -/
theorem returned_once (words : Fin n → W) (es : List (Event n W)) {v : View W}
    (hv : v ∈ (run step (State.create words) es).returned) :
    ∃! i : Nat, (run step (State.create words) es).completed[i]? = some v := by
  have h := sound_run words es
  obtain ⟨i, hi⟩ := List.getElem?_of_mem (h.returned v hv)
  exact ⟨i, hi, fun j hj => h.seq_inj hj hi rfl⟩

end SglangOmni.Lib.Seqlock

import SglangOmni.Models.MossTts.DelayPattern

/-! The shared inverse of the delay pattern.

`reverseDelayPattern` copies one column after the other out of the delayed rows; what it gives are the diagonals that
the strided view of MOSS-TTS reads (`reverseDelayPattern_eq`). -/
namespace SglangOmni.Models
open MossTts

inductive DelayError where
  /-- `delayed has L=…, N=…; need L >= N …`. -/
  | tooShort (length numCodebooks : Nat)
  deriving DecidableEq

/-- `delayed[c : c + rows, c]`. -/
def delayedColumn (delayed : List Frame) (rows c : Nat) : List Int :=
  ((delayed.drop c).take rows).map fun row => row.getD c 0

/-- The columns are copied one after the other; `out` is empty at first. -/
def reverseDelayPattern (delayed : List Frame) (numCodebooks : Nat) (allowShort : Bool) :
    Except DelayError (List Frame) :=
  let rows : Int := delayed.length - ((numCodebooks : Int) - 1)
  if rows ≤ 0 then
    if allowShort then .ok [] else .error (.tooShort delayed.length numCodebooks)
  else
    let columns := (List.range numCodebooks).map (delayedColumn delayed rows.toNat)
    .ok ((List.range rows.toNat).map fun t => columns.map fun column => column.getD t 0)

theorem getD_delayedColumn (delayed : List Frame) {rows c t : Nat} (ht : t < rows) :
    (delayedColumn delayed rows c).getD t 0 = (delayed.getD (t + c) []).getD c 0 := by
  unfold delayedColumn
  by_cases h : t + c < delayed.length
  · have hlen : t < ((delayed.drop c).take rows).length := by simp; omega
    rw [List.getD_eq_getElem _ _ (by simpa using hlen), List.getElem_map, List.getElem_take, List.getElem_drop,
      List.getD_eq_getElem _ _ h]
    simp only [Nat.add_comm]
  · have hlen : ((delayed.drop c).take rows).length ≤ t := by simp; omega
    have hnone : delayed.getD (t + c) [] = [] := List.getD_eq_default _ _ (by omega)
    rw [List.getD_eq_default _ _ (by simpa using hlen), hnone]
    rfl

/-- **What the inverse gives**: every frame whose diagonal is complete. -/
theorem reverseDelayPattern_eq (delayed : List Frame) {numCodebooks : Nat} (hpos : 0 < numCodebooks)
    (hlen : numCodebooks ≤ delayed.length) (allowShort : Bool) :
    reverseDelayPattern delayed numCodebooks allowShort = .ok (rawFrames numCodebooks delayed) := by
  have hrows : ¬((delayed.length : Int) - ((numCodebooks : Int) - 1) ≤ 0) := by omega
  have hcount : ((delayed.length : Int) - ((numCodebooks : Int) - 1)).toNat = delayed.length - (numCodebooks - 1) := by
    omega
  simp only [reverseDelayPattern, if_neg hrows, hcount, rawFrames, List.map_map]
  congr 1
  apply List.map_congr_left
  intro t ht
  apply List.map_congr_left
  intro c _
  exact getD_delayedColumn delayed (List.mem_range.mp ht)

/-- Too few rows have no frame. -/
theorem reverseDelayPattern_allowShort (delayed : List Frame) {numCodebooks : Nat} (hpos : 0 < numCodebooks) :
    reverseDelayPattern delayed numCodebooks true = .ok (rawFrames numCodebooks delayed) := by
  by_cases hlen : numCodebooks ≤ delayed.length
  · exact reverseDelayPattern_eq delayed hpos hlen true
  · have hrows : (delayed.length : Int) - ((numCodebooks : Int) - 1) ≤ 0 := by omega
    have hnone : delayed.length - (numCodebooks - 1) = 0 := by omega
    simp only [reverseDelayPattern, if_pos hrows, rawFrames, hnone]
    rfl

end SglangOmni.Models

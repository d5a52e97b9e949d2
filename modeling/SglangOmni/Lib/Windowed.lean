import Mathlib.Data.List.Basic

/-! Outputs that look back a bounded number of inputs.

A decoder with a bounded look-back gives, for each input, an output that is a function of that input and of at most
`overlap` inputs before it (`windowed`). Decoding a stream in pieces then only needs the last `overlap` inputs of what
came before (`windowed_drop`), and the pieces put together are the whole (`windowed_append`). -/
namespace SglangOmni.Lib

variable {α β : Type} (overlap : Nat) (render : List α → List β)

/-- The inputs the output at `i` depends on. -/
def lookBack (xs : List α) (i : Nat) : List α := (xs.take (i + 1)).drop (i - overlap)

/-- The outputs of the inputs from `a` up to `b`. -/
def windowed (xs : List α) (a b : Nat) : List β :=
  (List.range' a (b - a)).flatMap fun i => render (lookBack overlap xs i)

@[simp] theorem windowed_self (xs : List α) (a : Nat) : windowed overlap render xs a a = [] := by
  simp [windowed]

theorem windowed_append (xs : List α) {a b c : Nat} (hab : a ≤ b) (hbc : b ≤ c) :
    windowed overlap render xs a b ++ windowed overlap render xs b c = windowed overlap render xs a c := by
  have hsplit : List.range' a (c - a) = List.range' a (b - a) ++ List.range' b (c - b) := by
    rw [show c - a = (b - a) + (c - b) by omega, ← List.range'_append_1, show a + (b - a) = b by omega]
  rw [windowed, windowed, windowed, hsplit, List.flatMap_append]

/-- Later inputs change no output that came before them. -/
theorem windowed_extend (xs ys : List α) {a b : Nat} (h : b ≤ xs.length) :
    windowed overlap render (xs ++ ys) a b = windowed overlap render xs a b := by
  apply List.flatMap_congr
  intro i hi
  rw [List.mem_range'_1] at hi
  rw [lookBack, lookBack, List.take_append_of_le_length (by omega)]

/-- **Dropping what is out of reach changes nothing.** -/
theorem windowed_drop (xs : List α) {a b w : Nat} (hw : w ≤ a) (h : w = 0 ∨ w + overlap ≤ a) :
    windowed overlap render (xs.drop w) (a - w) (b - w) = windowed overlap render xs a b := by
  have hshift : List.range' a (b - a) = (List.range' (a - w) (b - w - (a - w))).map (w + ·) := by
    rw [List.map_add_range', show w + (a - w) = a by omega, show b - w - (a - w) = b - a by omega]
  rw [windowed, windowed, hshift, List.flatMap_map]
  apply List.flatMap_congr
  intro i hi
  rw [List.mem_range'_1] at hi
  have htake : (xs.drop w).take (i + 1) = (xs.take (w + i + 1)).drop w := by
    rw [List.drop_take, show w + i + 1 - w = i + 1 by omega]
  rw [lookBack, lookBack, htake, List.drop_drop, show w + (i - overlap) = w + i - overlap by omega]

variable {render}

/-- With a fixed number of outputs for each input, what was given is a number of outputs. -/
theorem windowed_length {size : Nat} (h : ∀ ctx, (render ctx).length = size) (xs : List α) (a b : Nat) :
    (windowed overlap render xs a b).length = (b - a) * size := by
  simp [windowed, List.length_flatMap, h]

theorem drop_windowed {size : Nat} (h : ∀ ctx, (render ctx).length = size) (xs : List α) {a b c : Nat}
    (hab : a ≤ b) (hbc : b ≤ c) :
    (windowed overlap render xs a c).drop ((b - a) * size) = windowed overlap render xs b c := by
  rw [← windowed_append overlap render xs hab hbc,
    List.drop_left' (windowed_length overlap h xs a b)]

end SglangOmni.Lib

import Mathlib.Data.List.Infix

/-! Replacing a piece of text wherever it stands, from the left.

A text is read from the left, so of pieces that overlap the first is replaced. A cut is clean when no piece that is
replaced lies across it (`Clean`): then the parts are replaced by themselves, and otherwise such a piece is there
(`clean_or_across`). A letter that is not of the piece makes every cut next to it clean. -/
namespace SglangOmni.Lib

variable {α : Type}

section
variable [DecidableEq α]

/-- The text is read from the left; `skip` letters of it were replaced already. -/
def replaceFrom (old new : List α) : (skip : Nat) → List α → List α
  | _, [] => []
  | skip + 1, _ :: rest => replaceFrom old new skip rest
  | 0, c :: rest =>
    if old.isPrefixOf (c :: rest) then new ++ replaceFrom old new (old.length - 1) rest
    else c :: replaceFrom old new 0 rest

/-- `str.replace`, of a piece that is not empty. -/
def replaceAll (old new text : List α) : List α := replaceFrom old new 0 text

end

/-- The reading of the first text, when the second follows, comes to the end of the first. -/
inductive Clean (old : List α) : List α → List α → Prop where
  | nil (y : List α) : Clean old [] y
  | old {x y : List α} : Clean old x y → Clean old (old ++ x) y
  | keep {c : α} {x y : List α} : ¬old <+: c :: (x ++ y) → Clean old x y → Clean old (c :: x) y

variable {old new : List α}

theorem Clean.append {x y z : List α} (h : Clean old x (y ++ z)) (hy : Clean old y z) : Clean old (x ++ y) z := by
  generalize hfull : y ++ z = w at h
  induction h with
  | nil w => exact hy
  | old _ ih =>
    rw [List.append_assoc]
    exact (ih hfull).old
  | keep hprefix _ ih =>
    rw [← hfull, ← List.append_assoc] at hprefix
    exact (ih hfull).keep hprefix

/-- A cut is clean, or the piece that is replaced there lies across it. -/
theorem clean_or_across (h : old ≠ []) (x y : List α) :
    Clean old x y ∨ ∃ before a b after, x = before ++ a ∧ y = b ++ after ∧ old = a ++ b ∧ a ≠ [] ∧ b ≠ [] ∧
      Clean old before (old ++ after) := by
  by_cases hx : x = []
  · exact .inl (hx ▸ .nil y)
  by_cases hprefix : old <+: x ++ y
  · obtain ⟨tail, htail⟩ := hprefix
    rcases List.append_eq_append_iff.mp htail with ⟨rest, hrest, _⟩ | ⟨b, hold, hy⟩
    · have hshort : rest.length < x.length := by
        have hlen := List.length_pos_of_ne_nil h
        rw [hrest, List.length_append]
        omega
      rw [hrest]
      rcases clean_or_across h rest y with hclean | ⟨before, a, b, after, heq, hy, hold, ha, hb, hclean⟩
      · exact .inl hclean.old
      · exact .inr ⟨old ++ before, a, b, after, by rw [heq, List.append_assoc], hy, hold, ha, hb, hclean.old⟩
    · by_cases hb : b = []
      · rw [hb, List.append_nil] at hold
        have hself : Clean old (old ++ []) y := (Clean.nil y).old
        rw [List.append_nil] at hself
        exact .inl (hold ▸ hself)
      · exact .inr ⟨[], x, b, tail, rfl, hy, hold, hx, hb, .nil _⟩
  · obtain ⟨c, rest, rfl⟩ := List.exists_cons_of_ne_nil hx
    rcases clean_or_across h rest y with hclean | ⟨before, a, b, after, rfl, rfl, hold, ha, hb, hclean⟩
    · exact .inl (hclean.keep hprefix)
    · refine .inr ⟨c :: before, a, b, after, rfl, rfl, hold, ha, hb, hclean.keep fun hp => hprefix ?_⟩
      have htext : before ++ (old ++ after) = before ++ a ++ (b ++ after) := by
        rw [hold]
        simp only [List.append_assoc]
      rw [htext] at hp
      exact hp
termination_by x.length

/-- A cut after a letter which is not of the piece. -/
theorem clean_left (h : old ≠ []) {x : List α} (hlast : ∀ c ∈ x.getLast?, c ∉ old) (y : List α) : Clean old x y := by
  rcases clean_or_across h x y with hclean | ⟨before, a, b, _, hx, _, hold, ha, _⟩
  · exact hclean
  · refine absurd (hold ▸ List.mem_append_left b (List.getLast_mem ha)) (hlast (a.getLast ha) ?_)
    rw [hx, List.getLast?_append_of_ne_nil _ ha, List.getLast?_eq_getLast_of_ne_nil ha]
    rfl

/-- A cut before a letter which is not of the piece. -/
theorem clean_right (h : old ≠ []) (x : List α) {y : List α} (hfirst : ∀ c ∈ y.head?, c ∉ old) : Clean old x y := by
  rcases clean_or_across h x y with hclean | ⟨_, a, b, after, _, hy, hold, _, hb, _⟩
  · exact hclean
  · obtain ⟨c, rest, rfl⟩ := List.exists_cons_of_ne_nil hb
    exact absurd (hold ▸ List.mem_append_right a List.mem_cons_self) (hfirst c (by rw [hy]; rfl))

variable [DecidableEq α]

theorem replaceFrom_skip (x y : List α) : replaceFrom old new x.length (x ++ y) = replaceFrom old new 0 y := by
  induction x with
  | nil => rfl
  | cons c rest ih => exact ih

@[simp] theorem replaceAll_nil : replaceAll old new [] = [] := rfl

/-- The piece is replaced where it is met. -/
theorem replaceAll_old (h : old ≠ []) (rest : List α) :
    replaceAll old new (old ++ rest) = new ++ replaceAll old new rest := by
  obtain ⟨c, tail, rfl⟩ := List.exists_cons_of_ne_nil h
  have hprefix : (c :: tail).isPrefixOf (c :: (tail ++ rest)) = true :=
    List.isPrefixOf_iff_prefix.mpr ⟨rest, rfl⟩
  show replaceFrom (c :: tail) new 0 (c :: (tail ++ rest)) = _
  rw [replaceFrom, if_pos hprefix, List.length_cons, Nat.add_sub_cancel, replaceFrom_skip]
  rfl

/-- Any other letter is kept. -/
theorem replaceAll_cons {c : α} {rest : List α} (h : ¬old <+: c :: rest) :
    replaceAll old new (c :: rest) = c :: replaceAll old new rest := by
  have hprefix : ¬old.isPrefixOf (c :: rest) = true := fun hp => h (List.isPrefixOf_iff_prefix.mp hp)
  rw [replaceAll, replaceFrom, if_neg hprefix]
  rfl

/-- **The parts of a text are replaced by themselves** where the cut is clean. -/
theorem Clean.replaceAll (h : old ≠ []) {x y : List α} (hclean : Clean old x y) :
    replaceAll old new (x ++ y) = replaceAll old new x ++ replaceAll old new y := by
  induction hclean with
  | nil y => rfl
  | old _ ih => rw [List.append_assoc, replaceAll_old h, replaceAll_old h, ih, List.append_assoc]
  | @keep c x y hprefix _ ih =>
    have hshort : ¬old <+: c :: x := fun hp => hprefix (hp.trans (List.prefix_append (c :: x) y))
    rw [List.cons_append, replaceAll_cons hprefix, replaceAll_cons hshort, ih]
    rfl

/-- A text without some letter of the piece stays as it is. -/
theorem replaceAll_self {c : α} (hc : c ∈ old) {text : List α} (h : c ∉ text) : replaceAll old new text = text := by
  induction text with
  | nil => rfl
  | cons d rest ih =>
    have hprefix : ¬old <+: d :: rest := fun hp => h (hp.subset hc)
    rw [replaceAll_cons hprefix, ih fun hrest => h (List.mem_cons_of_mem _ hrest)]

theorem mem_replaceAll (h : old ≠ []) {c : α} (text : List α) (hc : c ∈ replaceAll old new text) :
    c ∈ new ∨ c ∈ text := by
  by_cases hprefix : old <+: text
  · obtain ⟨rest, hrest⟩ := hprefix
    have hshort : rest.length < text.length := by
      have hlen := List.length_pos_of_ne_nil h
      rw [← hrest, List.length_append]
      omega
    rw [← hrest, replaceAll_old h] at hc
    rcases List.mem_append.mp hc with hc | hc
    · exact .inl hc
    · exact (mem_replaceAll h rest hc).imp_right fun hmem => hrest ▸ List.mem_append_right _ hmem
  · cases text with
    | nil => exact .inr hc
    | cons d rest =>
      rw [replaceAll_cons hprefix] at hc
      rcases List.mem_cons.mp hc with rfl | hc
      · exact .inr List.mem_cons_self
      · exact (mem_replaceAll h rest hc).imp_right (List.mem_cons_of_mem _)
termination_by text.length

end SglangOmni.Lib

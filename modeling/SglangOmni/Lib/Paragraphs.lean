import Mathlib.Data.List.Infix

/-! Lines, and the paragraphs that empty lines set apart.

A reader ends a line at a line feed, and a `universal` one at a carriage return too, alone or before a line feed. -/
namespace SglangOmni.Lib

/-- Every end of a line becomes a line feed. -/
def normalizeNewlines (universal : Bool) : (afterReturn : Bool) → List Char → List Char
  | _, [] => []
  | afterReturn, c :: rest =>
    if universal && c == '\r' then '\n' :: normalizeNewlines universal true rest
    else if afterReturn && c == '\n' then normalizeNewlines universal false rest
    else c :: normalizeNewlines universal false rest

def textLines (universal : Bool) (text : List Char) : List (List Char) :=
  (normalizeNewlines universal false text).splitOn '\n'

/-- The longest stretches of lines that are not empty. -/
def paragraphs (lines : List (List Char)) : List (List (List Char)) := (lines.splitOnP List.isEmpty).filter (· ≠ [])

variable {universal afterReturn : Bool} {a b line text : List Char}

/-! ### Lines -/

theorem normalizeNewlines_plain (hfeed : '\n' ∉ a) (hreturn : '\r' ∉ a) :
    normalizeNewlines universal afterReturn a = a := by
  induction a generalizing afterReturn with
  | nil => rfl
  | cons c rest ih =>
    have hc : c ≠ '\n' ∧ c ≠ '\r' :=
      ⟨fun h => hfeed (h ▸ List.mem_cons_self), fun h => hreturn (h ▸ List.mem_cons_self)⟩
    have hrest : normalizeNewlines universal false rest = rest := ih (fun h => hfeed (List.mem_cons_of_mem _ h))
      (fun h => hreturn (List.mem_cons_of_mem _ h))
    simp [normalizeNewlines, hc.1, hc.2, hrest]

/-- A text is read on from where another ends, unless the end of a line may lie across. -/
theorem normalizeNewlines_append (h : a.getLast? ≠ some '\r') (ha : a ≠ [] ∨ afterReturn = false) :
    normalizeNewlines universal afterReturn (a ++ b) =
      normalizeNewlines universal afterReturn a ++ normalizeNewlines universal false b := by
  induction a generalizing afterReturn with
  | nil =>
    obtain hne | rfl := ha
    · exact absurd rfl hne
    · rfl
  | cons c rest ih =>
    cases rest with
    | nil =>
      have hc : c ≠ '\r' := fun heq => h (congrArg some heq)
      simp only [List.singleton_append, normalizeNewlines, beq_iff_eq, Bool.and_eq_true, hc, and_false, if_false]
      split <;> rfl
    | cons d rest =>
      rw [List.getLast?_cons_cons] at h
      have hrest : ∀ flag, normalizeNewlines universal flag (d :: rest ++ b) =
          normalizeNewlines universal flag (d :: rest) ++ normalizeNewlines universal false b :=
        fun _ => ih h (.inl (List.cons_ne_nil _ _))
      rw [List.cons_append, normalizeNewlines, normalizeNewlines, hrest, hrest]
      split
      · rfl
      · split <;> rfl

theorem textLines_append (h : a.getLast? ≠ some '\r') :
    textLines universal (a ++ '\n' :: b) = textLines universal a ++ textLines universal b := by
  have hfeed : normalizeNewlines universal false ('\n' :: b) = '\n' :: normalizeNewlines universal false b := by
    simp [normalizeNewlines]
  unfold textLines
  rw [normalizeNewlines_append h (.inr rfl), hfeed, List.splitOn_append_cons_self]

theorem textLines_plain (hfeed : '\n' ∉ a) (hreturn : '\r' ∉ a) : textLines universal a = [a] := by
  unfold textLines
  rw [normalizeNewlines_plain hfeed hreturn, List.splitOn_eq_singleton hfeed]

/-- A first line without an end of a line in it. -/
theorem textLines_cons (hfeed : '\n' ∉ a) (hreturn : '\r' ∉ a) :
    textLines universal (a ++ '\n' :: b) = a :: textLines universal b := by
  rw [textLines_append (fun h => hreturn (List.mem_of_getLast? h)), textLines_plain hfeed hreturn]
  rfl

/-! ### What a line holds -/

theorem infix_of_split {α : Type} [BEq α] (sep : α) (l : List α) :
    (∀ first ∈ (l.splitOn sep).head?, first <+: l) ∧ ∀ part ∈ l.splitOn sep, part <:+: l := by
  induction l with
  | nil => simp
  | cons c rest ih =>
    obtain ⟨first, others, hsplit⟩ := List.exists_cons_of_ne_nil (List.splitOn_ne_nil sep rest)
    have hfirst : first <+: rest := ih.1 first (by rw [hsplit]; rfl)
    rw [List.splitOn_cons_eq_if_modifyHead]
    split
    · constructor
      · intro part hpart
        cases hpart
        exact List.nil_prefix
      · intro part hpart
        cases List.mem_cons.mp hpart with
        | inl heq => exact heq ▸ List.nil_infix
        | inr hin => exact List.infix_cons (ih.2 part hin)
    · have hlonger : c :: first <+: c :: rest := List.cons_prefix_cons.mpr ⟨rfl, hfirst⟩
      rw [hsplit]
      constructor
      · intro part hpart
        cases hpart
        exact hlonger
      · intro part hpart
        cases List.mem_cons.mp hpart with
        | inl heq => exact heq ▸ hlonger.isInfix
        | inr hin => exact List.infix_cons (ih.2 part (hsplit ▸ List.mem_cons_of_mem _ hin))

theorem prefix_of_normalized {p : List Char} (hfeed : '\n' ∉ p) (h : p <+: normalizeNewlines universal false text) :
    p <+: text := by
  induction p generalizing text with
  | nil => exact List.nil_prefix
  | cons d p ih =>
    have hd : d ≠ '\n' := fun heq => hfeed (heq ▸ List.mem_cons_self)
    cases text with
    | nil => exact h
    | cons c rest =>
      simp only [normalizeNewlines, Bool.false_and, Bool.false_eq_true, if_false] at h
      split at h
      · exact absurd (List.cons_prefix_cons.mp h).1 hd
      · obtain ⟨rfl, hrest⟩ := List.cons_prefix_cons.mp h
        exact List.cons_prefix_cons.mpr ⟨rfl, ih (fun hin => hfeed (List.mem_cons_of_mem _ hin)) hrest⟩

/-- What has no line feed in it and is found in the normal form was there before. -/
theorem infix_of_normalized {p : List Char} (hne : p ≠ []) (hfeed : '\n' ∉ p)
    (h : p <:+: normalizeNewlines universal afterReturn text) : p <:+: text := by
  have hnot : ∀ l : List Char, ¬ p <+: '\n' :: l := by
    intro l hp
    obtain ⟨d, q, rfl⟩ := List.exists_cons_of_ne_nil hne
    exact hfeed ((List.cons_prefix_cons.mp hp).1 ▸ List.mem_cons_self)
  induction text generalizing afterReturn with
  | nil => exact h
  | cons c rest ih =>
    simp only [normalizeNewlines] at h
    split at h
    · obtain hp | hin := List.infix_cons_iff.mp h
      · exact absurd hp (hnot _)
      · exact List.infix_cons (ih hin)
    · split at h
      · exact List.infix_cons (ih h)
      · next hreturn hskip =>
        obtain hp | hin := List.infix_cons_iff.mp h
        · have hsame : normalizeNewlines universal false (c :: rest) = c :: normalizeNewlines universal false rest := by
            simp [normalizeNewlines, hreturn]
          exact (prefix_of_normalized hfeed (hsame ▸ hp)).isInfix
        · exact List.infix_cons (ih hin)

theorem infix_of_mem_textLines {p : List Char} (hne : p ≠ []) (hfeed : '\n' ∉ p)
    (hline : line ∈ textLines universal text)
    (h : p <:+: line) : p <:+: text :=
  infix_of_normalized hne hfeed (h.trans ((infix_of_split _ _).2 line hline))

/-! ### Empty lines -/

/-- An empty line among the lines of a text, whose first line is part of a line that was not empty when not `fresh`. -/
def emptyLine (universal : Bool) : (fresh afterReturn : Bool) → List Char → Bool
  | fresh, _, [] => fresh
  | fresh, afterReturn, c :: rest =>
    if universal && c == '\r' then fresh || emptyLine universal true true rest
    else if afterReturn && c == '\n' then emptyLine universal fresh false rest
    else if c == '\n' then fresh || emptyLine universal true false rest
    else emptyLine universal false false rest

theorem emptyLine_eq (fresh : Bool) : emptyLine universal fresh afterReturn text = true ↔
    fresh = true ∧ ((normalizeNewlines universal afterReturn text).splitOn '\n').head? = some [] ∨
      [] ∈ ((normalizeNewlines universal afterReturn text).splitOn '\n').tail := by
  induction text generalizing fresh afterReturn with
  | nil => simp [emptyLine, normalizeNewlines]
  | cons c rest ih =>
    simp only [emptyLine, normalizeNewlines]
    have hhead : ∀ l : List Char, [] ∈ l.splitOn '\n' ↔ (l.splitOn '\n').head? = some [] ∨
      [] ∈ (l.splitOn '\n').tail := by
      intro l
      obtain ⟨first, others, hsplit⟩ := List.exists_cons_of_ne_nil (List.splitOn_ne_nil '\n' l)
      simp [hsplit, eq_comm]
    split
    · simp [List.splitOn_cons_eq_if_modifyHead, ih, hhead]
    · split
      · exact ih fresh
      · split
        · next h => simp [List.splitOn_cons_eq_if_modifyHead, eq_of_beq h, ih, hhead]
        · next h =>
          obtain ⟨first, others, hsplit⟩ := List.exists_cons_of_ne_nil
            (List.splitOn_ne_nil '\n' (normalizeNewlines universal false rest))
          simp [List.splitOn_cons_eq_if_modifyHead, h, ih, hsplit]

theorem nil_mem_textLines : [] ∈ textLines universal text ↔ emptyLine universal true false text = true := by
  rw [emptyLine_eq]
  unfold textLines
  obtain ⟨first, others, hsplit⟩ := List.exists_cons_of_ne_nil
    (List.splitOn_ne_nil '\n' (normalizeNewlines universal false text))
  simp [hsplit, eq_comm]

/-! ### Paragraphs -/

theorem paragraphs_nil : paragraphs [] = [] := by simp [paragraphs]

theorem paragraphs_append (a b : List (List Char)) : paragraphs (a ++ [] :: b) = paragraphs a ++ paragraphs b := by
  unfold paragraphs
  rw [List.splitOnP_append_cons a b rfl, List.filter_append]

theorem paragraphs_textLines_nil : paragraphs (textLines universal []) = [] := by
  rw [textLines_plain List.not_mem_nil List.not_mem_nil]
  exact paragraphs_append [] []

theorem paragraphs_single {a : List (List Char)} (hne : a ≠ []) (h : [] ∉ a) : paragraphs a = [a] := by
  unfold paragraphs
  have hfull : ∀ line ∈ a, line.isEmpty = false := by
    intro line hline
    cases line with
    | nil => exact absurd hline h
    | cons c rest => rfl
  rw [List.splitOnP_eq_singleton hfull]
  simp [hne]

end SglangOmni.Lib

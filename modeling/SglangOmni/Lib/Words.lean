import Mathlib.Data.List.Forall2

/-! The words of a text, by the letters that begin them.

A letter is marked when nothing or a space is before it (`marks`). The marked letters of a text are those of its words
in turn (`marks_eq_words`), so they are kept when the words are joined anew (`marks_join`). Text after a text begins a
word where the first ended in a space, or was empty (`marks_append`). -/
namespace SglangOmni.Lib

variable {α : Type} (space : α → Bool)

/-- The letters, each with whether it begins a word; `fresh` says whether the text itself does. -/
def marks (fresh : Bool) : List α → List (α × Bool)
  | [] => []
  | c :: rest => if space c then marks true rest else (c, fresh) :: marks false rest

/-- Whether what comes after a text begins a word. -/
def endsFresh (fresh : Bool) : List α → Bool
  | [] => fresh
  | c :: rest => endsFresh (space c) rest

def words (text : List α) : List (List α) := (text.splitOnP space).filter (· ≠ [])

/-- The marks of one word. -/
def wordMarks : List α → List (α × Bool)
  | [] => []
  | c :: rest => (c, true) :: rest.map fun c => (c, false)

/-- **Same words**: the letters of a text, and none that begins a word there is within a word here. -/
def Apart (a b : List (α × Bool)) : Prop := List.Forall₂ (fun x y => x.1 = y.1 ∧ (x.2 = true → y.2 = true)) a b

variable {space}

/-! ### Text after text -/

theorem marks_append (fresh : Bool) (a b : List α) :
    marks space fresh (a ++ b) = marks space fresh a ++ marks space (endsFresh space fresh a) b := by
  induction a generalizing fresh with
  | nil => rfl
  | cons c rest ih =>
    rw [List.cons_append, marks, marks, endsFresh, ih, ih]
    cases space c <;> rfl

theorem endsFresh_append (fresh : Bool) (a b : List α) :
    endsFresh space fresh (a ++ b) = endsFresh space (endsFresh space fresh a) b := by
  induction a generalizing fresh with
  | nil => rfl
  | cons c rest ih => exact ih _

theorem map_fst_marks (fresh : Bool) (text : List α) :
    (marks space fresh text).map Prod.fst = text.filter (!space ·) := by
  induction text generalizing fresh with
  | nil => rfl
  | cons c rest ih =>
    rw [marks, List.filter_cons]
    cases hc : space c with
    | true => simpa [hc] using ih true
    | false => simp [ih false]

/-- The same text is apart from itself, unless it begins a word in one place and not in the other. -/
theorem apart_marks (fresh fresh' : Bool) (text : List α) :
    Apart (marks space fresh text) (marks space fresh' text) ↔
      ¬(fresh = true ∧ fresh' = false ∧ text.head?.any (!space ·) = true) := by
  cases text with
  | nil =>
    simp only [marks, List.head?_nil, Option.any_none, Bool.false_eq_true, and_false, not_false_iff, iff_true]
    exact List.Forall₂.nil
  | cons c rest =>
    have hsame : ∀ l : List (α × Bool), Apart l l := fun l => List.forall₂_same.mpr fun x _ => ⟨rfl, id⟩
    simp only [marks, List.head?_cons, Option.any_some]
    cases hc : space c with
    | true =>
      simp only [if_true, Bool.not_true, Bool.false_eq_true, and_false, not_false_iff, iff_true]
      exact hsame _
    | false =>
      simp only [Bool.false_eq_true, if_false, Bool.not_false, and_true]
      rw [Apart, List.forall₂_cons]
      constructor
      · rintro ⟨⟨_, hmark⟩, _⟩ ⟨htrue, hfalse⟩
        exact absurd (hmark htrue) (by simp [hfalse])
      · intro h
        refine ⟨⟨rfl, fun htrue => ?_⟩, hsame _⟩
        exact Bool.not_eq_false _ ▸ fun hfalse => h ⟨htrue, hfalse⟩

theorem apart_append {a b c d : List (α × Bool)} (hlen : a.length = b.length) :
    Apart (a ++ c) (b ++ d) ↔ Apart a b ∧ Apart c d := by
  induction a generalizing b with
  | nil =>
    have hnil : b = [] := List.length_eq_zero_iff.mp hlen.symm
    subst hnil
    exact ⟨fun h => ⟨List.Forall₂.nil, h⟩, fun h => h.2⟩
  | cons x rest ih =>
    cases b with
    | nil => exact nomatch hlen
    | cons y rest' =>
      have hrest := ih (Nat.succ.inj hlen)
      simp only [Apart, List.cons_append, List.forall₂_cons] at hrest ⊢
      rw [hrest]
      exact and_assoc.symm

/-! ### Words -/

/-- The marks of the pieces that a text is split in. -/
theorem marks_splitOnP (fresh : Bool) (text : List α) :
    ∃ first rest, text.splitOnP space = first :: rest ∧
      marks space fresh text = (if fresh then wordMarks first else first.map fun c => (c, false)) ++
        (rest.filter (· ≠ [])).flatMap wordMarks := by
  induction text generalizing fresh with
  | nil => exact ⟨[], [], List.splitOnP_nil, by cases fresh <;> rfl⟩
  | cons c text ih =>
    rw [List.splitOnP_cons_eq_if_modifyHead, marks]
    cases hc : space c with
    | true =>
      obtain ⟨first, rest, hsplit, hmarks⟩ := ih true
      refine ⟨[], first :: rest, by rw [hsplit]; rfl, ?_⟩
      simp only [if_true] at hmarks ⊢
      rw [hmarks]
      cases first with
      | nil | cons x xs => cases fresh <;> simp [wordMarks]
    | false =>
      obtain ⟨first, rest, hsplit, hmarks⟩ := ih false
      refine ⟨c :: first, rest, by rw [hsplit]; rfl, ?_⟩
      simp only [Bool.false_eq_true, if_false] at hmarks ⊢
      rw [hmarks]
      cases fresh <;> rfl

theorem marks_eq_words (text : List α) : marks space true text = (words space text).flatMap wordMarks := by
  obtain ⟨first, rest, hsplit, hmarks⟩ := @marks_splitOnP _ space true text
  rw [words, hsplit, hmarks]
  cases first with
  | nil => simp [wordMarks]
  | cons c text => simp

theorem mem_splitOnP {text word : List α} (h : word ∈ text.splitOnP space) : ∀ c ∈ word, space c = false := by
  induction text generalizing word with
  | nil =>
    rw [List.splitOnP_nil, List.mem_singleton] at h
    exact fun c hc => absurd (h ▸ hc) List.not_mem_nil
  | cons x text ih =>
    rw [List.splitOnP_cons_eq_if_modifyHead] at h
    cases hx : space x with
    | true =>
      rw [hx, if_pos rfl] at h
      rcases List.mem_cons.mp h with rfl | h
      · exact fun c hc => absurd hc List.not_mem_nil
      · exact ih h
    | false =>
      rw [hx, if_neg Bool.false_ne_true] at h
      obtain ⟨first, rest, hsplit⟩ := List.exists_cons_of_ne_nil (List.splitOnP_ne_nil space text)
      rw [hsplit, List.modifyHead_cons] at h
      rcases List.mem_cons.mp h with rfl | h
      · intro c hc
        rcases List.mem_cons.mp hc with rfl | hc
        · exact hx
        · exact ih (hsplit ▸ List.mem_cons_self) c hc
      · exact ih (hsplit ▸ List.mem_cons_of_mem _ h)

/-- A word has letters, and no space. -/
theorem mem_words {text word : List α} (h : word ∈ words space text) : word ≠ [] ∧ ∀ c ∈ word, space c = false := by
  obtain ⟨hsplit, hne⟩ := List.mem_filter.mp h
  exact ⟨by simpa using hne, mem_splitOnP hsplit⟩

theorem marks_false {rest : List α} (hletters : ∀ c ∈ rest, space c = false) :
    marks space false rest = rest.map fun c => (c, false) := by
  induction rest with
  | nil => rfl
  | cons c rest ih =>
    have hc := hletters c List.mem_cons_self
    simp [marks, hc, ih fun x hx => hletters x (List.mem_cons_of_mem _ hx)]

theorem marks_word {word : List α} (hletters : ∀ c ∈ word, space c = false) :
    marks space true word = wordMarks word := by
  cases word with
  | nil => rfl
  | cons c rest =>
    have hc := hletters c List.mem_cons_self
    simp [marks, wordMarks, hc, marks_false fun x hx => hletters x (List.mem_cons_of_mem _ hx)]

/-- Words joined with a space have the marks of each. -/
theorem marks_join {sep : α} (hsep : space sep = true) {ws : List (List α)}
    (hws : ∀ w ∈ ws, ∀ c ∈ w, space c = false) :
    marks space true ([sep].intercalate ws) = ws.flatMap wordMarks := by
  induction ws with
  | nil => rfl
  | cons w rest ih =>
    have hw := marks_word (hws w List.mem_cons_self)
    cases rest with
    | nil => rw [List.intercalate_singleton, hw, List.flatMap_cons, List.flatMap_nil, List.append_nil]
    | cons w' rest =>
      have hfresh : endsFresh space true (w ++ [sep]) = true := by
        rw [endsFresh_append, endsFresh, endsFresh, hsep]
      rw [List.intercalate_cons_cons, marks_append, marks_append, hfresh, hw,
        ih fun x hx => hws x (List.mem_cons_of_mem _ hx)]
      simp [marks, hsep]

/-- **Where words are cut**, the marks stay what they are. -/
theorem marks_cut {sep : α} (hsep : space sep = true) (text : List α) (n : Nat) :
    marks space true ([sep].intercalate ((words space text).take n)) ++
      marks space true ([sep].intercalate ((words space text).drop n)) = marks space true text := by
  have hletters : ∀ w ∈ words space text, ∀ c ∈ w, space c = false := fun w hw => (mem_words hw).2
  rw [marks_join hsep fun w hw => hletters w (List.mem_of_mem_take hw),
    marks_join hsep fun w hw => hletters w (List.mem_of_mem_drop hw), ← List.flatMap_append, List.take_append_drop,
    marks_eq_words]

end SglangOmni.Lib

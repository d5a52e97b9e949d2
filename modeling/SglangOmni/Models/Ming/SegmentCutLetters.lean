import SglangOmni.Models.Ming.SegmentCutLength

/-! What the text cut does to the letters, digits and Chinese characters.

What a text is spoken as, is its content after the dots were restored (`spoken`). The steps of the cut keep it, but for
three things: a placeholder that the text has of its own, a placeholder that is cut in two, and content that is stripped
where a fragment begins. Where none of them occurs, every text is spoken as it is. -/
namespace SglangOmni.Models.Ming
open Lib
open Router.Voices (isSpace)

/-! ### Content -/

/-- Said of the characters of a text, without asking all there are. -/
theorem forall_mem_of_all {P : Char → Prop} [DecidablePred P] {text : Text} (h : text.all (fun c => P c) = true) :
    ∀ c ∈ text, P c := fun c hc => of_decide_eq_true (List.all_eq_true.mp h c hc)

/-- The classes of characters: `decimal` is `\d`, and `content` are the letters, digits and Chinese characters. -/
structure Spoken (decimal content : Char → Bool) : Prop where
  letter : ∀ c, isLetter c = true → content c = true
  decimal : ∀ c, decimal c = true → content c = true
  han : ∀ c, isHan c = true → content c = true
  space : ∀ c, isSpace c = true → content c = false
  punctuation : ∀ c, isPunctuation c = true → content c = false
  marks : ∀ c ∈ ['。', '，', '！', '？', '；'], content c = false

/-- Restoring the dots that were protected gives the text back. -/
def Restores (decimal : Char → Bool) (text : Text) : Prop := restoreDots (protectText decimal text) = text

/-- A long text has a placeholder where it is cut: before its letters there are full pieces. -/
def CutsPlaceholder (maxLen : Nat) (text : Text) : Prop :=
  maxLen < getSemanticLength text ∧ ∃ before after, text = before ++ (dotPlaceholder ++ after) ∧
    Clean dotPlaceholder before (dotPlaceholder ++ after) ∧ 0 < getSemanticLength before ∧
    getSemanticLength before % maxLen = 0

/-- Content is stripped where the text begins. -/
def StripsContent (content : Char → Bool) (text : Text) : Prop := ∃ c ∈ text.takeWhile isLeading, content c = true

/-- The texts that become fragments: clauses, short ones with the next. -/
def fragmentTexts (maxLen minTail : Nat) : List Text → List Text
  | [] => []
  | [clause] => [clause]
  | clause :: next :: rest =>
    if CombinedClause maxLen minTail clause next then (clause ++ next) :: fragmentTexts maxLen minTail rest
    else clause :: fragmentTexts maxLen minTail (next :: rest)

/-- None of the three things occurs. -/
def KeepsContent (decimal content : Char → Bool) (text : Text) (maxLen minTail : Nat) : Prop :=
  Restores decimal text ∧ (getSemanticLength (processText decimal text) ≤ maxLen ∨
    ∀ sentence ∈ sentencesOf ((processText decimal text).map normalizeChar),
      ∀ t ∈ fragmentTexts maxLen minTail (clausesOf sentence), ¬CutsPlaceholder maxLen t ∧ ¬StripsContent content t)

/-! ### What is spoken -/

/-- The content, after the dots were restored. -/
def spoken (content : Char → Bool) (text : Text) : Text := (restoreDots text).filter content

/-- A character that is neither content nor of the placeholder. -/
def Silent (content : Char → Bool) (c : Char) : Prop := content c = false ∧ c ∉ dotPlaceholder

section
variable {decimal content : Char → Bool} {text : Text}

theorem spoken_append {x y : Text} (h : Clean dotPlaceholder x y) :
    spoken content (x ++ y) = spoken content x ++ spoken content y := by
  rw [spoken, restoreDots, h.replaceAll dotPlaceholder_ne_nil, List.filter_append]
  rfl

/-- A character that begins no placeholder. -/
theorem spoken_keep {c : Char} {rest : Text} (h : ¬dotPlaceholder <+: c :: rest) :
    spoken content (c :: rest) = [c].filter content ++ spoken content rest := by
  have happend : ∀ t : Text, (c :: t).filter content = [c].filter content ++ t.filter content :=
    fun t => @List.filter_append _ content [c] t
  rw [spoken, restoreDots, replaceAll_cons h, happend]
  rfl

theorem spoken_cons {c : Char} (h : c ∉ dotPlaceholder) (rest : Text) :
    spoken content (c :: rest) = [c].filter content ++ spoken content rest := by
  refine spoken_keep fun hprefix => ?_
  obtain ⟨tail, htail⟩ := hprefix
  exact h ((List.cons.inj htail).1 ▸ List.mem_cons_self)

variable (hs : Spoken decimal content)
include hs

theorem Spoken.dot : content '.' = false := hs.punctuation '.' (by decide)

theorem Spoken.placeholder (rest : Text) : spoken content (dotPlaceholder ++ rest) = spoken content rest := by
  rw [spoken, restoreDots, replaceAll_old dotPlaceholder_ne_nil, List.filter_append]
  simp [hs.dot, spoken, restoreDots]

/-- A text without content. -/
theorem Spoken.nothing (h : ∀ c ∈ text, content c = false) : spoken content text = [] := by
  refine List.filter_eq_nil_iff.mpr fun c hc => ?_
  rcases mem_replaceAll dotPlaceholder_ne_nil text hc with hdot | hmem
  · rw [List.mem_singleton.mp hdot, hs.dot]
    exact Bool.false_ne_true
  · rw [h c hmem]
    exact Bool.false_ne_true

/-- Silent characters before a text. -/
theorem Spoken.silent_left {x : Text} (h : ∀ c ∈ x, Silent content c) (y : Text) :
    spoken content (x ++ y) = spoken content y := by
  have hclean := clean_left dotPlaceholder_ne_nil (fun c hc => (h c (List.mem_of_getLast? hc)).2) y
  rw [spoken_append hclean, hs.nothing fun c hc => (h c hc).1, List.nil_append]

theorem Spoken.silent_right {y : Text} (h : ∀ c ∈ y, Silent content c) (x : Text) :
    spoken content (x ++ y) = spoken content x := by
  have hclean := clean_right dotPlaceholder_ne_nil x fun c hc => (h c (List.mem_of_mem_head? hc)).2
  rw [spoken_append hclean, hs.nothing fun c hc => (h c hc).1, List.append_nil]

theorem Spoken.silent_space {c : Char} (h : isSpace c = true) : Silent content c := by
  refine ⟨hs.space c h, fun hmem => ?_⟩
  have hletters : ∀ d ∈ dotPlaceholder, isSpace d = false := forall_mem_of_all (by decide)
  exact absurd (h.symm.trans (hletters c hmem)) (by decide)

theorem Spoken.strip (text : Text) : spoken content (stripText text) = spoken content text := by
  have hleft := List.takeWhile_append_dropWhile (p := isSpace) (l := text)
  have hright := List.rdropWhile_append_rtakeWhile (p := isSpace) (l := text.dropWhile isSpace)
  have hspaces : ∀ c ∈ (text.dropWhile isSpace).rtakeWhile isSpace, Silent content c := fun c hc =>
    hs.silent_space (List.mem_rtakeWhile_imp hc)
  have hbefore : ∀ c ∈ text.takeWhile isSpace, Silent content c := fun c hc =>
    hs.silent_space (List.mem_takeWhile_imp hc)
  rw [stripText, ← hs.silent_right hspaces, hright, ← hs.silent_left hbefore, hleft]

/-! ### Before the cut -/

/-- Characters of the placeholder stay, and the others change to silent ones. -/
theorem Spoken.map {f : Char → Char} (hf : ∀ c, f c = c ∨ Silent content c ∧ Silent content (f c)) (text : Text) :
    spoken content (text.map f) = spoken content text := by
  have hfixed : ∀ c, f c ∈ dotPlaceholder → f c = c := fun c hc => (hf c).resolve_right fun h => h.2.2 hc
  by_cases hprefix : dotPlaceholder <+: text
  · obtain ⟨rest, hrest⟩ := hprefix
    have hshort : rest.length < text.length := by
      rw [← hrest, List.length_append]
      exact Nat.lt_add_of_pos_left (by decide)
    have hmap : dotPlaceholder.map f = dotPlaceholder :=
      (List.map_congr_left fun c hc => (hf c).resolve_right fun h => h.1.2 hc).trans (List.map_id _)
    rw [← hrest, List.map_append, hmap, hs.placeholder, hs.placeholder, Spoken.map hf rest]
  · cases text with
    | nil => rfl
    | cons c rest =>
      have hprefix' : ¬dotPlaceholder <+: f c :: rest.map f := by
        rw [← List.map_cons, List.prefix_map_iff]
        rintro ⟨x, hx, hmap⟩
        have hself : x.map f = x := (List.map_congr_left fun d hd =>
          hfixed d (hmap ▸ List.mem_map_of_mem hd)).trans (List.map_id _)
        exact hprefix (hmap.trans hself ▸ hx)
      have hone : [f c].filter content = [c].filter content := by
        rcases hf c with heq | ⟨hc, hfc⟩
        · rw [heq]
        · simp [hc.1, hfc.1]
      rw [List.map_cons, spoken_keep hprefix', spoken_keep hprefix, hone, Spoken.map hf rest]
termination_by text.length

theorem Spoken.mark {c : Char} (h : c ∈ ['。', '，', '！', '？', '；']) : Silent content c := by
  refine ⟨hs.marks c h, ?_⟩
  have hletters : ∀ d ∈ ['。', '，', '！', '？', '；'], d ∉ dotPlaceholder := forall_mem_of_all (by decide)
  exact hletters c h

/-- A comma after a full stop is left out. -/
theorem Spoken.commas (text : Text) : spoken content (replaceAll ['。', '，'] ['。'] text) = spoken content text := by
  have hne : (['。', '，'] : Text) ≠ [] := List.cons_ne_nil _ _
  have hstop := hs.mark (c := '。') (by decide)
  have hcomma := hs.mark (c := '，') (by decide)
  have hout : ∀ c : Char, Silent content c → ∀ x y : Text,
      spoken content (x ++ c :: y) = spoken content x ++ spoken content y := by
    intro c hc x y
    have hclean : Clean dotPlaceholder x (c :: y) :=
      clean_right dotPlaceholder_ne_nil x fun d hd => (Option.some.inj hd : c = d) ▸ hc.2
    rw [spoken_append hclean, spoken_cons hc.2]
    simp [hc.1]
  by_cases hmem : '。' ∈ text
  · obtain ⟨x, y, hsplit, hx⟩ := List.eq_append_cons_of_mem hmem
    have hshort : y.length < text.length := by
      rw [hsplit, List.length_append, List.length_cons]
      omega
    have hclean : Clean ['。', '，'] x ('。' :: y) := by
      rcases clean_or_across hne x ('。' :: y) with hclean | ⟨before, a, b, _, rfl, _, heq, ha, _⟩
      · exact hclean
      · obtain ⟨c, rest, rfl⟩ := List.exists_cons_of_ne_nil ha
        exact absurd (List.mem_append_right before ((List.cons.inj heq).1 ▸ List.mem_cons_self)) hx
    rw [hsplit, hclean.replaceAll hne, replaceAll_self List.mem_cons_self hx, hout _ hstop]
    by_cases hpair : ['。', '，'] <+: '。' :: y
    · obtain ⟨rest, hrest⟩ := hpair
      obtain rfl : '，' :: rest = y := (List.cons.inj hrest).2
      have hshorter : rest.length < text.length := by
        rw [List.length_cons] at hshort
        omega
      have hreplace : replaceAll ['。', '，'] ['。'] ('。' :: '，' :: rest) =
          '。' :: replaceAll ['。', '，'] ['。'] rest := replaceAll_old hne rest
      rw [hreplace, hout _ hstop, Spoken.commas rest, spoken_cons hcomma.2]
      simp [hcomma.1]
    · rw [replaceAll_cons hpair, hout _ hstop, Spoken.commas y]
  · rw [replaceAll_self List.mem_cons_self hmem]
termination_by text.length

/-- What goes into the cut. -/
theorem Spoken.processText (h : Restores decimal text) :
    spoken content (processText decimal text) = text.filter content := by
  have hnewline : ∀ c : Char, (if c = '\n' then ' ' else c) = c ∨
      Silent content c ∧ Silent content (if c = '\n' then ' ' else c) := by
    intro c
    by_cases hc : c = '\n'
    · rw [if_pos hc, hc]
      exact .inr ⟨hs.silent_space (by decide), hs.silent_space (by decide)⟩
    · exact .inl (if_neg hc)
  rw [SglangOmni.Models.Ming.processText, hs.commas, hs.map hnewline, spoken, h]

theorem Spoken.normalize (text : Text) : spoken content (text.map normalizeChar) = spoken content text := by
  refine hs.map (fun c => ?_) text
  have hpunctuation : ∀ d ∈ ['.', '!', '?', ','], Silent content d := by
    intro d hd
    have hboth : ∀ d ∈ ['.', '!', '?', ','], isPunctuation d = true ∧ d ∉ dotPlaceholder :=
      forall_mem_of_all (by decide)
    exact ⟨hs.punctuation d (hboth d hd).1, (hboth d hd).2⟩
  unfold normalizeChar
  split
  · next hc => exact .inr ⟨hc ▸ hpunctuation _ (by decide), hs.mark (by decide)⟩
  split
  · next hc => exact .inr ⟨hc ▸ hpunctuation _ (by decide), hs.mark (by decide)⟩
  split
  · next hc => exact .inr ⟨hc ▸ hpunctuation _ (by decide), hs.mark (by decide)⟩
  split
  · next hc => exact .inr ⟨hc ▸ hpunctuation _ (by decide), hs.mark (by decide)⟩
  · exact .inl rfl

/-! ### Sentences and clauses -/

/-- A text that ends in a mark. -/
def Closed (text : Text) : Prop := ∃ c, text.getLast? = some c ∧ c ∉ dotPlaceholder ∧ isSpace c = false

omit hs in
theorem Closed.clean {x : Text} (h : Closed x) (y : Text) : Clean dotPlaceholder x y := by
  obtain ⟨c, hc, hmark, _⟩ := h
  exact clean_left dotPlaceholder_ne_nil (fun d hd => Option.some.inj (hc.symm.trans hd) ▸ hmark) y

omit hs in
theorem Closed.append {y : Text} (h : Closed y) (x : Text) : Closed (x ++ y) := by
  obtain ⟨c, hc, hmark⟩ := h
  obtain ⟨init, rfl⟩ := List.getLast?_eq_some_iff.mp hc
  exact ⟨c, by rw [← List.append_assoc]; exact List.getLast?_concat, hmark⟩

omit hs in
theorem Closed.strip {x : Text} (h : Closed x) : Closed (stripText x) := by
  obtain ⟨c, hc, hmark, hspace⟩ := h
  obtain ⟨init, rfl⟩ := List.getLast?_eq_some_iff.mp hc
  refine ⟨c, ?_, hmark, hspace⟩
  have hdrop : ∃ rest, (init ++ [c]).dropWhile isSpace = rest ++ [c] := by
    rw [List.dropWhile_append]
    split
    · exact ⟨[], by simp [hspace]⟩
    · exact ⟨_, rfl⟩
  obtain ⟨rest, hrest⟩ := hdrop
  rw [stripText, hrest, List.rdropWhile_concat_neg _ _ _ (by simp [hspace])]
  exact List.getLast?_concat

omit hs in
/-- Closed texts are spoken one by one. -/
theorem spoken_flatten {pieces : List Text} (h : ∀ piece ∈ pieces, Closed piece) (rest : Text) :
    spoken content (pieces.flatten ++ rest) = pieces.flatMap (spoken content) ++ spoken content rest := by
  induction pieces with
  | nil => rfl
  | cons piece pieces ih =>
    rw [List.flatten_cons, List.append_assoc, spoken_append ((h piece List.mem_cons_self).clean _),
      ih fun p hp => h p (List.mem_cons_of_mem _ hp), List.flatMap_cons, List.append_assoc]

omit hs in
theorem flatMap_filter_ne_nil (pieces : List Text) :
    (pieces.filter (· ≠ [])).flatMap (spoken content) = pieces.flatMap (spoken content) := by
  induction pieces with
  | nil => rfl
  | cons piece pieces ih =>
    cases piece with
    | nil => exact ih
    | cons c rest =>
      rw [List.filter_cons_of_pos (by simp), List.flatMap_cons, List.flatMap_cons, ih]

/-- The sentences of a text are closed, and spoken as the text. -/
theorem Spoken.sentences (text : Text) :
    (sentencesOf text).flatMap (spoken content) = spoken content text ∧
      ∀ sentence ∈ sentencesOf text, Closed sentence := by
  have hends : ∀ c, isSentenceEnd c = true → Silent content c ∧ isSpace c = false := by
    intro c hc
    have hcases : c = '。' ∨ c = '！' ∨ c = '？' := by
      simpa [isSentenceEnd, or_assoc] using hc
    rcases hcases with rfl | rfl | rfl <;> exact ⟨hs.mark (by decide), by decide⟩
  have hclosed : ∀ piece ∈ (cutAfter isSentenceEnd [] text).1, Closed piece := by
    intro piece hpiece
    obtain ⟨c, hc, hend⟩ := cutAfter_ends [] text piece hpiece
    exact ⟨c, hc, (hends c hend).1.2, (hends c hend).2⟩
  have hflat := @flatten_cutAfter Char isSentenceEnd [] text
  rw [List.nil_append] at hflat
  have hspoken := @spoken_flatten content _ hclosed (cutAfter isSentenceEnd [] text).2
  rw [hflat] at hspoken
  have hwhole : (((cutAfter isSentenceEnd [] text).1.map stripText).filter (· ≠ [])).flatMap (spoken content) =
      (cutAfter isSentenceEnd [] text).1.flatMap (spoken content) := by
    rw [flatMap_filter_ne_nil, List.flatMap_map]
    exact List.flatMap_congr fun piece _ => hs.strip piece
  have hwholeClosed :
      ∀ sentence ∈ ((cutAfter isSentenceEnd [] text).1.map stripText).filter (· ≠ []), Closed sentence := by
    intro sentence hsentence
    obtain ⟨piece, hpiece, rfl⟩ := List.mem_map.mp (List.mem_filter.mp hsentence).1
    exact (hclosed piece hpiece).strip
  unfold sentencesOf
  dsimp only
  split
  · next hnil =>
    rw [hnil] at hspoken
    exact ⟨hwhole.trans (hspoken.trans (List.append_nil _)).symm, hwholeClosed⟩
  · have hlast : ∀ last : Text, ∃ c, isSentenceEnd c = true ∧
        (if last.getLast?.any isSentenceEnd then last else last ++ ['。']).getLast? = some c := by
      intro last
      split
      · next hend =>
        obtain ⟨c, hc, hcend⟩ := (Option.any_eq_true ..).mp hend
        exact ⟨c, hcend, hc⟩
      · exact ⟨'。', by decide, List.getLast?_concat⟩
    have hlastSpoken : ∀ last : Text,
        spoken content (if last.getLast?.any isSentenceEnd then last else last ++ ['。']) = spoken content last := by
      intro last
      split
      · rfl
      · exact hs.silent_right (fun c hc => List.mem_singleton.mp hc ▸ hs.mark (by decide)) last
    refine ⟨?_, fun sentence hsentence => ?_⟩
    · rw [List.flatMap_append, hwhole, List.flatMap_singleton, hlastSpoken, hs.strip, hspoken]
    · rcases List.mem_append.mp hsentence with hsentence | hsentence
      · exact hwholeClosed sentence hsentence
      · rw [List.mem_singleton.mp hsentence]
        obtain ⟨c, hcend, hc⟩ := hlast (stripText (cutAfter isSentenceEnd [] text).2)
        exact ⟨c, hc, (hends c hcend).1.2, (hends c hcend).2⟩

/-- A text without valid content has no content. -/
theorem Spoken.invalid (h : hasValidContent text = false) : ∀ c ∈ text, content c = false := by
  intro c hc
  have hmarks : (isPunctuation c || isAsciiSpace c) = true := by
    have hany := List.any_eq_false.mp h c hc
    rw [Bool.not_eq_true, Bool.not_eq_false'] at hany
    exact hany
  rcases (Bool.or_eq_true ..).mp hmarks with hpunctuation | hspace
  · exact hs.punctuation c hpunctuation
  · refine hs.space c ?_
    simp only [isAsciiSpace, Bool.or_eq_true, Bool.and_eq_true, decide_eq_true_eq, beq_iff_eq] at hspace
    rcases hspace with hspace | rfl
    · simp [isSpace, hspace]
    · decide

theorem Spoken.addClause {clauses : List Text} (hclauses : ∀ c ∈ clauses, Closed c) {clause : Text}
    (hclause : Closed clause) :
    (addClause clauses clause).flatMap (spoken content) = clauses.flatMap (spoken content) ++ spoken content clause ∧
      ∀ c ∈ addClause clauses clause, Closed c := by
  have hne : clause ≠ [] := by
    obtain ⟨c, hc, _⟩ := hclause
    rintro rfl
    exact nomatch hc
  unfold SglangOmni.Models.Ming.addClause
  split
  · refine ⟨by rw [List.flatMap_append, List.flatMap_singleton], fun c hc => ?_⟩
    rcases List.mem_append.mp hc with hc | hc
    · exact hclauses c hc
    · exact List.mem_singleton.mp hc ▸ hclause
  · next hmarks =>
    have hinvalid : hasValidContent clause = false := by
      cases hvalid : hasValidContent clause with
      | false => rfl
      | true => exact absurd ⟨hne, hvalid⟩ hmarks
    cases hlast : clauses.getLast? with
    | none =>
      refine ⟨?_, hclauses⟩
      dsimp only
      rw [hs.nothing (hs.invalid hinvalid), List.append_nil]
    | some last =>
      obtain ⟨init, rfl⟩ := List.getLast?_eq_some_iff.mp hlast
      have hlastClosed := hclauses last (List.mem_append_right _ List.mem_cons_self)
      dsimp only
      rw [List.dropLast_concat]
      refine ⟨?_, fun c hc => ?_⟩
      · rw [List.flatMap_append, List.flatMap_append, List.flatMap_singleton, List.flatMap_singleton,
          spoken_append (hlastClosed.clean _), List.append_assoc]
      · rcases List.mem_append.mp hc with hc | hc
        · exact hclauses c (List.mem_append_left _ hc)
        · exact List.mem_singleton.mp hc ▸ hclause.append last

/-- The clauses of a sentence are closed, and spoken as the sentence. -/
theorem Spoken.clauses {sentence : Text} (hsentence : Closed sentence) :
    (clausesOf sentence).flatMap (spoken content) = spoken content sentence ∧
      ∀ clause ∈ clausesOf sentence, Closed clause := by
  have hends : ∀ c, isClauseEnd c = true → c ∉ dotPlaceholder ∧ isSpace c = false := by
    intro c hc
    have hcases : c = '，' ∨ c = ';' ∨ c = '；' := by
      simpa [isClauseEnd, or_assoc] using hc
    rcases hcases with rfl | rfl | rfl <;> decide
  have hclosed : ∀ piece ∈ (cutAfter isClauseEnd [] sentence).1, Closed piece := by
    intro piece hpiece
    obtain ⟨c, hc, hend⟩ := cutAfter_ends [] sentence piece hpiece
    exact ⟨c, hc, hends c hend⟩
  have hflat := @flatten_cutAfter Char isClauseEnd [] sentence
  rw [List.nil_append] at hflat
  have hspoken := @spoken_flatten content _ hclosed (cutAfter isClauseEnd [] sentence).2
  rw [hflat] at hspoken
  have hfold : ∀ (pieces : List Text), (∀ piece ∈ pieces, Closed piece) → ∀ clauses : List Text,
      (∀ c ∈ clauses, Closed c) →
      ((pieces.map stripText).foldl SglangOmni.Models.Ming.addClause clauses).flatMap (spoken content) =
        clauses.flatMap (spoken content) ++ pieces.flatMap (spoken content) ∧
      ∀ c ∈ (pieces.map stripText).foldl SglangOmni.Models.Ming.addClause clauses, Closed c := by
    intro pieces
    induction pieces with
    | nil => exact fun _ clauses h => ⟨(List.append_nil _).symm, h⟩
    | cons piece rest ih =>
      intro hpieces clauses h
      obtain ⟨hfirst, hnext⟩ := hs.addClause h (hpieces piece List.mem_cons_self).strip
      obtain ⟨hall, hdone⟩ := ih (fun p hp => hpieces p (List.mem_cons_of_mem _ hp)) _ hnext
      refine ⟨?_, hdone⟩
      rw [List.map_cons, List.foldl_cons, hall, hfirst, hs.strip, List.flatMap_cons, List.append_assoc]
  obtain ⟨hall, hdone⟩ := hfold _ hclosed [] fun c hc => absurd hc List.not_mem_nil
  unfold clausesOf
  dsimp only
  split
  · next hnil =>
    rw [hnil] at hspoken
    exact ⟨hall.trans (hspoken.trans (List.append_nil _)).symm, hdone⟩
  · next hrest =>
    -- the rest ends where the sentence ends
    have hlast : Closed (cutAfter isClauseEnd [] sentence).2 := by
      obtain ⟨c, hc, hmark⟩ := hsentence
      rw [← hflat, List.getLast?_append_of_ne_nil _ hrest] at hc
      exact ⟨c, hc, hmark⟩
    obtain ⟨hfirst, hnext⟩ := hs.addClause hdone hlast.strip
    refine ⟨?_, hnext⟩
    rw [hfirst, hall, hs.strip, hspoken]
    rfl

/-! ### Fragments -/

section
variable {maxLen minTail : Nat} {fragments : List Text}

/-- A new text that is not put to the last fragment within a placeholder. -/
def Ready (maxLen : Nat) (fragments : List Text) (newText : Text) : Prop :=
  ∀ last ∈ fragments.getLast?, Closed last ∨
    maxLen < getSemanticLength last + getSemanticLength (newText.dropWhile isLeading)

omit hs in
theorem isLeading_other {c : Char} (h : isLeading c = true) :
    c ∉ dotPlaceholder ∧ isHan c = false ∧ isLetter c = false := by
  have hcases : (c = '\u00ef' ∨ c = '\u00bc' ∨ c = '\u008c' ∨ c = ',' ∨ c = ':' ∨ c = ';' ∨ c = ' ') ∨
      (9 ≤ c.toNat ∧ c.toNat ≤ 13) := by
    simp only [isLeading, isAsciiSpace, Bool.or_eq_true, beq_iff_eq, Bool.and_eq_true, decide_eq_true_eq] at h
    tauto
  rcases hcases with hcases | ⟨hlow, hhigh⟩
  · rcases hcases with rfl | rfl | rfl | rfl | rfl | rfl | rfl <;> decide
  · have hchar : c = Char.ofNat c.toNat := (Char.ofNat_toNat c).symm
    generalize c.toNat = n at hlow hhigh hchar
    subst hchar
    interval_cases n <;> decide

/-- What is stripped was not content. -/
theorem Spoken.dropLeading {newText : Text} (h : ¬StripsContent content newText) :
    spoken content (newText.dropWhile isLeading) = spoken content newText := by
  have hsplit := List.takeWhile_append_dropWhile (p := isLeading) (l := newText)
  have hsilent : ∀ c ∈ newText.takeWhile isLeading, Silent content c := by
    intro c hc
    refine ⟨?_, (isLeading_other (List.mem_takeWhile_imp hc)).1⟩
    cases hcontent : content c with
    | false => rfl
    | true => exact absurd ⟨c, hc, hcontent⟩ h
  rw [← hs.silent_left hsilent, hsplit]

/-- **A new text adds what it is spoken as.** -/
theorem Spoken.appendTextFragment {newText : Text} (ready : Ready maxLen fragments newText)
    (hkeeps : ¬StripsContent content newText) :
    (appendTextFragment maxLen minTail fragments newText).flatMap (spoken content) =
      fragments.flatMap (spoken content) ++ spoken content newText := by
  have hsnoc : (fragments ++ [newText.dropWhile isLeading]).flatMap (spoken content) =
      fragments.flatMap (spoken content) ++ spoken content newText := by
    rw [List.flatMap_append, List.flatMap_singleton, hs.dropLeading hkeeps]
  unfold SglangOmni.Models.Ming.appendTextFragment
  dsimp only
  split
  · split
    · next hnone =>
      rw [List.getLast?_eq_none_iff.mp hnone] at hsnoc ⊢
      exact hsnoc
    · next last hlast =>
      split
      · next hfits =>
        split
        · exact hsnoc
        · have hclosed := (ready last hlast).resolve_right (Nat.not_lt.mpr hfits)
          obtain ⟨init, rfl⟩ := List.getLast?_eq_some_iff.mp hlast
          have hseparator : ∀ c ∈ (if last.getLast? ≠ some ' ' ∧ (newText.dropWhile isLeading).head?.any Char.isAlphanum
              then [' '] else []), Silent content c := by
            intro c hc
            split at hc
            · exact List.mem_singleton.mp hc ▸ hs.silent_space (by decide)
            · exact absurd hc List.not_mem_nil
          rw [List.dropLast_concat, List.flatMap_append, List.flatMap_singleton, List.append_assoc,
            spoken_append (hclosed.clean _), hs.silent_left hseparator, hs.dropLeading hkeeps, List.flatMap_append,
            List.flatMap_singleton, List.append_assoc]
      · exact hsnoc
  · next hinvalid =>
    have hvalid : hasValidContent (newText.dropWhile isLeading) = false := Bool.not_eq_true _ ▸ hinvalid
    rw [← hs.dropLeading hkeeps, hs.nothing (hs.invalid hvalid), List.append_nil]

omit hs in
/-- The last fragment ends in the new text, if that has valid content. -/
theorem getLast?_appendTextFragment (newText : Text) :
    ((appendTextFragment maxLen minTail fragments newText) = fragments ∧
        hasValidContent (newText.dropWhile isLeading) = false) ∨
      hasValidContent (newText.dropWhile isLeading) = true ∧
        ∃ before, (appendTextFragment maxLen minTail fragments newText).getLast? =
          some (before ++ newText.dropWhile isLeading) := by
  unfold SglangOmni.Models.Ming.appendTextFragment
  dsimp only
  split
  · next hvalid =>
    refine .inr ⟨hvalid, ?_⟩
    split
    · exact ⟨[], rfl⟩
    · next last hlast =>
      split
      · split
        · exact ⟨[], List.getLast?_concat⟩
        · exact ⟨_, List.getLast?_concat⟩
      · exact ⟨[], List.getLast?_concat⟩
  · next hinvalid => exact .inl ⟨rfl, Bool.not_eq_true _ ▸ hinvalid⟩

/-- Every fragment ends in a mark, as far as the last one goes. -/
def Settled (fragments : List Text) : Prop := ∀ last ∈ fragments.getLast?, Closed last

omit hs in
theorem Settled.ready (h : Settled fragments) (newText : Text) : Ready maxLen fragments newText :=
  fun last hlast => .inl (h last hlast)

omit hs in
theorem settled_appendTextFragment {newText : Text} (hclosed : Closed newText)
    (h : Settled fragments ∨ hasValidContent (newText.dropWhile isLeading) = true) :
    Settled (appendTextFragment maxLen minTail fragments newText) := by
  rcases getLast?_appendTextFragment newText with ⟨hsame, hinvalid⟩ | ⟨hvalid, before, hlast⟩
  · rw [hsame]
    exact h.resolve_right (by rw [hinvalid]; exact Bool.false_ne_true)
  · intro last hmem
    rw [hlast] at hmem
    obtain rfl := Option.some.inj hmem
    have hne : newText.dropWhile isLeading ≠ [] := by
      intro hnil
      rw [hnil] at hvalid
      exact nomatch hvalid
    obtain ⟨c, hc, hmark⟩ := hclosed
    rw [← List.takeWhile_append_dropWhile (p := isLeading) (l := newText), List.getLast?_append_of_ne_nil _ hne] at hc
    exact Closed.append ⟨c, hc, hmark⟩ before

/-! ### Long clauses -/

theorem Spoken.valid {text : Text} (h : 1 ≤ getSemanticLength text) : hasValidContent text = true := by
  cases hvalid : hasValidContent text with
  | true => rfl
  | false =>
    have hother : ∀ c ∈ text, isHan c = false ∧ isLetter c = false := by
      intro c hc
      have hnone := hs.invalid hvalid c hc
      refine ⟨?_, ?_⟩
      · exact Bool.eq_false_iff.mpr fun hhan => absurd (hs.han c hhan) (by simp [hnone])
      · exact Bool.eq_false_iff.mpr fun hletter => absurd (hs.letter c hletter) (by simp [hnone])
    have hzero := getSemanticLength_other hother []
    rw [List.append_nil] at hzero
    rw [hzero] at h
    exact nomatch h

omit hs in
/-- Where a placeholder can be cut. -/
theorem placeholder_cuts {a b : Text} (ha : a ≠ []) (hb : b ≠ []) (h : dotPlaceholder = a ++ b) :
    (a = ['#', '#'] ∧ b = ['D', 'O', 'T', '#', '#']) ∨ (∃ c ∈ b.head?, unitKind c = .other) ∨
      (endsInWord false a = true ∧ ∃ c ∈ b.head?, isLetter c = true) := by
  have hlen := congrArg List.length h
  rw [List.length_append] at hlen
  have hpos := List.length_pos_of_ne_nil ha
  have hpos' := List.length_pos_of_ne_nil hb
  have htake : a = dotPlaceholder.take a.length := by rw [h, List.take_left]
  have hdrop : b = dotPlaceholder.drop a.length := by rw [h, List.drop_left]
  have hbound : a.length < 7 := by
    have hseven : dotPlaceholder.length = 7 := rfl
    omega
  generalize a.length = n at htake hdrop hbound hpos
  subst htake hdrop
  interval_cases n
  · exact .inr (.inl ⟨'#', rfl, rfl⟩)
  · exact .inl ⟨rfl, rfl⟩
  · exact .inr (.inr ⟨rfl, 'O', rfl, rfl⟩)
  · exact .inr (.inr ⟨rfl, 'T', rfl, rfl⟩)
  · exact .inr (.inl ⟨'#', rfl, rfl⟩)
  · exact .inr (.inl ⟨'#', rfl, rfl⟩)

omit hs in
/-- Marks at the end of a text do not count. -/
theorem getSemanticLength_hashes (x : Text) : getSemanticLength (x ++ ['#', '#']) = getSemanticLength x := by
  have hjoint : Joint x ['#', '#'] := fun c hc hletter => by
    obtain rfl : '#' = c := Option.some.inj hc
    exact absurd hletter (by decide)
  rw [getSemanticLength_append hjoint]
  rfl

omit hs in
/-- No placeholder stands across a cut, unless the text has one there. -/
theorem clean_of_cut (hmax : 1 ≤ maxLen) {text : Text} (hlong : maxLen < getSemanticLength text)
    (huncut : ¬CutsPlaceholder maxLen text) {before p y : Text} (htext : text = before ++ (p ++ y))
    (hbefore : getSemanticLength before % maxLen = 0) (hjoint : Joint before p)
    (hreading : Clean dotPlaceholder before (p ++ y))
    (hfull : getSemanticLength p = maxLen) (hjoin : Joint p y) {c : Char} (hc : c ∈ y.head?)
    (hcounts : unitKind c ≠ .other) :
    Clean dotPlaceholder p y := by
  rcases clean_or_across dotPlaceholder_ne_nil p y with hclean | ⟨start, a, b, tail, hp, hy, heq, ha, hb, hstart⟩
  · exact hclean
  have hfirst : b.head? = some c := by
    obtain ⟨d, b, rfl⟩ := List.exists_cons_of_ne_nil hb
    rw [hy] at hc
    exact hc
  rcases placeholder_cuts ha hb heq with ⟨rfl, rfl⟩ | ⟨d, hd, hother⟩ | ⟨hends, d, hd, hletter⟩
  · have hwhole : p ++ y = start ++ (dotPlaceholder ++ tail) := by
      rw [hp, hy, heq]
      simp only [List.append_assoc]
    have hsum : getSemanticLength (before ++ start) = getSemanticLength before + maxLen := by
      rw [← getSemanticLength_hashes, List.append_assoc, ← hp, getSemanticLength_append hjoint, hfull]
    refine absurd ⟨hlong, before ++ start, tail, ?_, ?_, ?_, ?_⟩ huncut
    · rw [htext, hwhole, List.append_assoc]
    · exact (hwhole ▸ hreading).append hstart
    · omega
    · rw [hsum, Nat.add_mod_right]
      exact hbefore
  · exact absurd (Option.some.inj (hfirst.symm.trans hd) ▸ hother) hcounts
  · have hword := hjoin c hc (Option.some.inj (hfirst.symm.trans hd) ▸ hletter)
    have hends' : endsInWord false p = true := by
      rw [hp, endsInWord, endsFresh_append]
      rw [endsInWord_getLast false ha] at hends
      exact (endsInWord_getLast _ ha).trans hends
    exact absurd (hends'.symm.trans hword) (by decide)

omit hs in
/-- Where no placeholder stands across, the pieces are spoken one by one. -/
theorem spoken_pieces (hmax : 1 ≤ maxLen) {text : Text} (hlong : maxLen < getSemanticLength text)
    (huncut : ¬CutsPlaceholder maxLen text) (pieces : List Text) (before p : Text)
    (htext : text = before ++ (p :: pieces).flatten) (hcuts : (p :: pieces).IsChain (Cut maxLen))
    (hbefore : getSemanticLength before % maxLen = 0) (hjoint : Joint before p)
    (hreading : Clean dotPlaceholder before (p :: pieces).flatten) :
    spoken content (p :: pieces).flatten = (p :: pieces).flatMap (spoken content) := by
  induction pieces generalizing before p with
  | nil => simp
  | cons q rest ih =>
    obtain ⟨⟨hfull, hjoin, c, hc, hcounts⟩, hrest⟩ := List.isChain_cons_cons.mp hcuts
    have hne : p ≠ [] := by
      rintro rfl
      exact absurd (hfull.symm.trans (rfl : getSemanticLength [] = 0)) (Nat.ne_of_gt hmax)
    have hsum : getSemanticLength (before ++ p) = getSemanticLength before + maxLen :=
      (getSemanticLength_append hjoint).trans (by rw [hfull])
    obtain ⟨tail, rfl⟩ := List.head?_eq_some_iff.mp hc
    have hclean : Clean dotPlaceholder p ((c :: tail) :: rest).flatten :=
      clean_of_cut hmax hlong huncut htext hbefore hjoint hreading hfull hjoin (rfl : _ = some c) hcounts
    have hnext : Joint (before ++ p) (c :: tail) := by
      intro d hd hletter
      rw [endsInWord, endsFresh_append]
      exact (endsInWord_getLast _ hne).trans ((endsInWord_getLast false hne).symm.trans (hjoin d hd hletter))
    have htail := ih (before ++ p) (c :: tail) (by rw [htext, List.flatten_cons, List.append_assoc]) hrest
      (by rw [hsum, Nat.add_mod_right]; exact hbefore) hnext (hreading.append hclean)
    rw [List.flatten_cons, spoken_append hclean, htail, List.flatMap_cons (x := p)]

/-- Pieces are appended one by one. -/
theorem Spoken.appendPieces (hmax : 1 ≤ maxLen) (pieces : List Text) (p : Text) (fragments : List Text)
    (hcuts : (p :: pieces).IsChain (Cut maxLen)) (ready : Ready maxLen fragments p) (hkeeps : ¬StripsContent content p)
    (hclosed : ∀ last ∈ (p :: pieces).getLast?, Closed last) (hsettled : Settled fragments ∨ 1 ≤ getSemanticLength p) :
    ((p :: pieces).foldl (SglangOmni.Models.Ming.appendTextFragment maxLen minTail) fragments).flatMap
      (spoken content) =
        fragments.flatMap (spoken content) ++ (p :: pieces).flatMap (spoken content) ∧
      Settled ((p :: pieces).foldl (SglangOmni.Models.Ming.appendTextFragment maxLen minTail) fragments) := by
  have hdropped : ∀ t : Text, getSemanticLength (t.dropWhile isLeading) = getSemanticLength t := by
    intro t
    have hother := getSemanticLength_other (fun c hc => (isLeading_other (List.mem_takeWhile_imp hc)).2)
      (x := t.takeWhile isLeading) (t.dropWhile isLeading)
    rw [List.takeWhile_append_dropWhile] at hother
    exact hother.symm
  have hfirst := @Spoken.appendTextFragment _ _ hs _ minTail _ _ ready hkeeps
  induction pieces generalizing p fragments with
  | nil =>
    refine ⟨by rw [List.foldl_cons, List.foldl_nil, hfirst, List.flatMap_singleton], ?_⟩
    refine settled_appendTextFragment (hclosed p rfl) (hsettled.imp_right fun hpos => hs.valid ?_)
    rw [hdropped]
    exact hpos
  | cons q rest ih =>
    obtain ⟨hcut, hrest⟩ := List.isChain_cons_cons.mp hcuts
    obtain ⟨hfull, _, c, hc, hcounts⟩ := hcut
    obtain ⟨tail, rfl⟩ := List.head?_eq_some_iff.mp hc
    have hstart : isLeading c = false := by
      refine Bool.eq_false_iff.mpr fun hleading => hcounts ?_
      obtain ⟨_, hhan, hletter⟩ := isLeading_other hleading
      simp [unitKind, hhan, hletter]
    have hpos : 1 ≤ getSemanticLength (c :: tail) := by
      have hone : getSemanticLength [c] = 1 :=
        (getSemanticLength_unit (List.isChain_singleton c)).trans (if_neg hcounts)
      exact hone ▸ getSemanticLength_le_left [c] tail
    have hready : Ready maxLen (SglangOmni.Models.Ming.appendTextFragment maxLen minTail fragments p) (c :: tail) := by
      intro last hlast
      rcases getLast?_appendTextFragment p with ⟨_, hinvalid⟩ | ⟨_, before, hnew⟩
      · have hvalid : hasValidContent (p.dropWhile isLeading) = true := hs.valid (by rw [hdropped, hfull]; exact hmax)
        exact absurd (hvalid.symm.trans hinvalid) (by decide)
      · rw [hnew] at hlast
        rw [← Option.some.inj hlast]
        have hle := getSemanticLength_le_right before (p.dropWhile isLeading)
        rw [hdropped, hfull] at hle
        rw [hdropped]
        exact .inr (by omega)
    have hkept : ¬StripsContent content (c :: tail) := by
      rintro ⟨d, hd, _⟩
      rw [List.takeWhile_cons_of_neg (by simp [hstart])] at hd
      exact absurd hd List.not_mem_nil
    obtain ⟨hall, hdone⟩ :=
      ih (c :: tail) (SglangOmni.Models.Ming.appendTextFragment maxLen minTail fragments p) hrest hready
        hkept (fun last hlast => hclosed last (by rw [List.getLast?_cons_cons]; exact hlast)) (.inr hpos)
        (hs.appendTextFragment hready hkept)
    refine ⟨?_, hdone⟩
    rw [List.foldl_cons, hall, hfirst, List.flatMap_cons (x := p), List.append_assoc]

/-- A clause that goes alone. -/
theorem Spoken.appendClause (hmax : 1 ≤ maxLen) (hsettled : Settled fragments) {clause : Text} (hclosed : Closed clause)
    (huncut : ¬CutsPlaceholder maxLen clause) (hkeeps : ¬StripsContent content clause) :
    (appendClause maxLen minTail fragments clause).flatMap (spoken content) =
        fragments.flatMap (spoken content) ++ spoken content clause ∧
      Settled (appendClause maxLen minTail fragments clause) := by
  unfold SglangOmni.Models.Ming.appendClause
  split
  · next hlong =>
    obtain ⟨pieces, last, hsplit, hflat, hcuts, hne, _⟩ := splitLongFragment_cuts hmax clause hlong
    have hflatten : (pieces ++ [last]).flatten = clause := by
      rw [List.flatten_append, List.flatten_singleton, hflat]
    obtain ⟨p, rest, hpieces⟩ := List.exists_cons_of_ne_nil
      (List.append_ne_nil_of_right_ne_nil pieces (List.cons_ne_nil last []))
    have hlast : ∀ l ∈ (pieces ++ [last]).getLast?, Closed l := by
      intro l hl
      obtain rfl : last = l := Option.some.inj (List.getLast?_concat.symm.trans hl)
      obtain ⟨c, hc, hmark⟩ := hclosed
      rw [← hflat, List.getLast?_append_of_ne_nil _ hne] at hc
      exact ⟨c, hc, hmark⟩
    rw [hsplit]
    rw [hpieces] at hcuts hflatten hlast ⊢
    have hfirst : ¬StripsContent content p := by
      rintro ⟨c, hc, hcontent⟩
      refine hkeeps ⟨c, ?_, hcontent⟩
      rw [← hflatten, List.flatten_cons, List.takeWhile_append]
      split
      · exact List.mem_append_left _ ((List.takeWhile_prefix _).subset hc)
      · exact hc
    obtain ⟨hall, hdone⟩ := @Spoken.appendPieces _ _ hs _ minTail hmax rest p fragments hcuts (hsettled.ready p) hfirst
      hlast (.inl hsettled)
    refine ⟨?_, hdone⟩
    rw [hall, ← spoken_pieces hmax hlong huncut rest [] p hflatten.symm hcuts (Nat.zero_mod _)
      (fun _ _ _ => rfl) (.nil _), hflatten]
  · exact ⟨hs.appendTextFragment (hsettled.ready clause) hkeeps, settled_appendTextFragment hclosed (.inl hsettled)⟩

/-- The clauses of a sentence. -/
theorem Spoken.appendClauses (hmax : 1 ≤ maxLen) (hsettled : Settled fragments) (clauses : List Text)
    (hclosed : ∀ clause ∈ clauses, Closed clause)
    (hkeeps : ∀ t ∈ fragmentTexts maxLen minTail clauses, ¬CutsPlaceholder maxLen t ∧ ¬StripsContent content t) :
    (appendClauses maxLen minTail fragments clauses).flatMap (spoken content) =
        fragments.flatMap (spoken content) ++ clauses.flatMap (spoken content) ∧
      Settled (appendClauses maxLen minTail fragments clauses) := by
  induction fragments, clauses using appendClauses.induct maxLen minTail with
  | case1 fragments => exact ⟨(List.append_nil _).symm, hsettled⟩
  | case2 fragments clause =>
    obtain ⟨huncut, hkept⟩ := hkeeps clause List.mem_cons_self
    obtain ⟨hall, hdone⟩ := @Spoken.appendClause _ _ hs _ minTail _ hmax hsettled _ (hclosed clause List.mem_cons_self)
      huncut hkept
    exact ⟨hall.trans (by rw [List.flatMap_singleton]), hdone⟩
  | case3 fragments clause next rest hcombined ih =>
    rw [fragmentTexts, if_pos hcombined] at hkeeps
    rw [SglangOmni.Models.Ming.appendClauses, if_pos hcombined]
    have hclause := hclosed clause List.mem_cons_self
    have hnext := hclosed next (List.mem_cons_of_mem _ List.mem_cons_self)
    have hall := @Spoken.appendTextFragment _ _ hs maxLen minTail _ _ (hsettled.ready (clause ++ next))
      (hkeeps _ List.mem_cons_self).2
    obtain ⟨hrest, hdone⟩ := ih (settled_appendTextFragment (hnext.append clause) (.inl hsettled))
      (fun c hc => hclosed c (List.mem_cons_of_mem _ (List.mem_cons_of_mem _ hc)))
      fun t ht => hkeeps t (List.mem_cons_of_mem _ ht)
    refine ⟨?_, hdone⟩
    rw [hrest, hall, spoken_append (hclause.clean next)]
    simp only [List.flatMap_cons, List.append_assoc]
  | case4 fragments clause next rest hcombined ih =>
    rw [fragmentTexts, if_neg hcombined] at hkeeps
    rw [SglangOmni.Models.Ming.appendClauses, if_neg hcombined]
    obtain ⟨huncut, hkept⟩ := hkeeps clause List.mem_cons_self
    obtain ⟨hall, hdone⟩ := @Spoken.appendClause _ _ hs _ minTail _ hmax hsettled _ (hclosed clause List.mem_cons_self)
      huncut hkept
    obtain ⟨hrest, hlast⟩ := ih hdone (fun c hc => hclosed c (List.mem_cons_of_mem _ hc))
      fun t ht => hkeeps t (List.mem_cons_of_mem _ ht)
    refine ⟨?_, hlast⟩
    rw [hrest, hall, List.append_assoc]
    rfl

/-- The sentences of a text. -/
theorem Spoken.appendSentences (hmax : 1 ≤ maxLen) (sentences : List Text) (hclosed : ∀ s ∈ sentences, Closed s)
    (hkeeps : ∀ s ∈ sentences, ∀ t ∈ fragmentTexts maxLen minTail (clausesOf s),
      ¬CutsPlaceholder maxLen t ∧ ¬StripsContent content t) (hsettled : Settled fragments) :
    (sentences.foldl (fun fragments s => SglangOmni.Models.Ming.appendClauses maxLen minTail fragments (clausesOf s))
      fragments).flatMap (spoken content) = fragments.flatMap (spoken content) ++
        sentences.flatMap (spoken content) := by
  induction sentences generalizing fragments with
  | nil => exact (List.append_nil _).symm
  | cons s rest ih =>
    obtain ⟨hspoken, hclauses⟩ := hs.clauses (hclosed s List.mem_cons_self)
    obtain ⟨hall, hdone⟩ := hs.appendClauses hmax hsettled (clausesOf s) hclauses (hkeeps s List.mem_cons_self)
    rw [List.foldl_cons, ih (fun x hx => hclosed x (List.mem_cons_of_mem _ hx))
      (fun x hx => hkeeps x (List.mem_cons_of_mem _ hx)) hdone, hall, hspoken, List.flatMap_cons, List.append_assoc]

end

/-- Where none of the three things occurs, a text is spoken as it is. -/
theorem Spoken.cutText {maxLen minTail : Nat} (hmax : 1 ≤ maxLen)
    (hkeeps : KeepsContent decimal content text maxLen minTail) :
    (cutTextBySemanticLength decimal text maxLen minTail).flatMap (List.filter content) = text.filter content := by
  obtain ⟨hrestores, hcuts⟩ := hkeeps
  have hspoken := hs.processText hrestores
  unfold cutTextBySemanticLength
  dsimp only
  split
  · split
    · rw [List.flatMap_singleton]
      exact hspoken
    · next hlong =>
      obtain ⟨hsentences, hclosed⟩ := hs.sentences ((SglangOmni.Models.Ming.processText decimal text).map normalizeChar)
      have hall := @Spoken.appendSentences _ _ hs maxLen minTail [] hmax _ hclosed (hcuts.resolve_left hlong)
        fun last hlast => nomatch hlast
      rw [List.flatMap_map]
      exact hall.trans (hsentences.trans ((hs.normalize _).trans hspoken))
  · next hinvalid =>
    have hnone := hs.invalid (Bool.not_eq_true _ ▸ hinvalid)
    rw [List.filter_eq_nil_iff.mpr fun c hc => by rw [hnone c hc]; exact Bool.false_ne_true]
    rfl

end

/-! ### Main theorem -/

/-- **Main theorem.** Where no placeholder and no content is hurt, the fragments have the content of the text, in its
order, and every fragment fits. -/
theorem cut_text_keeps_content {decimal content : Char → Bool} (hs : Spoken decimal content) {text : Text}
    {maxLen minTail : Nat} (hmax : 1 ≤ maxLen) (hkeeps : KeepsContent decimal content text maxLen minTail) :
    (cutTextBySemanticLength decimal text maxLen minTail).flatMap (List.filter content) = text.filter content ∧
      ∀ f ∈ cutTextBySemanticLength decimal text maxLen minTail, getSemanticLength f ≤ maxLen :=
  ⟨hs.cutText hmax hkeeps, cutText_length decimal text hmax minTail⟩

/-- Letters and digits of ASCII, and Chinese characters. -/
def asciiContent (c : Char) : Bool := c.isAlphanum || isHan c

theorem spoken_asciiContent : Spoken Char.isDigit asciiContent := by
  have hdigit : ∀ c : Char, c.isAlphanum = true ∨ isHan c = true →
      (48 ≤ c.toNat ∧ c.toNat ≤ 57) ∨ (65 ≤ c.toNat ∧ c.toNat ≤ 90) ∨ (97 ≤ c.toNat ∧ c.toNat ≤ 122) ∨
        (0x4e00 ≤ c.toNat ∧ c.toNat ≤ 0x9fa5) := by
    intro c hc
    simp only [Char.isAlphanum, Char.isAlpha, Char.isUpper, Char.isLower, Char.isDigit, isHan, Bool.or_eq_true,
      Bool.and_eq_true, decide_eq_true_eq, ge_iff_le, UInt32.le_iff_toNat_le] at hc
    have hval : c.val.toNat = c.toNat := rfl
    simp only [hval] at hc
    simpa [or_assoc, or_comm, or_left_comm] using hc
  have hnone : ∀ c : Char, (c.toNat < 48 ∨ (57 < c.toNat ∧ c.toNat < 65) ∨ (90 < c.toNat ∧ c.toNat < 97) ∨
      (122 < c.toNat ∧ c.toNat < 0x4e00) ∨ 0x9fa5 < c.toNat) → asciiContent c = false := by
    intro c hc
    refine Bool.eq_false_iff.mpr fun hcontent => ?_
    have hrange := hdigit c ((Bool.or_eq_true ..).mp hcontent)
    omega
  exact {
    letter := fun c hc => by
      have halpha : c.isAlpha = true := hc
      simp [asciiContent, Char.isAlphanum, halpha]
    decimal := fun c hc => by simp [asciiContent, Char.isAlphanum, hc]
    han := fun c hc => by simp [asciiContent, hc]
    space := fun c hc => hnone c (by
      simp only [isSpace, Bool.or_eq_true, Bool.and_eq_true, decide_eq_true_eq] at hc
      omega)
    punctuation := fun c hc => hnone c (by
      simp only [isPunctuation, Bool.or_eq_true, Bool.and_eq_true, decide_eq_true_eq] at hc
      omega)
    marks := forall_mem_of_all (by decide) }

/-- "Pi is 3.14. So it is", in fragments of four words. -/
theorem cut_text_keeps_content_pi :
    let text : Text := ['P', 'i', ' ', 'i', 's', ' ', '3', '.', '1', '4', '.', ' ', 'S', 'o', ' ', 'i', 't',
      ' ', 'i', 's']
    (cutTextBySemanticLength Char.isDigit text 4 0).flatMap (List.filter asciiContent) = text.filter asciiContent ∧
      ∀ f ∈ cutTextBySemanticLength Char.isDigit text 4 0, getSemanticLength f ≤ 4 := by
  intro text
  have hshort : ∀ sentence ∈ sentencesOf ((processText Char.isDigit text).map normalizeChar),
      ∀ t ∈ fragmentTexts 4 0 (clausesOf sentence),
        getSemanticLength t ≤ 4 ∧ (t.takeWhile isLeading).any asciiContent = false := by decide +kernel
  refine cut_text_keeps_content spoken_asciiContent (by decide) ⟨by unfold Restores; decide +kernel, .inr ?_⟩
  intro sentence hsentence t ht
  obtain ⟨hlen, hstrip⟩ := hshort sentence hsentence t ht
  refine ⟨fun hcuts => absurd hcuts.1 (Nat.not_lt.mpr hlen), fun hstrips => ?_⟩
  exact absurd (List.any_eq_true.mpr hstrips) (by rw [hstrip]; exact Bool.false_ne_true)

/-- In "a 3.14", cut after each word, the letters of the placeholder are spoken. -/
theorem placeholder_letters_spoken : ¬∀ (decimal content : Char → Bool), Spoken decimal content →
    ∀ (text : Text) (maxLen minTail : Nat), 1 ≤ maxLen →
      (cutTextBySemanticLength decimal text maxLen minTail).flatMap (List.filter content) = text.filter content ∧
        ∀ f ∈ cutTextBySemanticLength decimal text maxLen minTail, getSemanticLength f ≤ maxLen := by
  intro h
  have hspoken := (h Char.isDigit asciiContent spoken_asciiContent ['a', ' ', '3', '.', '1', '4'] 1 0 (Nat.le_refl 1)).1
  exact absurd hspoken (by decide +kernel)

end SglangOmni.Models.Ming

import SglangOmni.Serve.Subtitles

/-! Subtitles parse back.

A timing line reads back as its times, and a paragraph as its one cue. What can go wrong is the text: a run of dashes
before a `>` is an arrow again after the pass that takes arrows away, and an empty line in the middle of a text
stays. -/
namespace SglangOmni.Serve.Subtitles
open Lib
open Router.Voices (isSpace)

/-- What the pass turns into an arrow. -/
def longArrow : List Char := ['-', '-', '-', '>']

/-- An empty line between the lines of a text. -/
def HasEmptyLine (universal : Bool) (text : List Char) : Prop := text ≠ [] ∧ [] ∈ textLines universal text

/-! ### The text of a cue -/

theorem emptyLine_replaceArrow (universal fresh afterReturn : Bool) (text : List Char) :
    emptyLine universal fresh afterReturn (replaceArrow text) = emptyLine universal fresh afterReturn text := by
  fun_induction replaceArrow text generalizing fresh afterReturn with
  | case1 rest ih => simp [emptyLine, ih]
  | case2 c rest hne ih => simp [emptyLine, ih]
  | case3 => rfl

theorem head?_replaceArrow (text : List Char) : (replaceArrow text).head? = text.head? := by
  fun_cases replaceArrow text <;> rfl

/-- A dash before a `>` is left of an arrow. -/
theorem dash_prefix_replaceArrow {text : List Char} (h : ¬ ['-', '>'] <+: text) :
    ['-', '>'] <+: replaceArrow text ↔ arrow <+: text := by
  fun_cases replaceArrow text with
  | case1 rest => simp [arrow]
  | case2 c rest hne =>
    apply iff_of_false
    · intro hp
      obtain ⟨rfl, hhead⟩ := List.cons_prefix_cons.mp hp
      have hsame := head?_replaceArrow rest
      obtain ⟨tail, htail⟩ := hhead
      rw [← htail] at hsame
      cases rest with
      | nil => cases hsame
      | cons d rest =>
        cases hsame
        exact h ⟨rest, rfl⟩
    · intro hp
      obtain ⟨tail, htail⟩ := hp
      cases htail
      exact hne tail rfl rfl
  | case3 => simp [arrow]

/-- The pass leaves an arrow where a longer one was. -/
theorem arrow_infix_replaceArrow (text : List Char) : arrow <:+: replaceArrow text ↔ longArrow <:+: text := by
  fun_induction replaceArrow text with
  | case1 rest ih => simpa [arrow, longArrow, List.infix_cons_iff] using ih
  | case2 c rest hne ih =>
    have hprefix : arrow <+: c :: replaceArrow rest ↔ longArrow <+: c :: rest := by
      unfold arrow longArrow
      rw [List.cons_prefix_cons, List.cons_prefix_cons]
      apply and_congr_right
      intro hc
      apply dash_prefix_replaceArrow
      intro hp
      obtain ⟨tail, htail⟩ := hp
      exact hne tail hc.symm htail.symm
    rw [List.infix_cons_iff, List.infix_cons_iff, hprefix, ih]
  | case3 => simp [arrow, longArrow]

theorem getLast?_cueText (text : List Char) : (cueText text).getLast? ≠ some '\r' := by
  intro h
  have hlast : ((text.dropWhile isSpace).rdropWhile isSpace).getLast? = some '\r' := by
    rw [← h, cueText, getLast?_replaceArrow]
    rfl
  have hne : (text.dropWhile isSpace).rdropWhile isSpace ≠ [] := by
    intro hnil
    rw [hnil] at hlast
    cases hlast
  apply List.rdropWhile_last_not isSpace _ hne
  rw [List.getLast?_eq_some_getLast hne] at hlast
  rw [Option.some.inj hlast]
  rfl

theorem hasEmptyLine_cueText (universal : Bool) (text : List Char) :
    HasEmptyLine universal (cueText text) ↔ HasEmptyLine universal (strip text) := by
  unfold HasEmptyLine cueText
  rw [nil_mem_textLines, nil_mem_textLines, emptyLine_replaceArrow, ne_eq, replaceArrow_eq_nil]

/-! ### Times -/

variable {scale : Scale} {seconds : ℚ} {marker : Char} {head : List (List Char)}

theorem round_nonneg {q : ℚ} (h : 0 ≤ q) : 0 ≤ round q := by
  have hfloor : 0 ≤ q.floor := Rat.le_floor_iff.mpr h
  unfold round
  dsimp only
  split_ifs <;> omega

/-- A time that is not negative is a number of milliseconds. -/
theorem Scale.exists_milliseconds (scale : Scale) (h : 0 ≤ seconds) :
    ∃ k : ℕ, scale.milliseconds seconds = k :=
  Int.eq_ofNat_of_zero_le (round_nonneg (scale.nonneg seconds h))

theorem formatTimestamp_eq {k : ℕ} (h : scale.milliseconds seconds = k) (hours : Bool) (marker : Char) :
    formatTimestamp scale seconds hours marker =
      (if hours ∨ 0 < k / 3600000 then zeroPadded 2 (k / 3600000 : ℕ) ++ [':'] else []) ++
        zeroPadded 2 (k % 3600000 / 60000 : ℕ) ++ ':' :: zeroPadded 2 (k % 3600000 % 60000 / 1000 : ℕ) ++
        marker :: zeroPadded 3 (k % 3600000 % 60000 % 1000 : ℕ) := by
  have hpos : (0 : ℤ) < (k : ℤ) / 3600000 ↔ 0 < k / 3600000 := by omega
  unfold formatTimestamp
  simp only [h, hpos]
  push_cast
  rfl

theorem readField_zeroPadded (width : ℕ) {bound n : ℕ} (hpos : 0 < width) (hbound : n < bound)
    (h : bound ≤ 10 ^ width) :
    readField width bound (zeroPadded width n) = some n := by
  rw [readField, if_pos (length_zeroPadded hpos (Nat.lt_of_lt_of_le hbound h)), readDecimal_zeroPadded,
    Option.filter_some,
    if_pos (decide_eq_true hbound)]

theorem notMem_zeroPadded {c : Char} (hc : c.isDigit = false) (width n : ℕ) : c ∉ zeroPadded width n := by
  intro hin
  rw [isDigit_of_mem_zeroPadded hin] at hc
  cases hc

theorem readClock_format (hmarker : marker.isDigit = false) {hours : List Char} {h : ℕ}
    (hlength : 2 ≤ hours.length) (hhours : readDecimal hours = some h) {m s f : ℕ} (hm : m < 60) (hs : s < 60)
    (hf : f < 1000) :
    readClock marker hours (zeroPadded 2 m) (zeroPadded 2 s ++ marker :: zeroPadded 3 f) =
      some ((((h * 60 + m) * 60 + s) * 1000 + f : ℕ) : ℤ) := by
  have hsplit : (zeroPadded 2 s ++ marker :: zeroPadded 3 f).splitOn marker = [zeroPadded 2 s, zeroPadded 3 f] := by
    rw [List.splitOn_append_cons_self, List.splitOn_eq_singleton (notMem_zeroPadded hmarker 2 s),
      List.splitOn_eq_singleton (notMem_zeroPadded hmarker 3 f)]
    rfl
  have hminutes := readField_zeroPadded 2 (by decide) hm (by decide)
  have hsecs := readField_zeroPadded 2 (by decide) hs (by decide)
  have hmillis := readField_zeroPadded 3 (by decide) hf (by decide)
  unfold readClock
  rw [hsplit]
  simp only [if_pos hlength, hhours, hminutes, hsecs, hmillis]
  rfl

/-- A time reads back. -/
theorem readTimestamp_format {k : ℕ} (h : scale.milliseconds seconds = k) (hours : Bool)
    (hmarker : marker.isDigit = false) (hcolon : marker ≠ ':') :
    readTimestamp marker (formatTimestamp scale seconds hours marker) = some (k : ℤ) := by
  have hm : k % 3600000 / 60000 < 60 := by omega
  have hs : k % 3600000 % 60000 / 1000 < 60 := by omega
  have hf : k % 3600000 % 60000 % 1000 < 1000 := by omega
  have hvalue : ((k / 3600000 * 60 + k % 3600000 / 60000) * 60 + k % 3600000 % 60000 / 1000) * 1000 +
      k % 3600000 % 60000 % 1000 = k := by omega
  have hdigits : ∀ width n, ':' ∉ zeroPadded width ((n : ℕ) : ℤ) := notMem_zeroPadded rfl
  have hrest : ':' ∉ zeroPadded 2 (k % 3600000 % 60000 / 1000 : ℕ) ++ marker ::
    zeroPadded 3 (k % 3600000 % 60000 % 1000 : ℕ) := by
    intro hin
    obtain hin | hin := List.mem_append.mp hin
    · exact hdigits _ _ hin
    · cases List.mem_cons.mp hin with
      | inl heq => exact hcolon heq.symm
      | inr hin => exact hdigits _ _ hin
  rw [formatTimestamp_eq h]
  unfold readTimestamp
  by_cases hshow : hours ∨ 0 < k / 3600000
  · rw [if_pos hshow]
    simp only [List.append_assoc, List.cons_append, List.nil_append]
    rw [List.splitOn_append_cons_self, List.splitOn_append_cons_self, List.splitOn_eq_singleton (hdigits _ _),
      List.splitOn_eq_singleton (hdigits _ _), List.splitOn_eq_singleton hrest]
    exact (readClock_format hmarker (le_length_zeroPadded 2 _) readDecimal_zeroPadded hm hs hf).trans
      (congrArg (fun n : ℕ => some (n : ℤ)) hvalue)
  · rw [if_neg hshow]
    simp only [List.append_assoc, List.cons_append, List.nil_append]
    rw [List.splitOn_append_cons_self, List.splitOn_eq_singleton (hdigits _ _), List.splitOn_eq_singleton hrest]
    have hzero : k / 3600000 = 0 := by omega
    rw [hzero] at hvalue
    have hlength : 2 ≤ ['0', '0'].length := Nat.le_refl 2
    exact (readClock_format hmarker hlength rfl hm hs hf).trans (congrArg (fun n : ℕ => some (n : ℤ)) hvalue)

theorem mem_formatTimestamp {k : ℕ} (h : scale.milliseconds seconds = k) {hours : Bool} {c : Char}
    (hc : c ∈ formatTimestamp scale seconds hours marker) : c.isDigit = true ∨ c = ':' ∨ c = marker := by
  have hdigit : ∀ width n, c ∈ zeroPadded width ((n : ℕ) : ℤ) → c.isDigit = true := fun _ _ => isDigit_of_mem_zeroPadded
  rw [formatTimestamp_eq h] at hc
  simp only [List.mem_append, List.mem_cons] at hc
  obtain ((hc | hc) | hc | hc) | hc | hc := hc
  · split at hc
    · cases List.mem_append.mp hc with
      | inl hc => exact .inl (hdigit _ _ hc)
      | inr hc => exact .inr (.inl (List.mem_singleton.mp hc))
    · cases hc
  · exact .inl (hdigit _ _ hc)
  · exact .inr (.inl hc)
  · exact .inl (hdigit _ _ hc)
  · exact .inr (.inr hc)
  · exact .inl (hdigit _ _ hc)

/-! ### Cues -/

/-- The markers of the two formats. -/
structure Marks (marker : Char) : Prop where
  digit : marker.isDigit = false
  apart : marker ≠ ':' ∧ marker ≠ ' ' ∧ marker ≠ '\n' ∧ marker ≠ '\r'

/-- A timing line, of a segment whose times are not negative. -/
structure TimingLine (marker : Char) (cue : Cue) (line : List Char) : Prop where
  reads : readTiming marker line = some cue
  arrow : arrow <:+: line
  noFeed : '\n' ∉ line
  noReturn : '\r' ∉ line

theorem timingLine (scale : Scale) (hmarks : Marks marker) {segment : TranscriptionSegment} (hstart : 0 ≤ segment.start)
    (hend : 0 ≤ segment.end) (hours : Bool) :
    TimingLine marker (scale.milliseconds segment.start, scale.milliseconds segment.end)
      (timing scale segment hours marker) := by
  obtain ⟨a, ha⟩ := scale.exists_milliseconds hstart
  obtain ⟨b, hb⟩ := scale.exists_milliseconds hend
  obtain ⟨hcolon, hspace, hfeed, hreturn⟩ := hmarks.apart
  have hnot : ∀ (c : Char) {seconds : ℚ} {k : ℕ}, scale.milliseconds seconds = k → c.isDigit = false →
    c ≠ ':' → c ≠ marker →
      c ∉ formatTimestamp scale seconds hours marker := by
    intro c seconds k hk hdigit hc hm hin
    obtain h | h | h := mem_formatTimestamp hk hin
    · rw [hdigit] at h; cases h
    · exact hc h
    · exact hm h
  have hplain : ∀ c : Char, c.isDigit = false → c ≠ ':' → c ≠ marker → c ≠ ' ' → c ∉ arrow →
      c ∉ timing scale segment hours marker := by
    intro c hdigit hc hm hblank harrow hin
    simp only [timing, List.mem_append, List.mem_cons] at hin
    obtain (hin | hin | hin) | hin | hin := hin
    · exact hnot c ha hdigit hc hm hin
    · exact hblank hin
    · exact harrow hin
    · exact hblank hin
    · exact hnot c hb hdigit hc hm hin
  constructor
  · unfold readTiming timing
    rw [List.append_assoc, List.cons_append, List.splitOn_append_cons_self, List.splitOn_append_cons_self,
      List.splitOn_eq_singleton (hnot ' ' ha rfl (by decide) hspace.symm), List.splitOn_eq_singleton (by decide),
      List.splitOn_eq_singleton (hnot ' ' hb rfl (by decide) hspace.symm)]
    simp only [List.singleton_append, if_true, readTimestamp_format ha hours hmarks.digit hcolon,
      readTimestamp_format hb hours hmarks.digit hcolon, ha, hb]
    rfl
  · exact ⟨formatTimestamp scale segment.start hours marker ++ [' '],
      ' ' :: formatTimestamp scale segment.end hours marker,
      by simp [timing]⟩
  · exact hplain '\n' rfl (by decide) hfeed.symm (by decide) (by decide)
  · exact hplain '\r' rfl (by decide) hreturn.symm (by decide) (by decide)

theorem readParagraph_single {cue : Cue} {line : List Char} (ht : TimingLine marker cue line)
    {body : List (List Char)} (hhead : ∀ other ∈ head, ¬ arrow <:+: other)
    (hbody : ∀ other ∈ body, ¬ arrow <:+: other) :
    readParagraph marker (head ++ line :: body) = [some cue] := by
  have hnone : ∀ {lines : List (List Char)}, (∀ other ∈ lines, ¬ arrow <:+: other) →
      (lines.filter fun other => decide (arrow <:+: other)) = [] := by
    intro lines h
    exact List.filter_eq_nil_iff.mpr fun other hin => by simpa using h other hin
  have hfilter : ((head ++ line :: body).filter fun other => decide (arrow <:+: other)) = [line] := by
    rw [List.filter_append, List.filter_cons, if_pos (decide_eq_true ht.arrow), hnone hhead, hnone hbody]
    rfl
  unfold readParagraph
  rw [hfilter]
  exact congrArg (fun read => [read]) ht.reads

/-- The paragraph of a cue whose text has neither an arrow nor an empty line is its one cue. -/
theorem read_cue {cue : Cue} {line : List Char} (ht : TimingLine marker cue line)
    (hhead : ∀ other ∈ head, other ≠ [] ∧ ¬ arrow <:+: other) {universal : Bool} {text : List Char}
    (harrow : ¬ arrow <:+: text) (hempty : ¬ HasEmptyLine universal text) (rest : List (List Char)) :
    (paragraphs (head ++ line :: textLines universal text ++ [] :: rest)).flatMap (readParagraph marker) =
      some cue :: (paragraphs rest).flatMap (readParagraph marker) := by
  have hline : line ≠ [] := by
    intro hnil
    have harrow := ht.arrow
    rw [hnil] at harrow
    exact absurd harrow (by decide)
  have hcues : ∀ {body : List (List Char)}, [] ∉ body → (∀ other ∈ body, ¬ arrow <:+: other) →
      (paragraphs (head ++ line :: body)).flatMap (readParagraph marker) = [some cue] := by
    intro body hfull hbody
    have hall : [] ∉ head ++ line :: body := by
      intro hin
      obtain hin | hin := List.mem_append.mp hin
      · exact (hhead [] hin).1 rfl
      · cases List.mem_cons.mp hin with
        | inl heq => exact hline heq.symm
        | inr hin => exact hfull hin
    rw [paragraphs_single (List.append_ne_nil_of_right_ne_nil _ (List.cons_ne_nil _ _)) hall, List.flatMap_singleton,
      readParagraph_single ht (fun other hin => (hhead other hin).2) hbody]
  have hsingle : (paragraphs (head ++ line :: textLines universal text)).flatMap (readParagraph marker) =
    [some cue] := by
    by_cases hnil : text = []
    · subst hnil
      have hone : head ++ line :: textLines universal [] = (head ++ [line]) ++ [] :: [] := by
        rw [textLines_plain (by simp) (by simp)]
        simp
      rw [hone, paragraphs_append, paragraphs_nil, List.append_nil]
      exact hcues (by simp) (by simp)
    · apply hcues (fun hin => hempty ⟨hnil, hin⟩)
      intro other hin hother
      exact harrow (infix_of_mem_textLines (by decide) (by decide) hin hother)
  rw [paragraphs_append, List.flatMap_append, hsingle]
  rfl

/-- The lines of a cue. -/
theorem textLines_cue (universal : Bool) (text rest : List Char) :
    textLines universal (cueText text ++ '\n' :: '\n' :: rest) =
      textLines universal (cueText text) ++ [] :: textLines universal rest := by
  rw [textLines_append (getLast?_cueText text)]
  exact congrArg _ (textLines_cons (a := []) (by simp) (by simp))

/-! ### The formats -/

/-- No text holds what becomes an arrow, or an empty line between its lines. -/
def Plain (universal : Bool) (segments : List TranscriptionSegment) : Prop :=
  ∀ segment ∈ segments, ¬ longArrow <:+: strip segment.text ∧ ¬ HasEmptyLine universal (strip segment.text)

/-- The cues that are read are the segments', and no text could be taken for more. -/
structure ParsesBack (scale : Scale) (universal : Bool) (segments : List TranscriptionSegment)
    (cues : List (Option Cue)) :
    Prop where
  cues : cues = segments.map fun segment => some (scale.milliseconds segment.start, scale.milliseconds segment.end)
  texts : ∀ segment ∈ segments, ¬ arrow <:+: cueText segment.text ∧ ¬ HasEmptyLine universal (cueText segment.text)

theorem plain_iff {universal : Bool} {segments : List TranscriptionSegment} : Plain universal segments ↔
    ∀ segment ∈ segments, ¬ arrow <:+: cueText segment.text ∧ ¬ HasEmptyLine universal (cueText segment.text) := by
  apply forall₂_congr
  intro segment _
  rw [hasEmptyLine_cueText, cueText, arrow_infix_replaceArrow]

variable {universal : Bool} {segments : List TranscriptionSegment}

/-- The paragraphs of the cues from some segment on, after lines that hold no arrow. -/
theorem read_next (scale : Scale) (hmarks : Marks marker) {segment : TranscriptionSegment}
    (times : 0 ≤ segment.start ∧ segment.start ≤ segment.end) (hours : Bool)
    (hhead : ∀ other ∈ head, other ≠ [] ∧ ¬ arrow <:+: other)
    (text : ¬ arrow <:+: cueText segment.text ∧ ¬ HasEmptyLine universal (cueText segment.text)) (rest : List Char) :
    (paragraphs (head ++ textLines universal
      (timing scale segment hours marker ++ '\n' :: (cueText segment.text ++ ['\n', '\n']) ++ rest))).flatMap
        (readParagraph marker) =
      some (scale.milliseconds segment.start, scale.milliseconds segment.end) ::
        (paragraphs (textLines universal rest)).flatMap (readParagraph marker) := by
  have ht := timingLine scale hmarks times.1 (times.1.trans times.2) hours
  have hlines : textLines universal
      (timing scale segment hours marker ++ '\n' :: (cueText segment.text ++ ['\n', '\n']) ++ rest) =
      timing scale segment hours marker :: textLines universal (cueText segment.text) ++ [] ::
        textLines universal rest := by
    rw [List.append_assoc, List.cons_append, textLines_cons ht.noFeed ht.noReturn, List.append_assoc]
    exact congrArg _ (textLines_cue universal segment.text rest)
  rw [hlines, ← List.append_assoc]
  exact read_cue ht hhead text.1 text.2 _

theorem read_srt (times : ∀ segment ∈ segments, 0 ≤ segment.start ∧ segment.start ≤ segment.end)
    (h : Plain universal segments) : readSrt universal (segmentsToSrt scale segments) =
      segments.map fun segment => some (scale.milliseconds segment.start, scale.milliseconds segment.end) := by
  have hmarks : Marks ',' := ⟨rfl, by decide⟩
  rw [plain_iff] at h
  unfold readSrt segmentsToSrt
  generalize 1 = index
  induction segments generalizing index with
  | nil => exact congrArg (List.flatMap (readParagraph ',')) paragraphs_textLines_nil
  | cons segment segments ih =>
    have hrest := ih (fun other hin => times other (List.mem_cons_of_mem _ hin))
      (fun other hin => h other (List.mem_cons_of_mem _ hin)) (index + 1)
    have hindex : ∀ {c : Char}, c.isDigit = false → c ∉ Nat.toDigits 10 index := by
      intro c hc hin
      rw [Nat.isDigit_of_mem_toDigits (by decide) (by decide) hin] at hc
      cases hc
    have hhead : ∀ other ∈ [Nat.toDigits 10 index], other ≠ [] ∧ ¬ arrow <:+: other := by
      intro other hin
      rw [List.mem_singleton.mp hin]
      exact ⟨Nat.toDigits_ne_nil, fun harrow => hindex rfl (harrow.subset (List.mem_cons_self (a := '-')))⟩
    rw [List.zipIdx_cons, List.map_cons, List.flatten_cons, List.append_assoc, List.cons_append,
      textLines_cons (hindex rfl) (hindex rfl), List.map_cons, ← hrest]
    exact read_next scale hmarks (times segment List.mem_cons_self) true hhead (h segment List.mem_cons_self) _

theorem read_vtt (times : ∀ segment ∈ segments, 0 ≤ segment.start ∧ segment.start ≤ segment.end)
    (h : Plain universal segments) : readVtt universal (segmentsToVtt scale segments) =
      segments.map fun segment => some (scale.milliseconds segment.start, scale.milliseconds segment.end) := by
  have hmarks : Marks '.' := ⟨rfl, by decide⟩
  have hheader : ∀ rest : List Char, (paragraphs (textLines universal
      (['W', 'E', 'B', 'V', 'T', 'T', '\n', '\n'] ++ rest))).tail = paragraphs (textLines universal rest) := by
    intro rest
    have hlines : textLines universal (['W', 'E', 'B', 'V', 'T', 'T', '\n', '\n'] ++ rest) =
        [['W', 'E', 'B', 'V', 'T', 'T']] ++ [] :: textLines universal rest := by
      rw [show ['W', 'E', 'B', 'V', 'T', 'T', '\n', '\n'] ++ rest =
          ['W', 'E', 'B', 'V', 'T', 'T'] ++ '\n' :: ([] ++ '\n' :: rest)
        from rfl, textLines_cons (by decide) (by decide), textLines_cons (by decide) (by decide)]
      rfl
    rw [hlines, paragraphs_append, paragraphs_single (by decide) (by decide)]
    rfl
  rw [plain_iff] at h
  unfold readVtt segmentsToVtt
  rw [hheader]
  induction segments with
  | nil => exact congrArg (List.flatMap (readParagraph '.')) paragraphs_textLines_nil
  | cons segment segments ih =>
    have hrest := ih (fun other hin => times other (List.mem_cons_of_mem _ hin))
      (fun other hin => h other (List.mem_cons_of_mem _ hin))
    rw [List.map_cons, List.flatten_cons, List.map_cons, ← hrest]
    have hhead : ∀ other ∈ ([] : List (List Char)), other ≠ [] ∧ ¬ arrow <:+: other := fun _ hin => nomatch hin
    have hnext := read_next scale hmarks (times segment List.mem_cons_self) false hhead (h segment List.mem_cons_self)
    simp only [List.nil_append] at hnext
    exact hnext _

/-- **Subtitles parse back**, in both formats and to readers of either kind, exactly when no text holds three dashes or
more before a `>`, or an empty line between its lines. -/
theorem subtitles_parse_back (scale : Scale) (universal : Bool) (segments : List TranscriptionSegment)
    (times : ∀ segment ∈ segments, 0 ≤ segment.start ∧ segment.start ≤ segment.end) :
    (ParsesBack scale universal segments (readSrt universal (segmentsToSrt scale segments)) ↔
      Plain universal segments) ∧
      (ParsesBack scale universal segments (readVtt universal (segmentsToVtt scale segments)) ↔
        Plain universal segments) := by
  constructor
  · constructor
    · exact fun h => plain_iff.mpr h.texts
    · exact fun h => ⟨read_srt times h, plain_iff.mp h⟩
  · constructor
    · exact fun h => plain_iff.mpr h.texts
    · exact fun h => ⟨read_vtt times h, plain_iff.mp h⟩

def exactScale : Scale where
  times1000 seconds := seconds * 1000
  nonneg _ h := Rat.mul_nonneg h (by decide)

def second (text : List Char) : TranscriptionSegment := ⟨0, 1, text⟩

/-- A text with an arrow, and a text of two lines. -/
def twoSegments : List TranscriptionSegment :=
  [second ['h', 'e', '-', '-', '>'], ⟨1, 5 / 2, [' ', 'l', 'o', '\n', 'y', 'o', 'u']⟩]

theorem subtitles_of_two :
    ParsesBack exactScale true twoSegments (readSrt true (segmentsToSrt exactScale twoSegments)) ∧
      ParsesBack exactScale false twoSegments (readVtt false (segmentsToVtt exactScale twoSegments)) := by
  have htimes : ∀ segment ∈ twoSegments, 0 ≤ segment.start ∧ segment.start ≤ segment.end := by
    decide +kernel
  have hplain : ∀ universal, Plain universal twoSegments := by
    intro universal segment hin
    have htext : ¬ longArrow <:+: strip segment.text ∧
        ∀ universal, [] ∉ textLines universal (strip segment.text) := by revert segment; decide
    exact ⟨htext.1, fun hempty => htext.2 universal hempty.2⟩
  exact ⟨(subtitles_parse_back exactScale true _ htimes).1.mpr (hplain true),
    (subtitles_parse_back exactScale false _ htimes).2.mpr (hplain false)⟩

/-- An arrow with three dashes comes out as an arrow, which a reader takes for a timing line; what follows an empty line
is a paragraph without one. -/
theorem texts_break_out :
    (¬ ParsesBack exactScale false [second ['-', '-', '-', '>']]
        (readSrt false (segmentsToSrt exactScale [second ['-', '-', '-', '>']])) ∧
      cueText ['-', '-', '-', '>'] = arrow ∧
      readSrt false (segmentsToSrt exactScale [second ['-', '-', '-', '>']]) = [some (0, 1000), none]) ∧
    ¬ ParsesBack exactScale false [second ['a', '\n', '\n', 'b']]
        (readVtt false (segmentsToVtt exactScale [second ['a', '\n', '\n', 'b']])) ∧
      readVtt false (segmentsToVtt exactScale [second ['a', '\n', '\n', 'b']]) = [some (0, 1000), none] := by
  have harrow : readSrt false (segmentsToSrt exactScale [second ['-', '-', '-', '>']]) = [some (0, 1000), none] := by
    decide +kernel
  have hempty : readVtt false (segmentsToVtt exactScale [second ['a', '\n', '\n', 'b']]) = [some (0, 1000), none] := by
    decide +kernel
  refine ⟨⟨?_, rfl, harrow⟩, ?_, hempty⟩
  · intro h
    have hlength := congrArg List.length (harrow.symm.trans h.cues)
    cases hlength
  · intro h
    have hlength := congrArg List.length (hempty.symm.trans h.cues)
    cases hlength

end SglangOmni.Serve.Subtitles

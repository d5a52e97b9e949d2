import SglangOmni.Models.Ming.Segmenter
import SglangOmni.Lib.Words

/-! Whether the segments keep the words of the text.

The letters always leave in order. The over-long branch joins the words it keeps for later with single spaces, so a
space at the end of its buffer is lost; when the next piece begins with a letter, two words are glued together. That is
the only way (`words_intact_iff`). -/
namespace SglangOmni.Models.Ming
open Lib
open Router.Voices (isSpace)

/-! ### A text in pieces -/

/-- A segmenter, with the text that was pushed and the segments it gave. -/
structure Session where
  segmenter : SegmenterState := {}
  pushed : Text := []
  segments : List TextSegment := []

def Session.next (setup : Setup) (s : Session) (piece : Text × Int) : Session :=
  let out := s.segmenter.push setup piece.1 piece.2
  ⟨out.2, s.pushed ++ piece.1, s.segments ++ out.1⟩

/-- The segments of all pieces, with those of the flush. -/
def segmentsOf (setup : Setup) (pieces : List (Text × Int)) : List Text :=
  let s := run (Session.next setup) {} pieces
  (s.segments ++ s.segmenter.flush.1).map TextSegment.text

def letters (text : Text) : Text := text.filter (!isSpace ·)

/-- The letters are all there in order, and one that begins a word in the text begins one in its segment. -/
def WordsIntact (text : Text) (segments : List Text) : Prop :=
  segments.flatMap letters = letters text ∧
    ∀ (i : Nat) (c : Char), (marks isSpace true text)[i]? = some (c, true) →
      (segments.flatMap (marks isSpace true))[i]? = some (c, true)

/-- A piece begins with a letter where the text ended in a space, and the buffer does not show it. -/
def Session.Glues (s : Session) (piece : Text × Int) : Prop :=
  endsFresh isSpace true s.pushed = true ∧ endsFresh isSpace true s.segmenter.buffer = false ∧
    piece.1.head?.any (!isSpace ·) = true

/-! ### Marks -/

/-- The marks of the segments and of what is kept. -/
def Session.seen (s : Session) : List (Char × Bool) :=
  s.segments.flatMap (fun segment => marks isSpace true segment.text) ++ marks isSpace true s.segmenter.buffer

/-- What is put out has the marks that it had in the buffer. -/
theorem emitReady_marks (setup : Setup) (g : SegmenterState) (nowMs : Int) :
    (g.emitReady setup nowMs).1.flatMap (fun segment => marks isSpace true segment.text) ++
      marks isSpace true (g.emitReady setup nowMs).2.buffer = marks isSpace true g.buffer := by
  have hemit : ∀ isFinalSegment, [(g.emit isFinalSegment).1].flatMap (fun segment => marks isSpace true segment.text) ++
      marks isSpace true (g.emit isFinalSegment).2.buffer = marks isSpace true g.buffer := by
    intro isFinalSegment
    show (marks isSpace true g.buffer ++ []) ++ [] = _
    rw [List.append_nil, List.append_nil]
  have hmax : [(g.emitMaxWindow setup nowMs).1].flatMap (fun segment => marks isSpace true segment.text) ++
      marks isSpace true (g.emitMaxWindow setup nowMs).2.buffer = marks isSpace true g.buffer := by
    let parts := splitWhitespaceTokens g.buffer setup.config.segmentMaxTokens
    show (marks isSpace true parts.1 ++ []) ++ marks isSpace true parts.2 = _
    rw [List.append_nil]
    simp only [parts, splitWhitespaceTokens]
    split
    · exact List.append_nil _
    · exact marks_cut (by decide) g.buffer setup.config.segmentMaxTokens
  unfold SegmenterState.emitReady
  split
  · rfl
  · dsimp only
    split
    · exact hmax
    · split
      · exact hemit false
      · rfl

theorem flush_marks (g : SegmenterState) :
    g.flush.1.flatMap (fun segment => marks isSpace true segment.text) = marks isSpace true g.buffer := by
  unfold SegmenterState.flush
  split
  · next hnil =>
    rw [hnil]
    rfl
  · exact List.append_nil _

/-- A piece adds its marks. -/
theorem Session.seen_next (setup : Setup) (s : Session) (piece : Text × Int) :
    (s.next setup piece).seen = s.seen ++ marks isSpace (endsFresh isSpace true s.segmenter.buffer) piece.1 := by
  have hmarks := emitReady_marks setup { s.segmenter with
    buffer := s.segmenter.buffer ++ piece.1
    firstTextMs :=
      if piece.1 ≠ [] ∧ s.segmenter.firstTextMs = none then some piece.2 else s.segmenter.firstTextMs } piece.2
  rw [marks_append] at hmarks
  unfold Session.seen
  rw [List.append_assoc, ← hmarks, ← List.append_assoc, ← List.flatMap_append]
  rfl

/-- The letters that were seen are those that were pushed. -/
theorem Session.letters_run (setup : Setup) (pieces : List (Text × Int)) :
    (run (Session.next setup) {} pieces).seen.map Prod.fst = letters (run (Session.next setup) {} pieces).pushed := by
  refine run_invariant (I := fun s : Session => s.seen.map Prod.fst = letters s.pushed) rfl (fun s piece h => ?_) pieces
  rw [s.seen_next, List.map_append, h, map_fst_marks]
  exact (List.filter_append ..).symm

/-- Letters with marks, in one list and in another. -/
theorem intact_iff {text : Text} {segments : List Text} (h : segments.flatMap letters = letters text) :
    WordsIntact text segments ↔ Apart (marks isSpace true text) (segments.flatMap (marks isSpace true)) := by
  have hfst : (segments.flatMap (marks isSpace true)).map Prod.fst = (marks isSpace true text).map Prod.fst := by
    rw [map_fst_marks, List.map_flatMap]
    simp only [map_fst_marks]
    exact h
  have hlen : (marks isSpace true text).length = (segments.flatMap (marks isSpace true)).length := by
    have hlen := congrArg List.length hfst
    rw [List.length_map, List.length_map] at hlen
    exact hlen.symm
  have hletter : ∀ i (hi : i < (marks isSpace true text).length),
      (marks isSpace true text)[i].1 = ((segments.flatMap (marks isSpace true))[i]).1 := by
    intro i hi
    have hget := congrArg (·[i]?) hfst
    simp only [List.getElem?_map, List.getElem?_eq_getElem hi, List.getElem?_eq_getElem (hlen ▸ hi),
      Option.map_some] at hget
    exact (Option.some.inj hget).symm
  rw [Apart, List.forall₂_iff_get]
  constructor
  · intro hintact
    refine ⟨hlen, fun i hi hi' => ⟨hletter i hi, fun hmark => ?_⟩⟩
    have hget := hintact.2 i (marks isSpace true text)[i].1 (by
      rw [List.getElem?_eq_getElem hi]
      exact congrArg some (Prod.ext rfl hmark))
    rw [List.getElem?_eq_getElem hi'] at hget
    exact congrArg Prod.snd (Option.some.inj hget)
  · rintro ⟨_, happart⟩
    refine ⟨h, fun i c hget => ?_⟩
    obtain ⟨hi, hmark⟩ := List.getElem?_eq_some_iff.mp hget
    have hpair := happart i hi (hlen ▸ hi)
    simp only [List.get_eq_getElem, hmark] at hpair
    rw [List.getElem?_eq_getElem (hlen ▸ hi)]
    exact congrArg some (Prod.ext hpair.1.symm (hpair.2 trivial))

/-- Over a whole text the marks are apart when no piece is glued. -/
theorem Session.apart_run (setup : Setup) (s : Session) (hletters : s.seen.map Prod.fst = letters s.pushed)
    (pieces : List (Text × Int)) :
    Apart (marks isSpace true (run (Session.next setup) s pieces).pushed) (run (Session.next setup) s pieces).seen ↔
      Apart (marks isSpace true s.pushed) s.seen ∧
        Along (Session.next setup) (fun s piece => ¬s.Glues piece) s pieces := by
  induction pieces generalizing s with
  | nil => exact (and_iff_left trivial).symm
  | cons piece rest ih =>
    have hlen : (marks isSpace true s.pushed).length = s.seen.length := by
      have hlen := congrArg List.length hletters
      rw [letters, ← map_fst_marks true, List.length_map, List.length_map] at hlen
      exact hlen.symm
    have hnext : (s.next setup piece).seen.map Prod.fst = letters (s.next setup piece).pushed := by
      rw [s.seen_next, List.map_append, hletters, map_fst_marks]
      exact (List.filter_append ..).symm
    rw [run, ih (s.next setup piece) hnext, s.seen_next]
    show Apart (marks isSpace true (s.pushed ++ piece.1)) _ ∧ _ ↔ _
    rw [marks_append, apart_append hlen, apart_marks, and_assoc]
    rfl

/-- **Main theorem.** The letters of the text leave in order, and its words are kept apart exactly when no piece that
begins with a letter meets a buffer that lost the space before it. -/
theorem words_intact_iff (setup : Setup) (pieces : List (Text × Int)) :
    WordsIntact (pieces.flatMap Prod.fst) (segmentsOf setup pieces) ↔
      Along (Session.next setup) (fun s piece => ¬s.Glues piece) {} pieces := by
  have hpushed : (run (Session.next setup) {} pieces).pushed = pieces.flatMap Prod.fst := by
    have hrun : ∀ s : Session, (run (Session.next setup) s pieces).pushed = s.pushed ++ pieces.flatMap Prod.fst := by
      induction pieces with
      | nil => exact fun s => (List.append_nil _).symm
      | cons piece rest ih => exact fun s => (ih _).trans (List.append_assoc ..)
    exact hrun {}
  have hseen : (segmentsOf setup pieces).flatMap (marks isSpace true) = (run (Session.next setup) {} pieces).seen := by
    rw [segmentsOf, List.flatMap_map, List.flatMap_append, flush_marks]
    rfl
  have hletters : (segmentsOf setup pieces).flatMap letters = letters (pieces.flatMap Prod.fst) := by
    rw [← hpushed, ← Session.letters_run, ← hseen, List.map_flatMap]
    simp only [map_fst_marks]
    rfl
  rw [intact_iff hletters, hseen, ← hpushed, Session.apart_run setup {} rfl]
  exact and_iff_right List.Forall₂.nil

/-- Two tokens at most, and a token is a word. -/
def twoWords : Setup where
  config :=
    { segmentMinTokens := 1, segmentMaxTokens := 2, firstSegmentMinTokens := 1, min_pos := Nat.zero_lt_one,
      max_pos := Nat.two_pos, first_pos := Nat.zero_lt_one, min_le_max := Nat.le_succ 1, first_le_max := Nat.le_succ 1 }

/-- `c` and `d` are two words of the text, and one of the segments. -/
theorem space_after_cut_lost :
    segmentsOf twoWords [("a b c ".toList, 0), ("d".toList, 1)] = ["a b".toList, "cd".toList] ∧
      ¬WordsIntact "a b c d".toList ["a b".toList, "cd".toList] := by
  refine ⟨by decide, fun h => ?_⟩
  have hmark := h.2 3 'd' (by decide)
  exact absurd hmark (by decide)

end SglangOmni.Models.Ming

import Mathlib.Algebra.Order.Field.Rat
import SglangOmni.Lib.Decimal
import SglangOmni.Lib.Paragraphs
import SglangOmni.Router.VoiceRouting

/-! Subtitles of a transcription.

A segment becomes a cue: a timing line, the text, and an empty line. The text is free, so what keeps the cues apart is
what is done to it (`cueText`): the blanks around it go, and `-->` becomes `->`, in one pass from the left. A reader
takes the paragraphs apart and reads every line with an arrow in it as a timing line (`readParagraph`). -/
namespace SglangOmni.Serve.Subtitles
open Lib
open Router.Voices (isSpace)

/-- `TranscriptionSegment`, with its times in seconds. -/
structure TranscriptionSegment where
  start : ℚ
  «end» : ℚ
  text : List Char

/-- `* 1000.0`, of floats. -/
structure Scale where
  times1000 : ℚ → ℚ
  nonneg : ∀ seconds, 0 ≤ seconds → 0 ≤ times1000 seconds

/-- `round`: of two integers that are as near, the even one. -/
def round (q : ℚ) : ℤ :=
  let rest := q - q.floor
  if rest < 1 / 2 then q.floor
  else if 1 / 2 < rest then q.floor + 1
  else if q.floor % 2 = 0 then q.floor else q.floor + 1

variable (scale : Scale)

def Scale.milliseconds (seconds : ℚ) : ℤ := round (scale.times1000 seconds)

/-- `_format_timestamp`. -/
def formatTimestamp (seconds : ℚ) (alwaysIncludeHours : Bool) (decimalMarker : Char) : List Char :=
  let milliseconds := scale.milliseconds seconds
  let hours := milliseconds / 3600000
  let milliseconds := milliseconds % 3600000
  let minutes := milliseconds / 60000
  let milliseconds := milliseconds % 60000
  let secs := milliseconds / 1000
  let milliseconds := milliseconds % 1000
  let hoursMarker := if alwaysIncludeHours ∨ 0 < hours then zeroPadded 2 hours ++ [':'] else []
  hoursMarker ++ zeroPadded 2 minutes ++ ':' :: zeroPadded 2 secs ++ decimalMarker :: zeroPadded 3 milliseconds

/-- `str.strip`. -/
def strip (text : List Char) : List Char := (text.dropWhile isSpace).rdropWhile isSpace

/-- `.replace("-->", "->")`. -/
def replaceArrow : List Char → List Char
  | '-' :: '-' :: '>' :: rest => '-' :: '>' :: replaceArrow rest
  | c :: rest => c :: replaceArrow rest
  | [] => []

theorem replaceArrow_eq_nil {text : List Char} : replaceArrow text = [] ↔ text = [] := by
  fun_cases replaceArrow text <;> simp

theorem getLast?_replaceArrow (text : List Char) : (replaceArrow text).getLast? = text.getLast? := by
  fun_induction replaceArrow text with
  | case1 rest ih | case2 c rest hne ih => simp [List.getLast?_cons, ih]
  | case3 => rfl

/-- `_cue_text`. -/
def cueText (text : List Char) : List Char := replaceArrow (strip text)

def arrow : List Char := ['-', '-', '>']

def timing (segment : TranscriptionSegment) (alwaysIncludeHours : Bool) (decimalMarker : Char) : List Char :=
  formatTimestamp scale segment.start alwaysIncludeHours decimalMarker ++ ' ' :: arrow ++ ' ' ::
    formatTimestamp scale segment.end alwaysIncludeHours decimalMarker

def segmentsToSrt (segments : List TranscriptionSegment) : List Char :=
  ((segments.zipIdx 1).map fun (segment, index) =>
    Nat.toDigits 10 index ++ '\n' ::
      (timing scale segment true ',' ++ '\n' :: (cueText segment.text ++ ['\n', '\n']))).flatten

def segmentsToVtt (segments : List TranscriptionSegment) : List Char :=
  ['W', 'E', 'B', 'V', 'T', 'T', '\n', '\n'] ++ (segments.map fun segment =>
    timing scale segment false '.' ++ '\n' :: (cueText segment.text ++ ['\n', '\n'])).flatten

/-! ### Reading subtitles -/

/-- A number of `width` digits below `bound`. -/
def readField (width bound : Nat) (s : List Char) : Option Nat :=
  if s.length = width then (readDecimal s).filter (· < bound) else none

/-- The time in milliseconds. -/
def readClock (decimalMarker : Char) (hours minutes rest : List Char) : Option ℤ :=
  match rest.splitOn decimalMarker with
  | [secs, milliseconds] => do
    let hours ← if 2 ≤ hours.length then readDecimal hours else none
    let minutes ← readField 2 60 minutes
    let secs ← readField 2 60 secs
    let milliseconds ← readField 3 1000 milliseconds
    return (((hours * 60 + minutes) * 60 + secs) * 1000 + milliseconds : Nat)
  | _ => none

/-- The hours have two digits or more, or are left out. -/
def readTimestamp (decimalMarker : Char) (s : List Char) : Option ℤ :=
  match s.splitOn ':' with
  | [minutes, rest] => readClock decimalMarker ['0', '0'] minutes rest
  | [hours, minutes, rest] => readClock decimalMarker hours minutes rest
  | _ => none

/-- The start and the end of a cue. -/
abbrev Cue := ℤ × ℤ

def readTiming (decimalMarker : Char) (line : List Char) : Option Cue :=
  match line.splitOn ' ' with
  | [start, middle, stop] =>
    if middle = arrow then do
      let start ← readTimestamp decimalMarker start
      let stop ← readTimestamp decimalMarker stop
      return (start, stop)
    else none
  | _ => none

/-- The cues of a paragraph; one without a timing line cannot be read. -/
def readParagraph (decimalMarker : Char) (lines : List (List Char)) : List (Option Cue) :=
  match lines.filter fun line => decide (arrow <:+: line) with
  | [] => [none]
  | timings => timings.map (readTiming decimalMarker)

def readSrt (universal : Bool) (text : List Char) : List (Option Cue) :=
  (paragraphs (textLines universal text)).flatMap (readParagraph ',')

/-- The first paragraph is the header. -/
def readVtt (universal : Bool) (text : List Char) : List (Option Cue) :=
  (paragraphs (textLines universal text)).tail.flatMap (readParagraph '.')

end SglangOmni.Serve.Subtitles

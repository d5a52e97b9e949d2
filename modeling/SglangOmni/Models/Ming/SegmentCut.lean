import SglangOmni.Lib.CutAfter
import SglangOmni.Lib.Replace
import SglangOmni.Models.Ming.Segmenter
import Mathlib.Data.List.SplitBy

/-! The text cut of the Ming talker.

A text is cut into fragments of a bounded semantic length: at its sentences, at the clauses of these, and at single
words where a clause is too long. The dots of numbers and abbreviations end no sentence; a placeholder stands for them
meanwhile, in the text itself. -/
namespace SglangOmni.Models.Ming
open Lib
open Router.Voices (isSpace)

/-! ### Characters -/

/-- `[a-zA-Z]`. -/
def isLetter (c : Char) : Bool := c.isAlpha

/-- `[\u4e00-\u9fa5]`. -/
def isHan (c : Char) : Bool := 0x4e00 ≤ c.toNat && c.toNat ≤ 0x9fa5

/-- `string.punctuation`. -/
def isPunctuation (c : Char) : Bool :=
  let n := c.toNat
  (33 ≤ n && n ≤ 47) || (58 ≤ n && n ≤ 64) || (91 ≤ n && n ≤ 96) || (123 ≤ n && n ≤ 126)

/-- `string.whitespace`. -/
def isAsciiSpace (c : Char) : Bool := (9 ≤ c.toNat && c.toNat ≤ 13) || c == ' '

/-- `\u3002\uff01\uff1f`. -/
def isSentenceEnd (c : Char) : Bool := c == '。' || c == '！' || c == '？'

/-- `\uff0c;\uff1b`. -/
def isClauseEnd (c : Char) : Bool := c == '，' || c == ';' || c == '；'

/-- What `append_text_fragment` strips on the left: `\u00ef\u00bc\u008c,:;`, and whitespace. -/
def isLeading (c : Char) : Bool :=
  c == '\u00ef' || c == '\u00bc' || c == '\u008c' || c == ',' || c == ':' || c == ';' || isAsciiSpace c

/-! ### Lengths -/

/-- The runs of `[a-zA-Z]+`; `inWord` says whether the text goes on from one. -/
def wordCount (inWord : Bool) : Text → Nat
  | [] => 0
  | c :: rest =>
    if isLetter c then (if inWord then 0 else 1) + wordCount true rest else wordCount false rest

def getSemanticLength (text : Text) : Nat := text.countP isHan + wordCount false text

def hasValidContent (text : Text) : Bool := text.any fun c => !(isPunctuation c || isAsciiSpace c)

/-- `str.strip`. -/
def stripText (text : Text) : Text := (text.dropWhile isSpace).rdropWhile isSpace

/-! ### Fragments -/

section
variable (maxLen minTail : Nat)

/-- `append_text_fragment`. -/
def appendTextFragment (fragments : List Text) (newText : Text) : List Text :=
  let newText := newText.dropWhile isLeading
  if hasValidContent newText then
    match fragments.getLast? with
    | none => [newText]
    | some last =>
      if getSemanticLength last + getSemanticLength newText ≤ maxLen then
        if last.getLast?.any isSentenceEnd && getSemanticLength newText < minTail then fragments ++ [newText]
        else
          let separator := if last.getLast? ≠ some ' ' ∧ newText.head?.any Char.isAlphanum then [' '] else []
          fragments.dropLast ++ [last ++ separator ++ newText]
      else fragments ++ [newText]
  else fragments

inductive UnitKind where
  | han
  | letter
  | other
  deriving DecidableEq

def unitKind (c : Char) : UnitKind := if isHan c then .han else if isLetter c then .letter else .other

/-- Two characters of one semantic unit. -/
def sameUnit (c d : Char) : Bool := unitKind c == unitKind d && unitKind c != .han

/-- `re.findall(r"([\u4e00-\u9fa5]|[a-zA-Z]+|[^a-zA-Z\u4e00-\u9fa5]+)", …)`. -/
def semanticUnits (text : Text) : List Text := text.splitBy sameUnit

/-- The loop of `split_long_fragment`, on the fragments and the current one. -/
def addUnit (acc : List Text × Text) (unit : Text) : List Text × Text :=
  if getSemanticLength acc.2 + getSemanticLength unit ≤ maxLen then (acc.1, acc.2 ++ unit)
  else
    let fragments := if acc.2 ≠ [] then acc.1 ++ [acc.2] else acc.1
    if maxLen < getSemanticLength unit then (fragments ++ [unit], []) else (fragments, unit)

def splitLongFragment (text : Text) : List Text :=
  if getSemanticLength text ≤ maxLen then [text]
  else
    let acc := (semanticUnits text).foldl (addUnit maxLen) ([], [])
    if acc.2 ≠ [] then acc.1 ++ [acc.2] else acc.1

/-! ### Sentences and clauses -/

def sentencesOf (normalizedText : Text) : List Text :=
  let cut := cutAfter isSentenceEnd [] normalizedText
  let sentences := (cut.1.map stripText).filter (· ≠ [])
  if cut.2 = [] then sentences
  else
    let last := stripText cut.2
    sentences ++ [if last.getLast?.any isSentenceEnd then last else last ++ ['。']]

/-- A clause of marks alone goes to the clause before it. -/
def addClause (clauses : List Text) (clause : Text) : List Text :=
  if clause ≠ [] ∧ hasValidContent clause then clauses ++ [clause]
  else
    match clauses.getLast? with
    | none => clauses
    | some last => if clause ≠ [] then clauses.dropLast ++ [last ++ clause] else clauses

def clausesOf (sentence : Text) : List Text :=
  let cut := cutAfter isClauseEnd [] sentence
  let clauses := (cut.1.map stripText).foldl addClause []
  if cut.2 = [] then clauses else addClause clauses (stripText cut.2)

/-- A short clause goes with the next one. -/
def CombinedClause (clause next : Text) : Prop :=
  getSemanticLength clause < minTail ∧ getSemanticLength (clause ++ next) ≤ maxLen

instance (clause next : Text) : Decidable (CombinedClause maxLen minTail clause next) :=
  inferInstanceAs (Decidable (_ ∧ _))

/-- A clause that goes alone. -/
def appendClause (fragments : List Text) (clause : Text) : List Text :=
  if maxLen < getSemanticLength clause then
    (splitLongFragment maxLen clause).foldl (appendTextFragment maxLen minTail) fragments
  else appendTextFragment maxLen minTail fragments clause

/-- The loop over the clauses of a sentence. -/
def appendClauses (fragments : List Text) : List Text → List Text
  | [] => fragments
  | [clause] => appendClause maxLen minTail fragments clause
  | clause :: next :: rest =>
    if CombinedClause maxLen minTail clause next then
      appendClauses (appendTextFragment maxLen minTail fragments (clause ++ next)) rest
    else appendClauses (appendClause maxLen minTail fragments clause) (next :: rest)

end

/-! ### The cut -/

/-- `DOT_PLACEHOLDER`. -/
def dotPlaceholder : Text := ['#', '#', 'D', 'O', 'T', '#', '#']

/-- `re.sub(r"(…)\.(…)", r"\1##DOT##\2", text)`, for a class of characters. -/
def protectDots (within : Char → Bool) : Text → Text
  | a :: dot :: b :: rest =>
    if within a ∧ dot = '.' ∧ within b then a :: (dotPlaceholder ++ b :: protectDots within rest)
    else a :: protectDots within (dot :: b :: rest)
  | [a, b] => [a, b]
  | [a] => [a]
  | [] => []

/-- The dots of numbers, and thrice those of abbreviations; `decimal` is `\d`. -/
def protectText (decimal : Char → Bool) (text : Text) : Text :=
  let capital := fun c : Char => c.isUpper
  protectDots capital (protectDots capital (protectDots capital (protectDots decimal text)))

def processText (decimal : Char → Bool) (text : Text) : Text :=
  replaceAll ['。', '，'] ['。'] ((protectText decimal text).map fun c => if c = '\n' then ' ' else c)

/-- The replacements on one character. -/
def normalizeChar (c : Char) : Char :=
  if c = '.' then '。' else if c = '!' then '！' else if c = '?' then '？' else if c = ',' then '，' else c

def restoreDots (text : Text) : Text := replaceAll dotPlaceholder ['.'] text

/-- The fragments of `cut_text_by_semantic_length`. -/
def cutTextBySemanticLength (decimal : Char → Bool) (text : Text) (maxLen minTail : Nat) : List Text :=
  if hasValidContent text then
    let processedText := processText decimal text
    if getSemanticLength processedText ≤ maxLen then [restoreDots processedText]
    else
      let sentences := sentencesOf (processedText.map normalizeChar)
      (sentences.foldl (fun fragments sentence => appendClauses maxLen minTail fragments (clausesOf sentence)) []).map
        restoreDots
  else []

end SglangOmni.Models.Ming

import Mathlib.Data.List.TakeWhile
import SglangOmni.Lib.Raising

/-! The `Content-Type` of a request.

The value of the header is read with a cursor: optional blanks, a type and a subtype, and parameters whose values are
tokens or quoted strings. Where the code takes a slice, a range that is not in the value is a panic. The header is
accepted for a media type when there is no parameter but one charset that is UTF-8. -/
namespace SglangOmni.Router.ContentType
open Lib

abbrev Bytes := List UInt8

/-- The bytes of an ASCII literal. -/
def bytesOf (s : String) : Bytes := s.toList.map Char.toUInt8

def quote : UInt8 := '"'.toUInt8

def backslash : UInt8 := '\\'.toUInt8

def slash : UInt8 := '/'.toUInt8

def semicolon : UInt8 := ';'.toUInt8

def equals : UInt8 := '='.toUInt8

/-- A slice of which the range is not in the bytes. -/
inductive Panic where
  | outOfRange
  deriving DecidableEq

/-- `&bytes[start..stop]`. -/
def slice (bytes : Bytes) (start stop : Nat) : Except Panic Bytes :=
  if start ≤ stop ∧ stop ≤ bytes.length then .ok ((bytes.take stop).drop start) else .error .outOfRange

/-- `to_ascii_lowercase`. -/
def lower (c : UInt8) : UInt8 := if 'A'.toUInt8 ≤ c ∧ c ≤ 'Z'.toUInt8 then c + 32 else c

/-- `eq_ignore_ascii_case`. -/
def eqIgnoreAsciiCase (a b : Bytes) : Bool := a.map lower = b.map lower

/-! ### The kinds of bytes -/

def isAlphanumeric (c : UInt8) : Bool :=
  ('0'.toUInt8 ≤ c && c ≤ '9'.toUInt8) || ('A'.toUInt8 ≤ c && c ≤ 'Z'.toUInt8) || ('a'.toUInt8 ≤ c && c ≤ 'z'.toUInt8)

def isTchar (c : UInt8) : Bool := isAlphanumeric c || c ∈ bytesOf "!#$%&'*+-.^_`|~"

def isQdtext (c : UInt8) : Bool :=
  c = '\t'.toUInt8 || c = ' '.toUInt8 || c = '!'.toUInt8 || ('#'.toUInt8 ≤ c && c ≤ '['.toUInt8) ||
    (']'.toUInt8 ≤ c && c ≤ '~'.toUInt8)

def isQuotedPairByte (c : UInt8) : Bool := c = '\t'.toUInt8 || (' '.toUInt8 ≤ c && c ≤ '~'.toUInt8)

def isOws (c : UInt8) : Bool := c = ' '.toUInt8 || c = '\t'.toUInt8

/-! ### The cursor -/

/-- `while bytes.get(cursor).is_some_and(p) { cursor += 1 }`. -/
def skipWhile (p : UInt8 → Bool) (bytes : Bytes) (cursor : Nat) : Nat :=
  match h : bytes[cursor]? with
  | none => cursor
  | some c => if p c then skipWhile p bytes (cursor + 1) else cursor
termination_by bytes.length - cursor
decreasing_by
  have := (List.getElem?_eq_some_iff.mp h).1
  omega

/-- `skip_ows`. -/
def skipOws (bytes : Bytes) (cursor : Nat) : Nat := skipWhile isOws bytes cursor

/-- `parse_token`. -/
def parseToken (bytes : Bytes) (start : Nat) : Option Nat :=
  let cursor := skipWhile isTchar bytes start
  if start < cursor then some cursor else none

/-- `quoted_end`. -/
def quotedEnd (bytes : Bytes) (cursor : Nat) : Option Nat :=
  match h : bytes[cursor]? with
  | none => none
  | some c =>
    if c = quote then some (cursor + 1)
    else if c = backslash then
      match bytes[cursor + 1]? with
      | none => none
      | some escaped => if ! isQuotedPairByte escaped then none else quotedEnd bytes (cursor + 1 + 1)
    else if ! isQdtext c then none
    else quotedEnd bytes (cursor + 1)
termination_by bytes.length - cursor
decreasing_by
  all_goals
    have := (List.getElem?_eq_some_iff.mp h).1
    omega

inductive ParameterValue where
  | token (bytes : Bytes)
  | quoted (bytes : Bytes)
  deriving DecidableEq

namespace ParameterValue

def isQuoted : ParameterValue → Bool
  | .token _ => false
  | .quoted _ => true

def bytes : ParameterValue → Bytes
  | .token bytes | .quoted bytes => bytes

/-- The loop of `ParameterValue::eq_ignore_ascii_case`. -/
def eqFrom (quoted : Bool) (bytes expected : Bytes) (index expectedIndex : Nat) : Bool :=
  if h : index < bytes.length then
    let index' := if quoted && bytes.get ⟨index, h⟩ = backslash then index + 1 else index
    if h' : index' < bytes.length ∧ expectedIndex < expected.length then
      if lower (bytes.get ⟨index', h'.1⟩) ≠ lower (expected.get ⟨expectedIndex, h'.2⟩) then false
      else eqFrom quoted bytes expected (index' + 1) (expectedIndex + 1)
    else false
  else expectedIndex = expected.length
termination_by bytes.length - index
decreasing_by
  show bytes.length - ((if quoted && bytes.get ⟨index, h⟩ = backslash then index + 1 else index) + 1) <
    bytes.length - index
  split <;> omega

/-- `ParameterValue::eq_ignore_ascii_case`. -/
def eqIgnoreAsciiCase (v : ParameterValue) (expected : Bytes) : Bool := eqFrom v.isQuoted v.bytes expected 0 0

end ParameterValue

/-! ### The parser -/

/-- The value of a parameter, and where it ends. -/
def parseValue (bytes : Bytes) (cursor : Nat) : Except Panic (Option (ParameterValue × Nat)) :=
  if bytes[cursor]? = some quote then
    let quotedStart := cursor + 1
    match quotedEnd bytes quotedStart with
    | none => .ok none
    | some cursor => do
      let inner ← slice bytes quotedStart (cursor - 1)
      return some (.quoted inner, cursor)
  else
    match parseToken bytes cursor with
    | none => .ok none
    | some stop => do
      let token ← slice bytes cursor stop
      return some (.token token, stop)

section
variable {σ : Type} (onParameter : σ → Bytes → ParameterValue → σ) (bytes : Bytes) (mediaStart mediaEnd : Nat)

/-- The loop of `parse_content_type`, with the state of the callback. No loop takes more turns than there are bytes. -/
def parseParameters : Nat → σ → Nat → Except Panic (σ × Option Bytes)
  | 0, s, _ => .ok (s, none)
  | n + 1, s, cursor => do
    let cursor := skipOws bytes cursor
    if cursor = bytes.length then
      let media ← slice bytes mediaStart mediaEnd
      return (s, some media)
    else if bytes[cursor]? ≠ some semicolon then return (s, none)
    else
      let nameStart := skipOws bytes (cursor + 1)
      match parseToken bytes nameStart with
      | none => return (s, none)
      | some cursor =>
        let name ← slice bytes nameStart cursor
        if bytes[cursor]? ≠ some equals then return (s, none)
        else
          match ← parseValue bytes (cursor + 1) with
          | none => return (s, none)
          | some (parameter, cursor) => parseParameters n (onParameter s name parameter) cursor

/-- `parse_content_type`. -/
def parseContentType (s : σ) : Except Panic (σ × Option Bytes) :=
  let mediaStart := skipOws bytes 0
  match parseToken bytes mediaStart with
  | none => .ok (s, none)
  | some cursor =>
    if bytes[cursor]? ≠ some slash then .ok (s, none)
    else
      match parseToken bytes (cursor + 1) with
      | none => .ok (s, none)
      | some mediaEnd => parseParameters onParameter bytes mediaStart mediaEnd (bytes.length + 1) s mediaEnd

end

/-- What the callback of `is_request_media_type` has seen. -/
structure RequestParameters where
  charsetSeen : Bool := false
  validParameters : Bool := true

def onRequestParameter (s : RequestParameters) (name : Bytes) (parameter : ParameterValue) : RequestParameters :=
  if s.charsetSeen || ! eqIgnoreAsciiCase name (bytesOf "charset") then { s with validParameters := false }
  else
    let s := { s with charsetSeen := true }
    if ! parameter.eqIgnoreAsciiCase (bytesOf "utf-8") then { s with validParameters := false } else s

/-- `is_request_media_type`. -/
def isRequestMediaType (value expected : Bytes) : Except Panic Bool := do
  let (s, media) ← parseContentType onRequestParameter value {}
  match media with
  | none => return false
  | some media => return eqIgnoreAsciiCase media expected && s.validParameters

/-! ### The grammar -/

def IsOws (w : Bytes) : Prop := ∀ c ∈ w, isOws c = true

def IsToken (t : Bytes) : Prop := t ≠ [] ∧ ∀ c ∈ t, isTchar c = true

/-- What may stand between the quotes of a quoted string. -/
inductive QuotedText : Bytes → Prop where
  | nil : QuotedText []
  | text {c : UInt8} {rest : Bytes} (qdtext : isQdtext c = true) (tail : QuotedText rest) : QuotedText (c :: rest)
  | pair {c : UInt8} {rest : Bytes} (escaped : isQuotedPairByte c = true) (tail : QuotedText rest) :
    QuotedText (backslash :: c :: rest)

/-- `token / quoted-string`. -/
inductive Spelt : ParameterValue → Bytes → Prop where
  | token {t : Bytes} (h : IsToken t) : Spelt (.token t) t
  | quoted {content : Bytes} (h : QuotedText content) : Spelt (.quoted content) (quote :: (content ++ [quote]))

/-- `*( OWS ";" OWS token "=" ( token / quoted-string ) )`. -/
inductive Parameters : List (Bytes × ParameterValue) → Bytes → Prop where
  | nil : Parameters [] []
  | cons {w w' name text tail : Bytes} {v : ParameterValue} {params : List (Bytes × ParameterValue)} (before : IsOws w)
    (after : IsOws w') (named : IsToken name) (spelt : Spelt v text) (more : Parameters params tail) :
    Parameters ((name, v) :: params) (w ++ semicolon :: (w' ++ (name ++ equals :: (text ++ tail))))

/-- `OWS token "/" token *( … ) OWS`, with the media type and the parameters. -/
def IsContentType (media : Bytes) (params : List (Bytes × ParameterValue)) (value : Bytes) : Prop :=
  ∃ w t s tail w', IsOws w ∧ IsToken t ∧ IsToken s ∧ media = t ++ slash :: s ∧ Parameters params tail ∧ IsOws w' ∧
    value = w ++ (media ++ (tail ++ w'))

/-- A quoted string without its backslashes. -/
def unescape : Bytes → Bytes
  | [] => []
  | c :: rest =>
    if c = backslash then
      match rest with
      | [] => []
      | e :: rest => e :: unescape rest
    else c :: unescape rest

/-- What a parameter says. -/
def ParameterValue.said : ParameterValue → Bytes
  | .token t => t
  | .quoted content => unescape content

end SglangOmni.Router.ContentType

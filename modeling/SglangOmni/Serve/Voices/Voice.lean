import SglangOmni.Router.VoiceRouting
import Mathlib

/-! An uploaded voice and the metadata of its file.

The normal form of a name is the key of a voice, the stem of its file and a field of its metadata; it is its own normal
form, so a voice that is read back from its file is the voice that was written. -/
namespace SglangOmni.Serve.Voices
open Lib
open Router.Voices (strip isSpace isVoiceName)

/-! ### Names -/

/-- `normalize_voice_name`; nothing for a name that is refused. The pattern leaves only ASCII letters to lower. -/
def normalizeVoiceName (name : String) : Option String :=
  let value := strip name
  if value = "" then none
  else if isVoiceName value then some value.toLower
  else none

/-- A character that the pattern allows. -/
def isNameChar (c : Char) : Bool := c.isAlphanum || c = '_' || c = '.' || c = '-'

variable {c : Char}

theorem isNameChar_toNat (h : isNameChar c = true) : 33 ≤ c.toNat ∧ c.toNat ≤ 122 := by
  simp only [isNameChar, Char.isAlphanum, Char.isAlpha, Char.isUpper, Char.isLower, Char.isDigit, Bool.or_eq_true,
    Bool.and_eq_true, decide_eq_true_eq, UInt32.le_iff_toNat_le] at h
  rcases h with ((((h | h) | h) | rfl) | rfl) | rfl
  · exact ⟨Nat.le_trans (by decide) h.1, Nat.le_trans h.2 (by decide)⟩
  · exact ⟨Nat.le_trans (by decide) h.1, Nat.le_trans h.2 (by decide)⟩
  · exact ⟨Nat.le_trans (by decide) h.1, Nat.le_trans h.2 (by decide)⟩
  · decide
  · decide
  · decide

theorem isSpace_of_isNameChar (h : isNameChar c = true) : isSpace c = false := by
  obtain ⟨hlo, hhi⟩ := isNameChar_toNat h
  simp only [isSpace, Bool.or_eq_false_iff, Bool.and_eq_false_iff, decide_eq_false_iff_not]
  omega

theorem isUpper_toLower (c : Char) : c.toLower.isUpper = false := by
  simp only [Char.isUpper, Char.toLower]
  split <;> grind [UInt32.toNat_add, Char.toNat_val]

theorem toLower_of_not_isUpper (h : c.isUpper = false) : c.toLower = c := by
  simp only [Char.isUpper, decide_eq_false_iff_not] at h
  rw [Char.toLower, dif_neg (by tauto)]

theorem isLower_toLower (h : c.isUpper = true) : c.toLower.isLower = true := by
  simp only [Char.isUpper, decide_eq_true_eq] at h
  simp only [Char.isLower, Char.toLower, dif_pos h, Bool.and_eq_true, decide_eq_true_eq]
  simp only [ge_iff_le, UInt32.le_iff_toNat_le, UInt32.toNat_add] at h ⊢
  obtain ⟨hlo, hhi⟩ := h
  have hlo' : 65 ≤ c.val.toNat := hlo
  have hhi' : c.val.toNat ≤ 90 := hhi
  constructor
  · show 97 ≤ (c.val.toNat + 32) % 2 ^ 32
    omega
  · show (c.val.toNat + 32) % 2 ^ 32 ≤ 122
    omega

theorem toLower_toLower (c : Char) : c.toLower.toLower = c.toLower := toLower_of_not_isUpper (isUpper_toLower c)

theorem isAlphanum_toLower (h : c.isAlphanum = true) : c.toLower.isAlphanum = true := by
  cases hu : c.isUpper with
  | true => rw [Char.isAlphanum, Char.isAlpha, isLower_toLower hu, Bool.or_true, Bool.true_or]
  | false =>
    rw [toLower_of_not_isUpper hu]
    exact h

theorem isNameChar_toLower (h : isNameChar c = true) : isNameChar c.toLower = true := by
  simp only [isNameChar, Bool.or_eq_true, decide_eq_true_eq] at h ⊢
  rcases h with ((h | rfl) | rfl) | rfl
  · exact .inl (.inl (.inl (isAlphanum_toLower h)))
  · exact .inl (.inl (.inr (by decide)))
  · exact .inl (.inr (by decide))
  · exact .inr (by decide)

theorem isVoiceName_toLower {value : String} (h : isVoiceName value = true) : isVoiceName value.toLower = true := by
  simp only [isVoiceName, Bool.and_eq_true, List.any_eq_true, List.all_eq_true] at h ⊢
  obtain ⟨⟨c, hc, ha⟩, hall⟩ := h
  have hlist : value.toLower.toList = value.toList.map Char.toLower := by
    rw [String.toLower, String.toList_map]
  rw [hlist]
  refine ⟨⟨c.toLower, List.mem_map_of_mem hc, isAlphanum_toLower ha⟩, ?_⟩
  intro d hd
  obtain ⟨c, hc, rfl⟩ := List.mem_map.1 hd
  exact isNameChar_toLower (hall c hc)

/-- A name of the pattern has nothing to strip. -/
theorem strip_of_isVoiceName {value : String} (h : isVoiceName value = true) : strip value = value := by
  have hall : ∀ c ∈ value.toList, isSpace c = false := by
    intro c hc
    simp only [isVoiceName, Bool.and_eq_true, List.all_eq_true] at h
    exact isSpace_of_isNameChar (h.2 c hc)
  have hdrop : value.toList.dropWhile isSpace = value.toList := by
    rw [List.dropWhile_eq_self_iff]
    intro hlength
    rw [hall _ (List.getElem_mem _)]
    decide
  have hrdrop : value.toList.rdropWhile isSpace = value.toList := by
    rw [List.rdropWhile_eq_self_iff]
    intro hne
    rw [hall _ (List.getLast_mem hne)]
    decide
  rw [Router.Voices.strip, hdrop, hrdrop, String.ofList_toList]

theorem isVoiceName_ne_empty {value : String} (h : isVoiceName value = true) : value ≠ "" := by
  rintro rfl
  exact absurd h (by decide)

/-- The normal form of a name is its own normal form. -/
theorem normalizeVoiceName_self {name normalized : String} (h : normalizeVoiceName name = some normalized) :
    normalizeVoiceName normalized = some normalized := by
  simp only [normalizeVoiceName] at h
  split at h
  · exact nomatch h
  · split at h
    · rename_i hname
      obtain rfl := Option.some.inj h
      have hlower := isVoiceName_toLower hname
      have hself : (strip name).toLower.toLower = (strip name).toLower := by
        simp only [String.toLower, ← String.toList_inj, String.toList_map, List.map_map]
        exact List.map_congr_left fun c _ => toLower_toLower c
      simp only [normalizeVoiceName, strip_of_isVoiceName hlower, if_neg (isVoiceName_ne_empty hlower), hlower, if_true,
        hself]
    · exact nomatch h

theorem normalizeVoiceName_ne_empty {name normalized : String} (h : normalizeVoiceName name = some normalized) :
    normalized ≠ "" := by
  have hself := normalizeVoiceName_self h
  rintro rfl
  exact absurd hself (by decide)

/-! ### A voice -/

/-- A file of the store's directory: `{normalized_name}.safetensors`, or `.{stem}.{unique}.tmp`. -/
inductive Path where
  | voice (normalizedName : String)
  | temp (stem : String) (unique : Nat)
  deriving DecidableEq

structure UploadedVoice where
  name : String
  normalizedName : String
  consent : String
  createdAt : Int
  fileSize : Int
  mimeType : String
  originalFilename : String
  sampleRate : Int
  numSamples : Int
  fingerprint : String
  filePath : Path
  refText : Option String := none
  speakerDescription : Option String := none
  deriving DecidableEq

/-- `metadata[key] = value`, for a value that is not `None`. -/
def setSome (metadata : Dict String String) (key : String) : Option String → Dict String String
  | none => metadata
  | some value => metadata.set key value

namespace UploadedVoice

/-- `to_safetensors_metadata`. -/
def toSafetensorsMetadata (v : UploadedVoice) : Dict String String :=
  let fields : List (String × String) :=
    [("name", v.name), ("normalized_name", v.normalizedName), ("consent", v.consent),
      ("created_at", v.createdAt.repr), ("file_size", v.fileSize.repr), ("mime_type", v.mimeType),
      ("original_filename", v.originalFilename), ("sample_rate", v.sampleRate.repr),
      ("num_samples", v.numSamples.repr), ("fingerprint", v.fingerprint)]
  let metadata : Dict String String := fields.foldl (fun d e => d.set e.1 e.2) ∅
  setSome (setSome metadata "ref_text" v.refText) "speaker_description" v.speakerDescription

/-- The name of the voice has the normal form under which it is stored, in the file of that form. -/
structure WellFormed (v : UploadedVoice) : Prop where
  normalized : normalizeVoiceName v.name = some v.normalizedName
  filePath : v.filePath = .voice v.normalizedName

end UploadedVoice

def defaultSampleRate : Int := 24000

/-- A field of `VOICE_METADATA_INT_FIELDS`, with its default; nothing where `int` raises. -/
def intField (metadata : Dict String String) (key : String) (default : Int) : Option Int :=
  match metadata.get? key with
  | none => some default
  | some value => value.toInt?

/-- `a or b`, of strings that may be missing. -/
def orString (a b : Option String) : Option String := if a = some "" then b else a.or b

/-- `_voice_from_metadata`, of a file of `size` bytes; nothing where it raises. -/
def voiceFromMetadata (metadata : Dict String String) (path : Path) (size : Int) : Option UploadedVoice := do
  let normalizedName ← orString (metadata.get? "normalized_name") (metadata.get? "voice_name_lower")
  let name ← orString (metadata.get? "name") (some normalizedName)
  let createdAt ← intField metadata "created_at" 0
  let fileSize ← intField metadata "file_size" size
  let sampleRate ← intField metadata "sample_rate" defaultSampleRate
  let numSamples ← intField metadata "num_samples" 0
  let normalizedName ← normalizeVoiceName normalizedName
  some
    { name, normalizedName
      consent := (metadata.get? "consent").getD ""
      createdAt, fileSize
      mimeType := (metadata.get? "mime_type").getD "audio/wav"
      originalFilename := (metadata.get? "original_filename").getD ""
      sampleRate, numSamples
      fingerprint := (metadata.get? "fingerprint").getD ""
      filePath := path
      refText := metadata.get? "ref_text"
      speakerDescription := metadata.get? "speaker_description" }

theorem get?_setSome (d : Dict String String) (k : String) (v : Option String) (x : String) :
    (setSome d k v).get? x = if x = k ∧ v.isSome then v else d.get? x := by
  cases v with
  | none => simp [setSome]
  | some v =>
    simp only [setSome, Dict.get?_set, Option.isSome_some, and_true]

/-- **A voice is read back from its file as it was written.** -/
theorem voiceFromMetadata_toSafetensorsMetadata {v : UploadedVoice} (h : v.WellFormed) (size : Int) :
    voiceFromMetadata v.toSafetensorsMetadata (.voice v.normalizedName) size = some v := by
  have hnorm := normalizeVoiceName_self h.normalized
  have hne := normalizeVoiceName_ne_empty h.normalized
  have hname : v.name ≠ "" := by
    intro he
    have hnone : normalizeVoiceName "" = none := by decide
    have := h.normalized
    rw [he, hnone] at this
    exact nomatch this
  have href : v.toSafetensorsMetadata.get? "ref_text" = v.refText := by
    cases hr : v.refText <;> simp [UploadedVoice.toSafetensorsMetadata, get?_setSome, hr, Dict.get?_set]
  have hdesc : v.toSafetensorsMetadata.get? "speaker_description" = v.speakerDescription := by
    cases hr : v.speakerDescription <;> simp [UploadedVoice.toSafetensorsMetadata, get?_setSome, hr, Dict.get?_set]
  have field : ∀ k, k ≠ "ref_text" → k ≠ "speaker_description" →
      v.toSafetensorsMetadata.get? k = ([("name", v.name), ("normalized_name", v.normalizedName),
        ("consent", v.consent), ("created_at", v.createdAt.repr), ("file_size", v.fileSize.repr),
        ("mime_type", v.mimeType), ("original_filename", v.originalFilename), ("sample_rate", v.sampleRate.repr),
        ("num_samples", v.numSamples.repr), ("fingerprint", v.fingerprint)].reverse.lookup k) := by
    intro k hk hk'
    simp only [UploadedVoice.toSafetensorsMetadata, get?_setSome, hk, hk', false_and, if_false, Dict.get?_foldl_set,
      Dict.get?_empty, Option.or_none]
  simp only [voiceFromMetadata, intField, field, href, hdesc, ne_eq, String.reduceEq, not_false_eq_true]
  simp [List.lookup_cons, orString, hne, hname, hnorm, Int.toInt?_repr]
  rw [← h.filePath]

end SglangOmni.Serve.Voices

import SglangOmni.Scheduling.StageCache
import SglangOmni.Serve.Voices.Voice

/-! The store of uploaded voices.

One file a voice, a map of the voices, and the cache of reference audio that the store shares with the models. Requests
run in threads: a step is what a thread does between two points where another may run, and a section under the lock that
touches the disk is two of them, so that a restart can come in between. A reader needs no lock to read a file. The
checks of the arguments, the decoding of uploaded audio and the names of the responses are left out. -/
namespace SglangOmni.Serve.Voices
open Lib
open Scheduling (StageCache.Cache StageCache.Limits)

/-- A `.safetensors` file. -/
structure VoiceFile (S : Type) where
  metadata : Dict String String
  audio : S
  /-- `path.stat().st_size`. -/
  size : Int := 0

/-- `SpeakerCacheKey`. -/
structure SpeakerCacheKey where
  modelType : String
  voiceName : String
  voiceVersion : Int
  artifactKind : String
  deriving DecidableEq

/-- `_voice_data_url_cache_key`. -/
def voiceDataUrlCacheKey (v : UploadedVoice) : SpeakerCacheKey :=
  ⟨"serve", v.normalizedName, v.createdAt, "wav_data_url"⟩

/-- What a store is given. -/
structure Setting (S A : Type) where
  maxUploaded : Nat
  /-- The data URL of the samples at a sample rate. -/
  encode : S → Int → A
  limits : StageCache.Limits
  estimateCacheBytes : A → Nat

/-- The arguments of an upload that passed their checks. -/
structure Upload (S : Type) where
  name : String
  normalizedName : String
  normalized : normalizeVoiceName name = some normalizedName
  consent : String
  fileSize : Int
  mimeType : String
  originalFilename : String
  sampleRate : Int
  numSamples : Int
  fingerprint : String
  refText : Option String
  speakerDescription : Option String
  samples : S

/-- The voice that an upload makes. -/
def Upload.voice {S : Type} (u : Upload S) (createdAt : Int) : UploadedVoice :=
  { name := u.name, normalizedName := u.normalizedName, consent := u.consent, createdAt := createdAt
    fileSize := u.fileSize, mimeType := u.mimeType, originalFilename := u.originalFilename, sampleRate := u.sampleRate
    numSamples := u.numSamples, fingerprint := u.fingerprint, filePath := .voice u.normalizedName, refText := u.refText
    speakerDescription := u.speakerDescription }

/-- Where a thread is. -/
inductive Phase (S : Type) where
  | idle
  /-- An upload, before the temporary file is written. -/
  | stamped (voice : UploadedVoice) (samples : S)
  /-- An upload, with its temporary file. -/
  | written (voice : UploadedVoice) (samples : S) (unique : Nat)
  /-- An upload under the lock, with the file in its place. -/
  | replaced (voice : UploadedVoice) (overwritten : Bool)
  /-- An upload that was rejected, before its temporary file is removed. -/
  | rejected (voice : UploadedVoice) (unique : Nat)
  /-- A deletion under the lock, with the file gone. -/
  | unlinked (voice : UploadedVoice)
  /-- A resolution that found nothing in the cache. -/
  | loading (voice : UploadedVoice)
  | loaded (voice : UploadedVoice) (samples : S)
  /-- A resolution whose voice has changed. -/
  | retrying (normalizedName : String)

/-- What has happened, for the disk and for the callers. -/
inductive Happened (S A : Type) where
  | stored (voice : UploadedVoice) (samples : S)
  | deleted (normalizedName : String)
  | resolved (voice : UploadedVoice) (refAudio : A)

structure Store (S A : Type) where
  disk : Dict Path (VoiceFile S)
  /-- The temporary files so far, of which each has a name of its own. -/
  temps : Nat
  voices : Dict String UploadedVoice
  lastUploadTimestamp : Int
  cache : StageCache.Cache SpeakerCacheKey A
  /-- The thread that holds the lock in a section of more than one step. -/
  lock : Option Nat
  threads : Nat → Phase S
  /-- The newest first. -/
  log : List (Happened S A)

namespace Store
variable {S A : Type} (cfg : Setting S A)

/-! ### Restoring -/

/-- The loop of `_restore` over the candidates. -/
def restoreCandidate (maxUploaded : Nat) (acc : Dict String UploadedVoice × Int) (voice : UploadedVoice) :
    Dict String UploadedVoice × Int :=
  if acc.1.contains voice.normalizedName then acc
  else if maxUploaded ≤ acc.1.length then acc
  else (acc.1.set voice.normalizedName voice, max acc.2 voice.createdAt)

/-- `sorted(self.root_dir.glob("*.safetensors"))`. -/
def globVoices (disk : Dict Path (VoiceFile S)) : List (String × VoiceFile S) :=
  (disk.entries.filterMap fun
    | (.voice name, file) => some (name, file)
    | (.temp _ _, _) => none).mergeSort fun a b => a.1 ≤ b.1

/-- `_restore`: the voices, and the last timestamp. -/
def restore (maxUploaded : Nat) (disk : Dict Path (VoiceFile S)) : Dict String UploadedVoice × Int :=
  let candidates := (globVoices disk).filterMap fun (name, file) =>
    voiceFromMetadata file.metadata (.voice name) file.size
  (candidates.mergeSort fun a b => b.createdAt ≤ a.createdAt).foldl (restoreCandidate maxUploaded) (∅, 0)

/-- A store that is started on a disk, with the caller's log. -/
def start (disk : Dict Path (VoiceFile S)) (temps : Nat) (log : List (Happened S A)) : Store S A :=
  let restored := restore cfg.maxUploaded disk
  { disk := disk, temps := temps, voices := restored.1, lastUploadTimestamp := restored.2,
    cache := StageCache.Cache.empty, lock := none
    threads := fun _ => .idle, log := log }

/-! ### The steps of a thread -/

def setThread (s : Store S A) (t : Nat) (phase : Phase S) : Store S A :=
  { s with threads := Function.update s.threads t phase }

def tempPath (voice : UploadedVoice) (unique : Nat) : Path := .temp voice.normalizedName unique

/-- `upload` up to the voice, with `_next_upload_timestamp` at a clock. -/
def beginUpload (s : Store S A) (t : Nat) (u : Upload S) (clock : Int) : Store S A :=
  let timestamp := max clock (s.lastUploadTimestamp + 1)
  { s with lastUploadTimestamp := timestamp }.setThread t (.stamped (u.voice timestamp) u.samples)

/-- `_write_voice_temp_file`, which leaves nothing behind when it fails. -/
def writeTemp (s : Store S A) (t : Nat) (voice : UploadedVoice) (samples : S) (ok : Bool) : Store S A :=
  if ok then
    { s with
      disk := s.disk.set (tempPath voice s.temps) { metadata := voice.toSafetensorsMetadata, audio := samples }
      temps := s.temps + 1 }.setThread t (.written voice samples s.temps)
  else s.setThread t .idle

/-- The section of `upload` under the lock, up to `_replace_voice_file`. -/
def replaceFile (s : Store S A) (t : Nat) (voice : UploadedVoice) (samples : S) (unique : Nat) (ok : Bool) :
    Store S A :=
  let replaced := s.voices.contains voice.normalizedName
  if !replaced && cfg.maxUploaded ≤ s.voices.length then s.setThread t (.rejected voice unique)
  else
    match s.disk.get? (tempPath voice unique), ok with
    | some file, true =>
      { s with
        disk := (s.disk.pop (tempPath voice unique)).set voice.filePath file
        lock := some t
        log := .stored voice samples :: s.log }.setThread t (.replaced voice replaced)
    | _, _ => s.setThread t (.rejected voice unique)

/-- `clear_voice` compares without case. Every name here comes from `normalizeVoiceName` and is its own lower case, so
equal names are enough. -/
def clearVoice (cache : StageCache.Cache SpeakerCacheKey A) (normalizedName : String) :
    StageCache.Cache SpeakerCacheKey A :=
  cache.removeIf fun key => key.voiceName = normalizedName

/-- The rest of the section. -/
def publish (s : Store S A) (t : Nat) (voice : UploadedVoice) (overwritten : Bool) : Store S A :=
  { s with
    cache := if overwritten then clearVoice s.cache voice.normalizedName else s.cache
    voices := s.voices.set voice.normalizedName voice
    lock := none }.setThread t .idle

/-- The `finally` of `upload`. -/
def removeTemp (s : Store S A) (t : Nat) (voice : UploadedVoice) (unique : Nat) : Store S A :=
  { s with disk := s.disk.pop (tempPath voice unique) }.setThread t .idle

/-- `delete` up to the `unlink`, which may fail. -/
def beginDelete (s : Store S A) (t : Nat) (name : String) (ok : Bool) : Store S A :=
  match (normalizeVoiceName name).bind s.voices.get?, ok with
  | some voice, true =>
    { s with
      disk := s.disk.pop voice.filePath
      lock := some t
      log := .deleted voice.normalizedName :: s.log }.setThread t (.unlinked voice)
  | _, _ => s

/-- The rest of `delete`. -/
def finishDelete (s : Store S A) (t : Nat) (voice : UploadedVoice) : Store S A :=
  { s with
    voices := s.voices.pop voice.normalizedName
    cache := clearVoice s.cache voice.normalizedName
    lock := none }.setThread t .idle

/-- The first section of `resolve_reference`. -/
def lookup (s : Store S A) (t : Nat) (normalizedName : String) : Store S A :=
  match s.voices.get? normalizedName with
  | none => s.setThread t .idle
  | some voice =>
    let found := s.cache.get (voiceDataUrlCacheKey voice)
    match found.1 with
    | some refAudio => { s with cache := found.2, log := .resolved voice refAudio :: s.log }.setThread t .idle
    | none => { s with cache := found.2 }.setThread t (.loading voice)

/-- `_load_samples`, which fails without the file, and may fail with it. -/
def loadSamples (s : Store S A) (t : Nat) (voice : UploadedVoice) (ok : Bool) : Store S A :=
  match s.disk.get? voice.filePath, ok with
  | some file, true => s.setThread t (.loaded voice file.audio)
  | _, _ => s.setThread t .idle

/-- The second section of `resolve_reference`. -/
def keepReference (s : Store S A) (t : Nat) (voice : UploadedVoice) (samples : S) : Store S A :=
  if s.voices.get? voice.normalizedName ≠ some voice then s.setThread t (.retrying voice.normalizedName)
  else
    let refAudio := cfg.encode samples voice.sampleRate
    { s with
      cache := s.cache.put cfg.limits cfg.estimateCacheBytes (voiceDataUrlCacheKey voice) refAudio
      log := .resolved voice refAudio :: s.log }.setThread t .idle

inductive Step (S A : Type) where
  | beginUpload (t : Nat) (u : Upload S) (clock : Int)
  | writeTemp (t : Nat) (ok : Bool)
  | replaceFile (t : Nat) (ok : Bool)
  | publish (t : Nat)
  | removeTemp (t : Nat)
  | beginDelete (t : Nat) (name : String) (ok : Bool)
  | finishDelete (t : Nat)
  | beginResolve (t : Nat) (name : String)
  | loadSamples (t : Nat) (ok : Bool)
  | keepReference (t : Nat)
  | retry (t : Nat)
  /-- A model puts an artifact of its own in the cache. -/
  | modelPut (key : SpeakerCacheKey) (artifact : A)
  | modelGet (key : SpeakerCacheKey)
  | restart

/-- A step that the thread cannot take, or that waits for the lock, leaves the store as it is. -/
def step (s : Store S A) : Step S A → Store S A
  | .beginUpload t u clock =>
    match s.threads t, s.lock with
    | .idle, none => s.beginUpload t u clock
    | _, _ => s
  | .writeTemp t ok =>
    match s.threads t with
    | .stamped voice samples => s.writeTemp t voice samples ok
    | _ => s
  | .replaceFile t ok =>
    match s.threads t, s.lock with
    | .written voice samples unique, none => s.replaceFile cfg t voice samples unique ok
    | _, _ => s
  | .publish t =>
    match s.threads t with
    | .replaced voice overwritten => s.publish t voice overwritten
    | _ => s
  | .removeTemp t =>
    match s.threads t with
    | .rejected voice unique => s.removeTemp t voice unique
    | _ => s
  | .beginDelete t name ok =>
    match s.threads t, s.lock with
    | .idle, none => s.beginDelete t name ok
    | _, _ => s
  | .finishDelete t =>
    match s.threads t with
    | .unlinked voice => s.finishDelete t voice
    | _ => s
  | .beginResolve t name =>
    match s.threads t, s.lock, normalizeVoiceName name with
    | .idle, none, some normalizedName => s.lookup t normalizedName
    | _, _, _ => s
  | .loadSamples t ok =>
    match s.threads t with
    | .loading voice => s.loadSamples t voice ok
    | _ => s
  | .keepReference t =>
    match s.threads t, s.lock with
    | .loaded voice samples, none => s.keepReference cfg t voice samples
    | _, _ => s
  | .retry t =>
    match s.threads t, s.lock with
    | .retrying normalizedName, none => s.lookup t normalizedName
    | _, _ => s
  | .modelPut key artifact =>
    if key.modelType = "serve" then s
    else { s with cache := s.cache.put cfg.limits cfg.estimateCacheBytes key artifact }
  | .modelGet key => { s with cache := (s.cache.get key).2 }
  | .restart => start cfg s.disk s.temps s.log

end Store
end SglangOmni.Serve.Voices

import SglangOmni.Serve.Voices.Store

/-! The store of uploaded voices stays consistent.

The disk is the truth: the file of a name is that of its last upload, if it was not deleted since (`current`). Whenever
the lock is free the map says the same, and a restart reads it back. What a reader loads may belong to another version
than the one it asked for; then that version is never the current one again, because no two voices share a timestamp. -/
namespace SglangOmni.Serve.Voices
open Lib
open Scheduling (StageCache.Cache StageCache.Limits)

variable {S A : Type}

/-- The voice of a name on the disk, by what has happened. -/
def current : List (Happened S A) → String → Option (UploadedVoice × S)
  | [], _ => none
  | .stored voice samples :: rest, name =>
      if voice.normalizedName = name then some (voice, samples) else current rest name
  | .deleted normalizedName :: rest, name => if normalizedName = name then none else current rest name
  | .resolved _ _ :: rest, name => current rest name

/-- The file of a voice. -/
def fileOf (stored : UploadedVoice × S) : VoiceFile S :=
  { metadata := stored.1.toSafetensorsMetadata, audio := stored.2 }

/-! ### Restoring -/

namespace Store

theorem foldl_restoreCandidate (maxUploaded : Nat) (candidates : List UploadedVoice) (d : Dict String UploadedVoice)
    (last : Int) (hnodup : (candidates.map UploadedVoice.normalizedName).Nodup)
    (hfresh : ∀ v ∈ candidates, d.get? v.normalizedName = none)
    (hlen : d.length + candidates.length ≤ maxUploaded) :
    candidates.foldl (restoreCandidate maxUploaded) (d, last) =
      (candidates.foldl (fun d v => d.set v.normalizedName v) d,
        candidates.foldl (fun ts v => max ts v.createdAt) last) := by
  induction candidates generalizing d last with
  | nil => rfl
  | cons v rest ih =>
    simp only [List.map_cons, List.nodup_cons] at hnodup
    have hv := hfresh v (.head _)
    have hnot : d.contains v.normalizedName = false := by rw [Dict.contains, hv]; rfl
    have hroom : ¬maxUploaded ≤ d.length := by
      rw [List.length_cons] at hlen
      omega
    have hstep : restoreCandidate maxUploaded (d, last) v = (d.set v.normalizedName v, max last v.createdAt) := by
      simp only [restoreCandidate, hnot, Bool.false_eq_true, if_false, if_neg hroom]
    rw [List.foldl_cons, hstep]
    refine ih _ _ hnodup.2 (fun w hw => ?_) ?_
    · have hne : w.normalizedName ≠ v.normalizedName := by
        intro he
        exact hnodup.1 (he ▸ List.mem_map_of_mem hw)
      rw [Dict.get?_set_ne _ _ hne]
      exact hfresh w (.tail _ hw)
    · have := d.length_set_le v.normalizedName v
      rw [List.length_cons] at hlen
      omega

theorem foldl_max_ge (candidates : List UploadedVoice) (last : Int) :
    last ≤ candidates.foldl (fun ts v => max ts v.createdAt) last ∧
      ∀ v ∈ candidates, v.createdAt ≤ candidates.foldl (fun ts v => max ts v.createdAt) last := by
  induction candidates generalizing last with
  | nil => exact ⟨Int.le_refl _, fun _ h => (nomatch h)⟩
  | cons w rest ih =>
    obtain ⟨hlast, hall⟩ := ih (max last w.createdAt)
    refine ⟨Int.le_trans (Int.le_max_left _ _) hlast, fun v hv => ?_⟩
    rcases List.mem_cons.1 hv with rfl | hv
    · exact Int.le_trans (Int.le_max_right _ _) hlast
    · exact hall v hv

/-- The names of the voice files, each once. -/
theorem globVoices_nodup (disk : Dict Path (VoiceFile S)) : ((globVoices disk).map Prod.fst).Nodup := by
  refine ((List.mergeSort_perm _ _).map Prod.fst).nodup_iff.2 ?_
  refine List.Nodup.of_map Path.voice ?_
  refine List.Nodup.sublist ?_ disk.nodup
  generalize disk.entries = entries
  induction entries with
  | nil => exact .slnil
  | cons e rest ih =>
    obtain ⟨path, file⟩ := e
    cases path with
    | voice name => exact ih.cons_cons _
    | temp stem unique => exact ih.cons _

theorem mem_globVoices (disk : Dict Path (VoiceFile S)) (name : String) (file : VoiceFile S) :
    (name, file) ∈ globVoices disk ↔ disk.get? (.voice name) = some file := by
  rw [globVoices, (List.mergeSort_perm _ _).mem_iff, List.mem_filterMap, ← Dict.mem_entries]
  constructor
  · intro h
    obtain ⟨⟨path, f⟩, hmem, he⟩ := h
    cases path with
    | voice n =>
      obtain ⟨rfl, rfl⟩ := Prod.mk.inj (Option.some.inj he)
      exact hmem
    | temp stem unique => exact nomatch he
  · intro h
    exact ⟨_, h, rfl⟩

/-- **A restart reads back the voices of the disk**, as long as there is room for all of them. -/
theorem restore_eq (maxUploaded : Nat) (disk : Dict Path (VoiceFile S)) (cur : String → Option (UploadedVoice × S))
    (hdisk : ∀ n, disk.get? (.voice n) = (cur n).map fileOf)
    (hcur : ∀ n v x, cur n = some (v, x) → v.WellFormed ∧ v.normalizedName = n)
    (hroom : ∀ names : List String, names.Nodup → (∀ n ∈ names, (cur n).isSome) → names.length ≤ maxUploaded) :
    (∀ n, (restore maxUploaded disk).1.get? n = (cur n).map Prod.fst) ∧
      (∀ n v x, cur n = some (v, x) → v.createdAt ≤ (restore maxUploaded disk).2) ∧
      (restore maxUploaded disk).1.length ≤ maxUploaded := by
  -- Every file is one of a voice, so that the candidates have the names of the files.
  have parse : ∀ e ∈ globVoices disk, ∃ v x, cur e.1 = some (v, x) ∧
      voiceFromMetadata e.2.metadata (.voice e.1) e.2.size = some v ∧ v.normalizedName = e.1 := by
    intro e he
    have hget := (mem_globVoices disk e.1 e.2).1 he
    rw [hdisk] at hget
    obtain ⟨⟨v, x⟩, hc, hf⟩ := Option.map_eq_some_iff.1 hget
    obtain ⟨hw, hn⟩ := hcur _ v x hc
    refine ⟨v, x, hc, ?_, hn⟩
    rw [← hf, ← hn]
    exact voiceFromMetadata_toSafetensorsMetadata hw _
  let candidates := (globVoices disk).filterMap fun e => voiceFromMetadata e.2.metadata (.voice e.1) e.2.size
  have hnames : candidates.map UploadedVoice.normalizedName = (globVoices disk).map Prod.fst := by
    show ((globVoices disk).filterMap _).map _ = _
    generalize globVoices disk = files at parse
    induction files with
    | nil => rfl
    | cons e rest ih =>
      obtain ⟨v, x, -, hv, hn⟩ := parse e (.head _)
      simp only [List.filterMap_cons, hv, List.map_cons, hn, ih fun e he => parse e (.tail _ he)]
  have hmem : ∀ v, v ∈ candidates ↔ ∃ x, cur v.normalizedName = some (v, x) := by
    intro v
    constructor
    · intro hv
      obtain ⟨e, he, hp⟩ := List.mem_filterMap.1 hv
      obtain ⟨w, x, hc, hw, hn⟩ := parse e he
      obtain rfl := Option.some.inj (hw.symm.trans hp)
      exact ⟨x, hn ▸ hc⟩
    · intro h
      obtain ⟨x, hc⟩ := h
      have hget : disk.get? (.voice v.normalizedName) = some (fileOf (v, x)) := by rw [hdisk, hc]; rfl
      refine List.mem_filterMap.2 ⟨_, (mem_globVoices disk _ _).2 hget, ?_⟩
      exact voiceFromMetadata_toSafetensorsMetadata (hcur _ v x hc).1 _
  let sorted := candidates.mergeSort fun a b => b.createdAt ≤ a.createdAt
  have hperm : sorted.Perm candidates := List.mergeSort_perm _ _
  have hnodup : (sorted.map UploadedVoice.normalizedName).Nodup := by
    refine (hperm.map UploadedVoice.normalizedName).nodup_iff.2 ?_
    rw [hnames]
    exact globVoices_nodup disk
  have hlen : sorted.length ≤ maxUploaded := by
    have := hroom (sorted.map UploadedVoice.normalizedName) hnodup fun n hn => by
      obtain ⟨v, hv, rfl⟩ := List.mem_map.1 hn
      obtain ⟨x, hc⟩ := (hmem v).1 (hperm.mem_iff.1 hv)
      rw [hc]
      rfl
    rwa [List.length_map] at this
  have hrestore : restore maxUploaded disk =
      (sorted.foldl (fun d v => d.set v.normalizedName v) ∅, sorted.foldl (fun ts v => max ts v.createdAt) 0) := by
    refine foldl_restoreCandidate maxUploaded sorted ∅ 0 hnodup (fun v _ => rfl) ?_
    show 0 + sorted.length ≤ maxUploaded
    omega
  have hfold : sorted.foldl (fun (d : Dict String UploadedVoice) v => d.set v.normalizedName v) ∅ =
      (sorted.map fun v => (v.normalizedName, v)).foldl (fun d e => d.set e.1 e.2) (∅ : Dict String UploadedVoice) := by
    rw [List.foldl_map]
  have hlookup : ∀ n, (restore maxUploaded disk).1.get? n = (cur n).map Prod.fst := by
    intro n
    have hkeys : ((sorted.map fun v => (v.normalizedName, v)).map Prod.fst).Nodup := by
      rw [List.map_map]
      exact hnodup
    rw [hrestore]
    show (sorted.foldl (fun (d : Dict String UploadedVoice) v => d.set v.normalizedName v) ∅).get? n = _
    rw [hfold, Dict.get?_foldl_set, Dict.lookup_reverse _ hkeys, Dict.get?_empty, Option.or_none]
    cases hc : cur n with
    | none =>
      refine (Dict.lookup_eq_none _ _).2 fun hk => ?_
      obtain ⟨e, he, rfl⟩ := List.mem_map.1 hk
      obtain ⟨v, hv, rfl⟩ := List.mem_map.1 he
      obtain ⟨x, hx⟩ := (hmem v).1 (hperm.mem_iff.1 hv)
      exact nomatch hc.symm.trans hx
    | some stored =>
      obtain ⟨v, x⟩ := stored
      obtain ⟨-, rfl⟩ := hcur n v x hc
      refine (Dict.lookup_eq_some hkeys _ _).2 (List.mem_map.2 ⟨v, hperm.mem_iff.2 ((hmem v).2 ⟨x, hc⟩), rfl⟩)
  refine ⟨hlookup, ?_, ?_⟩
  · intro n v x hc
    obtain ⟨-, rfl⟩ := hcur n v x hc
    rw [hrestore]
    exact (foldl_max_ge sorted 0).2 v (hperm.mem_iff.2 ((hmem v).2 ⟨x, hc⟩))
  · have := hroom (restore maxUploaded disk).1.keys (restore maxUploaded disk).1.nodup fun n hn => by
      obtain ⟨v, hv⟩ := (Dict.mem_keys _ n).1 hn
      rw [hlookup] at hv
      obtain ⟨stored, hs, -⟩ := Option.map_eq_some_iff.1 hv
      rw [hs]
      rfl
    rwa [Dict.length_eq_keys]

/-! ### The invariant -/

/-- The voices that this process has stored or restored, with their samples. -/
structure Known (K : UploadedVoice → S → Prop) (last : Int) (log : List (Happened S A)) : Prop where
  wellFormed : ∀ v x, K v x → v.WellFormed
  unique : ∀ v x v' x', K v x → K v' x' → v.normalizedName = v'.normalizedName → v.createdAt = v'.createdAt →
    v = v' ∧ x = x'
  stamped : ∀ v x, K v x → v.createdAt ≤ last
  current : ∀ n v x, Voices.current log n = some (v, x) → K v x ∧ v.normalizedName = n

/-- An upload that has not stored its voice yet: its timestamp is its own. -/
structure Fresh (K : UploadedVoice → S → Prop) (last : Int) (v : UploadedVoice) : Prop where
  wellFormed : v.WellFormed
  stamped : v.createdAt ≤ last
  fresh : ∀ w x, K w x → w.createdAt ≠ v.createdAt

/-- What a thread relies on. -/
def ThreadOk (K : UploadedVoice → S → Prop) (s : Store S A) : Phase S → Prop
  | .stamped v _ => Fresh K s.lastUploadTimestamp v
  | .written v x u => Fresh K s.lastUploadTimestamp v ∧ u < s.temps ∧ s.disk.get? (tempPath v u) = some (fileOf (v, x))
  | .rejected _ u => u < s.temps
  | .loading v => ∃ x, K v x
  | .loaded v y => ∃ x, K v x ∧ (y = x ∨ ∀ x', current s.log v.normalizedName ≠ some (v, x'))
  | _ => True

end Store

namespace Phase

/-- The timestamp of an upload that has not stored its voice. -/
def pending : Phase S → Option Int
  | .stamped v _ => some v.createdAt
  | .written v _ _ => some v.createdAt
  | _ => none

/-- The temporary file of a thread. -/
def temp : Phase S → Option Nat
  | .written _ _ u => some u
  | .rejected _ u => some u
  | _ => none

/-- In a section under the lock. -/
def holds : Phase S → Bool
  | .replaced .. => true
  | .unlinked _ => true
  | _ => false

/-- Two threads share no timestamp and no temporary file. -/
def Apart (p q : Phase S) : Prop :=
  (∀ a, p.pending = some a → q.pending ≠ some a) ∧ ∀ u, p.temp = some u → q.temp ≠ some u

theorem Apart.symm {p q : Phase S} (h : Apart p q) : Apart q p :=
  ⟨fun a hq hp => h.1 a hp hq, fun u hq hp => h.2 u hp hq⟩

end Phase

namespace Store

/-- The map, but for the voice of the section. -/
def MapBut (s : Store S A) (name : String) : Prop :=
  ∀ n, n ≠ name → s.voices.get? n = (current s.log n).map Prod.fst

/-- The store inside a section under the lock. -/
def Held (maxUploaded : Nat) (s : Store S A) : Phase S → Prop
  | .replaced v overwritten =>
    (∃ x, current s.log v.normalizedName = some (v, x)) ∧ overwritten = s.voices.contains v.normalizedName ∧
      (overwritten = false → s.voices.length < maxUploaded) ∧ s.MapBut v.normalizedName
  | .unlinked v =>
    current s.log v.normalizedName = none ∧ s.voices.contains v.normalizedName = true ∧ s.MapBut v.normalizedName
  | _ => False

/-- What a caller was given: the samples of the voice that is on the disk then. -/
def Served (cfg : Setting S A) (e : Happened S A) (earlier : List (Happened S A)) : Prop :=
  match e with
  | .resolved v refAudio =>
    ∃ x, current earlier v.normalizedName = some (v, x) ∧ refAudio = cfg.encode x v.sampleRate
  | _ => True

structure Good (cfg : Setting S A) (K : UploadedVoice → S → Prop) (s : Store S A) : Prop where
  known : Known K s.lastUploadTimestamp s.log
  disk : ∀ n, s.disk.get? (.voice n) = (current s.log n).map fileOf
  free : s.lock = none → ∀ n, s.voices.get? n = (current s.log n).map Prod.fst
  held : ∀ t, s.lock = some t → Held cfg.maxUploaded s (s.threads t)
  holder : ∀ t, (s.threads t).holds = true → s.lock = some t
  room : s.voices.length ≤ cfg.maxUploaded
  threads : ∀ t, ThreadOk K s (s.threads t)
  apart : ∀ t t', t ≠ t' → (s.threads t).Apart (s.threads t')
  cached : ∀ key e, s.cache.cache.get? key = some e → key.modelType = "serve" →
    ∃ v x, K v x ∧ key = voiceDataUrlCacheKey v ∧ e.data = cfg.encode x v.sampleRate
  served : Every (Served cfg) s.log

variable {cfg : Setting S A} {K : UploadedVoice → S → Prop} {s : Store S A} {t : Nat} {p : Phase S} {v : UploadedVoice}

theorem setThread_self (t : Nat) (p : Phase S) : (s.setThread t p).threads t = p := Function.update_self ..

theorem setThread_ne {t' : Nat} (p : Phase S) (h : t' ≠ t) : (s.setThread t p).threads t' = s.threads t' :=
  Function.update_of_ne h ..

/-- A thread goes on, in a store that keeps the rest of the invariant for the other threads. -/
theorem Good.setThread (h : Good cfg K s) (hold : (s.threads t).holds = false)
    (hp : p.holds = false) (ok : ThreadOk K s p) (apart : ∀ t', t' ≠ t → p.Apart (s.threads t')) :
    Good cfg K (s.setThread t p) := by
  refine ⟨h.known, h.disk, h.free, ?_, ?_, h.room, ?_, ?_, h.cached, h.served⟩
  · intro u hu
    by_cases he : u = t
    · subst he
      exact absurd (h.held u hu) (by cases hph : s.threads u <;> simp_all [Phase.holds, Held])
    · rw [setThread_ne p he]
      exact h.held u hu
  · intro u hu
    by_cases he : u = t
    · subst he
      rw [setThread_self, hp] at hu
      exact nomatch hu
    · rw [setThread_ne p he] at hu
      exact h.holder u hu
  · intro u
    by_cases he : u = t
    · subst he
      rw [setThread_self]
      exact ok
    · rw [setThread_ne p he]
      exact h.threads u
  · intro u u' hne
    by_cases he : u = t
    · subst he
      rw [setThread_self, setThread_ne p (Ne.symm hne)]
      exact apart u' (Ne.symm hne)
    · rw [setThread_ne p he]
      by_cases he' : u' = t
      · subst he'
        rw [setThread_self]
        exact (apart u he).symm
      · rw [setThread_ne p he']
        exact h.apart u u' hne

theorem apart_of_none (hpend : p.pending = none) (htemp : p.temp = none) (q : Phase S) : p.Apart q :=
  ⟨fun _ ha => (nomatch hpend.symm.trans ha), fun _ hu => (nomatch htemp.symm.trans hu)⟩

/-- A thread goes on in a phase that no other thread has to keep apart from. -/
theorem Good.goTo (h : Good cfg K s) (hold : (s.threads t).holds = false) (hp : p.holds = false)
    (ok : ThreadOk K s p) (hpend : p.pending = none) (htemp : p.temp = none) : Good cfg K (s.setThread t p) :=
  h.setThread hold hp ok fun _ _ => apart_of_none hpend htemp _

/-! ### One step -/

theorem voice_ne_temp (n : String) (v : UploadedVoice) (u : Nat) : Path.voice n ≠ tempPath v u := fun he => (nomatch he)

theorem temp_ne_voice (v : UploadedVoice) (u : Nat) (n : String) : tempPath v u ≠ Path.voice n := fun he => (nomatch he)

theorem threadOk_pending (ok : ThreadOk K s p) {a : Int} (h : p.pending = some a) :
    a ≤ s.lastUploadTimestamp := by
  cases p <;> cases h
  · exact ok.stamped
  · exact ok.1.stamped

theorem threadOk_temp (ok : ThreadOk K s p) {u : Nat} (h : p.temp = some u) : u < s.temps := by
  cases p <;> cases h
  · exact ok.2.1
  · exact ok

/-- The other threads keep what they rely on, when timestamps and temporary files are only added. -/
theorem ThreadOk.mono {s' : Store S A} {K' : UploadedVoice → S → Prop} (ok : ThreadOk K s p)
    (last : s.lastUploadTimestamp ≤ s'.lastUploadTimestamp) (temps : s.temps ≤ s'.temps) (known : ∀ v x, K v x → K' v x)
    (fresh : ∀ v : UploadedVoice, p.pending = some v.createdAt → ∀ w x, K' w x → w.createdAt = v.createdAt → K w x)
    (disk : ∀ v u, p.temp = some u → s'.disk.get? (tempPath v u) = s.disk.get? (tempPath v u))
    (log : ∀ v x, K v x → (∀ x', current s.log v.normalizedName ≠ some (v, x')) →
      ∀ x', current s'.log v.normalizedName ≠ some (v, x')) : ThreadOk K' s' p := by
  have grown : ∀ v : UploadedVoice, p.pending = some v.createdAt → Fresh K s.lastUploadTimestamp v →
      Fresh K' s'.lastUploadTimestamp v := by
    intro v hv hf
    exact ⟨hf.wellFormed, Int.le_trans hf.stamped last, fun w x hw he => hf.fresh w x (fresh v hv w x hw he) he⟩
  cases p with
  | stamped v x => exact grown v rfl ok
  | written v x u => exact ⟨grown v rfl ok.1, Nat.lt_of_lt_of_le ok.2.1 temps, by rw [disk v u rfl]; exact ok.2.2⟩
  | rejected v u => exact Nat.lt_of_lt_of_le ok temps
  | loading v =>
    obtain ⟨x, hx⟩ := ok
    exact ⟨x, known v x hx⟩
  | loaded v y =>
    obtain ⟨x, hx, hy⟩ := ok
    exact ⟨x, known v x hx, hy.imp id (log v x hx)⟩
  | _ => trivial

section
variable (h : Good cfg K s)
include h

theorem Good.withCache (cache : StageCache.Cache SpeakerCacheKey A)
    (cached : ∀ key e, cache.cache.get? key = some e → key.modelType = "serve" →
      ∃ v x, K v x ∧ key = voiceDataUrlCacheKey v ∧ e.data = cfg.encode x v.sampleRate) :
    Good cfg K { s with cache } :=
  ⟨h.known, h.disk, h.free, h.held, h.holder, h.room, h.threads, h.apart, cached, h.served⟩

/-- A caller is given the samples of the voice that is on the disk. -/
theorem Good.resolved {x : S} (hx : current s.log v.normalizedName = some (v, x)) :
    Good cfg K { s with log := .resolved v (cfg.encode x v.sampleRate) :: s.log } :=
  ⟨⟨h.known.wellFormed, h.known.unique, h.known.stamped, h.known.current⟩, h.disk, h.free, h.held, h.holder, h.room,
    fun t => (h.threads t).mono (Int.le_refl _) (Nat.le_refl _) (fun _ _ => id) (fun _ _ _ _ hk _ => hk)
      (fun _ _ _ => rfl) (fun _ _ _ => id),
    h.apart, h.cached, ⟨x, hx, rfl⟩, h.served⟩

theorem Good.beginUpload (ht : s.threads t = .idle) (u : Upload S) (clock : Int) :
    Good cfg K (s.beginUpload t u clock) := by
  let timestamp := max clock (s.lastUploadTimestamp + 1)
  have later : s.lastUploadTimestamp < timestamp := by
    have := Int.le_max_right clock (s.lastUploadTimestamp + 1)
    omega
  have hs : Good cfg K { s with lastUploadTimestamp := timestamp } :=
    ⟨⟨h.known.wellFormed, h.known.unique, fun v x hk => Int.le_trans (h.known.stamped v x hk) (Int.le_of_lt later),
      h.known.current⟩,
      h.disk, h.free, h.held, h.holder, h.room,
      fun t => (h.threads t).mono (Int.le_of_lt later) (Nat.le_refl _) (fun _ _ => id) (fun _ _ _ _ hk _ => hk)
        (fun _ _ _ => rfl)
        (fun _ _ _ => id),
      h.apart, h.cached, h.served⟩
  refine hs.setThread (by rw [ht]; rfl) rfl ⟨⟨u.normalized, rfl⟩, Int.le_refl _, ?_⟩ fun t' _ =>
    ⟨?_, fun _ hu => nomatch hu⟩
  · intro w x hw he
    have := h.known.stamped w x hw
    have he' : w.createdAt = timestamp := he
    omega
  · intro a ha hother
    obtain rfl : timestamp = a := Option.some.inj ha
    have := threadOk_pending (h.threads t') hother
    omega

/-- Temporary files come and go, but those of the threads stay. -/
theorem Good.withDisk (disk : Dict Path (VoiceFile S)) (temps : Nat) (htemps : s.temps ≤ temps)
    (voice : ∀ n, disk.get? (.voice n) = s.disk.get? (.voice n))
    (temp : ∀ t v u, (s.threads t).temp = some u → disk.get? (tempPath v u) = s.disk.get? (tempPath v u)) :
    Good cfg K { s with disk, temps } :=
  ⟨h.known, fun n => (voice n).trans (h.disk n), h.free, h.held, h.holder, h.room,
    fun t => (h.threads t).mono (Int.le_refl _) htemps (fun _ _ => id) (fun _ _ _ _ hk _ => hk)
      (fun v u hu => temp t v u hu) (fun _ _ _ => id),
    h.apart, h.cached, h.served⟩

theorem Good.writeTemp {x : S} (ht : s.threads t = .stamped v x)
    (ok : Bool) : Good cfg K (s.writeTemp t v x ok) := by
  unfold Store.writeTemp
  have mine : Fresh K s.lastUploadTimestamp v := by
    have := h.threads t
    rw [ht] at this
    exact this
  split
  · have hs : Good cfg K { s with disk := s.disk.set (tempPath v s.temps) (fileOf (v, x)), temps := s.temps + 1 } := by
      refine h.withDisk _ _ (Nat.le_succ _) (fun n => Dict.get?_set_ne _ _ (voice_ne_temp _ _ _)) fun t' w u hu => ?_
      refine Dict.get?_set_ne _ _ fun he => ?_
      have := (Path.temp.inj he).2
      have := threadOk_temp (h.threads t') hu
      omega
    refine hs.setThread (by rw [ht]; rfl) rfl ⟨mine, Nat.lt_succ_self _, Dict.get?_set_self ..⟩ fun t' hne => ⟨?_, ?_⟩
    · have := (h.apart t t' hne.symm).1
      rw [ht] at this
      exact this
    · intro u hu hother
      obtain rfl : s.temps = u := Option.some.inj hu
      exact absurd (threadOk_temp (h.threads t') hother) (Nat.lt_irrefl _)
  · exact h.goTo (by rw [ht]; rfl) rfl trivial rfl rfl

theorem Good.removeTemp {u : Nat} (ht : s.threads t = .rejected v u) :
    Good cfg K (s.removeTemp t v u) := by
  have hs : Good cfg K (s.setThread t .idle) := h.goTo (by rw [ht]; rfl) rfl trivial rfl rfl
  refine hs.withDisk (s.disk.pop (tempPath v u)) s.temps (Nat.le_refl _)
    (fun n => Dict.get?_pop_ne _ (voice_ne_temp _ _ _)) fun t' w u' hu' => ?_
  -- The other threads have temporary files of their own.
  refine Dict.get?_pop_ne _ fun he => ?_
  obtain rfl := (Path.temp.inj he).2
  by_cases hne : t' = t
  · rw [hne, setThread_self] at hu'
    exact nomatch hu'
  · rw [setThread_ne _ hne] at hu'
    exact (h.apart t' t hne).2 _ hu' (by rw [ht]; rfl)

/-- With the lock free no thread is in a section. -/
theorem Good.none_holds (free : s.lock = none) (t : Nat) : (s.threads t).holds = false := by
  cases hh : (s.threads t).holds with
  | false => rfl
  | true => exact nomatch free.symm.trans (h.holder t hh)

end

/-- The names on the disk are those of the map, when the lock is free. -/
theorem names_le {maxUploaded : Nat} (names : List String) (nodup : names.Nodup)
    (sub : ∀ n ∈ names, s.voices.contains n = true) (room : s.voices.length ≤ maxUploaded) :
    names.length ≤ maxUploaded := by
  refine Nat.le_trans ?_ room
  rw [Dict.length_eq_keys]
  refine (nodup.subperm fun n hn => ?_).length_le
  exact (Dict.mem_keys _ n).2 ((Dict.contains_iff _ n).1 (sub n hn))

section
variable (h : Good cfg K s)
include h

/-- A thread enters a section under the lock: what the section has to hold, and what changes for the other threads. -/
theorem Good.enter {K' : UploadedVoice → S → Prop} (free : s.lock = none)
    (disk : Dict Path (VoiceFile S)) (e : Happened S A) (p : Phase S)
    (known : Known K' s.lastUploadTimestamp (e :: s.log)) (grows : ∀ v x, K v x → K' v x)
    (hdisk : ∀ n, disk.get? (.voice n) = (current (e :: s.log) n).map fileOf)
    (hheld : Held cfg.maxUploaded { s with disk, lock := some t, log := e :: s.log } p)
    (hthreads : ∀ t', t' ≠ t → ThreadOk K' { s with disk, lock := some t, log := e :: s.log } (s.threads t'))
    (hp : ThreadOk K' { s with disk, lock := some t, log := e :: s.log } p)
    (hpend : p.pending = none) (htemp : p.temp = none) (hserved : Served cfg e s.log) :
    Good cfg K' ({ s with disk, lock := some t, log := e :: s.log }.setThread t p) := by
  refine ⟨known, hdisk, fun hl => (nomatch hl), ?_, ?_, h.room, ?_, ?_, ?_, hserved, h.served⟩
  · intro u hu
    obtain rfl : t = u := Option.some.inj hu
    rw [setThread_self]
    exact hheld
  · intro u hu
    by_cases he : u = t
    · rw [he]
      rfl
    · rw [setThread_ne _ he] at hu
      have := h.none_holds free u
      exact nomatch hu.symm.trans this
  · intro u
    by_cases he : u = t
    · subst he
      rw [setThread_self]
      exact hp
    · rw [setThread_ne _ he]
      exact hthreads u he
  · intro a b hab
    by_cases ha : a = t
    · subst ha
      rw [setThread_self]
      exact apart_of_none hpend htemp _
    · rw [setThread_ne _ ha]
      by_cases hb : b = t
      · subst hb
        rw [setThread_self]
        exact (apart_of_none hpend htemp _).symm
      · rw [setThread_ne _ hb]
        exact h.apart a b hab
  · intro key entry hget hserve
    obtain ⟨v, x, hk, hkey⟩ := h.cached key entry hget hserve
    exact ⟨v, x, grows v x hk, hkey⟩

theorem Good.replaceFile {x : S} {u : Nat}
    (ht : s.threads t = .written v x u) (free : s.lock = none) (ok : Bool) :
    ∃ K', Good cfg K' (s.replaceFile cfg t v x u ok) := by
  have mine : Fresh K s.lastUploadTimestamp v ∧ u < s.temps ∧ s.disk.get? (tempPath v u) = some (fileOf (v, x)) := by
    have := h.threads t
    rw [ht] at this
    exact this
  obtain ⟨fresh, hu, hfile⟩ := mine
  have reject : Good cfg K (s.setThread t (.rejected v u)) := by
    refine h.setThread (by rw [ht]; rfl) rfl hu fun t' hne => ⟨fun _ ha => (nomatch ha), fun u' hu' => ?_⟩
    have := (h.apart t t' hne.symm).2
    rw [ht] at this
    exact this u' hu'
  simp only [Store.replaceFile, hfile]
  split
  · exact ⟨K, reject⟩
  · rename_i hroom
    cases ok with
    | false => exact ⟨K, reject⟩
    | true =>
      have hpath := fresh.wellFormed.filePath
      have hcur : ∀ n, current (.stored v x :: s.log) n =
          if v.normalizedName = n then some (v, x) else current s.log n :=
        fun _ => rfl
      have other : ∀ w y, K w y → w ≠ v := by
        rintro w y hw rfl
        exact fresh.fresh w y hw rfl
      refine ⟨fun w y => K w y ∨ w = v ∧ y = x, ?_⟩
      refine h.enter free _ _ _ ?_ (fun w y => .inl) ?_ ?_ (fun t' hne => ?_) trivial rfl rfl trivial
      · refine ⟨?_, ?_, ?_, ?_⟩
        · intro w y hw
          rcases hw with hw | ⟨rfl, rfl⟩
          · exact h.known.wellFormed w y hw
          · exact fresh.wellFormed
        · intro w y w' y' hw hw' hn hc
          rcases hw with hw | ⟨rfl, rfl⟩
          · rcases hw' with hw' | ⟨rfl, rfl⟩
            · exact h.known.unique w y w' y' hw hw' hn hc
            · exact absurd hc (fresh.fresh w y hw)
          · rcases hw' with hw' | ⟨rfl, rfl⟩
            · exact absurd hc.symm (fresh.fresh w' y' hw')
            · exact ⟨rfl, rfl⟩
        · intro w y hw
          rcases hw with hw | ⟨rfl, rfl⟩
          · exact h.known.stamped w y hw
          · exact fresh.stamped
        · intro n w y hc
          rw [hcur] at hc
          split at hc
          · obtain ⟨rfl, rfl⟩ := Prod.mk.inj (Option.some.inj hc)
            exact ⟨.inr ⟨rfl, rfl⟩, ‹_›⟩
          · obtain ⟨hk, hn⟩ := h.known.current n w y hc
            exact ⟨.inl hk, hn⟩
      · intro n
        rw [hcur, hpath, Dict.get?_set, Dict.get?_pop_ne _ (voice_ne_temp _ _ _), h.disk]
        by_cases hn : v.normalizedName = n
        · rw [if_pos hn, if_pos (congrArg Path.voice hn.symm)]
          rfl
        · rw [if_neg hn, if_neg fun he => hn (Path.voice.inj he).symm]
      · refine ⟨⟨x, if_pos rfl⟩, rfl, ?_, fun n hn => ?_⟩
        · intro hnew
          rw [hnew] at hroom
          simpa using hroom
        · rw [hcur, if_neg (Ne.symm hn)]
          exact h.free free n
      · refine (h.threads t').mono (Int.le_refl _) (Nat.le_refl _) (fun _ _ => .inl) ?_ ?_ ?_
        · intro w hw z y hz he
          rcases hz with hz | ⟨rfl, -⟩
          · exact hz
          · refine absurd hw ?_
            rw [← he]
            exact (h.apart t t' hne.symm).1 _ (by rw [ht]; rfl)
        · intro w u' hu'
          have hdiff : tempPath w u' ≠ tempPath v u := by
            intro he
            obtain rfl := (Path.temp.inj he).2
            exact (h.apart t' t hne).2 _ hu' (by rw [ht]; rfl)
          show ((s.disk.pop (tempPath v u)).set v.filePath _).get? (tempPath w u') = _
          rw [hpath, Dict.get?_set_ne _ _ (temp_ne_voice _ _ _), Dict.get?_pop_ne _ hdiff]
        · intro w y hw hnot x' hc
          rw [hcur] at hc
          split at hc
          · exact other w y hw (Prod.mk.inj (Option.some.inj hc)).1.symm
          · exact hnot x' hc

theorem Good.beginDelete (free : s.lock = none) (name : String) (ok : Bool) :
    Good cfg K (s.beginDelete t name ok) := by
  unfold Store.beginDelete
  split
  · rename_i v hv
    obtain ⟨n, -, hget⟩ := Option.bind_eq_some_iff.1 hv
    rw [h.free free n] at hget
    obtain ⟨⟨w, x⟩, hcurrent, hw⟩ := Option.map_eq_some_iff.1 hget
    obtain rfl : w = v := hw
    obtain ⟨hk, rfl⟩ := h.known.current n w x hcurrent
    have hpath := (h.known.wellFormed w x hk).filePath
    have hcur : ∀ n, current (.deleted w.normalizedName :: s.log) n =
        if w.normalizedName = n then none else current s.log n := fun _ => rfl
    refine h.enter free _ _ _ ?_ (fun _ _ => id) ?_ ?_ (fun t' hne => ?_) trivial rfl rfl trivial
    · refine ⟨h.known.wellFormed, h.known.unique, h.known.stamped, fun n v y hc => ?_⟩
      rw [hcur] at hc
      split at hc
      · exact nomatch hc
      · exact h.known.current n v y hc
    · intro n
      rw [hcur, hpath, Dict.get?_pop, h.disk]
      by_cases hn : w.normalizedName = n
      · rw [if_pos hn, if_pos (congrArg Path.voice hn.symm)]
        rfl
      · rw [if_neg hn, if_neg fun he => hn (Path.voice.inj he).symm]
    · refine ⟨if_pos rfl, ?_, fun n hn => ?_⟩
      · refine (Dict.contains_iff _ _).2 ⟨w, ?_⟩
        show s.voices.get? w.normalizedName = some w
        rw [h.free free, hcurrent]
        rfl
      · rw [hcur, if_neg (Ne.symm hn)]
        exact h.free free n
    · refine (h.threads t').mono (Int.le_refl _) (Nat.le_refl _) (fun _ _ => id) (fun _ _ _ _ hz _ => hz) ?_ ?_
      · intro v u hu
        show (s.disk.pop w.filePath).get? (tempPath v u) = _
        rw [hpath, Dict.get?_pop_ne _ (temp_ne_voice _ _ _)]
      · intro v y hv hnot x' hc
        rw [hcur] at hc
        split at hc
        · exact nomatch hc
        · exact hnot x' hc
  · exact h

/-- A thread leaves its section. -/
theorem Good.leave (hl : s.lock = some t) (voices : Dict String UploadedVoice)
    (cache : StageCache.Cache SpeakerCacheKey A) (hcache : cache.Within s.cache)
    (hmap : ∀ n, voices.get? n = (current s.log n).map Prod.fst) (hroom : voices.length ≤ cfg.maxUploaded) :
    Good cfg K ({ s with voices, cache, lock := none }.setThread t .idle) := by
  refine ⟨h.known, h.disk, fun _ => hmap, fun _ hn => (nomatch hn), ?_, hroom, ?_, ?_, ?_, h.served⟩
  · intro u hu
    by_cases he : u = t
    · subst he
      rw [setThread_self] at hu
      exact nomatch hu
    · rw [setThread_ne _ he] at hu
      exact absurd (Option.some.inj (hl.symm.trans (h.holder u hu))).symm he
  · intro u
    by_cases he : u = t
    · subst he
      rw [setThread_self]
      trivial
    · rw [setThread_ne _ he]
      exact (h.threads u).mono (Int.le_refl _) (Nat.le_refl _) (fun _ _ => id) (fun _ _ _ _ hz _ => hz)
        (fun _ _ _ => rfl) (fun _ _ _ => id)
  · intro a b hab
    by_cases ha : a = t
    · subst ha
      rw [setThread_self]
      exact apart_of_none rfl rfl _
    · rw [setThread_ne _ ha]
      by_cases hb : b = t
      · subst hb
        rw [setThread_self]
        exact (apart_of_none rfl rfl _).symm
      · rw [setThread_ne _ hb]
        exact h.apart a b hab
  · intro key e hget
    exact h.cached key e (hcache key e hget)

theorem Good.publish {overwritten : Bool}
    (ht : s.threads t = .replaced v overwritten) : Good cfg K (s.publish t v overwritten) := by
  have hl := h.holder t (by rw [ht]; rfl)
  obtain ⟨⟨x, hx⟩, hover, hroom, hmap⟩ : Held cfg.maxUploaded s (.replaced v overwritten) := ht ▸ h.held t hl
  refine h.leave hl _ _ ?_ (fun n => ?_) ?_
  · split
    · exact StageCache.Cache.within_removeIf _ _
    · exact fun _ _ => id
  · rw [Dict.get?_set]
    split
    · rename_i hn
      rw [hn, hx]
      rfl
    · exact hmap n ‹_›
  · by_cases hin : v.normalizedName ∈ s.voices.keys
    · rw [Dict.length_eq_keys, Dict.keys_set_of_mem hin, ← Dict.length_eq_keys]
      exact h.room
    · have hnew : overwritten = false := by
        rw [hover, Bool.eq_false_iff]
        intro hc
        exact hin ((Dict.mem_keys _ _).2 ((Dict.contains_iff _ _).1 hc))
      exact Nat.le_trans (Dict.length_set_le ..) (hroom hnew)

theorem Good.finishDelete (ht : s.threads t = .unlinked v) :
    Good cfg K (s.finishDelete t v) := by
  have hl := h.holder t (by rw [ht]; rfl)
  obtain ⟨hx, -, hmap⟩ : Held cfg.maxUploaded s (.unlinked v) := ht ▸ h.held t hl
  refine h.leave hl _ _ (StageCache.Cache.within_removeIf _ _) (fun n => ?_) ?_
  · rw [Dict.get?_pop]
    split
    · rename_i hn
      rw [hn, hx]
      rfl
    · exact hmap n ‹_›
  · exact Nat.le_trans (Dict.length_pop_le ..) h.room

theorem Good.lookup (hold : (s.threads t).holds = false) (free : s.lock = none) (n : String) :
    Good cfg K (s.lookup t n) := by
  unfold Store.lookup
  split
  · exact h.goTo hold rfl trivial rfl rfl
  · rename_i v hv
    rw [h.free free n] at hv
    obtain ⟨⟨w, x⟩, hcurrent, hw⟩ := Option.map_eq_some_iff.1 hv
    obtain rfl : w = v := hw
    obtain ⟨hk, rfl⟩ := h.known.current n w x hcurrent
    have hs : Good cfg K { s with cache := (s.cache.get (voiceDataUrlCacheKey w)).2 } := by
      refine h.withCache _ fun key e hget => h.cached key e ?_
      rwa [StageCache.Cache.cache_get] at hget
    simp only
    split
    · rename_i refAudio hcached
      -- The entry is of this version, as no other has its timestamp.
      rw [StageCache.Cache.get_fst] at hcached
      obtain ⟨e, hget, rfl⟩ := Option.map_eq_some_iff.1 hcached
      obtain ⟨w', x', hk', hkey, hdata⟩ := h.cached _ e hget rfl
      obtain ⟨-, hname, hversion, -⟩ := SpeakerCacheKey.mk.inj hkey
      obtain ⟨rfl, rfl⟩ := h.known.unique w x w' x' hk hk' hname hversion
      rw [hdata]
      exact (hs.resolved hcurrent).goTo hold rfl trivial rfl rfl
    · exact hs.goTo hold rfl ⟨x, hk⟩ rfl rfl

theorem Good.loadSamples (ht : s.threads t = .loading v) (ok : Bool) :
    Good cfg K (s.loadSamples t v ok) := by
  obtain ⟨x, hk⟩ : ThreadOk K s (.loading v) := ht ▸ h.threads t
  unfold Store.loadSamples
  split
  · rename_i file hfile
    rw [(h.known.wellFormed v x hk).filePath, h.disk] at hfile
    obtain ⟨⟨w, y⟩, hcurrent, rfl⟩ := Option.map_eq_some_iff.1 hfile
    refine h.goTo (by rw [ht]; rfl) rfl ⟨x, hk, ?_⟩ rfl rfl
    by_cases hw : w = v
    · subst hw
      exact .inl (h.known.unique w y w x (h.known.current _ _ _ hcurrent).1 hk rfl rfl).2
    · refine .inr fun x' hc => hw ?_
      exact (Prod.mk.inj (Option.some.inj (hcurrent.symm.trans hc))).1
  · exact h.goTo (by rw [ht]; rfl) rfl trivial rfl rfl

theorem Good.keepReference {y : S} (ht : s.threads t = .loaded v y)
    (free : s.lock = none) : Good cfg K (s.keepReference cfg t v y) := by
  obtain ⟨x, hk, hy⟩ : ThreadOk K s (.loaded v y) := ht ▸ h.threads t
  unfold Store.keepReference
  split
  · exact h.goTo (by rw [ht]; rfl) rfl trivial rfl rfl
  · rename_i hv
    rw [not_not, h.free free] at hv
    obtain ⟨⟨w, z⟩, hcurrent, hw⟩ := Option.map_eq_some_iff.1 hv
    obtain rfl : w = v := hw
    -- The voice is still the current one, so the samples that were read are its own.
    obtain rfl : y = x := hy.resolve_right fun hnot => hnot z hcurrent
    obtain ⟨-, rfl⟩ := h.known.unique w z w y (h.known.current _ _ _ hcurrent).1 hk rfl rfl
    have hs : Good cfg K { s with
        cache := s.cache.put cfg.limits cfg.estimateCacheBytes (voiceDataUrlCacheKey w)
          (cfg.encode z w.sampleRate) } := by
      refine h.withCache _ fun key e hget hserve => ?_
      rcases StageCache.Cache.put_within _ _ _ _ _ hget with ⟨rfl, hdata⟩ | hold
      · exact ⟨w, z, hk, rfl, hdata⟩
      · exact h.cached key e hold hserve
    exact (hs.resolved hcurrent).goTo (by show (s.threads t).holds = false; rw [ht]; rfl) rfl trivial rfl rfl

/-- There is always room for what is on the disk. -/
theorem Good.disk_room (names : List String) (nodup : names.Nodup)
    (hcur : ∀ n ∈ names, (current s.log n).isSome) : names.length ≤ cfg.maxUploaded := by
  have mapped : ∀ n, s.voices.get? n = (current s.log n).map Prod.fst → (current s.log n).isSome →
      s.voices.contains n = true := by
    intro n hmap hsome
    rw [Dict.contains, hmap, Option.isSome_map]
    exact hsome
  cases hl : s.lock with
  | none => exact names_le (s := s) names nodup (fun n hn => mapped n (h.free hl n) (hcur n hn)) h.room
  | some t =>
    have held := h.held t hl
    cases hp : s.threads t with
    | replaced v overwritten =>
      rw [hp] at held
      obtain ⟨-, hover, hroom, hmap⟩ := held
      cases overwritten with
      | true =>
        refine names_le (s := s) names nodup (fun n hn => ?_) h.room
        by_cases he : n = v.normalizedName
        · rw [he]
          exact hover.symm
        · exact mapped n (hmap n he) (hcur n hn)
      | false =>
        have sub : names ⊆ v.normalizedName :: s.voices.keys := by
          intro n hn
          by_cases he : n = v.normalizedName
          · rw [he]
            exact .head _
          · refine .tail _ ((Dict.mem_keys _ n).2 ((Dict.contains_iff _ n).1 ?_))
            exact mapped n (hmap n he) (hcur n hn)
        have := (nodup.subperm sub).length_le
        have := hroom rfl
        rw [Dict.length_eq_keys] at this
        simp only [List.length_cons] at *
        omega
    | unlinked v =>
      rw [hp] at held
      obtain ⟨hnone, -, hmap⟩ := held
      refine names_le (s := s) names nodup (fun n hn => ?_) h.room
      have he : n ≠ v.normalizedName := by
        rintro rfl
        have := hcur _ hn
        rw [hnone] at this
        cases this
      exact mapped n (hmap n he) (hcur n hn)
    | _ =>
      rw [hp] at held
      exact held.elim

theorem Good.restored :
    (∀ n, (restore cfg.maxUploaded s.disk).1.get? n = (current s.log n).map Prod.fst) ∧
      (∀ n v x, current s.log n = some (v, x) → v.createdAt ≤ (restore cfg.maxUploaded s.disk).2) ∧
      (restore cfg.maxUploaded s.disk).1.length ≤ cfg.maxUploaded := by
  refine restore_eq cfg.maxUploaded s.disk (current s.log) h.disk (fun n v x hc => ?_) h.disk_room
  obtain ⟨hk, hn⟩ := h.known.current n v x hc
  exact ⟨h.known.wellFormed v x hk, hn⟩

theorem Good.restart : ∃ K', Good cfg K' (start cfg s.disk s.temps s.log) := by
  obtain ⟨hmap, hlast, hroom⟩ := h.restored
  refine ⟨fun v x => current s.log v.normalizedName = some (v, x), ⟨?_, ?_, ?_, ?_⟩, h.disk, fun _ => hmap,
    fun _ hn => (nomatch hn), fun _ hn => (nomatch hn), hroom, fun _ => trivial, fun _ _ _ => apart_of_none rfl rfl _,
    fun _ _ hget => (nomatch hget), h.served⟩
  · intro v x hc
    exact h.known.wellFormed v x (h.known.current _ v x hc).1
  · intro v x v' x' hc hc' hn _
    rw [hn] at hc
    exact Prod.mk.inj (Option.some.inj (hc.symm.trans hc'))
  · intro v x hc
    exact hlast _ v x hc
  · intro n v x hc
    obtain ⟨-, rfl⟩ := h.known.current n v x hc
    exact ⟨hc, rfl⟩

end

/-- **One step**, of any thread. -/
theorem Good.step (h : Good cfg K s) (e : Step S A) : ∃ K', Good cfg K' (s.step cfg e) := by
  cases e with
  | beginUpload t u clock =>
    simp only [Store.step]
    split
    · exact ⟨K, h.beginUpload ‹_› u clock⟩
    · exact ⟨K, h⟩
  | writeTemp t ok =>
    simp only [Store.step]
    split
    · exact ⟨K, h.writeTemp ‹_› ok⟩
    · exact ⟨K, h⟩
  | replaceFile t ok =>
    simp only [Store.step]
    split
    · exact h.replaceFile ‹_› ‹_› ok
    · exact ⟨K, h⟩
  | publish t =>
    simp only [Store.step]
    split
    · exact ⟨K, h.publish ‹_›⟩
    · exact ⟨K, h⟩
  | removeTemp t =>
    simp only [Store.step]
    split
    · exact ⟨K, h.removeTemp ‹_›⟩
    · exact ⟨K, h⟩
  | beginDelete t name ok =>
    simp only [Store.step]
    split
    · exact ⟨K, h.beginDelete ‹_› name ok⟩
    · exact ⟨K, h⟩
  | finishDelete t =>
    simp only [Store.step]
    split
    · exact ⟨K, h.finishDelete ‹_›⟩
    · exact ⟨K, h⟩
  | beginResolve t name =>
    simp only [Store.step]
    split
    · next free _ => exact ⟨K, h.lookup (h.none_holds free t) free _⟩
    · exact ⟨K, h⟩
  | loadSamples t ok =>
    simp only [Store.step]
    split
    · exact ⟨K, h.loadSamples ‹_› ok⟩
    · exact ⟨K, h⟩
  | keepReference t =>
    simp only [Store.step]
    split
    · exact ⟨K, h.keepReference ‹_› ‹_›⟩
    · exact ⟨K, h⟩
  | retry t =>
    simp only [Store.step]
    split
    · next free => exact ⟨K, h.lookup (h.none_holds free t) free _⟩
    · exact ⟨K, h⟩
  | modelPut key artifact =>
    simp only [Store.step]
    split
    · exact ⟨K, h⟩
    · rename_i hmodel
      refine ⟨K, h.withCache _ fun k e hget hserve => ?_⟩
      rcases StageCache.Cache.put_within _ _ _ _ _ hget with ⟨rfl, -⟩ | hold
      · exact absurd hserve hmodel
      · exact h.cached k e hold hserve
  | modelGet key =>
    refine ⟨K, h.withCache _ fun k e hget => h.cached k e ?_⟩
    rwa [StageCache.Cache.cache_get] at hget
  | restart => exact h.restart

/-! ### The main theorem -/

/-- The thread whose upload takes a step. -/
def uploadThread : Step S A → Option Nat
  | .beginUpload t _ _ => some t
  | .writeTemp t _ => some t
  | .replaceFile t _ => some t
  | .removeTemp t => some t
  | _ => none

/-- Nothing of the store has changed, but for temporary files. -/
structure Untouched (s s' : Store S A) : Prop where
  voices : s'.voices = s.voices
  cache : s'.cache = s.cache
  log : s'.log = s.log
  files : ∀ n, s'.disk.get? (.voice n) = s.disk.get? (.voice n)

/-- An upload touches the store only when it puts its file in place. -/
theorem upload_untouched (cfg : Setting S A) (s : Store S A) (e : Step S A) (t : Nat) (he : uploadThread e = some t)
    (hnot : ∀ v o, (s.step cfg e).threads t ≠ .replaced v o) : Untouched s (s.step cfg e) := by
  have same : Untouched s s := ⟨rfl, rfl, rfl, fun _ => rfl⟩
  cases e with
  | beginUpload u up clock =>
    simp only [Store.step]
    split
    · exact ⟨rfl, rfl, rfl, fun _ => rfl⟩
    · exact same
  | writeTemp u ok =>
    simp only [Store.step]
    split
    · rename_i v x _
      simp only [Store.writeTemp]
      split
      · exact ⟨rfl, rfl, rfl, fun n => Dict.get?_set_ne _ _ (voice_ne_temp n v s.temps)⟩
      · exact ⟨rfl, rfl, rfl, fun _ => rfl⟩
    · exact same
  | replaceFile u ok =>
    obtain rfl : u = t := Option.some.inj he
    simp only [Store.step] at hnot ⊢
    split
    · rename_i v x unique hp hl
      simp only [hp, hl, Store.replaceFile] at hnot ⊢
      split
      · exact ⟨rfl, rfl, rfl, fun _ => rfl⟩
      · rename_i hroom
        simp only [if_neg hroom] at hnot
        split
        · rename_i file hfile
          simp only [hfile] at hnot
          exact absurd (setThread_self _ _) (hnot _ _)
        · exact ⟨rfl, rfl, rfl, fun _ => rfl⟩
    · exact same
  | removeTemp u =>
    simp only [Store.step]
    split
    · rename_i v unique _
      exact ⟨rfl, rfl, rfl, fun n => Dict.get?_pop_ne _ (voice_ne_temp n v unique)⟩
    · exact same
  | _ => exact nomatch he

/-- **The store stays consistent**, whatever the threads do and wherever it is restarted: with the lock free the map is
the files, and a restart reads it back; a resolved reference is that of the samples on the disk, under the voice that it
was resolved to; and an upload touches nothing before its file is in place, and leaves no temporary file when it is
rejected. -/
theorem store_consistent (cfg : Setting S A) (steps : List (Step S A)) :
    let s := run (Store.step cfg) (start cfg ∅ 0 []) steps
    (s.lock = none → ∀ n,
      s.voices.get? n = (s.disk.get? (.voice n)).bind (fun f => voiceFromMetadata f.metadata (.voice n) f.size) ∧
        s.voices.contains n = s.disk.contains (.voice n) ∧
        (start cfg s.disk s.temps s.log).voices.get? n = s.voices.get? n) ∧
      Every (Served cfg) s.log ∧
      (∀ e t, uploadThread e = some t → (∀ v o, (s.step cfg e).threads t ≠ .replaced v o) →
        Untouched s (s.step cfg e)) ∧
      (∀ t v u, s.threads t = .rejected v u → (s.step cfg (.removeTemp t)).disk.get? (tempPath v u) = none) ∧
      ∀ t v x, s.threads t = .stamped v x → (s.step cfg (.writeTemp t false)).disk = s.disk := by
  intro s
  have empty := restore_eq (S := S) cfg.maxUploaded ∅ (fun _ => none) (fun _ => rfl) (fun _ _ _ h => (nomatch h))
    fun names _ hn => by
      cases names with
      | nil => exact Nat.zero_le _
      | cons n rest => exact nomatch hn n (.head _)
  obtain ⟨K, h⟩ : ∃ K, Good cfg K s := by
    refine run_invariant (I := fun s => ∃ K, Good cfg K s) ?_ (fun t e ht => ht.elim fun K h => h.step e) steps
    refine ⟨fun _ _ => False, ⟨fun _ _ h => h.elim, fun _ _ _ _ h => h.elim, fun _ _ h => h.elim,
      fun _ _ _ h => (nomatch h)⟩,
      fun _ => rfl, fun _ => empty.1, fun _ h => (nomatch h), fun _ h => (nomatch h), empty.2.2, fun _ => trivial,
      fun _ _ _ => apart_of_none rfl rfl _, fun _ _ h => (nomatch h), trivial⟩
  obtain ⟨hmap, -, -⟩ := h.restored
  refine ⟨fun free n => ⟨?_, ?_, ?_⟩, h.served, upload_untouched cfg s, ?_, ?_⟩
  · rw [h.free free, h.disk]
    cases hc : current s.log n with
    | none => rfl
    | some stored =>
      obtain ⟨v, x⟩ := stored
      obtain ⟨hk, rfl⟩ := h.known.current n v x hc
      exact (voiceFromMetadata_toSafetensorsMetadata (h.known.wellFormed v x hk) _).symm
  · rw [Dict.contains, Dict.contains, h.free free, h.disk, Option.isSome_map, Option.isSome_map]
  · rw [h.free free]
    exact hmap n
  · intro t v u ht
    simp only [Store.step, ht]
    exact Dict.get?_pop_self ..
  · intro t v x ht
    simp only [Store.step, ht]
    rfl

end Store
end SglangOmni.Serve.Voices

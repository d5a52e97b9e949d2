import SglangOmni.Models.Dots.RowRuns

/-! Slots do not influence each other.

In every run of a pool the leased slots are rows by themselves (`PoolInv`): what a step does to a slot is what its row
does, whatever slots it is stepped with. So a slot sounds as it does in a pool where nothing else happens. -/
namespace SglangOmni.Models.Dots
open Lib

variable {L H F S : Type}

/-! ### Runs of a pool -/

inductive PoolEvent (L : Type) where
  | acquire
  | step (slotLatents : Dict Nat (List L))
  | flush (slot : Nat)
  | release (slot : Nat)

/-- A pool, with the events and the outputs of the lease that each slot is in, and what was raised. -/
structure PoolRun (L C S : Type) where
  pool : SlotPool C
  leases : Nat → List (RowEvent L)
  outputs : Nat → List (List S)
  raised : List DotsError

section
variable {C : Type} (codec : Codec L C S)

def PoolRun.start (numSlots : Nat) : PoolRun L C S :=
  ⟨SlotPool.create codec numSlots, fun _ => [], fun _ => [], []⟩

/-- What an event of a slot adds to its lease. -/
def PoolRun.note (r : PoolRun L C S) (pool : SlotPool C) (slot : Nat) (e : RowEvent L) (audio : List S) :
    PoolRun L C S :=
  { r with pool, leases := Function.update r.leases slot (r.leases slot ++ [e]),
           outputs := Function.update r.outputs slot (r.outputs slot ++ [audio]) }

def PoolRun.fail (r : PoolRun L C S) (pool : SlotPool C) (e : DotsError) : PoolRun L C S :=
  { r with pool, raised := r.raised ++ [e] }

def poolStep (r : PoolRun L C S) : PoolEvent L → PoolRun L C S
  | .acquire => match acquire codec r.pool with
    | .ok slot pool =>
      { r with pool, leases := Function.update r.leases slot [], outputs := Function.update r.outputs slot [] }
    | .error e pool => r.fail pool e
  | .step slotLatents => match SlotPool.step codec slotLatents r.pool with
    | .ok out pool =>
      let leases := fun slot => match slotLatents.get? slot with
        | some latents => r.leases slot ++ [.push latents]
        | none => r.leases slot
      { r with pool, leases, outputs := fun slot => r.outputs slot ++ (out.get? slot).toList }
    | .error e pool => r.fail pool e
  | .flush slot => match flush codec slot r.pool with
    | .ok audio pool => r.note pool slot .flush audio
    | .error e pool => r.fail pool e
  | .release slot => match release codec slot r.pool with
    | .ok _ pool => { r with pool }
    | .error e pool => r.fail pool e

/-- A slot by itself: its events, on one slot of a pool. -/
def aloneEvent (slot : Nat) : RowEvent L → PoolEvent L
  | .push latents => .step ((∅ : Dict Nat (List L)).set slot latents)
  | .flush => .flush slot

/-- A pool where one slot is leased and has its events. -/
def runAlone (m : Nat) (events : List (RowEvent L)) : PoolRun L C S :=
  run (poolStep codec) (PoolRun.start codec (m + 1)) (.acquire :: events.map (aloneEvent 0))

end

/-- What callers see to: a step has leased slots and latents of one length below the window, and a flush a leased
slot. -/
def leasedRule (U : Upstream L H F S) (r : PoolRun L (H × List F) S) : PoolEvent L → Prop
  | .step slotLatents => (∀ slot ∈ slotLatents.keys, slot ∈ r.pool.inUse) ∧
      ∃ stepT, (∀ e ∈ slotLatents.entries, e.2.length = stepT) ∧ 1 ≤ stepT ∧ stepT < U.windowSize
  | .flush slot => slot ∈ r.pool.inUse
  | .acquire | .release _ => True

/-- The latents of a step fit in the window, with what is kept back of the slot. -/
def fitRule (U : Upstream L H F S) (r : PoolRun L (H × List F) S) : PoolEvent L → Prop
  | .step slotLatents => ∀ e ∈ slotLatents.entries,
      min (r.pool.slots e.1).totalFrames U.lookahead + e.2.length ≤ U.windowSize
  | .acquire | .flush _ | .release _ => True

def poolRule (U : Upstream L H F S) (r : PoolRun L (H × List F) S) (e : PoolEvent L) : Prop :=
  leasedRule U r e ∧ fitRule U r e

/-- With one frame kept back, or none, every step below the window fits. -/
theorem poolRule_of_lookahead {U : Upstream L H F S} (h : U.lookahead ≤ 1) (r : PoolRun L (H × List F) S)
    (e : PoolEvent L)
    (rule : leasedRule U r e) : poolRule U r e := by
  refine ⟨rule, ?_⟩
  cases e with
  | step slotLatents =>
    obtain ⟨_, stepT, huniform, _, hsmall⟩ := rule
    intro entry hentry
    have hlen := huniform entry hentry
    omega
  | acquire => trivial
  | flush slot => trivial
  | release slot => trivial

/-- What an event is for a slot. -/
def share (slot : Nat) : PoolEvent L → List (RowEvent L)
  | .step slotLatents => ((slotLatents.get? slot).map RowEvent.push).toList
  | .flush other => if slot = other then [.flush] else []
  | .acquire | .release _ => []

/-! ### Steps and flushes -/

section
variable (U : Upstream L H F S) (row : List L → H → List F × H) (sound : List F → List S) {r : PoolRun L (H × List F) S}
  {s : RowState H F S}

/-- A leased slot does what a row does. -/
structure Plays (r : PoolRun L (H × List F) S) (slot : Nat) (s : RowState H F S) : Prop where
  leased : slot ∈ r.pool.inUse
  same : r.pool.slots slot = s.slot
  outputs : r.outputs slot = s.outputs
  inv : RowInv U sound s

structure PoolInv (r : PoolRun L (H × List F) S) : Prop where
  fresh : ∀ slot ∈ r.pool.freeSlots, slot ∉ r.pool.inUse
  nodup : r.pool.freeSlots.Nodup
  rule : ∀ slot ∈ r.pool.inUse, Along (rowStep U row sound) (rowRule U) (rowStart U) (r.leases slot)
  plays : ∀ slot ∈ r.pool.inUse, Plays U sound r slot (run (rowStep U row sound) (rowStart U) (r.leases slot))
  raised : ∀ e ∈ r.raised, e = .outOfSlots

/-- Every slot does its share of an event, and nothing is raised. -/
structure Shared (e : PoolEvent L) (r r' : PoolRun L (H × List F) S) : Prop where
  freeSlots : r'.pool.freeSlots = r.pool.freeSlots
  inUse : r'.pool.inUse = r.pool.inUse
  raised : r'.raised = r.raised
  leases : ∀ slot, r'.leases slot = r.leases slot ++ share slot e
  rule : ∀ slot s, Plays U sound r slot s → Along (rowStep U row sound) (rowRule U) s (share slot e)
  plays : ∀ slot s, Plays U sound r slot s → Plays U sound r' slot (run (rowStep U row sound) s (share slot e))

variable {U row sound}

/-- A slot whose share is nothing. -/
theorem Plays.still {r' : PoolRun L (H × List F) S} {slot : Nat} (h : Plays U sound r slot s)
    (leased : slot ∈ r'.pool.inUse) (slots : r'.pool.slots slot = r.pool.slots slot)
    (outputs : r'.outputs slot = r.outputs slot) : Plays U sound r' slot s :=
  ⟨leased, slots.trans h.same, outputs.trans h.outputs, h.inv⟩

/-- The rule of the pool is the rule of each stepped slot. -/
theorem Plays.push_rule {slot : Nat} (h : Plays U sound r slot s)
    {slotLatents : Dict Nat (List L)} (rule : poolRule U r (.step slotLatents)) {latents : List L}
    (hget : slotLatents.get? slot = some latents) : rowRule U s (.push latents) := by
  obtain ⟨⟨_, stepT, huniform, hpos, hsmall⟩, hfit⟩ := rule
  have hmem : (slot, latents) ∈ slotLatents.entries := (Dict.mem_entries slotLatents slot latents).mpr hget
  have hlen : latents.length = stepT := huniform _ hmem
  have hroom := hfit _ hmem
  rw [h.same] at hroom
  exact ⟨hlen ▸ hpos, hlen ▸ hsmall, hroom⟩

theorem shared_step (hrow : RowWise U row sound) (h : PoolInv U row sound r)
    {slotLatents : Dict Nat (List L)} (rule : poolRule U r (.step slotLatents)) :
    Shared U row sound (.step slotLatents) r (poolStep U.codec r (.step slotLatents)) := by
  obtain ⟨⟨hleased, stepT, huniform, hpos, hsmall⟩, hfit⟩ := id rule
  have hfits : ∀ slot ∈ slotLatents.keys, Fits U stepT (r.pool.slots slot) := by
    intro slot hslot
    obtain ⟨latents, hget⟩ := (Dict.mem_keys slotLatents slot).mp hslot
    have hplays := h.plays slot (hleased slot hslot)
    have hlen : latents.length = stepT := huniform _ ((Dict.mem_entries slotLatents slot latents).mpr hget)
    have hreach := hplays.inv.reaches_push (hplays.push_rule rule hget)
    refine ⟨?_, ?_⟩
    · rw [hplays.same, hplays.inv.window, length_fillWindow]
    · rw [hplays.same, ← hlen]
      exact hreach
  obtain ⟨out, p', hok, hfree, hused, hslots, hout⟩ :=
    step_spec hrow r.pool slotLatents hleased huniform hpos hsmall hfits
  have hstep : poolStep U.codec r (.step slotLatents) =
      { r with
        pool := p'
        leases := fun slot => match slotLatents.get? slot with
          | some latents => r.leases slot ++ [.push latents]
          | none => r.leases slot
        outputs := fun slot => r.outputs slot ++ (out.get? slot).toList } := by
    simp only [poolStep, hok]
  rw [hstep]
  refine ⟨hfree, hused, rfl, fun slot => ?_, fun slot s hs => ?_, fun slot s hs => ?_⟩
  · cases hget : slotLatents.get? slot with
    | none => simp [share, hget]
    | some latents => simp [share, hget]
  · cases hget : slotLatents.get? slot with
    | none => simp [share, hget, Along]
    | some latents => simpa [share, hget, Along] using hs.push_rule rule hget
  · have hslot := hslots slot
    have houtput := hout slot
    cases hget : slotLatents.get? slot with
    | none =>
      rw [hget] at hslot houtput
      simp only [share, hget, Option.map_none, Option.toList_none, run]
      refine hs.still (hused ▸ hs.leased) hslot ?_
      show r.outputs slot ++ (out.get? slot).toList = r.outputs slot
      rw [houtput]
      exact List.append_nil _
    | some latents =>
      rw [hget] at hslot houtput
      simp only [share, hget, Option.map_some, Option.toList_some, run]
      refine ⟨hused ▸ hs.leased, ?_, ?_, hs.inv.step hrow _ (hs.push_rule rule hget)⟩
      · rw [rowStep, ← hs.same]
        exact hslot
      · show r.outputs slot ++ (out.get? slot).toList = _
        rw [houtput, hs.outputs, hs.same]
        rfl

theorem shared_flush (hrow : RowWise U row sound) (h : PoolInv U row sound r)
    {slot : Nat} (leased : slot ∈ r.pool.inUse) :
    Shared U row sound (.flush slot) r (poolStep U.codec r (.flush slot)) := by
  have hplays := h.plays slot leased
  have hreach := hplays.inv.reaches_flush
  rw [← hplays.same] at hreach
  have hwindow : U.codec.decodeWindow (r.pool.slots slot).kernel = some (sound (r.pool.slots slot).kernel.2) := by
    simp only [Upstream.codec, hrow.window]
    rfl
  have hok := sliceAudio_ok (sameSizes U) r.pool slot (sound (r.pool.slots slot).kernel.2) true hreach
  have hflush : poolStep U.codec r (.flush slot) =
      r.note (r.pool.setSlot slot (flushRow U sound (r.pool.slots slot)).1) slot .flush
        (flushRow U sound (r.pool.slots slot)).2 := by
    simp only [poolStep, flush, bind_apply, get_apply, if_pos leased, hwindow, hok]
    rfl
  rw [hflush]
  refine ⟨rfl, rfl, rfl, fun other => ?_, fun other s hs => ?_, fun other s hs => ?_⟩
  · by_cases hother : other = slot
    · subst hother
      simp [PoolRun.note, share]
    · simp [PoolRun.note, share, hother]
  · by_cases hother : other = slot <;> simp [share, hother, Along, rowRule]
  · by_cases hother : other = slot
    · subst hother
      simp only [share, if_true, run]
      refine ⟨hs.leased, ?_, ?_, hs.inv.step hrow .flush trivial⟩
      · simp [PoolRun.note, SlotPool.setSlot, rowStep, hs.same]
      · simp [PoolRun.note, rowStep, hs.same, hs.outputs]
    · simp only [share, if_neg hother, run]
      exact hs.still hs.leased (Function.update_of_ne hother _ _) (Function.update_of_ne hother _ _)

theorem PoolInv.shared {e : PoolEvent L} {r' : PoolRun L (H × List F) S} (h : PoolInv U row sound r)
    (hs : Shared U row sound e r r') : PoolInv U row sound r' where
  fresh := by
    rw [hs.freeSlots, hs.inUse]
    exact h.fresh
  nodup := hs.freeSlots ▸ h.nodup
  rule := fun slot hslot => by
    rw [hs.inUse] at hslot
    rw [hs.leases]
    exact along_append _ (h.rule slot hslot)
      (run_eq_foldl (rowStep U row sound) _ _ ▸ hs.rule slot _ (h.plays slot hslot))
  plays := fun slot hslot => by
    rw [hs.inUse] at hslot
    rw [hs.leases, run_append]
    exact hs.plays slot _ (h.plays slot hslot)
  raised := hs.raised ▸ h.raised

/-! ### Leases -/

theorem PoolInv.start (numSlots : Nat) : PoolInv U row sound (PoolRun.start U.codec numSlots) where
  fresh := fun _ _ => Finset.notMem_empty _
  nodup := List.nodup_range
  rule := fun slot hslot => absurd hslot (Finset.notMem_empty slot)
  plays := fun slot hslot => absurd hslot (Finset.notMem_empty slot)
  raised := fun _ he => absurd he List.not_mem_nil

/-- A slot that is handed out starts a lease, and the leases of the others go on. -/
theorem PoolInv.acquire (h : PoolInv U row sound r) :
    PoolInv U row sound (poolStep U.codec r .acquire) := by
  cases hfree : r.pool.freeSlots with
  | nil =>
    have hstep : poolStep U.codec r .acquire = r.fail r.pool .outOfSlots := by
      simp only [poolStep, SglangOmni.Models.Dots.acquire, bind_apply, get_apply, hfree, throw_apply]
    rw [hstep]
    refine ⟨h.fresh, h.nodup, h.rule, fun slot hslot => (h.plays slot hslot).still hslot rfl rfl, fun e he => ?_⟩
    rcases List.mem_append.mp he with he | he
    · exact h.raised e he
    · exact List.mem_singleton.mp he
  | cons slot rest =>
    let pool := { r.pool.resetSlot U.codec slot with freeSlots := rest, inUse := insert slot r.pool.inUse }
    have hstep : poolStep U.codec r .acquire =
        { r with pool, leases := Function.update r.leases slot [], outputs := Function.update r.outputs slot [] } := by
      simp only [poolStep, SglangOmni.Models.Dots.acquire, bind_apply, get_apply, hfree, set_apply, pure_apply]
      rfl
    have hnodup := h.nodup
    have hfresh := h.fresh
    rw [hfree] at hnodup hfresh
    obtain ⟨hnew, hrest⟩ := List.nodup_cons.mp hnodup
    have hother : ∀ other ∈ insert slot r.pool.inUse, other ≠ slot → other ∈ r.pool.inUse := fun other hmem hne =>
      (Finset.mem_insert.mp hmem).resolve_left hne
    rw [hstep]
    refine ⟨fun other hmem hin => ?_, hrest, fun other hmem => ?_, fun other hmem => ?_, h.raised⟩
    · rcases Finset.mem_insert.mp hin with rfl | hin
      · exact hnew hmem
      · exact hfresh other (List.mem_cons_of_mem _ hmem) hin
    · by_cases hne : other = slot
      · rw [hne]
        simp [Along]
      · simp only [Function.update_of_ne hne]
        exact h.rule other (hother other hmem hne)
    · by_cases hne : other = slot
      · rw [hne]
        simp only [Function.update_self]
        refine ⟨Finset.mem_insert_self .., ?_, ?_, RowInv.start⟩
        · exact Function.update_self ..
        · exact Function.update_self ..
      · simp only [Function.update_of_ne hne]
        exact (h.plays other (hother other hmem hne)).still hmem (Function.update_of_ne hne _ _)
          (Function.update_of_ne hne _ _)

theorem PoolInv.release (h : PoolInv U row sound r) (slot : Nat) :
    PoolInv U row sound (poolStep U.codec r (.release slot)) := by
  by_cases hleased : slot ∈ r.pool.inUse
  · let pool := { r.pool.resetSlot U.codec slot with
      freeSlots := slot :: r.pool.freeSlots, inUse := r.pool.inUse.erase slot }
    have hstep : poolStep U.codec r (.release slot) = { r with pool } := by
      simp only [poolStep, SglangOmni.Models.Dots.release, modify_apply, if_pos hleased]
      rfl
    rw [hstep]
    refine ⟨fun other hmem hin => ?_, ?_, fun other hmem => ?_, fun other hmem => ?_, h.raised⟩
    · obtain ⟨hne, hin⟩ := Finset.mem_erase.mp hin
      exact h.fresh other ((List.mem_cons.mp hmem).resolve_left hne) hin
    · exact List.nodup_cons.mpr ⟨fun hmem => h.fresh slot hmem hleased, h.nodup⟩
    · exact h.rule other (Finset.mem_of_mem_erase hmem)
    · have hne := Finset.ne_of_mem_erase hmem
      exact (h.plays other (Finset.mem_of_mem_erase hmem)).still hmem (Function.update_of_ne hne _ _) rfl
  · have hstep : poolStep U.codec r (.release slot) = r := by
      simp only [poolStep, SglangOmni.Models.Dots.release, modify_apply, if_neg hleased]
    rw [hstep]
    exact h

theorem PoolInv.step (hrow : RowWise U row sound) (h : PoolInv U row sound r)
    (e : PoolEvent L) (rule : poolRule U r e) : PoolInv U row sound (poolStep U.codec r e) := by
  cases e with
  | acquire => exact h.acquire
  | step slotLatents => exact h.shared (shared_step hrow h rule)
  | flush slot => exact h.shared (shared_flush hrow h rule.1)
  | release slot => exact h.release slot

/-! ### A slot alone -/

/-- A pool where nothing else happens than the events of a slot. -/
def Alone (U : Upstream L H F S) (row : List L → H → List F × H) (sound : List F → List S) (s : RowState H F S)
    (r : PoolRun L (H × List F) S) : Prop :=
  PoolInv U row sound r ∧ Plays U sound r 0 s ∧ r.raised = []

theorem Alone.acquire (m : Nat) :
    Alone U row sound (rowStart U) (poolStep U.codec (PoolRun.start U.codec (m + 1)) .acquire) := by
  have hstep : poolStep U.codec (PoolRun.start U.codec (m + 1)) (.acquire : PoolEvent L) =
      { PoolRun.start U.codec (m + 1) with
        pool := { (SlotPool.create U.codec (m + 1)).resetSlot U.codec 0 with
          freeSlots := (List.range m).map Nat.succ, inUse := insert 0 ∅ }
        leases := Function.update (fun _ => []) 0 []
        outputs := Function.update (fun _ => []) 0 [] } := by
    have hfree : (PoolRun.start (L := L) U.codec (m + 1)).pool.freeSlots = 0 :: (List.range m).map Nat.succ :=
      List.range_succ_eq_map
    simp only [poolStep, SglangOmni.Models.Dots.acquire, bind_apply, get_apply, hfree, set_apply, pure_apply]
    rfl
  refine ⟨(PoolInv.start (m + 1)).acquire, ?_, ?_⟩
  · rw [hstep]
    refine ⟨Finset.mem_insert_self .., ?_, ?_, RowInv.start⟩
    · simp [SlotPool.resetSlot, SlotPool.setSlot, rowStart]
    · simp [rowStart]
  · rw [hstep]
    rfl

theorem Alone.step (hrow : RowWise U row sound) (h : Alone U row sound s r) (e : RowEvent L) (rule : rowRule U s e) :
    poolRule U r (aloneEvent 0 e) ∧
      Alone U row sound (rowStep U row sound s e) (poolStep U.codec r (aloneEvent 0 e)) := by
  obtain ⟨hinv, hplays, hraised⟩ := h
  have halone : poolRule U r (aloneEvent 0 e) ∧
      Shared U row sound (aloneEvent 0 e) r (poolStep U.codec r (aloneEvent 0 e)) := by
    cases e with
    | push latents =>
      obtain ⟨hpos, hsmall, hfit⟩ := rule
      have hentries : ((∅ : Dict Nat (List L)).set 0 latents).entries = [(0, latents)] := rfl
      have hrule : poolRule U r (.step ((∅ : Dict Nat (List L)).set 0 latents)) := by
        refine ⟨⟨fun slot hslot => ?_, latents.length, fun e he => ?_, hpos, hsmall⟩, fun e he => ?_⟩
        · have hzero : slot = 0 := List.mem_singleton.mp hslot
          exact hzero ▸ hplays.leased
        · rw [hentries] at he
          rw [List.mem_singleton.mp he]
        · rw [hentries] at he
          rw [List.mem_singleton.mp he, hplays.same]
          exact hfit
      exact ⟨hrule, shared_step hrow hinv hrule⟩
    | flush => exact ⟨⟨hplays.leased, trivial⟩, shared_flush hrow hinv hplays.leased⟩
  have hshare : share 0 (aloneEvent 0 e) = [e] := by
    cases e <;> rfl
  obtain ⟨hrule, hshared⟩ := halone
  have hnext := hshared.plays 0 s hplays
  rw [hshare] at hnext
  exact ⟨hrule, hinv.shared hshared, hnext, hshared.raised.trans hraised⟩

/-- What a slot is heard to do by itself. -/
theorem alone_outputs (hrow : RowWise U row sound) (m : Nat) (events : List (RowEvent L))
    (rule : Along (rowStep U row sound) (rowRule U) (rowStart U) events) :
    Alone U row sound (run (rowStep U row sound) (rowStart U) events)
      (runAlone U.codec m events) := by
  have hnext : ∀ s r e, Alone U row sound s r → rowRule U s e →
      poolRule U r (aloneEvent 0 e) ∧
        Alone U row sound (rowStep U row sound s e) (poolStep U.codec r (aloneEvent 0 e)) :=
    fun _ _ e hs he => hs.step hrow e he
  exact (along_simulates hnext (Alone.acquire m) events rule).2

/-- The frames that the decoder makes of the events of a lease. -/
def decoderFrames (row : List L → H → List F × H) (hidden : H) : List (RowEvent L) → List F
  | [] => []
  | .push latents :: rest => (row latents hidden).1 ++ decoderFrames row (row latents hidden).2 rest
  | .flush :: rest => decoderFrames row hidden rest

theorem frames_run (s : RowState H F S) (events : List (RowEvent L)) :
    (run (rowStep U row sound) s events).frames = s.frames ++ decoderFrames row s.slot.kernel.1 events := by
  induction events generalizing s with
  | nil => exact (List.append_nil _).symm
  | cons e rest ih =>
    rw [run, ih]
    cases e with
    | push latents => exact List.append_assoc ..
    | flush => rfl

/-- **Main theorem.** In every run where the latents of each step fit in the window with what is kept back, nothing is
raised but for want of slots, and a leased slot has its last frames in its window, left aligned and padded with zeros.
Its frames are heard in order, each once, all of them when it was flushed, and its outputs are those of a pool that runs
only this slot. -/
theorem slots_do_not_interfere (hrow : RowWise U row sound) (numSlots : Nat) (events : List (PoolEvent L))
    (rule : Along (poolStep U.codec) (poolRule U) (PoolRun.start U.codec numSlots) events) :
    let r := run (poolStep U.codec) (PoolRun.start U.codec numSlots) events
    (∀ e ∈ r.raised, e = .outOfSlots) ∧ (∀ slot ∈ r.pool.freeSlots, slot ∉ r.pool.inUse) ∧
    ∀ slot ∈ r.pool.inUse,
      let frames := decoderFrames row U.hidden (r.leases slot)
      (r.pool.slots slot).totalFrames = frames.length ∧
      (r.pool.slots slot).kernel.2 = fillWindow U.zero U.windowSize frames ∧
      Heard U sound frames (r.pool.slots slot).emittedFrames (r.outputs slot).flatten ∧
      (∀ before, r.leases slot = before ++ [.flush] → (r.pool.slots slot).emittedFrames = frames.length) ∧
      ∀ m, (runAlone U.codec m (r.leases slot)).outputs 0 = r.outputs slot ∧
        (runAlone U.codec m (r.leases slot)).raised = [] := by
  intro r
  have hinv : PoolInv U row sound r :=
    along_invariant (PoolInv.start numSlots) (fun _ e h he => h.step hrow e he) events rule
  refine ⟨hinv.raised, hinv.fresh, fun slot hslot => ?_⟩
  have hrule := hinv.rule slot hslot
  have hplays := hinv.plays slot hslot
  have hframes : (run (rowStep U row sound) (rowStart U) (r.leases slot)).frames =
      decoderFrames row U.hidden (r.leases slot) := (frames_run _ _).trans (List.nil_append _)
  have htotal := hplays.inv.total
  have hwindow := hplays.inv.window
  have hheard := hplays.inv.heard
  rw [hframes] at htotal hwindow hheard
  rw [hplays.same, hplays.outputs]
  refine ⟨htotal, hwindow, hheard, fun before hflush => ?_, fun m => ?_⟩
  · rw [← htotal, hflush, run_concat]
    have hbefore : RowInv U sound (run (rowStep U row sound) (rowStart U) before) :=
      RowInv.run hrow before (along_left before (hflush ▸ hrule))
    exact sliceRow_final _ hbefore.behind
  · obtain ⟨_, halone, hraised⟩ := alone_outputs hrow m (r.leases slot) hrule
    exact ⟨halone.outputs, hraised⟩

end

/-! ### Windows and lookahead -/

/-- Helpers that hand the latents through. -/
def echo (windowSize lookahead : Nat) : Upstream Nat Unit Nat Nat where
  windowSize := windowSize
  lookahead := lookahead
  hopSize := 1
  zero := 0
  hidden := ()
  decodeStreamLatents := fun batch => batch.map fun entry => (entry.1, entry.2)
  decodeStreamWindow := fun windows => windows.map id

theorem echo_rowWise (windowSize lookahead : Nat) : RowWise (echo windowSize lookahead) Prod.mk id where
  latents := fun _ => rfl
  window := fun _ => rfl
  frames := fun _ _ => rfl
  samples := fun _ h => h.trans (Nat.mul_one _).symm

/-- Two slots of different ages in a window of four. -/
def twoSlots : List (PoolEvent Nat) :=
  [.acquire, .acquire, .step ((∅ : Dict Nat (List Nat)).set 0 [1, 2, 3]),
    .step (((∅ : Dict Nat (List Nat)).set 0 [4, 5]).set 1 [6, 7]), .flush 0]

theorem twoSlots_rule : Along (poolStep (echo 4 1).codec) (poolRule (echo 4 1))
    (PoolRun.start (echo 4 1).codec 2) twoSlots :=
  along_mono (poolRule_of_lookahead (Nat.le_refl 1))
    ⟨trivial, trivial, ⟨by decide, 3, by decide, by decide, by decide⟩, ⟨by decide, 2, by decide, by decide, by decide⟩,
      by simp only [leasedRule]; decide, trivial⟩

theorem slots_do_not_interfere_two :
    let r := run (poolStep (echo 4 1).codec) (PoolRun.start (echo 4 1).codec 2) twoSlots
    r.outputs 0 = [[1, 2], [3, 4], [5]] ∧ (r.pool.slots 0).kernel.2 = [2, 3, 4, 5] ∧
      (∀ e ∈ r.raised, e = .outOfSlots) :=
  ⟨by decide, by decide, (slots_do_not_interfere (echo_rowWise 4 1) 2 twoSlots twoSlots_rule).1⟩

/-- With two frames kept back a second step of three does not fit in a window of four. -/
def secondStep : List (PoolEvent Nat) :=
  [.acquire, .step ((∅ : Dict Nat (List Nat)).set 0 [1, 2, 3]), .step ((∅ : Dict Nat (List Nat)).set 0 [4, 5, 6])]

theorem lookahead_outgrows_window :
    RowWise (echo 4 2) Prod.mk id ∧
      Along (poolStep (echo 4 2).codec) (leasedRule (echo 4 2)) (PoolRun.start (echo 4 2).codec 1) secondStep ∧
      (run (poolStep (echo 4 2).codec) (PoolRun.start (echo 4 2).codec 1) secondStep).raised = [.windowTooShort] :=
  ⟨echo_rowWise 4 2, ⟨trivial, ⟨by decide, 3, by decide, by decide, by decide⟩,
    ⟨by decide, 3, by decide, by decide, by decide⟩, trivial⟩, by decide⟩

end SglangOmni.Models.Dots

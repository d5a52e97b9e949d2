import SglangOmni.Pipeline.Coordinator.Model

/-! One request and its completion messages, on their own.

`Progress` is what a request with terminal set `stages` comes to after the messages
handled for it, whatever else the coordinator does meanwhile. Its end is described by
the message list alone: the request succeeds at the first prefix that is without a
failure and has a report of every terminal (`Complete`), fails at a failure that comes
before that, and otherwise waits. -/
namespace SglangOmni.Pipeline.Coordinator
open Lib

variable {ρ : Type} {g : Config} {stages : Finset String} {ms p : List (CompleteMessage ρ)}
  {msg : CompleteMessage ρ} {d : Dict String (Option ρ)}

inductive Progress (ρ : Type) where
  | waiting (reports : Dict String (Option ρ))
  | resolved (outcome : Outcome ρ)
  | failed (error : Option String)

/-- A message for the request. -/
def Progress.report (g : Config) (stages : Finset String) (p : Progress ρ) (msg : CompleteMessage ρ) :
    Progress ρ :=
  match p with
  | .waiting d =>
    let stage := g.topology.logicalName msg.fromStage
    if msg.success = false then .failed msg.error
    else if stages ≠ ∅ ∧ stage ∉ stages then .waiting d
    else if stages.card ≤ 1 then .resolved (.single msg.result)
    else if (d.set stage msg.result).keys.toFinset ⊂ stages then .waiting (d.set stage msg.result)
    else .resolved (.merged (d.set stage msg.result))
  | p => p

def progress (g : Config) (stages : Finset String) (ms : List (CompleteMessage ρ)) : Progress ρ :=
  ms.foldl (Progress.report g stages) (.waiting ∅)

/-! ### What the messages say -/

/-- A success from a terminal of the request, or from anywhere when it has none. -/
def Accepts (g : Config) (stages : Finset String) (msg : CompleteMessage ρ) : Prop :=
  msg.success = true ∧ (stages = ∅ ∨ g.topology.logicalName msg.fromStage ∈ stages)

/-- Every terminal has reported a success; with no terminals, something has. -/
def AllReported (g : Config) (stages : Finset String) (ms : List (CompleteMessage ρ)) : Prop :=
  (∃ msg ∈ ms, Accepts g stages msg) ∧
    ∀ stage ∈ stages, ∃ msg ∈ ms, msg.success = true ∧ g.topology.logicalName msg.fromStage = stage

/-- No failure, and every terminal has reported. -/
def Complete (g : Config) (stages : Finset String) (ms : List (CompleteMessage ρ)) : Prop :=
  (∀ msg ∈ ms, msg.success = true) ∧ AllReported g stages ms

/-- The last result that `stage` reported. -/
def lastReport (g : Config) (ms : List (CompleteMessage ρ)) (stage : String) : Option (Option ρ) :=
  (ms.reverse.find? fun msg => msg.success && g.topology.logicalName msg.fromStage == stage).map (·.result)

/-- The outcome of a request that completes with the messages `ms`: the result of the
last one, or with several terminals each one's last result. -/
def Describes (g : Config) (stages : Finset String) (ms : List (CompleteMessage ρ)) (o : Outcome ρ) :
    Prop :=
  if stages.card ≤ 1 then ∃ msg, ms.getLast? = some msg ∧ o = .single msg.result
  else ∃ d, o = .merged d ∧ ∀ stage, d.get? stage = if stage ∈ stages then lastReport g ms stage else none

theorem AllReported.mono {ms' : List (CompleteMessage ρ)} (h : AllReported g stages ms)
    (hm : ∀ msg ∈ ms, msg ∈ ms') : AllReported g stages ms' := by
  obtain ⟨⟨msg, hmem, hacc⟩, hall⟩ := h
  refine ⟨⟨msg, hm msg hmem, hacc⟩, fun stage hs => ?_⟩
  obtain ⟨x, hx, hsucc, heq⟩ := hall stage hs
  exact ⟨x, hm x hx, hsucc, heq⟩

theorem lastReport_append (ms : List (CompleteMessage ρ)) (msg : CompleteMessage ρ) (stage : String) :
    lastReport g (ms ++ [msg]) stage =
      if msg.success = true ∧ g.topology.logicalName msg.fromStage = stage then some msg.result
      else lastReport g ms stage := by
  simp only [lastReport, List.reverse_append, List.reverse_cons, List.reverse_nil, List.nil_append,
    List.singleton_append, List.find?_cons]
  by_cases h : msg.success = true ∧ g.topology.logicalName msg.fromStage = stage
  · simp [h]
  · rw [if_neg h]
    have hfalse : (msg.success && g.topology.logicalName msg.fromStage == stage) = false := by
      rw [Bool.and_eq_false_iff, beq_eq_false_iff_ne]
      by_cases hs : msg.success = true
      · exact .inr fun he => h ⟨hs, he⟩
      · exact .inl (Bool.not_eq_true _ ▸ hs)
    rw [hfalse]

theorem lastReport_isSome {stage : String} :
    (lastReport g ms stage).isSome ↔
      ∃ msg ∈ ms, msg.success = true ∧ g.topology.logicalName msg.fromStage = stage := by
  simp [lastReport, List.find?_isSome]

/-! ### What a request comes to -/

/-- The reports collected so far: each terminal's last one, and nothing else. -/
def Collects (g : Config) (stages : Finset String) (ms : List (CompleteMessage ρ))
    (d : Dict String (Option ρ)) : Prop :=
  ∀ stage, d.get? stage = if stage ∈ stages then lastReport g ms stage else none

/-- The messages `ms` bring the request to `p`. -/
def Progress.Reached (g : Config) (stages : Finset String) (ms : List (CompleteMessage ρ)) :
    Progress ρ → Prop
  | .waiting d => (∀ msg ∈ ms, msg.success = true) ∧ ¬AllReported g stages ms ∧ Collects g stages ms d
  | .resolved o => ∃ p, p <+: ms ∧ Complete g stages p ∧
      (∀ q, q <+: p → q ≠ p → ¬Complete g stages q) ∧ Describes g stages p o
  | .failed e => ∃ p msg, p ++ [msg] <+: ms ∧ (∀ x ∈ p, x.success = true) ∧ ¬AllReported g stages p ∧
      msg.success = false ∧ msg.error = e

theorem success_append
    (h : ∀ x ∈ ms, x.success = true) (hmsg : msg.success = true) : ∀ x ∈ ms ++ [msg], x.success = true := by
  intro x hx
  rcases List.mem_append.mp hx with hx | hx
  · exact h x hx
  · rw [List.mem_singleton.mp hx]
    exact hmsg

/-- What completes with its last message did not complete before. -/
theorem not_complete_before {q : List (CompleteMessage ρ)}
    (h : ¬AllReported g stages ms) (hq : q <+: ms ++ [msg]) (hne : q ≠ ms ++ [msg]) :
    ¬Complete g stages q := by
  intro hc
  rcases List.prefix_concat_iff.mp hq with heq | hpre
  · exact hne heq
  · exact h (hc.2.mono fun x hx => hpre.subset hx)

theorem Collects.set (h : Collects g stages ms d) (hs : msg.success = true)
    (hin : g.topology.logicalName msg.fromStage ∈ stages) :
    Collects g stages (ms ++ [msg]) (d.set (g.topology.logicalName msg.fromStage) msg.result) := by
  intro stage
  rw [Dict.get?_set, lastReport_append, h stage]
  by_cases hst : stage = g.topology.logicalName msg.fromStage
  · rw [if_pos hst, hst, if_pos hin, if_pos ⟨hs, rfl⟩]
  · rw [if_neg hst, if_neg (show ¬(msg.success = true ∧ _ = stage) from fun h => hst h.2.symm)]

theorem Collects.mem_keys (h : Collects g stages ms d) (stage : String) :
    stage ∈ d.keys.toFinset ↔ stage ∈ stages ∧
      ∃ msg ∈ ms, msg.success = true ∧ g.topology.logicalName msg.fromStage = stage := by
  rw [List.mem_toFinset, Dict.mem_keys, h stage, ← lastReport_isSome, Option.isSome_iff_exists]
  by_cases hs : stage ∈ stages
  · simp [hs]
  · simp [hs]

/-- A message that is not from a terminal of the request. -/
theorem reached_ignored (h : (Progress.waiting d).Reached g stages ms) (hs : msg.success = true)
    (hout : stages ≠ ∅ ∧ g.topology.logicalName msg.fromStage ∉ stages) :
    (Progress.waiting d).Reached g stages (ms ++ [msg]) := by
  obtain ⟨hsucc, hnot, hd⟩ := h
  refine ⟨success_append hsucc hs, fun hall => hnot ⟨?_, fun stage hst => ?_⟩, fun stage => ?_⟩
  · obtain ⟨x, hx, hacc⟩ := hall.1
    rcases List.mem_append.mp hx with hx | hx
    · exact ⟨x, hx, hacc⟩
    · rw [List.mem_singleton.mp hx] at hacc
      exact absurd hacc.2 (not_or.mpr hout)
  · obtain ⟨x, hx, hxs, heq⟩ := hall.2 stage hst
    rcases List.mem_append.mp hx with hx | hx
    · exact ⟨x, hx, hxs, heq⟩
    · rw [List.mem_singleton.mp hx] at heq
      exact absurd (heq ▸ hst) hout.2
  · rw [hd stage, lastReport_append]
    split
    · next hst =>
      rw [if_neg]
      exact fun he => hout.2 (he.2 ▸ hst)
    · rfl

/-- The success that a request with at most one terminal waits for. -/
theorem reached_single (h : (Progress.waiting d).Reached g stages ms)
    (hacc : Accepts g stages msg) (hcard : stages.card ≤ 1) :
    (Progress.resolved (.single msg.result)).Reached g stages (ms ++ [msg]) := by
  obtain ⟨hsucc, hnot, _⟩ := h
  refine ⟨ms ++ [msg], List.prefix_refl _, ⟨success_append hsucc hacc.1, ?_⟩,
    fun q hq hne => not_complete_before hnot hq hne, ?_⟩
  · refine ⟨⟨msg, by simp, hacc⟩, fun stage hst => ⟨msg, by simp, hacc.1, ?_⟩⟩
    rcases hacc.2 with hempty | hin
    · rw [hempty] at hst
      exact absurd hst (Finset.notMem_empty _)
    · exact Finset.card_le_one.mp hcard _ hin _ hst
  · rw [Describes, if_pos hcard]
    exact ⟨msg, by simp, rfl⟩

/-- A report of a request with several terminals: it waits on, or it is complete. -/
theorem reached_multi {d' : Dict String (Option ρ)} (h : (Progress.waiting d).Reached g stages ms)
    (hs : msg.success = true) (hin : g.topology.logicalName msg.fromStage ∈ stages)
    (hcard : ¬stages.card ≤ 1) (hd : d' = d.set (g.topology.logicalName msg.fromStage) msg.result) :
    (if d'.keys.toFinset ⊂ stages then Progress.waiting d' else .resolved (.merged d')).Reached g stages
      (ms ++ [msg]) := by
  obtain ⟨hsucc, hnot, hcoll⟩ := h
  have hcoll' : Collects g stages (ms ++ [msg]) d' := hd ▸ hcoll.set hs hin
  have hacc : ∃ x ∈ ms ++ [msg], Accepts g stages x := ⟨msg, by simp, hs, .inr hin⟩
  split
  · next hlt =>
    refine ⟨success_append hsucc hs, fun hall => hlt.2 fun stage hst => ?_, hcoll'⟩
    exact (hcoll'.mem_keys stage).mpr ⟨hst, hall.2 stage hst⟩
  · next hlt =>
    have hsub : d'.keys.toFinset ⊆ stages := fun stage hst => ((hcoll'.mem_keys stage).mp hst).1
    have hall : stages ⊆ d'.keys.toFinset := by
      by_contra hn
      exact hlt ⟨hsub, hn⟩
    refine ⟨ms ++ [msg], List.prefix_refl _, ⟨success_append hsucc hs, hacc, fun stage hst => ?_⟩,
      fun q hq hne => not_complete_before hnot hq hne, ?_⟩
    · exact ((hcoll'.mem_keys stage).mp (hall hst)).2
    · rw [Describes, if_neg hcard]
      exact ⟨d', rfl, hcoll'⟩

theorem reached_append {p : Progress ρ} (h : p.Reached g stages ms)
    (msg : CompleteMessage ρ) : (p.report g stages msg).Reached g stages (ms ++ [msg]) := by
  cases p with
  | waiting d =>
    simp only [Progress.report]
    split
    · next hs => exact ⟨ms, msg, List.prefix_refl _, h.1, h.2.1, hs, rfl⟩
    · next hs =>
      have hs : msg.success = true := Bool.not_eq_false _ ▸ hs
      split
      · next hout => exact reached_ignored h hs hout
      · next hout =>
        have hin : stages = ∅ ∨ g.topology.logicalName msg.fromStage ∈ stages := by
          simpa only [ne_eq, not_and_or, not_not] using hout
        split
        · next hcard => exact reached_single h ⟨hs, hin⟩ hcard
        · next hcard =>
          refine reached_multi h hs (hin.resolve_left fun he => hcard ?_) hcard rfl
          simp [he]
  | resolved o =>
    obtain ⟨q, hq, hrest⟩ := h
    exact ⟨q, hq.trans (List.prefix_append _ _), hrest⟩
  | failed e =>
    obtain ⟨q, m, hq, hrest⟩ := h
    exact ⟨q, m, hq.trans (List.prefix_append _ _), hrest⟩

theorem progress_reached (g : Config) (stages : Finset String) (ms : List (CompleteMessage ρ)) :
    (progress g stages ms).Reached g stages ms := by
  induction ms using List.reverseRecOn with
  | nil =>
    refine ⟨(fun _ h => nomatch h), fun h => ?_, fun stage => ?_⟩
    · obtain ⟨_, hm, _⟩ := h.1
      cases hm
    · simp [lastReport]
  | append_singleton ms msg ih =>
    rw [progress, List.foldl_append]
    exact reached_append ih msg

/-! ### The end, from the messages alone -/

/-- Of two prefixes, one without failures and one that ends in a failure, the first is
the shorter. -/
theorem prefix_before_failure {q : List (CompleteMessage ρ)}
    (hq : q <+: ms) (hs : ∀ x ∈ q, x.success = true) (hp : p ++ [msg] <+: ms)
    (hf : msg.success = false) : q <+: p := by
  have hmem : ¬p ++ [msg] <+: q := by
    intro hpre
    have := hs msg (hpre.subset (by simp))
    rw [hf] at this
    cases this
  rcases List.prefix_or_prefix_of_prefix hq hp with h | h
  · rcases List.prefix_concat_iff.mp h with rfl | h
    · exact absurd (List.prefix_refl _) hmem
    · exact h
  · exact absurd h hmem

theorem progress_resolved_iff :
    (∃ o, progress g stages ms = .resolved o) ↔ ∃ p, p <+: ms ∧ Complete g stages p := by
  have h := progress_reached g stages ms
  cases hp : progress g stages ms with
  | waiting d =>
    rw [hp] at h
    refine ⟨(fun ⟨_, he⟩ => nomatch he), fun ⟨q, hq, hc⟩ => ?_⟩
    exact absurd (hc.2.mono fun x hx => hq.subset hx) h.2.1
  | resolved o =>
    rw [hp] at h
    obtain ⟨q, hq, hc, _⟩ := h
    exact ⟨fun _ => ⟨q, hq, hc⟩, fun _ => ⟨o, rfl⟩⟩
  | failed e =>
    rw [hp] at h
    obtain ⟨q, msg, hq, _, hnot, hf, _⟩ := h
    refine ⟨(fun ⟨_, he⟩ => nomatch he), fun ⟨r, hr, hc⟩ => ?_⟩
    have hpre := prefix_before_failure hr hc.1 hq hf
    exact absurd (hc.2.mono fun x hx => hpre.subset hx) hnot

theorem progress_resolved (hp : p <+: ms) (hc : Complete g stages p)
    (hmin : ∀ q, q <+: p → q ≠ p → ¬Complete g stages q) :
    ∃ o, progress g stages ms = .resolved o ∧ Describes g stages p o := by
  obtain ⟨o, ho⟩ := progress_resolved_iff.mpr ⟨p, hp, hc⟩
  have h := progress_reached g stages ms
  rw [ho] at h
  obtain ⟨q, hq, hcq, hminq, hdesc⟩ := h
  -- both are the first complete prefix
  have heq : q = p := by
    by_contra hne
    rcases List.prefix_or_prefix_of_prefix hq hp with hpre | hpre
    · exact hmin q hpre hne hcq
    · exact hminq p hpre (fun he => hne he.symm) hc
  exact ⟨o, ho, heq ▸ hdesc⟩

theorem progress_failed
    (hp : p ++ [msg] <+: ms) (hs : ∀ x ∈ p, x.success = true) (hnot : ¬AllReported g stages p)
    (hf : msg.success = false) : progress g stages ms = .failed msg.error := by
  have h := progress_reached g stages ms
  cases hpr : progress g stages ms with
  | waiting d =>
    rw [hpr] at h
    have := h.1 msg (hp.subset (by simp))
    rw [hf] at this
    cases this
  | resolved o =>
    rw [hpr] at h
    obtain ⟨q, hq, hc, _⟩ := h
    have hpre := prefix_before_failure hq hc.1 hp hf
    exact absurd (hc.2.mono fun x hx => hpre.subset hx) hnot
  | failed e =>
    rw [hpr] at h
    obtain ⟨q, m, hq, hsq, _, hfm, rfl⟩ := h
    have h₁ := prefix_before_failure ((List.prefix_append q [m]).trans hq) hsq hp hf
    have h₂ := prefix_before_failure ((List.prefix_append p [msg]).trans hp) hs hq hfm
    obtain rfl : q = p := h₁.eq_of_length (Nat.le_antisymm h₁.length_le h₂.length_le)
    have heq : q ++ [m] = q ++ [msg] := by
      rcases List.prefix_or_prefix_of_prefix hq hp with hpre | hpre
      · exact hpre.eq_of_length (by simp)
      · exact (hpre.eq_of_length (by simp)).symm
    rw [List.append_cancel_left_eq, List.cons.injEq] at heq
    rw [heq.1]

theorem progress_waiting (hs : ∀ x ∈ ms, x.success = true)
    (hnot : ¬AllReported g stages ms) : ∃ d, progress g stages ms = .waiting d := by
  have h := progress_reached g stages ms
  cases hp : progress g stages ms with
  | waiting d => exact ⟨d, rfl⟩
  | resolved o =>
    rw [hp] at h
    obtain ⟨q, hq, hc, _⟩ := h
    exact absurd (hc.2.mono fun x hx => hq.subset hx) hnot
  | failed e =>
    rw [hp] at h
    obtain ⟨q, msg, hq, _, _, hf, _⟩ := h
    have := hs msg (hq.subset (by simp))
    rw [hf] at this
    cases this

end SglangOmni.Pipeline.Coordinator

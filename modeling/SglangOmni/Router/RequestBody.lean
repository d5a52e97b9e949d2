import Mathlib.Algebra.GroupWithZero.Nat
import Mathlib.Data.List.Basic

/-! The body of a request that is uploaded directly.

The body counts the data that it passes on. It announces the end of the upload in a cell that it shares, with the last
byte and not with the end of the stream, and after that it does not poll what is inside of it. The lock of the cell is
never poisoned. -/
namespace SglangOmni.Router.RequestBody

abbrev Bytes := List UInt8

inductive HttpFault where
  | requestBodyTooLarge
  | malformedRequest
  deriving DecidableEq

inductive UploadState where
  | incomplete
  | failed (fault : HttpFault)
  | complete
  deriving DecidableEq

/-- `SharedUploadState::for_length`. -/
def forLength (length : UInt64) : UploadState := if length = 0 then .complete else .incomplete

/-- What a poll of the inner body gives. -/
inductive InnerEvent where
  | data (data : Bytes)
  | trailers
  | error
  | ended
  | pending
  deriving DecidableEq

/-- What a poll of the body gives. -/
inductive Polled where
  | data (data : Bytes)
  | error
  | ended
  | pending
  deriving DecidableEq

def u64Size : Nat := 2 ^ 64

structure DirectRequestBody where
  expected : UInt64
  observed : Nat := 0
  finalFrameReturned : Bool := false
  /-- The cell that is shared. -/
  state : UploadState
  terminal : Bool := false

namespace DirectRequestBody

def fail (b : DirectRequestBody) (fault : HttpFault) : DirectRequestBody × Polled :=
  ({ b with terminal := true, state := .failed fault }, .error)

/-- A data frame of the inner body. -/
def onData (b : DirectRequestBody) (data : Bytes) : DirectRequestBody × Polled :=
  if data = [] then (b, .pending)
  else if u64Size ≤ data.length then b.fail .requestBodyTooLarge
  else
    let observed := b.observed + data.length
    if u64Size ≤ observed then b.fail .requestBodyTooLarge
    else if b.expected.toNat < observed then b.fail .requestBodyTooLarge
    else if observed = b.expected.toNat then
      ({ b with observed, state := .complete, finalFrameReturned := true }, .data data)
    else ({ b with observed }, .data data)

/-- A poll that polls the inner body. -/
def onInner (b : DirectRequestBody) : InnerEvent → DirectRequestBody × Polled
  | .data data => b.onData data
  | .trailers => b.fail .malformedRequest
  | .error => b.fail .malformedRequest
  | .ended =>
    let b := { b with terminal := true }
    if b.observed ≠ b.expected.toNat then b.fail .malformedRequest else ({ b with state := .complete }, .ended)
  | .pending => (b, .pending)

/-- `poll_frame`, with the events that are left of the inner body; there is none to wait for behind the last. -/
def pollFrame (b : DirectRequestBody) (inner : List InnerEvent) : (DirectRequestBody × Polled) × List InnerEvent :=
  if b.terminal then ((b, .ended), inner)
  else if b.finalFrameReturned then (({ b with terminal := true }, .ended), inner)
  else
    match inner with
    | [] => ((b, .pending), [])
    | e :: inner => (b.onInner e, inner)

end DirectRequestBody

/-- A body that is polled, with what it has been given and what it has passed on. -/
structure Upload where
  body : DirectRequestBody
  inner : List InnerEvent
  polled : List InnerEvent := []
  yielded : Bytes := []

def Polled.bytes : Polled → Bytes
  | .data frame => frame
  | _ => []

namespace Upload

def start (expected : UInt64) (inner : List InnerEvent) : Upload where
  body := { expected, state := forLength expected }
  inner := inner

def poll (u : Upload) : Upload :=
  let result := u.body.pollFrame u.inner
  { body := result.1.1
    inner := result.2
    polled := u.polled ++ u.inner.take (u.inner.length - result.2.length)
    yielded := u.yielded ++ result.1.2.bytes }

/-- An event of the inner body was polled. -/
def after (u : Upload) (result : DirectRequestBody × Polled) (e : InnerEvent) (rest : List InnerEvent) : Upload where
  body := result.1
  inner := rest
  polled := u.polled ++ [e]
  yielded := u.yielded ++ result.2.bytes

theorem after_silent (u : Upload) {result : DirectRequestBody × Polled} (h : result.2.bytes = []) (e : InnerEvent)
    (rest : List InnerEvent) :
    u.after result e rest = { u with body := result.1, inner := rest, polled := u.polled ++ [e] } := by
  rw [after, h, List.append_nil]

/-- After so many polls. -/
def polls (expected : UInt64) (inner : List InnerEvent) : Nat → Upload
  | 0 => start expected inner
  | n + 1 => (polls expected inner n).poll

end Upload

/-! ### What the inner body gives -/

def InnerEvent.bytes : InnerEvent → Bytes
  | .data frame => frame
  | _ => []

def dataOf (events : List InnerEvent) : Bytes := events.flatMap InnerEvent.bytes

/-- There is a trailer, an error, or a frame that goes beyond the expected length, when `seen` bytes came before. -/
def faulty (expected : Nat) : Nat → List InnerEvent → Bool
  | _, [] => false
  | seen, e :: rest =>
    e = .trailers || e = .error || expected < seen + e.bytes.length || faulty expected (seen + e.bytes.length) rest

theorem dataOf_concat (events : List InnerEvent) (e : InnerEvent) :
    dataOf (events ++ [e]) = dataOf events ++ e.bytes := by
  simp [dataOf]

theorem faulty_concat (expected seen : Nat) (events : List InnerEvent) (e : InnerEvent) :
    faulty expected seen (events ++ [e]) =
      (faulty expected seen events || faulty expected (seen + (dataOf events).length) [e]) := by
  induction events generalizing seen with
  | nil => rfl
  | cons d events ih =>
    have hdata : (dataOf (d :: events)).length = d.bytes.length + (dataOf events).length := by
      simp [dataOf]
    rw [List.cons_append, faulty.eq_2, ih, faulty.eq_2 expected seen d events, hdata, Nat.add_assoc]
    simp only [Bool.or_assoc]

/-! ### The invariant -/

/-- What holds of an upload between two polls. -/
structure Valid (expected : UInt64) (inner : List InnerEvent) (u : Upload) : Prop where
  expects : u.body.expected = expected
  split : inner = u.polled ++ u.inner
  observed : u.yielded.length = u.body.observed
  bound : u.body.observed ≤ expected.toNat
  data : u.yielded <+: dataOf u.polled
  /-- Before the end everything that came was good and was passed on. -/
  going : u.body.terminal = false → faulty expected.toNat 0 u.polled = false ∧ u.yielded = dataOf u.polled ∧
    u.body.state = if u.body.observed = expected.toNat then .complete else .incomplete
  final : u.body.finalFrameReturned = true → u.body.observed = expected.toNat
  ended : u.body.terminal = true →
    u.body.state = .complete ∧ u.body.observed = expected.toNat ∧ faulty expected.toNat 0 u.polled = false ∨
      ∃ fault, u.body.state = .failed fault ∧
        (u.body.observed ≠ expected.toNat ∨ faulty expected.toNat 0 u.polled = true)

theorem valid_start (expected : UInt64) (inner : List InnerEvent) : Valid expected inner (.start expected inner) where
  expects := rfl
  split := rfl
  observed := rfl
  bound := Nat.zero_le _
  data := List.prefix_refl _
  going := by
    intro _
    refine ⟨rfl, rfl, ?_⟩
    show forLength expected = if 0 = expected.toNat then .complete else .incomplete
    have hzero : expected = 0 ↔ 0 = expected.toNat := by
      rw [eq_comm (a := 0), ← UInt64.toNat_inj]
      rfl
    simp only [forLength, hzero]
  final := fun h => (nomatch h)
  ended := fun h => (nomatch h)

section
variable {expected : UInt64} {inner rest : List InnerEvent} {u : Upload} {e : InnerEvent}

/-- Where an event was polled. -/
theorem split_polled (split : inner = u.polled ++ u.inner) (hinner : u.inner = e :: rest) :
    inner = (u.polled ++ [e]) ++ rest := by
  rw [split, hinner, List.append_assoc]
  rfl

/-- What a live body makes of the next event as to its being faulty. -/
theorem Valid.faulty_next (h : Valid expected inner u) (live : u.body.terminal = false) (e : InnerEvent) :
    faulty expected.toNat 0 (u.polled ++ [e]) =
      (e = .trailers || e = .error || expected.toNat < u.body.observed + e.bytes.length) := by
  obtain ⟨hgood, hyielded, _⟩ := h.going live
  rw [faulty_concat, hgood, Nat.zero_add, ← hyielded, h.observed]
  simp [faulty]

/-- An event that neither ends nor adds anything. -/
theorem Valid.quiet (h : Valid expected inner u) (live : u.body.terminal = false) (hinner : u.inner = e :: rest)
    (empty : e.bytes = []) (good : e ≠ .trailers ∧ e ≠ .error) :
    Valid expected inner { u with inner := rest, polled := u.polled ++ [e] } where
  expects := h.expects
  split := split_polled h.split hinner
  observed := h.observed
  bound := h.bound
  data := by
    rw [dataOf_concat, empty, List.append_nil]
    exact h.data
  going := by
    intro _
    obtain ⟨_, hyielded, hstate⟩ := h.going live
    refine ⟨?_, ?_, hstate⟩
    · rw [h.faulty_next live, empty]
      simp [good.1, good.2, h.bound]
    · rw [dataOf_concat, empty, List.append_nil]
      exact hyielded
  final := h.final
  ended := fun hended => by rw [show u.body.terminal = true from hended] at live; cases live

/-- A failure: what was polled is faulty, or has come to its end too early. -/
theorem Valid.fail (h : Valid expected inner u) (hinner : u.inner = e :: rest) (fault : HttpFault)
    (cause : u.body.observed ≠ expected.toNat ∨ faulty expected.toNat 0 (u.polled ++ [e]) = true) :
    Valid expected inner
      { u with body := (u.body.fail fault).1, inner := rest, polled := u.polled ++ [e] } where
  expects := h.expects
  split := split_polled h.split hinner
  observed := h.observed
  bound := h.bound
  data := by
    rw [dataOf_concat]
    exact h.data.trans (List.prefix_append _ _)
  going := fun hlive => (nomatch hlive)
  final := h.final
  ended := fun _ => .inr ⟨fault, rfl, cause⟩

/-- A data frame. -/
theorem Valid.onData (h : Valid expected inner u) (live : u.body.terminal = false)
    (unfinished : u.body.finalFrameReturned = false) {data : Bytes} (hinner : u.inner = .data data :: rest) :
    Valid expected inner (u.after (u.body.onData data) (.data data) rest) := by
  obtain ⟨hgood, hyielded, hstate⟩ := h.going live
  have hsize : expected.toNat < u64Size := expected.toNat_lt
  have hnext := h.faulty_next live (.data data)
  have hoversize : expected.toNat < u.body.observed + data.length →
      faulty expected.toNat 0 (u.polled ++ [.data data]) = true := by
    intro hlt
    rw [hnext]
    simp [InnerEvent.bytes, hlt]
  have hfail : expected.toNat < u.body.observed + data.length →
      Valid expected inner (u.after (u.body.fail .requestBodyTooLarge) (.data data) rest) := by
    intro hlt
    rw [u.after_silent rfl]
    exact h.fail hinner .requestBodyTooLarge (.inr (hoversize hlt))
  unfold DirectRequestBody.onData
  split
  · next hempty =>
    rw [u.after_silent rfl]
    exact h.quiet live hinner hempty ⟨fun he => (nomatch he), fun he => (nomatch he)⟩
  · split
    · next hlong => exact hfail (by omega)
    · dsimp only
      split
      · next hlong => exact hfail (by omega)
      · rw [h.expects]
        split
        · next hlt => exact hfail hlt
        · next hle =>
          have hclean : faulty expected.toNat 0 (u.polled ++ [.data data]) = false := by
            rw [hnext]
            simp only [reduceCtorEq, decide_false, Bool.false_or]
            exact decide_eq_false hle
          have hlength : (u.yielded ++ data).length = u.body.observed + data.length := by
            rw [List.length_append, h.observed]
          have hdata : u.yielded ++ data = dataOf (u.polled ++ [.data data]) := by
            rw [dataOf_concat, hyielded]
            rfl
          split
          · next heq =>
            exact {
              expects := rfl
              split := split_polled h.split hinner
              observed := hlength
              bound := Nat.not_lt.mp hle
              data := hdata ▸ List.prefix_refl _
              going := fun _ => ⟨hclean, hdata, (if_pos heq).symm⟩
              final := fun _ => heq
              ended := fun hended => by rw [show u.body.terminal = true from hended] at live; cases live }
          · next hne =>
            have hbefore : u.body.observed ≠ expected.toNat := by omega
            rw [if_neg hbefore] at hstate
            exact {
              expects := rfl
              split := split_polled h.split hinner
              observed := hlength
              bound := Nat.not_lt.mp hle
              data := hdata ▸ List.prefix_refl _
              going := fun _ => ⟨hclean, hdata, hstate.trans (if_neg hne).symm⟩
              final := fun hfinal => by
                rw [show u.body.finalFrameReturned = true from hfinal] at unfinished
                cases unfinished
              ended := fun hended => by rw [show u.body.terminal = true from hended] at live; cases live }

/-- **One poll** keeps the invariant. -/
theorem Valid.poll (h : Valid expected inner u) : Valid expected inner u.poll := by
  unfold Upload.poll DirectRequestBody.pollFrame
  have hidle : u.polled ++ u.inner.take (u.inner.length - u.inner.length) = u.polled := by
    rw [Nat.sub_self, List.take_zero, List.append_nil]
  split
  · dsimp only
    rw [hidle, show u.yielded ++ Polled.ended.bytes = u.yielded from List.append_nil _]
    exact h
  · next hlive =>
    have live : u.body.terminal = false := by simpa using hlive
    split
    · next hfinal =>
      dsimp only
      rw [hidle, show u.yielded ++ Polled.ended.bytes = u.yielded from List.append_nil _]
      obtain ⟨hgood, _, hstate⟩ := h.going live
      have hall := h.final hfinal
      exact {
        expects := h.expects
        split := h.split
        observed := h.observed
        bound := h.bound
        data := h.data
        going := fun hlive => (nomatch hlive)
        final := h.final
        ended := fun _ => .inl ⟨hstate.trans (if_pos hall), hall, hgood⟩ }
    · next hfinal =>
      have unfinished : u.body.finalFrameReturned = false := by simpa using hfinal
      split
      · next hinner =>
        dsimp only
        rw [hinner, List.take_nil, List.append_nil,
          show u.yielded ++ Polled.pending.bytes = u.yielded from List.append_nil _, ← hinner]
        exact h
      · next e rest hinner =>
        have htake : u.inner.take (u.inner.length - rest.length) = [e] := by
          rw [hinner, List.length_cons, Nat.add_sub_cancel_left]
          rfl
        dsimp only
        rw [htake]
        show Valid expected inner (u.after (u.body.onInner e) e rest)
        cases e with
        | data data => exact h.onData live unfinished hinner
        | trailers | error =>
          rw [u.after_silent rfl]
          exact h.fail hinner .malformedRequest (.inr (by rw [h.faulty_next live]; rfl))
        | pending =>
          rw [u.after_silent rfl]
          exact h.quiet live hinner rfl ⟨fun he => (nomatch he), fun he => (nomatch he)⟩
        | ended =>
          have hquiet := h.quiet live hinner rfl ⟨fun he => (nomatch he), fun he => (nomatch he)⟩
          unfold DirectRequestBody.onInner
          dsimp only
          have hexpects := h.expects
          obtain ⟨⟨_, _, _, _, _⟩, _, _, _⟩ := u
          cases hexpects
          split
          · next hshort =>
            rw [Upload.after_silent _ rfl]
            exact h.fail hinner .malformedRequest (.inl hshort)
          · next hall =>
            rw [Upload.after_silent _ rfl]
            exact {
              expects := rfl
              split := hquiet.split
              observed := h.observed
              bound := h.bound
              data := hquiet.data
              going := fun hlive => (nomatch hlive)
              final := h.final
              ended := fun _ => .inl ⟨rfl, not_not.mp hall, (hquiet.going live).1⟩ }

end

theorem valid_polls (expected : UInt64) (inner : List InnerEvent) (n : Nat) :
    Valid expected inner (.polls expected inner n) := by
  induction n with
  | zero => exact valid_start expected inner
  | succ n ih => exact ih.poll

/-! ### The end of an upload -/

/-- A body that has failed, or has returned its last frame. -/
def DirectRequestBody.Done (b : DirectRequestBody) : Prop := b.terminal = true ∨ b.finalFrameReturned = true

/-- A body that is done passes nothing on, and leaves the cell as it is. -/
theorem poll_done {u : Upload} (h : u.body.Done) :
    u.poll.body.Done ∧ u.poll.yielded = u.yielded ∧ u.poll.body.state = u.body.state := by
  unfold Upload.poll DirectRequestBody.pollFrame
  split
  · exact ⟨h, List.append_nil _, rfl⟩
  · next hlive =>
    obtain hterminal | hfinal := h
    · exact absurd hterminal hlive
    · rw [if_pos hfinal]
      exact ⟨.inl rfl, List.append_nil _, rfl⟩

theorem polls_done {expected : UInt64} {inner : List InnerEvent} {n : Nat}
    (h : (Upload.polls expected inner n).body.Done)
    (m : Nat) :
    (Upload.polls expected inner (n + m)).body.Done ∧
      (Upload.polls expected inner (n + m)).yielded = (Upload.polls expected inner n).yielded ∧
      (Upload.polls expected inner (n + m)).body.state = (Upload.polls expected inner n).body.state := by
  induction m with
  | zero => exact ⟨h, rfl, rfl⟩
  | succ m ih =>
    obtain ⟨hdone, hyielded, hstate⟩ := ih
    obtain ⟨hdone', hyielded', hstate'⟩ := poll_done hdone
    exact ⟨hdone', hyielded'.trans hyielded, hstate'.trans hstate⟩

/-- A failure is published by a body that is terminal. -/
theorem Valid.terminal_of_failed {expected : UInt64} {inner : List InnerEvent} {u : Upload} (h : Valid expected inner u)
    {fault : HttpFault} (failed : u.body.state = .failed fault) : u.body.terminal = true := by
  by_contra hlive
  obtain ⟨_, _, hstate⟩ := h.going (by simpa using hlive)
  rw [failed] at hstate
  split at hstate
  · cases hstate
  · cases hstate

/-- What the framing of an upload comes to after `n` polls. -/
structure Framed (expected : UInt64) (inner : List InnerEvent) (n : Nat) : Prop where
  /-- What is passed on is the beginning of the data, and no more than is expected. -/
  data : (Upload.polls expected inner n).yielded <+: dataOf inner
  bound : (Upload.polls expected inner n).yielded.length ≤ expected.toNat
  /-- The upload ends as complete exactly when all of the data was passed on and nothing that was polled was faulty. -/
  complete : (Upload.polls expected inner n).body.terminal = true →
    ((Upload.polls expected inner n).body.state = .complete ↔
      (Upload.polls expected inner n).yielded.length = expected.toNat ∧
        faulty expected.toNat 0 (Upload.polls expected inner n).polled = false)
  failed : (Upload.polls expected inner n).body.terminal = true →
    (Upload.polls expected inner n).body.state ≠ .complete →
    ∃ fault, (Upload.polls expected inner n).body.state = .failed fault
  /-- After a failure or the last frame nothing is passed on. -/
  still : (Upload.polls expected inner n).body.Done → ∀ m,
    (Upload.polls expected inner (n + m)).yielded = (Upload.polls expected inner n).yielded
  kept : ∀ fault, (Upload.polls expected inner n).body.state = .failed fault → ∀ m,
    (Upload.polls expected inner (n + m)).body.state = .failed fault ∧
      (Upload.polls expected inner (n + m)).yielded = (Upload.polls expected inner n).yielded

/-- **Main theorem.** Every upload is framed, after every number of polls. -/
theorem upload_framed (expected : UInt64) (inner : List InnerEvent) (n : Nat) : Framed expected inner n := by
  have h := valid_polls expected inner n
  refine ⟨?_, ?_, ?_, ?_, ?_, ?_⟩
  · conv_rhs => rw [h.split]
    rw [dataOf, List.flatMap_append]
    exact h.data.trans (List.prefix_append _ _)
  · rw [h.observed]
    exact h.bound
  · intro hterminal
    rw [h.observed]
    obtain ⟨hstate, hall, hgood⟩ | ⟨fault, hstate, hcause⟩ := h.ended hterminal
    · exact ⟨fun _ => ⟨hall, hgood⟩, fun _ => hstate⟩
    · rw [hstate]
      constructor
      · intro hcomplete
        cases hcomplete
      · intro ⟨hall, hgood⟩
        obtain hshort | hfaulty := hcause
        · exact absurd hall hshort
        · rw [hgood] at hfaulty
          cases hfaulty
  · intro hterminal hstate
    obtain ⟨hcomplete, _⟩ | ⟨fault, hfailed, _⟩ := h.ended hterminal
    · exact absurd hcomplete hstate
    · exact ⟨fault, hfailed⟩
  · exact fun hdone m => (polls_done hdone m).2.1
  · intro fault hfailed m
    obtain ⟨_, hyielded, hstate⟩ := polls_done (.inl (h.terminal_of_failed hfailed)) m
    exact ⟨hstate.trans hfailed, hyielded⟩

/-- What was polled before the data had the expected length. -/
def untilReached (expected : Nat) : Nat → List InnerEvent → List InnerEvent
  | _, [] => []
  | seen, e :: rest => if expected ≤ seen then [] else e :: untilReached expected (seen + e.bytes.length) rest

/-- An upload of nothing has the expected length at once, and fails when a trailer comes after that. -/
theorem empty_upload_fails :
    let u := Upload.polls 0 [.trailers] 1
    u.body.terminal = true ∧ u.body.state ≠ .complete ∧ u.yielded.length = (0 : UInt64).toNat ∧
      faulty (0 : UInt64).toNat 0 (untilReached (0 : UInt64).toNat 0 u.polled) = false := by
  decide

end SglangOmni.Router.RequestBody

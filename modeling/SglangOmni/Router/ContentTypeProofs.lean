import SglangOmni.Router.ContentType

/-! The parser of a `Content-Type` accepts its grammar.

Each step of the parser is described by what stands from its cursor on (`At`): how far it goes, and what it has gone
over. No slice is out of range, because both of its ends are places that the cursor has been at. -/
namespace SglangOmni.Router.ContentType
open Lib

/-! ### Places -/

/-- From the cursor on the bytes are `rest`. -/
structure At (bytes : Bytes) (cursor : Nat) (rest : Bytes) : Prop where
  place : ∃ before, bytes = before ++ rest ∧ cursor = before.length

namespace At
variable {bytes rest : Bytes} {cursor : Nat}

theorem start (bytes : Bytes) : At bytes 0 bytes := ⟨[], rfl, rfl⟩

theorem get (h : At bytes cursor rest) : bytes[cursor]? = rest.head? := by
  obtain ⟨before, rfl, rfl⟩ := h.place
  rw [List.getElem?_append_right (Nat.le_refl _), Nat.sub_self]
  cases rest with
  | nil => rfl
  | cons c rest => rfl

theorem advance {gone : Bytes} (h : At bytes cursor (gone ++ rest)) : At bytes (cursor + gone.length) rest := by
  obtain ⟨before, rfl, rfl⟩ := h.place
  exact ⟨before ++ gone, (List.append_assoc ..).symm, (List.length_append).symm⟩

theorem next {c : UInt8} (h : At bytes cursor (c :: rest)) : At bytes (cursor + 1) rest :=
  advance (show At bytes cursor ([c] ++ rest) from h)

theorem at_end (h : At bytes cursor rest) : cursor = bytes.length ↔ rest = [] := by
  obtain ⟨before, rfl, rfl⟩ := h.place
  rw [List.length_append, ← List.length_eq_zero_iff]
  omega

theorem slice {gone : Bytes} (h : At bytes cursor (gone ++ rest)) :
    slice bytes cursor (cursor + gone.length) = .ok gone := by
  obtain ⟨before, rfl, rfl⟩ := h.place
  have hrange : before.length ≤ before.length + gone.length ∧
      before.length + gone.length ≤ (before ++ (gone ++ rest)).length := by
    rw [List.length_append, List.length_append]
    omega
  rw [ContentType.slice, if_pos hrange, ← List.append_assoc, ← List.length_append, List.take_left, List.drop_left]

end At

/-! ### Loops over bytes -/

theorem skipWhile_eq {p : UInt8 → Bool} {bytes rest : Bytes} {cursor : Nat} (h : At bytes cursor rest) :
    skipWhile p bytes cursor = cursor + (rest.takeWhile p).length := by
  induction rest generalizing cursor with
  | nil =>
    unfold skipWhile
    rw [h.get]
    rfl
  | cons c rest ih =>
    have hget := h.get
    unfold skipWhile
    split
    · next hnone =>
      rw [hnone] at hget
      cases hget
    · next d hsome =>
      rw [hsome] at hget
      cases hget
      rw [List.takeWhile_cons]
      split
      · rw [ih h.next, List.length_cons]
        omega
      · rfl

/-- Blanks are gone over up to what is none. -/
theorem skipOws_at {bytes w rest : Bytes} {cursor : Nat} (h : At bytes cursor (w ++ rest)) (blank : IsOws w)
    (free : ∀ c ∈ rest.head?, isOws c = false) : skipOws bytes cursor = cursor + w.length := by
  rw [skipOws, skipWhile_eq h, List.takeWhile_append_of_pos blank]
  cases rest with
  | nil => rw [List.takeWhile_nil, List.append_nil]
  | cons c rest => rw [List.takeWhile_cons, if_neg (by rw [free c rfl]; decide), List.append_nil]

theorem parseToken_at {bytes t rest : Bytes} {cursor : Nat} (h : At bytes cursor (t ++ rest)) (token : IsToken t)
    (free : ∀ c ∈ rest.head?, isTchar c = false) : parseToken bytes cursor = some (cursor + t.length) := by
  have hlength := List.length_pos_iff.mpr token.1
  have hskip : skipWhile isTchar bytes cursor = cursor + t.length := by
    rw [skipWhile_eq h, List.takeWhile_append_of_pos token.2]
    cases rest with
    | nil => rw [List.takeWhile_nil, List.append_nil]
    | cons c rest => rw [List.takeWhile_cons, if_neg (by rw [free c rfl]; decide), List.append_nil]
  rw [parseToken, hskip]
  exact if_pos (by omega)

/-- Where a token is found. -/
theorem of_parseToken {bytes rest : Bytes} {cursor stop : Nat} (h : At bytes cursor rest)
    (hparse : parseToken bytes cursor = some stop) :
    ∃ t after, rest = t ++ after ∧ IsToken t ∧ stop = cursor + t.length := by
  rw [parseToken, skipWhile_eq h] at hparse
  split at hparse
  · next hlt =>
    cases hparse
    refine ⟨rest.takeWhile isTchar, rest.dropWhile isTchar, List.takeWhile_append_dropWhile.symm, ⟨?_, ?_⟩, rfl⟩
    · apply List.length_pos_iff.mp
      omega
    · exact fun c hc => List.mem_takeWhile_imp hc
  · cases hparse

/-- What blanks there are. -/
theorem exists_ows {bytes rest : Bytes} {cursor : Nat} (h : At bytes cursor rest) :
    ∃ w after, rest = w ++ after ∧ IsOws w ∧ skipOws bytes cursor = cursor + w.length :=
  ⟨rest.takeWhile isOws, rest.dropWhile isOws, List.takeWhile_append_dropWhile.symm,
    fun _ hc => List.mem_takeWhile_imp hc, skipWhile_eq h⟩

/-! ### Quoted strings -/

theorem quotedEnd_nil {bytes : Bytes} {cursor : Nat} (h : At bytes cursor []) : quotedEnd bytes cursor = none := by
  have hget := h.get
  unfold quotedEnd
  split
  · rfl
  · next hsome =>
    rw [hget] at hsome
    cases hsome

theorem quotedEnd_cons {bytes rest : Bytes} {cursor : Nat} {c : UInt8} (h : At bytes cursor (c :: rest)) :
    quotedEnd bytes cursor =
      if c = quote then some (cursor + 1)
      else if c = backslash then
        match rest with
        | [] => none
        | e :: _ => if ! isQuotedPairByte e then none else quotedEnd bytes (cursor + 1 + 1)
      else if ! isQdtext c then none
      else quotedEnd bytes (cursor + 1) := by
  have hget := h.get
  have hnext := h.next.get
  rw [quotedEnd]
  split
  · next hnone =>
    rw [hget] at hnone
    cases hnone
  · next d hsome =>
    rw [hget] at hsome
    cases hsome
    split
    · rfl
    · split
      · rw [hnext]
        cases rest with
        | nil => rfl
        | cons e rest => rfl
      · rfl

theorem quotedEnd_at {bytes content rest : Bytes} {cursor : Nat} (h : At bytes cursor (content ++ quote :: rest))
    (text : QuotedText content) : quotedEnd bytes cursor = some (cursor + content.length + 1) := by
  induction text generalizing cursor with
  | nil =>
    rw [quotedEnd_cons h, if_pos rfl]
    rfl
  | @text c tail qdtext _ ih =>
    have hquote : c ≠ quote := fun hc => by
      rw [hc] at qdtext
      exact absurd qdtext (by decide)
    have hslash : c ≠ backslash := fun hc => by
      rw [hc] at qdtext
      exact absurd qdtext (by decide)
    rw [quotedEnd_cons h, if_neg hquote, if_neg hslash, if_neg (by rw [qdtext]; decide), ih (At.next h),
      List.length_cons]
    apply congrArg some
    omega
  | @pair e tail escaped _ ih =>
    rw [quotedEnd_cons h, if_neg (by decide), if_pos rfl]
    show (if ! isQuotedPairByte e then none else quotedEnd bytes (cursor + 1 + 1)) = _
    rw [if_neg (by rw [escaped]; decide), ih (At.next (At.next h)), List.length_cons, List.length_cons]
    apply congrArg some
    omega

theorem of_quotedEnd {bytes : Bytes} {stop : Nat} (rest : Bytes) {cursor : Nat} (h : At bytes cursor rest)
    (hparse : quotedEnd bytes cursor = some stop) :
    ∃ content after, rest = content ++ quote :: after ∧ QuotedText content ∧ stop = cursor + content.length + 1 := by
  match rest with
  | [] =>
    rw [quotedEnd_nil h] at hparse
    cases hparse
  | c :: rest =>
    rw [quotedEnd_cons h] at hparse
    split at hparse
    · next hquote =>
      cases hparse
      exact ⟨[], rest, by rw [hquote]; rfl, .nil, rfl⟩
    · split at hparse
      · next hslash =>
        match rest with
        | [] => cases hparse
        | e :: rest =>
          dsimp only at hparse
          split at hparse
          · cases hparse
          · next hescaped =>
            obtain ⟨content, after, hrest, text, hstop⟩ := of_quotedEnd rest h.next.next hparse
            refine ⟨backslash :: e :: content, after, by rw [hslash, hrest]; rfl,
              .pair (by simpa using hescaped) text, ?_⟩
            rw [hstop, List.length_cons, List.length_cons]
            omega
      · split at hparse
        · cases hparse
        · next hqdtext =>
          obtain ⟨content, after, hrest, text, hstop⟩ := of_quotedEnd rest h.next hparse
          refine ⟨c :: content, after, by rw [hrest]; rfl, .text (by simpa using hqdtext) text, ?_⟩
          rw [hstop, List.length_cons]
          omega
termination_by rest.length

/-! ### Values -/

/-- What stands at the end of a value, as far as a token could go on. -/
def Free (rest : Bytes) : Prop := ∀ c ∈ rest.head?, isTchar c = false

theorem parseValue_at {bytes text rest : Bytes} {cursor : Nat} {v : ParameterValue} (h : At bytes cursor (text ++ rest))
    (spelt : Spelt v text) (free : Free rest) :
    parseValue bytes cursor = .ok (some (v, cursor + text.length)) := by
  cases spelt with
  | token token =>
    have hquote : bytes[cursor]? ≠ some quote := by
      obtain ⟨hne, hall⟩ := token
      rw [h.get]
      cases text with
      | nil => exact absurd rfl hne
      | cons c text =>
        intro hc
        have htchar := hall c (List.mem_cons_self ..)
        rw [Option.some.inj hc] at htchar
        exact absurd htchar (by decide)
    rw [parseValue, if_neg hquote, parseToken_at h token free]
    dsimp only
    rw [h.slice]
    rfl
  | @quoted content htext =>
    have hinner : At bytes (cursor + 1) (content ++ quote :: rest) := by
      apply At.next
      rw [List.cons_append, List.append_assoc] at h
      exact h
    have hquote : bytes[cursor]? = some quote := h.get
    have hslice : slice bytes (cursor + 1) (cursor + 1 + content.length + 1 - 1) = .ok content := hinner.slice
    rw [parseValue, if_pos hquote]
    dsimp only
    rw [quotedEnd_at hinner htext]
    dsimp only
    rw [hslice, List.length_cons, List.length_append, List.length_singleton]
    show Except.ok (some (ParameterValue.quoted content, _)) = .ok (some (ParameterValue.quoted content, _))
    rw [show cursor + 1 + content.length + 1 = cursor + (content.length + 1 + 1) by omega]

/-- A value is found, or none. -/
theorem parseValue_cases {bytes rest : Bytes} {cursor : Nat} (h : At bytes cursor rest) :
    parseValue bytes cursor = .ok none ∨ ∃ v text after, rest = text ++ after ∧ Spelt v text ∧
      parseValue bytes cursor = .ok (some (v, cursor + text.length)) := by
  unfold parseValue
  split
  · next hquote =>
    obtain ⟨inner, rfl⟩ : ∃ inner, rest = quote :: inner := by
      rw [h.get] at hquote
      cases rest with
      | nil => cases hquote
      | cons c inner => exact ⟨inner, by rw [Option.some.inj hquote]⟩
    dsimp only
    cases hend : quotedEnd bytes (cursor + 1) with
    | none => exact .inl rfl
    | some stop =>
      obtain ⟨content, after, hinner, text, hstop⟩ := of_quotedEnd inner h.next hend
      have hslice : slice bytes (cursor + 1) (stop - 1) = .ok content := by
        rw [hstop, Nat.add_sub_cancel]
        exact At.slice (hinner ▸ h.next)
      refine .inr ⟨.quoted content, quote :: (content ++ [quote]), after, ?_, .quoted text, ?_⟩
      · rw [hinner, List.cons_append, List.append_assoc]
        rfl
      · dsimp only
        rw [hslice, List.length_cons, List.length_append, List.length_singleton]
        show Except.ok (some (ParameterValue.quoted content, stop)) = _
        rw [hstop, show cursor + 1 + content.length + 1 = cursor + (content.length + 1 + 1) by omega]
  · cases hparse : parseToken bytes cursor with
    | none => exact .inl rfl
    | some stop =>
      obtain ⟨t, after, rfl, token, rfl⟩ := of_parseToken h hparse
      refine .inr ⟨.token t, t, after, rfl, .token token, ?_⟩
      dsimp only
      rw [h.slice]
      rfl

/-! ### Parameters -/

theorem isOws_not_tchar {c : UInt8} (h : isOws c = true) : isTchar c = false := by
  simp only [isOws, Bool.or_eq_true, decide_eq_true_eq] at h
  obtain rfl | rfl := h
  · decide
  · decide

theorem isTchar_not_ows {c : UInt8} (h : isTchar c = true) : isOws c = false := by
  by_contra hows
  rw [isOws_not_tchar (by simpa using hows)] at h
  cases h

/-- A token is behind blanks where it is behind them. -/
theorem IsToken.free {t : Bytes} (token : IsToken t) (rest : Bytes) : ∀ c ∈ (t ++ rest).head?, isOws c = false := by
  obtain ⟨hne, hall⟩ := token
  cases t with
  | nil => exact absurd rfl hne
  | cons c t =>
    intro d hd
    cases hd
    exact isTchar_not_ows (hall _ (List.mem_cons_self ..))

variable {params : List (Bytes × ParameterValue)}

/-- Behind a value there is a blank, a semicolon or nothing. -/
theorem Parameters.free {tail w : Bytes} (h : Parameters params tail) (blank : IsOws w) : Free (tail ++ w) := by
  have hblank : ∀ {w : Bytes}, IsOws w → ∀ rest, Free rest → Free (w ++ rest) := by
    intro w blank rest free
    cases w with
    | nil => exact free
    | cons c w =>
      intro d hd
      cases hd
      exact isOws_not_tchar (blank _ (List.mem_cons_self ..))
  cases h with
  | nil => exact List.append_nil w ▸ hblank blank [] fun _ hc => (nomatch hc)
  | cons before after named spelt more =>
    rw [List.append_assoc]
    apply hblank before
    intro d hd
    cases hd
    decide

section
variable {σ : Type} {onParameter : σ → Bytes → ParameterValue → σ} {bytes media : Bytes} {mediaStart mediaEnd : Nat}

/-- What the callback has made of parameters. -/
def report (onParameter : σ → Bytes → ParameterValue → σ) (s : σ) (params : List (Bytes × ParameterValue)) : σ :=
  params.foldl (fun s p => onParameter s p.1 p.2) s

/-- The loop reads the parameters that there are. -/
theorem parseParameters_at (hmedia : slice bytes mediaStart mediaEnd = .ok media)
    {params : List (Bytes × ParameterValue)} {tail w : Bytes} (h : Parameters params tail) (blank : IsOws w) {n : Nat}
    (enough : params.length < n) {cursor : Nat} (at_cursor : At bytes cursor (tail ++ w)) (s : σ) :
    parseParameters onParameter bytes mediaStart mediaEnd n s cursor =
      .ok (report onParameter s params, some media) := by
  induction h generalizing n cursor s with
  | nil =>
    obtain ⟨n, rfl⟩ := Nat.exists_eq_add_one_of_ne_zero (Nat.ne_of_gt enough)
    have hw : At bytes cursor (w ++ []) := by
      rw [List.append_nil]
      exact at_cursor
    have hskip : skipOws bytes cursor = cursor + w.length := skipOws_at hw blank fun _ hc => (nomatch hc)
    have hend : cursor + w.length = bytes.length := hw.advance.at_end.mpr rfl
    rw [parseParameters, hskip]
    dsimp only
    rw [if_pos hend, hmedia]
    rfl
  | @cons w₁ w₂ name text tail v params before after named spelt more ih =>
    obtain ⟨n, rfl⟩ := Nat.exists_eq_add_one_of_ne_zero (Nat.ne_of_gt (Nat.lt_of_le_of_lt (Nat.zero_le _) enough))
    have h₁ : At bytes cursor (w₁ ++ semicolon :: (w₂ ++ (name ++ equals :: (text ++ (tail ++ w))))) := by
      simpa only [List.append_assoc, List.cons_append] using at_cursor
    have h₂ := h₁.advance
    have h₃ := h₂.next.advance
    have h₄ := h₃.advance
    have hskip₁ : skipOws bytes cursor = cursor + w₁.length := by
      apply skipOws_at h₁ before
      intro c hc
      cases hc
      decide
    have hskip₂ : skipOws bytes (cursor + w₁.length + 1) = cursor + w₁.length + 1 + w₂.length :=
      skipOws_at h₂.next after (named.free _)
    have hname := parseToken_at h₃ named (by
      intro c hc
      cases hc
      decide)
    have hvalue := parseValue_at h₄.next spelt (more.free blank)
    have hend : cursor + w₁.length ≠ bytes.length := fun he => List.cons_ne_nil _ _ (h₂.at_end.mp he)
    rw [parseParameters, hskip₁]
    dsimp only
    rw [if_neg hend, if_neg (by rw [h₂.get]; exact not_not.mpr rfl), hskip₂, hname]
    dsimp only
    rw [h₃.slice]
    show (if bytes[_]? ≠ some equals then _ else _) = _
    rw [if_neg (by rw [h₄.get]; exact not_not.mpr rfl), hvalue]
    exact ih (Nat.lt_of_succ_lt_succ enough) h₄.next.advance (onParameter s name v)

/-- What the loop makes of a text: it reads parameters to the end, or returns without a media type. -/
theorem parseParameters_cases (n : Nat) {rest : Bytes} {cursor : Nat} (at_cursor : At bytes cursor rest) (s : σ) :
    (∃ s', parseParameters onParameter bytes mediaStart mediaEnd n s cursor = .ok (s', none)) ∨
      ∃ params tail w, Parameters params tail ∧ IsOws w ∧ rest = tail ++ w := by
  induction n generalizing rest cursor s with
  | zero => exact .inl ⟨s, rfl⟩
  | succ n ih =>
    obtain ⟨w₁, rest₁, rfl, before, hskip₁⟩ := exists_ows at_cursor
    have h₁ := at_cursor.advance
    rw [parseParameters, hskip₁]
    dsimp only
    split
    · next hend =>
      rw [h₁.at_end.mp hend]
      exact .inr ⟨[], [], w₁, .nil, before, List.append_nil w₁⟩
    · split
      · exact .inl ⟨s, rfl⟩
      · next hget =>
        obtain ⟨rest₂, rfl⟩ : ∃ rest₂, rest₁ = semicolon :: rest₂ := by
          rw [h₁.get, not_not] at hget
          cases rest₁ with
          | nil => cases hget
          | cons c rest₂ => exact ⟨rest₂, by rw [Option.some.inj hget]⟩
        obtain ⟨w₂, rest₃, rfl, after, hskip₂⟩ := exists_ows h₁.next
        have h₂ := h₁.next.advance
        rw [hskip₂]
        cases hparse : parseToken bytes (cursor + w₁.length + 1 + w₂.length) with
        | none => exact .inl ⟨s, rfl⟩
        | some stop =>
          obtain ⟨name, rest₄, rfl, named, rfl⟩ := of_parseToken h₂ hparse
          have h₃ := h₂.advance
          dsimp only
          rw [h₂.slice]
          show (∃ s', (if bytes[_]? ≠ some equals then _ else _) = _) ∨ _
          split
          · exact .inl ⟨s, rfl⟩
          · next hget₂ =>
            obtain ⟨rest₅, rfl⟩ : ∃ rest₅, rest₄ = equals :: rest₅ := by
              rw [h₃.get, not_not] at hget₂
              cases rest₄ with
              | nil => cases hget₂
              | cons c rest₅ => exact ⟨rest₅, by rw [Option.some.inj hget₂]⟩
            obtain hnone | ⟨v, text, rest₆, rfl, spelt, hvalue⟩ := parseValue_cases h₃.next
            · rw [hnone]
              exact .inl ⟨s, rfl⟩
            · rw [hvalue]
              obtain hfail | ⟨params, tail, w, more, blank, rfl⟩ := ih h₃.next.advance (onParameter s name v)
              · exact .inl hfail
              · refine .inr ⟨(name, v) :: params, _, w, .cons before after named spelt more, blank, ?_⟩
                simp only [List.append_assoc, List.cons_append]

end

theorem Parameters.length_le {tail : Bytes} (h : Parameters params tail) :
    params.length ≤ tail.length := by
  induction h with
  | nil => exact Nat.le_refl _
  | cons before after named spelt more ih =>
    simp only [List.length_append, List.length_cons]
    omega

/-! ### The whole value -/

section
variable {σ : Type} {onParameter : σ → Bytes → ParameterValue → σ} {value media : Bytes}

/-- A value of the grammar is read as what it is. -/
theorem parseContentType_of {params : List (Bytes × ParameterValue)} (h : IsContentType media params value) (s : σ) :
    parseContentType onParameter value s = .ok (report onParameter s params, some media) := by
  obtain ⟨w, t, u, tail, w', before, token, subtoken, rfl, parameters, blank, hvalue⟩ := h
  have h₁ : At value 0 (w ++ (t ++ slash :: (u ++ (tail ++ w')))) := by
    have hstart := At.start value
    rw [hvalue] at hstart ⊢
    simpa only [List.append_assoc, List.cons_append] using hstart
  have h₂ := h₁.advance
  have h₃ := h₂.advance
  have hskip : skipOws value 0 = 0 + w.length := skipOws_at h₁ before (token.free _)
  have htoken := parseToken_at h₂ token (by
    intro c hc
    cases hc
    decide)
  have hsubtoken := parseToken_at h₃.next subtoken (parameters.free blank)
  have hmedia : slice value (0 + w.length) (0 + w.length + t.length + 1 + u.length) = .ok (t ++ slash :: u) := by
    have hwhole : At value (0 + w.length) ((t ++ slash :: u) ++ (tail ++ w')) := by
      simpa only [List.append_assoc, List.cons_append] using h₂
    have hslice := hwhole.slice
    rw [List.length_append, List.length_cons] at hslice
    rw [← hslice]
    apply congrArg (slice value (0 + w.length))
    omega
  have enough : params.length < value.length + 1 := by
    have hle := parameters.length_le
    rw [hvalue]
    simp only [List.length_append]
    omega
  rw [parseContentType, hskip, htoken]
  dsimp only
  rw [if_neg (by rw [h₃.get]; exact not_not.mpr rfl), hsubtoken]
  exact parseParameters_at hmedia parameters blank enough h₃.next.advance s

/-- A value is refused, or is of the grammar. -/
theorem parseContentType_cases (onParameter : σ → Bytes → ParameterValue → σ) (value : Bytes) (s : σ) :
    (∃ s', parseContentType onParameter value s = .ok (s', none)) ∨
      ∃ media params, IsContentType media params value := by
  obtain ⟨w, rest₁, hvalue, before, hskip⟩ := exists_ows (At.start value)
  have h₁ : At value (0 + w.length) rest₁ := At.advance (hvalue ▸ At.start value)
  rw [parseContentType, hskip]
  cases htoken : parseToken value (0 + w.length) with
  | none => exact .inl ⟨s, rfl⟩
  | some stop =>
    obtain ⟨t, rest₂, rfl, token, rfl⟩ := of_parseToken h₁ htoken
    have h₂ := h₁.advance
    dsimp only
    split
    · exact .inl ⟨s, rfl⟩
    · next hget =>
      obtain ⟨rest₃, rfl⟩ : ∃ rest₃, rest₂ = slash :: rest₃ := by
        rw [h₂.get, not_not] at hget
        cases rest₂ with
        | nil => cases hget
        | cons c rest₃ => exact ⟨rest₃, by rw [Option.some.inj hget]⟩
      cases hsubtoken : parseToken value (0 + w.length + t.length + 1) with
      | none => exact .inl ⟨s, rfl⟩
      | some mediaEnd =>
        obtain ⟨u, rest₄, rfl, subtoken, rfl⟩ := of_parseToken h₂.next hsubtoken
        obtain hfail | ⟨params, tail, w', parameters, blank, rfl⟩ :=
          parseParameters_cases (value.length + 1) h₂.next.advance s
        · exact .inl hfail
        · refine .inr ⟨t ++ slash :: u, params, w, t, u, tail, w', before, token, subtoken, rfl, parameters, blank, ?_⟩
          rw [hvalue]
          simp only [List.append_assoc, List.cons_append]

theorem parseContentType_iff {s s' : σ} :
    parseContentType onParameter value s = .ok (s', some media) ↔
      ∃ params, IsContentType media params value ∧ s' = report onParameter s params := by
  constructor
  · intro h
    obtain ⟨_, hnone⟩ | ⟨media', params, hvalue⟩ := parseContentType_cases onParameter value s
    · rw [hnone] at h
      cases h
    · rw [parseContentType_of hvalue] at h
      cases h
      exact ⟨params, hvalue, rfl⟩
  · intro ⟨params, hvalue, hs⟩
    rw [hs, parseContentType_of hvalue]

/-- No slice is out of range. -/
theorem parseContentType_ok (onParameter : σ → Bytes → ParameterValue → σ) (value : Bytes) (s : σ) :
    ∃ result, parseContentType onParameter value s = .ok result := by
  obtain ⟨s', hnone⟩ | ⟨media, params, hvalue⟩ := parseContentType_cases onParameter value s
  · exact ⟨_, hnone⟩
  · exact ⟨_, parseContentType_of hvalue s⟩

end

/-! ### The value of a parameter -/

theorem unescape_text {c : UInt8} (h : c ≠ backslash) (rest : Bytes) : unescape (c :: rest) = c :: unescape rest := by
  cases rest <;> simp [unescape, h]

theorem unescape_pair (e : UInt8) (rest : Bytes) : unescape (backslash :: e :: rest) = e :: unescape rest := by
  simp [unescape]

namespace ParameterValue
variable {quoted : Bool} {bytes expected rest : Bytes} {index expectedIndex : Nat} {wanted : Bytes}

theorem eqFrom_nil (h : At bytes index []) (hexpected : At expected expectedIndex wanted) :
    eqFrom quoted bytes expected index expectedIndex = decide (wanted = []) := by
  have hend := h.at_end.mpr rfl
  rw [eqFrom, dif_neg (by omega)]
  exact decide_eq_decide.mpr hexpected.at_end

/-- A turn of the loop, which looks at the byte `e`; `tail` is what the rest says. -/
theorem eqFrom_cons {c e : UInt8} {after tail : Bytes} {index' : Nat} (h : At bytes index (c :: rest))
    (hindex : index' = if quoted && c = backslash then index + 1 else index) (h' : At bytes index' (e :: after))
    (ih : ∀ {wanted : Bytes} {expectedIndex : Nat}, At expected expectedIndex wanted →
      eqFrom quoted bytes expected (index' + 1) expectedIndex = ContentType.eqIgnoreAsciiCase tail wanted)
    (hexpected : At expected expectedIndex wanted) :
    eqFrom quoted bytes expected index expectedIndex = ContentType.eqIgnoreAsciiCase (e :: tail) wanted := by
  have hget : ∀ {bytes rest : Bytes} {cursor : Nat} {c : UInt8}, At bytes cursor (c :: rest) →
      ∃ h : cursor < bytes.length, bytes.get ⟨cursor, h⟩ = c := fun h => List.getElem?_eq_some_iff.mp h.get
  obtain ⟨hlt, hc⟩ := hget h
  obtain ⟨hlt', he⟩ := hget h'
  rw [eqFrom, dif_pos hlt]
  simp only [hc, ← hindex]
  cases wanted with
  | nil =>
    have hend := hexpected.at_end.mpr rfl
    rw [dif_neg (by omega)]
    rfl
  | cons d wanted =>
    obtain ⟨hltd, hd⟩ := hget hexpected
    rw [dif_pos ⟨hlt', hltd⟩, he, hd, ih hexpected.next]
    unfold ContentType.eqIgnoreAsciiCase
    rw [List.map_cons, List.map_cons]
    by_cases hcase : lower e = lower d
    · simp [hcase]
    · simp [hcase]

/-- A token is compared as it is. -/
theorem eqFrom_token (h : At bytes index rest) (hexpected : At expected expectedIndex wanted) :
    eqFrom false bytes expected index expectedIndex = ContentType.eqIgnoreAsciiCase rest wanted := by
  induction rest generalizing index expectedIndex wanted with
  | nil =>
    rw [eqFrom_nil h hexpected]
    cases wanted with
    | nil => rfl
    | cons d wanted => rfl
  | cons c rest ih => exact eqFrom_cons h (show index = _ from rfl) h (ih h.next) hexpected

/-- A quoted string is compared without its backslashes. -/
theorem eqFrom_quoted (text : QuotedText rest) (h : At bytes index rest)
    (hexpected : At expected expectedIndex wanted) :
    eqFrom true bytes expected index expectedIndex = ContentType.eqIgnoreAsciiCase (unescape rest) wanted := by
  induction text generalizing index expectedIndex wanted with
  | nil =>
    rw [eqFrom_nil h hexpected]
    cases wanted with
    | nil => rfl
    | cons d wanted => rfl
  | @text c tail qdtext _ ih =>
    have hslash : c ≠ backslash := fun hc => by
      rw [hc] at qdtext
      exact absurd qdtext (by decide)
    have hindex : index = if true && decide (c = backslash) then index + 1 else index := by simp [hslash]
    rw [unescape_text hslash]
    exact eqFrom_cons h hindex h (ih h.next) hexpected
  | @pair e tail escaped _ ih =>
    rw [unescape_pair]
    exact eqFrom_cons h (show index + 1 = _ from rfl) h.next (ih h.next.next) hexpected

/-- A value is compared by what it says. -/
theorem eqIgnoreAsciiCase_of {v : ParameterValue} {text : Bytes} (spelt : Spelt v text) (expected : Bytes) :
    v.eqIgnoreAsciiCase expected = ContentType.eqIgnoreAsciiCase v.said expected := by
  cases spelt with
  | token h => exact eqFrom_token (At.start _) (At.start _)
  | quoted h => exact eqFrom_quoted h (At.start _) (At.start _)

end ParameterValue

/-! ### The media type of a request -/

/-- There is no parameter, or one, and it is a charset that is UTF-8. -/
def OnlyUtf8Charset (params : List (Bytes × ParameterValue)) : Prop :=
  params.length ≤ 1 ∧ ∀ p ∈ params, eqIgnoreAsciiCase p.1 (bytesOf "charset") = true ∧
    eqIgnoreAsciiCase p.2.said (bytesOf "utf-8") = true

theorem Parameters.spelt {tail : Bytes} (h : Parameters params tail) :
    ∀ p ∈ params, ∃ text, Spelt p.2 text := by
  induction h with
  | nil => exact fun _ hp => (nomatch hp)
  | @cons w w' name text tail v params before after named spelt more ih =>
    exact List.forall_mem_cons.mpr ⟨⟨text, spelt⟩, ih⟩

theorem onRequestParameter_invalid {s : RequestParameters} (h : s.validParameters = false) (name : Bytes)
    (v : ParameterValue) : (onRequestParameter s name v).validParameters = false := by
  unfold onRequestParameter
  split
  · rfl
  · dsimp only
    split
    · rfl
    · exact h

/-- What was refused stays refused. -/
theorem report_invalid {s : RequestParameters} (h : s.validParameters = false)
    (params : List (Bytes × ParameterValue)) : (report onRequestParameter s params).validParameters = false := by
  induction params generalizing s with
  | nil => exact h
  | cons p params ih => exact ih (onRequestParameter_invalid h p.1 p.2)

/-- Whether the callback has found the parameters valid. -/
theorem report_valid (spelt : ∀ p ∈ params, ∃ text, Spelt p.2 text) :
    (report onRequestParameter {} params).validParameters = true ↔ OnlyUtf8Charset params := by
  cases params with
  | nil => exact ⟨fun _ => ⟨Nat.zero_le _, fun _ hp => (nomatch hp)⟩, fun _ => rfl⟩
  | cons p rest =>
    obtain ⟨name, v⟩ := p
    obtain ⟨text, hv⟩ := spelt _ (List.mem_cons_self ..)
    have hsaid := ParameterValue.eqIgnoreAsciiCase_of hv (bytesOf "utf-8")
    by_cases hname : eqIgnoreAsciiCase name (bytesOf "charset") = true
    · by_cases hutf8 : eqIgnoreAsciiCase v.said (bytesOf "utf-8") = true
      · have hfirst : onRequestParameter {} name v = { charsetSeen := true, validParameters := true } := by
          simp [onRequestParameter, hname, hsaid, hutf8]
        cases rest with
        | nil =>
          constructor
          · intro _
            refine ⟨Nat.le_refl _, fun p hp => ?_⟩
            rw [List.mem_singleton.mp hp]
            exact ⟨hname, hutf8⟩
          · intro _
            show (onRequestParameter {} name v).validParameters = true
            rw [hfirst]
        | cons q rest =>
          constructor
          · intro h
            rw [show report onRequestParameter {} ((name, v) :: q :: rest) =
              report onRequestParameter (onRequestParameter (onRequestParameter {} name v) q.1 q.2) rest from rfl,
              report_invalid (by rw [hfirst]; rfl)] at h
            cases h
          · intro h
            have := h.1
            simp only [List.length_cons] at this
            omega
      · constructor
        · intro h
          rw [show report onRequestParameter {} ((name, v) :: rest) =
            report onRequestParameter (onRequestParameter {} name v) rest from rfl,
            report_invalid (by simp [onRequestParameter, hname, hsaid, hutf8])] at h
          cases h
        · intro h
          exact absurd (h.2 _ (List.mem_cons_self ..)).2 hutf8
    · constructor
      · intro h
        rw [show report onRequestParameter {} ((name, v) :: rest) =
          report onRequestParameter (onRequestParameter {} name v) rest from rfl,
          report_invalid (by simp [onRequestParameter, hname])] at h
        cases h
      · intro h
        exact absurd (h.2 _ (List.mem_cons_self ..)).1 hname

/-- A callback that keeps what it is told keeps the parameters. -/
theorem report_list (params l : List (Bytes × ParameterValue)) :
    report (fun l name v => l ++ [(name, v)]) l params = l ++ params := by
  induction params generalizing l with
  | nil => exact (List.append_nil l).symm
  | cons p params ih => exact (ih _).trans (List.append_assoc ..)

/-- **Main theorem.** The parser never panics, accepts exactly the grammar, and reports the parameters in order; a value
is of the media type of a request when its own is the same and there is no parameter but a UTF-8 charset. -/
theorem parses_content_types (value : Bytes) :
    (∀ (σ : Type) (onParameter : σ → Bytes → ParameterValue → σ) (s : σ),
      (∃ result, parseContentType onParameter value s = .ok result) ∧
        ∀ s' media, parseContentType onParameter value s = .ok (s', some media) ↔
          ∃ params, IsContentType media params value ∧ s' = report onParameter s params) ∧
    ∀ expected, ∃ answer, isRequestMediaType value expected = .ok answer ∧
      (answer = true ↔ ∃ media params, IsContentType media params value ∧ eqIgnoreAsciiCase media expected = true ∧
        OnlyUtf8Charset params) := by
  constructor
  · intro σ onParameter s
    exact ⟨parseContentType_ok onParameter value s, fun s' media => parseContentType_iff⟩
  · intro expected
    obtain ⟨⟨s, found⟩, hresult⟩ := parseContentType_ok onRequestParameter value {}
    cases found with
    | none =>
      refine ⟨false, by rw [isRequestMediaType, hresult]; rfl, fun h => (nomatch h), ?_⟩
      intro ⟨media, params, hvalue, _⟩
      rw [parseContentType_of hvalue] at hresult
      cases hresult
    | some media =>
      obtain ⟨params, hvalue, hs⟩ := parseContentType_iff.mp hresult
      have hspelt : ∀ p ∈ params, ∃ text, Spelt p.2 text := by
        obtain ⟨_, _, _, _, _, _, _, _, _, parameters, _⟩ := hvalue
        exact parameters.spelt
      refine ⟨eqIgnoreAsciiCase media expected && s.validParameters, by rw [isRequestMediaType, hresult]; rfl, ?_⟩
      rw [Bool.and_eq_true, hs, report_valid hspelt]
      constructor
      · intro ⟨hmedia, honly⟩
        exact ⟨media, params, hvalue, hmedia, honly⟩
      · intro ⟨media', params', hvalue', hmedia, honly⟩
        -- the callback that keeps what it is told shows that there is one reading
        have hlist : ∀ {media params}, IsContentType media params value →
            parseContentType (fun l name v => l ++ [(name, v)]) value [] = .ok (params, some media) := by
          intro media params h
          rw [parseContentType_of h, report_list]
          rfl
        have hsame := (hlist hvalue).symm.trans (hlist hvalue')
        cases hsame
        exact ⟨hmedia, honly⟩

end SglangOmni.Router.ContentType

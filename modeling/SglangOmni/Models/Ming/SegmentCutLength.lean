import SglangOmni.Models.Ming.SegmentCut
import SglangOmni.Lib.Words
import Mathlib

/-! No fragment of the text cut is too long.

Where two texts are put together, their semantic lengths add up, but for a word that goes on across the joint. A long
clause is cut in front of a word or of a Chinese character, in pieces of the full length (`splitLongFragment_cuts`). -/
namespace SglangOmni.Models.Ming
open Lib

/-! ### Semantic lengths -/

/-- The last character is a letter; `fresh` tells of the empty text. -/
abbrev endsInWord (fresh : Bool) (text : Text) : Bool := endsFresh isLetter fresh text

theorem wordCount_append (inWord : Bool) (x y : Text) :
    wordCount inWord (x ++ y) = wordCount inWord x + wordCount (endsInWord inWord x) y := by
  induction x generalizing inWord with
  | nil => exact (Nat.zero_add _).symm
  | cons c rest ih =>
    rw [List.cons_append, wordCount, wordCount, endsInWord, endsFresh, ih, ih]
    cases isLetter c with
    | true => exact (Nat.add_assoc ..).symm
    | false => rfl

theorem wordCount_inWord (text : Text) :
    wordCount true text ≤ wordCount false text ∧ wordCount false text ≤ wordCount true text + 1 := by
  cases text with
  | nil => exact ⟨Nat.le_refl _, Nat.le_succ _⟩
  | cons c rest =>
    rw [wordCount, wordCount]
    cases isLetter c with
    | true =>
      simp only [if_true, Bool.false_eq_true, if_false]
      omega
    | false =>
      simp only [Bool.false_eq_true, if_false]
      omega

/-- A word that begins a text does not go on. -/
theorem wordCount_of_head {text : Text} (h : ∀ c ∈ text.head?, isLetter c = false) :
    wordCount true text = wordCount false text := by
  cases text with
  | nil => rfl
  | cons c rest => simp [wordCount, h c rfl]

theorem getSemanticLength_append_le (x y : Text) :
    getSemanticLength (x ++ y) ≤ getSemanticLength x + getSemanticLength y := by
  have hword := wordCount_inWord y
  unfold getSemanticLength
  rw [List.countP_append, wordCount_append]
  cases endsInWord false x <;> omega

theorem getSemanticLength_le_left (x y : Text) : getSemanticLength x ≤ getSemanticLength (x ++ y) := by
  unfold getSemanticLength
  rw [List.countP_append, wordCount_append]
  omega

/-- A text that ends in a word has a word. -/
theorem wordCount_pos {inWord : Bool} {x : Text} (h : endsInWord inWord x = true) (hstart : inWord = false) :
    1 ≤ wordCount inWord x := by
  induction x generalizing inWord with
  | nil => exact absurd (h.symm.trans hstart) (by decide)
  | cons c rest ih =>
    rw [wordCount]
    cases hc : isLetter c with
    | true =>
      simp only [if_true, hstart, Bool.false_eq_true, if_false]
      omega
    | false =>
      rw [endsInWord, endsFresh, hc] at h
      simp only [Bool.false_eq_true, if_false]
      exact ih h rfl

theorem getSemanticLength_le_right (x y : Text) : getSemanticLength y ≤ getSemanticLength (x ++ y) := by
  have hword := wordCount_inWord y
  unfold getSemanticLength
  rw [List.countP_append, wordCount_append]
  cases hends : endsInWord false x with
  | true =>
    have hpos := wordCount_pos hends rfl
    omega
  | false => omega

/-- No word goes on across the joint. -/
def Joint (x y : Text) : Prop := ∀ c ∈ y.head?, isLetter c = true → endsInWord false x = false

theorem getSemanticLength_append {x y : Text} (h : Joint x y) :
    getSemanticLength (x ++ y) = getSemanticLength x + getSemanticLength y := by
  have hword : wordCount (endsInWord false x) y = wordCount false y := by
    cases hends : endsInWord false x with
    | false => rfl
    | true =>
      refine wordCount_of_head fun c hc => ?_
      cases hletter : isLetter c with
      | false => rfl
      | true => exact absurd (hends.symm.trans (h c hc hletter)) (by decide)
  unfold getSemanticLength
  rw [List.countP_append, wordCount_append, hword]
  omega

/-- Characters that are neither letters nor Chinese. -/
theorem getSemanticLength_other {x : Text} (h : ∀ c ∈ x, isHan c = false ∧ isLetter c = false) (y : Text) :
    getSemanticLength (x ++ y) = getSemanticLength y := by
  induction x with
  | nil => rfl
  | cons c rest ih =>
    obtain ⟨hhan, hletter⟩ := h c List.mem_cons_self
    have hrest := ih fun d hd => h d (List.mem_cons_of_mem _ hd)
    unfold getSemanticLength at hrest ⊢
    rw [List.cons_append, List.countP_cons_of_neg (by simp [hhan]), wordCount, if_neg (by simp [hletter])]
    exact hrest

/-! ### Semantic units -/

theorem isLetter_of_han {c : Char} (h : isHan c = true) : isLetter c = false := by
  have hle : 0x4e00 ≤ c.toNat := by
    simp only [isHan, Bool.and_eq_true, decide_eq_true_eq] at h
    exact h.1
  have hval : c.val.toNat = c.toNat := rfl
  have hupper : 'Z'.val.toNat = 90 := rfl
  have hlower : 'z'.val.toNat = 122 := rfl
  cases hletter : isLetter c with
  | false => rfl
  | true =>
    simp only [isLetter, Char.isAlpha, Char.isUpper, Char.isLower, Bool.or_eq_true, Bool.and_eq_true, decide_eq_true_eq,
      ge_iff_le, UInt32.le_iff_toNat_le, hval, hupper, hlower] at hletter
    omega

/-- The characters of a unit are of one kind, and a Chinese one is alone. -/
theorem unitKind_of_chain {c : Char} {rest : Text} (h : (c :: rest).IsChain fun a b => sameUnit a b = true) :
    (∀ x ∈ c :: rest, unitKind x = unitKind c) ∧ (unitKind c = .han → rest = []) := by
  induction rest generalizing c with
  | nil => exact ⟨fun x hx => by rw [List.mem_singleton.mp hx], fun _ => rfl⟩
  | cons d rest ih =>
    obtain ⟨hsame, hrest⟩ := List.isChain_cons_cons.mp h
    simp only [sameUnit, Bool.and_eq_true, beq_iff_eq, bne_iff_ne] at hsame
    refine ⟨fun x hx => ?_, fun hhan => absurd hhan hsame.2⟩
    rcases List.mem_cons.mp hx with rfl | hx
    · rfl
    · exact ((ih hrest).1 x hx).trans hsame.1.symm

/-- A semantic unit has the length of its kind. -/
theorem getSemanticLength_unit {c : Char} {rest : Text} (h : (c :: rest).IsChain fun a b => sameUnit a b = true) :
    getSemanticLength (c :: rest) = if unitKind c = .other then 0 else 1 := by
  obtain ⟨hkind, halone⟩ := unitKind_of_chain h
  have hhan : ∀ x, unitKind x = .han ↔ isHan x = true := fun x => by
    unfold unitKind
    cases isHan x <;> cases isLetter x <;> simp
  have hletter : ∀ x, unitKind x = .letter ↔ isHan x = false ∧ isLetter x = true := fun x => by
    unfold unitKind
    cases isHan x <;> cases isLetter x <;> simp
  have hother : ∀ x, unitKind x = .other ↔ isHan x = false ∧ isLetter x = false := fun x => by
    unfold unitKind
    cases isHan x <;> cases isLetter x <;> simp
  cases hc : unitKind c with
  | han =>
    have hword := isLetter_of_han ((hhan c).mp hc)
    rw [halone hc]
    simp [getSemanticLength, wordCount, (hhan c).mp hc, hword]
  | letter =>
    have hletters : ∀ x ∈ c :: rest, isHan x = false ∧ isLetter x = true := fun x hx =>
      (hletter x).mp ((hkind x hx).trans hc)
    have hnone : (c :: rest).countP isHan = 0 := List.countP_eq_zero.mpr fun x hx => by simp [(hletters x hx).1]
    have hwords : ∀ y : Text, (∀ x ∈ y, isLetter x = true) → wordCount true y = 0 := by
      intro y hy
      induction y with
      | nil => rfl
      | cons d y ih => simp [wordCount, hy d List.mem_cons_self, ih fun x hx => hy x (List.mem_cons_of_mem _ hx)]
    have hrest := hwords rest fun x hx => (hletters x (List.mem_cons_of_mem _ hx)).2
    rw [getSemanticLength, hnone, wordCount, if_pos (hletters c List.mem_cons_self).2, hrest]
    rfl
  | other =>
    have hnone := getSemanticLength_other (fun x hx => (hother x).mp ((hkind x hx).trans hc)) ([] : Text)
    rw [List.append_nil] at hnone
    rw [hnone]
    rfl

/-! ### Long clauses -/

/-- A long clause is cut: the piece before is full, and a unit that counts begins the piece after. -/
structure Cut (maxLen : Nat) (p q : Text) : Prop where
  full : getSemanticLength p = maxLen
  joint : Joint p q
  counts : ∃ c ∈ q.head?, unitKind c ≠ .other

/-- No unit goes on across the joint. -/
def UnitBreak (p q : Text) : Prop := ∃ hp hq, sameUnit (p.getLast hp) (q.head hq) = false

/-- The last character of a text that is not empty. -/
theorem endsInWord_getLast (inWord : Bool) {x : Text} (h : x ≠ []) : endsInWord inWord x = isLetter (x.getLast h) := by
  induction x generalizing inWord with
  | nil => exact absurd rfl h
  | cons c rest ih =>
    cases rest with
    | nil => rfl
    | cons d rest => exact ih (isLetter c) (List.cons_ne_nil _ _)

/-- Two words do not touch. -/
theorem UnitBreak.joint {p q : Text} (h : UnitBreak p q) : Joint p q := by
  obtain ⟨hp, hq, hbreak⟩ := h
  intro c hc hletter
  have hhead : q.head hq = c := Option.some.inj ((List.head?_eq_some_head hq).symm.trans hc)
  rw [hhead] at hbreak
  rw [endsInWord_getLast false hp]
  by_contra hlast
  have hword := (Bool.not_eq_false _).mp hlast
  have hkind : ∀ x, isLetter x = true → unitKind x = .letter := fun x hx => by
    have hhan : isHan x = false := by
      cases hhan : isHan x with
      | false => rfl
      | true => exact absurd (isLetter_of_han hhan) (by simp [hx])
    simp [unitKind, hhan, hx]
  simp [sameUnit, hkind _ hword, hkind c hletter] at hbreak

theorem foldl_addUnit {maxLen : Nat} (hmax : 1 ≤ maxLen) (units : List Text) (acc : List Text × Text)
    (hne : acc.2 ≠ []) (hlen : getSemanticLength acc.2 ≤ maxLen) (hcuts : (acc.1 ++ [acc.2]).IsChain (Cut maxLen))
    (hunits : ∀ u ∈ units, u.IsChain fun a b => sameUnit a b = true) (hbreaks : (acc.2 :: units).IsChain UnitBreak) :
    (units.foldl (addUnit maxLen) acc).2 ≠ [] ∧ getSemanticLength (units.foldl (addUnit maxLen) acc).2 ≤ maxLen ∧
      ((units.foldl (addUnit maxLen) acc).1 ++ [(units.foldl (addUnit maxLen) acc).2]).IsChain (Cut maxLen) ∧
      (units.foldl (addUnit maxLen) acc).1.flatten ++ (units.foldl (addUnit maxLen) acc).2 =
        acc.1.flatten ++ acc.2 ++ units.flatten := by
  induction units generalizing acc with
  | nil => exact ⟨hne, hlen, hcuts, (List.append_nil _).symm⟩
  | cons unit rest ih =>
    obtain ⟨hbreak, hrest⟩ := List.isChain_cons_cons.mp hbreaks
    have hunit : unit ≠ [] := hbreak.2.1
    have hchain := hunits unit List.mem_cons_self
    have hthen := fun u hu => hunits u (List.mem_cons_of_mem _ hu)
    obtain ⟨c, tail, rfl⟩ := List.exists_cons_of_ne_nil hunit
    have hone := getSemanticLength_unit hchain
    rw [List.foldl_cons]
    by_cases hfits : getSemanticLength acc.2 + getSemanticLength (c :: tail) ≤ maxLen
    · have hstep : addUnit maxLen acc (c :: tail) = (acc.1, acc.2 ++ c :: tail) := if_pos hfits
      have hhead : (acc.2 ++ c :: tail).head? = acc.2.head? := List.head?_append_of_ne_nil _ hne
      have hjoined : (acc.1 ++ [acc.2 ++ c :: tail]).IsChain (Cut maxLen) := by
        obtain ⟨hfirst, _, hlast⟩ := List.isChain_append.mp hcuts
        refine List.isChain_append.mpr ⟨hfirst, List.isChain_singleton _, fun p hp q hq => ?_⟩
        have hq' : q = acc.2 ++ c :: tail := (Option.some.inj hq).symm
        have hcut := hlast p hp acc.2 rfl
        refine ⟨hcut.full, ?_, ?_⟩
        · rw [hq', Joint, hhead]
          exact hcut.joint
        · rw [hq', hhead]
          exact hcut.counts
      have hafter : ((acc.2 ++ c :: tail) :: rest).IsChain UnitBreak := by
        cases rest with
        | nil => exact List.isChain_singleton _
        | cons next rest =>
          obtain ⟨⟨hp, hq, hnext⟩, hmore⟩ := List.isChain_cons_cons.mp hrest
          refine List.isChain_cons_cons.mpr ⟨⟨List.append_ne_nil_of_left_ne_nil hne _, hq, ?_⟩, hmore⟩
          rw [List.getLast_append_of_ne_nil _ hp]
          exact hnext
      obtain ⟨hne', hlen', hcuts', hflat⟩ := ih (acc.1, acc.2 ++ c :: tail) (List.append_ne_nil_of_left_ne_nil hne _)
        ((getSemanticLength_append_le _ _).trans hfits) hjoined hthen hafter
      rw [hstep]
      refine ⟨hne', hlen', hcuts', hflat.trans ?_⟩
      simp only [List.flatten_cons, List.append_assoc]
    · have hcounts : unitKind c ≠ .other := fun hother => by
        rw [hone, if_pos hother] at hfits
        exact hfits hlen
      rw [if_neg hcounts] at hone
      have hfull : getSemanticLength acc.2 = maxLen := by omega
      have hstep : addUnit maxLen acc (c :: tail) = (acc.1 ++ [acc.2], c :: tail) := by
        have hshort : ¬maxLen < getSemanticLength (c :: tail) := Nat.not_lt.mpr (hone ▸ hmax)
        simp only [addUnit, if_neg hfits, if_pos hne, if_neg hshort]
      have hcut : (acc.1 ++ [acc.2] ++ [c :: tail]).IsChain (Cut maxLen) := by
        refine List.isChain_append.mpr ⟨hcuts, List.isChain_singleton _, fun p hp q hq => ?_⟩
        have hp' : p = acc.2 := by simpa using hp.symm
        have hq' : q = c :: tail := (Option.some.inj hq).symm
        rw [hp', hq']
        exact ⟨hfull, hbreak.joint, c, rfl, hcounts⟩
      obtain ⟨hne', hlen', hcuts', hflat⟩ := ih (acc.1 ++ [acc.2], c :: tail) hunit (hone ▸ hmax) hcut hthen hrest
      rw [hstep]
      refine ⟨hne', hlen', hcuts', hflat.trans ?_⟩
      simp only [List.flatten_append, List.flatten_cons, List.flatten_nil, List.append_nil, List.append_assoc]

/-- **The pieces of a long clause**: full ones, each cut off in front of a unit that counts, and a last one. -/
theorem splitLongFragment_cuts {maxLen : Nat} (hmax : 1 ≤ maxLen) (text : Text)
    (hlong : maxLen < getSemanticLength text) :
    ∃ pieces last, splitLongFragment maxLen text = pieces ++ [last] ∧ pieces.flatten ++ last = text ∧
      (pieces ++ [last]).IsChain (Cut maxLen) ∧ last ≠ [] ∧ getSemanticLength last ≤ maxLen := by
  have hflat := List.flatten_splitBy sameUnit text
  have hbreaks := List.isChain_getLast_head_splitBy sameUnit text
  have hchains : ∀ u ∈ semanticUnits text, u.IsChain fun a b => sameUnit a b = true :=
    fun u hu => List.isChain_of_mem_splitBy hu
  have hnonempty : ∀ u ∈ semanticUnits text, u ≠ [] := fun u hu => List.ne_nil_of_mem_splitBy hu
  rw [splitLongFragment, if_neg (Nat.not_le.mpr hlong)]
  unfold semanticUnits at *
  cases hunits : text.splitBy sameUnit with
  | nil =>
    have hnil := List.splitBy_eq_nil.mp hunits
    rw [hnil] at hlong
    exact absurd hlong (Nat.not_lt_zero _)
  | cons unit rest =>
    rw [hunits] at hflat hbreaks hchains hnonempty
    have hunit := hnonempty unit List.mem_cons_self
    obtain ⟨c, tail, rfl⟩ := List.exists_cons_of_ne_nil hunit
    have hone := getSemanticLength_unit (hchains _ List.mem_cons_self)
    have hfits : getSemanticLength (c :: tail) ≤ maxLen := by
      rw [hone]
      split <;> omega
    have hfirst : addUnit maxLen ([], []) (c :: tail) = ([], c :: tail) :=
      if_pos ((Nat.zero_add _).trans_le hfits)
    obtain ⟨hne, hlen, hcuts, htotal⟩ := foldl_addUnit hmax rest ([], c :: tail) hunit hfits (List.isChain_singleton _)
      (fun u hu => hchains u (List.mem_cons_of_mem _ hu)) hbreaks
    rw [List.foldl_cons, hfirst]
    refine ⟨_, _, if_pos hne, htotal.trans ?_, hcuts, hne, hlen⟩
    rw [← hflat]
    rfl

theorem full_of_mem {maxLen : Nat} {pieces : List Text} {last : Text} (h : (pieces ++ [last]).IsChain (Cut maxLen)) :
    ∀ p ∈ pieces, getSemanticLength p = maxLen := by
  induction pieces with
  | nil => exact fun p hp => absurd hp List.not_mem_nil
  | cons piece rest ih =>
    have hsplit : ([piece] ++ (rest ++ [last])).IsChain (Cut maxLen) := h
    have hrest := (List.isChain_append.mp hsplit).2.1
    have hpiece : getSemanticLength piece = maxLen := by
      cases rest with
      | nil | cons next rest => exact (List.isChain_cons_cons.mp h).1.full
    intro p hp
    rcases List.mem_cons.mp hp with rfl | hp
    · exact hpiece
    · exact ih hrest p hp

/-! ### Fragments -/

section
variable {maxLen minTail : Nat} {fragments : List Text}

theorem getSemanticLength_dropWhile_le (p : Char → Bool) (text : Text) :
    getSemanticLength (text.dropWhile p) ≤ getSemanticLength text := by
  have hsplit := List.takeWhile_append_dropWhile (p := p) (l := text)
  have hle := getSemanticLength_le_right (text.takeWhile p) (text.dropWhile p)
  rw [hsplit] at hle
  exact hle

theorem appendTextFragment_le (h : ∀ f ∈ fragments, getSemanticLength f ≤ maxLen) {newText : Text}
    (hnew : getSemanticLength newText ≤ maxLen) :
    ∀ f ∈ appendTextFragment maxLen minTail fragments newText, getSemanticLength f ≤ maxLen := by
  have hdrop := (getSemanticLength_dropWhile_le isLeading newText).trans hnew
  have hsnoc : ∀ f ∈ fragments ++ [newText.dropWhile isLeading], getSemanticLength f ≤ maxLen := by
    intro f hf
    rcases List.mem_append.mp hf with hf | hf
    · exact h f hf
    · exact List.mem_singleton.mp hf ▸ hdrop
  unfold appendTextFragment
  dsimp only
  split
  · split
    · exact fun f hf => List.mem_singleton.mp hf ▸ hdrop
    · next last hlast =>
      split
      · next hfits =>
        split
        · exact hsnoc
        · intro f hf
          rcases List.mem_append.mp hf with hf | hf
          · exact h f (List.mem_of_mem_dropLast hf)
          · rw [List.mem_singleton.mp hf]
            refine (getSemanticLength_append_le _ _).trans (le_trans (Nat.add_le_add_right
              (getSemanticLength_append_le _ _) _) ?_)
            have hseparator : ∀ p : Prop, ∀ _ : Decidable p, getSemanticLength (if p then [' '] else []) = 0 := by
              intro p hp
              split <;> decide
            rw [hseparator, Nat.add_zero]
            exact hfits
      · exact hsnoc
  · exact h

theorem appendClause_le (hmax : 1 ≤ maxLen) (h : ∀ f ∈ fragments, getSemanticLength f ≤ maxLen) (clause : Text) :
    ∀ f ∈ appendClause maxLen minTail fragments clause, getSemanticLength f ≤ maxLen := by
  unfold appendClause
  split
  · next hlong =>
    obtain ⟨pieces, last, hsplit, _, hcuts, _, hlast⟩ := splitLongFragment_cuts hmax clause hlong
    have hpieces : ∀ p ∈ pieces ++ [last], getSemanticLength p ≤ maxLen := by
      intro p hp
      rcases List.mem_append.mp hp with hp | hp
      · exact Nat.le_of_eq (full_of_mem hcuts p hp)
      · exact List.mem_singleton.mp hp ▸ hlast
    rw [hsplit]
    clear hsplit hcuts
    generalize pieces ++ [last] = all at hpieces
    induction all generalizing fragments with
    | nil => exact h
    | cons p rest ih =>
      exact ih (appendTextFragment_le h (hpieces p List.mem_cons_self)) fun q hq =>
        hpieces q (List.mem_cons_of_mem _ hq)
  · next hshort => exact appendTextFragment_le h (Nat.not_lt.mp hshort)

theorem appendClauses_le (hmax : 1 ≤ maxLen) (h : ∀ f ∈ fragments, getSemanticLength f ≤ maxLen) (clauses : List Text) :
    ∀ f ∈ appendClauses maxLen minTail fragments clauses, getSemanticLength f ≤ maxLen := by
  induction fragments, clauses using appendClauses.induct maxLen minTail with
  | case1 fragments => exact h
  | case2 fragments clause => exact appendClause_le hmax h clause
  | case3 fragments clause next rest hcombined ih =>
    rw [appendClauses, if_pos hcombined]
    exact ih (appendTextFragment_le h hcombined.2)
  | case4 fragments clause next rest hcombined ih =>
    rw [appendClauses, if_neg hcombined]
    exact ih (appendClause_le hmax h clause)

end

/-! ### Dots -/

theorem dotPlaceholder_ne_nil : dotPlaceholder ≠ [] := List.cons_ne_nil _ _

/-- Restored dots make no text longer. -/
theorem wordCount_restoreDots (inWord : Bool) (text : Text) :
    (restoreDots text).countP isHan + wordCount inWord (restoreDots text) ≤
      text.countP isHan + wordCount inWord text := by
  unfold restoreDots
  by_cases hprefix : dotPlaceholder <+: text
  · obtain ⟨rest, hrest⟩ := hprefix
    have hshort : rest.length < text.length := by
      rw [← hrest, List.length_append]
      exact Nat.lt_add_of_pos_left (by decide)
    have ih := wordCount_restoreDots false rest
    unfold restoreDots at ih
    have hends : endsInWord inWord dotPlaceholder = false := by cases inWord <;> decide
    have hdot : ∀ t : Text, (['.'] ++ t).countP isHan + wordCount inWord (['.'] ++ t) =
      t.countP isHan + wordCount false t :=
      fun _ => rfl
    rw [← hrest, replaceAll_old dotPlaceholder_ne_nil, hdot, List.countP_append, wordCount_append, hends]
    omega
  · cases text with
    | nil => exact Nat.le_refl _
    | cons c rest =>
      have ih := wordCount_restoreDots (isLetter c) rest
      unfold restoreDots at ih
      have hword : ∀ t : Text, wordCount inWord (c :: t) = wordCount inWord [c] + wordCount (isLetter c) t :=
        fun t => wordCount_append inWord [c] t
      have hhan : ∀ t : Text, (c :: t).countP isHan = [c].countP isHan + t.countP isHan :=
        fun t => @List.countP_append _ isHan [c] t
      rw [replaceAll_cons hprefix, hword, hword rest, hhan, hhan rest]
      omega
termination_by text.length

theorem getSemanticLength_restoreDots (text : Text) : getSemanticLength (restoreDots text) ≤ getSemanticLength text :=
  wordCount_restoreDots false text

/-- **Every fragment fits.** -/
theorem cutText_length (decimal : Char → Bool) (text : Text) {maxLen : Nat} (hmax : 1 ≤ maxLen) (minTail : Nat) :
    ∀ f ∈ cutTextBySemanticLength decimal text maxLen minTail, getSemanticLength f ≤ maxLen := by
  unfold cutTextBySemanticLength
  dsimp only
  split
  · split
    · next hshort =>
      intro f hf
      rw [List.mem_singleton.mp hf]
      exact (getSemanticLength_restoreDots _).trans hshort
    · intro f hf
      obtain ⟨g, hg, rfl⟩ := List.mem_map.mp hf
      refine (getSemanticLength_restoreDots g).trans ?_
      have hall : ∀ (sentences : List Text) (fragments : List Text), (∀ f ∈ fragments, getSemanticLength f ≤ maxLen) →
          ∀ f ∈ sentences.foldl (fun fragments sentence => appendClauses maxLen minTail fragments (clausesOf sentence))
            fragments, getSemanticLength f ≤ maxLen := by
        intro sentences
        induction sentences with
        | nil => exact fun _ h => h
        | cons sentence rest ih => exact fun fragments h => ih _ (appendClauses_le hmax h _)
      exact hall _ [] (fun f hf => absurd hf List.not_mem_nil) g hg
  · exact fun f hf => absurd hf List.not_mem_nil

end SglangOmni.Models.Ming

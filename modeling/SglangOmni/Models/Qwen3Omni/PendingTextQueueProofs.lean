import Mathlib.Data.List.Induction
import SglangOmni.Models.Qwen3Omni.PendingTextQueue

/-! The queue of text rows does what a FIFO list does.

A queue holds a list (`Holds`) when its head block from the cursor on and the later blocks are the rows of the list, all
of one width, device and dtype, and the count is the length. Each method takes a queue that holds a list to one that
holds what the method of the list leaves, or raises where the list raises and writes nothing (`Does`); it writes to no
deque but its own, so that the other queues hold what they held. -/
namespace SglangOmni.Models.Qwen3Omni.PendingTextQueue
open Lib

variable {D V α β : Type} (torch : Torch D V) {m : Mem D V} {l : List (Row D V)} {chunks : List (Batch D V)}
  {q : Queue D V} {deques : List (List (Batch D V))}

/-! ### Blocks -/

theorem index?_nil (idx : Int) : index? ([] : List α) idx = none := by
  unfold index?
  split
  · exact List.getElem?_nil
  · split
    · exact List.getElem?_nil
    · rfl

theorem index?_natCast (l : List α) (n : Nat) : index? l n = l[n]? := if_pos (Int.natCast_nonneg n)

theorem index?_map (f : α → β) (l : List α) (idx : Int) : index? (l.map f) idx = (index? l idx).map f := by
  unfold index?
  rw [List.length_map]
  split
  · exact List.getElem?_map ..
  · split
    · exact List.getElem?_map ..
    · rfl

namespace Batch
variable (b : Batch D V)

theorem getRow_cases (idx : Int) :
    (∃ row, index? b.toRows idx = some row ∧ b.getRow idx = .ok row) ∨
      ∃ text, index? b.toRows idx = none ∧ b.getRow idx = .error (.indexError text) := by
  unfold getRow toRows
  rw [index?_map]
  cases index? b.rows idx with
  | none => exact .inr ⟨_, rfl, rfl⟩
  | some entries => exact .inl ⟨_, rfl, rfl⟩

theorem length_toRows : b.toRows.length = b.rows.length := List.length_map ..

theorem toRows_drop {cursor : Nat} (h : cursor < b.rows.length) :
    (b.drop cursor).toRows = ⟨b.kind, b.rows[cursor]⟩ :: (b.drop (cursor + 1)).toRows := by
  show (b.rows.drop cursor).map _ = _
  rw [List.drop_eq_getElem_cons h]
  rfl

theorem width_of_mem {row : Row D V} (h : row ∈ b.toRows) : row.entries.length = b.width := by
  obtain ⟨entries, hentries, rfl⟩ := List.mem_map.mp h
  exact b.regular entries hentries

theorem toRows_toKind (kind : D) : (b.toKind torch kind).toRows = b.toRows.map (torch.row kind) := by
  show (b.rows.map _).map _ = (b.rows.map _).map _
  rw [List.map_map, List.map_map]
  rfl

theorem toRows_cat (first : Batch D V) (rest : List (Batch D V))
    (same : ∀ b ∈ rest, b.kind = first.kind ∧ b.width = first.width) :
    ∃ whole, torch.cat first rest = .ok whole ∧ whole.toRows = first.toRows ++ rest.flatMap toRows := by
  obtain ⟨whole, hcat, hkind, hrows⟩ := torch.cat_eq first rest same
  refine ⟨whole, hcat, ?_⟩
  show whole.rows.map _ = first.rows.map _ ++ _
  rw [hkind, hrows, List.map_append, List.map_flatMap]
  congr 1
  refine List.flatMap_congr fun b hb => ?_
  show _ = b.rows.map _
  rw [(same b hb).1]

end Batch

theorem asRows_cases (given : Given D V) :
    (∃ exc, asRows given = .error exc ∧ given.rows = .error exc.cls) ∨
      (asRows given = .ok none ∧ given.rows = .ok []) ∨
      ∃ b, asRows given = .ok (some b) ∧ given.rows = .ok b.toRows ∧ 0 < b.rows.length := by
  cases given with
  | vector kind entries =>
    by_cases hnone : entries.length = 0
    · exact .inr (.inl ⟨if_pos hnone, by rw [Given.rows, if_pos hnone]⟩)
    · exact .inr (.inr ⟨_, if_neg hnone, by rw [Given.rows, if_neg hnone]; rfl, Nat.one_pos⟩)
  | matrix b =>
    by_cases hnone : b.rows.length = 0
    · exact .inr (.inl ⟨if_pos hnone, if_pos hnone⟩)
    · by_cases hwidth : b.width = 0
      · exact .inl ⟨_, (if_neg hnone).trans (if_pos hwidth), (if_neg hnone).trans (if_pos hwidth)⟩
      · exact .inr (.inr ⟨b, (if_neg hnone).trans (if_neg hwidth), (if_neg hnone).trans (if_neg hwidth),
          Nat.pos_of_ne_zero hnone⟩)
  | other dim => exact .inl ⟨_, rfl, rfl⟩
  | object => exact .inl ⟨_, rfl, rfl⟩

/-! ### What a queue holds -/

/-- The head from the cursor on and the later blocks are the rows of the list. -/
inductive Shape (q : Queue D V) : List (Batch D V) → List (Row D V) → Prop where
  | empty (rows : q.rows = none) (count : q.pendingRows = 0) : Shape q [] []
  | head {head : Batch D V} {chunks : List (Batch D V)} (rows : q.rows = some head)
      (cursor : q.cursor < head.rows.length)
      (same : ∀ b ∈ chunks, b.kind = head.kind ∧ b.width = head.width) (filled : ∀ b ∈ chunks, 0 < b.rows.length)
      (count : q.pendingRows = ((head.drop q.cursor).toRows ++ chunks.flatMap Batch.toRows).length) :
      Shape q chunks ((head.drop q.cursor).toRows ++ chunks.flatMap Batch.toRows)

structure Holds (m : Mem D V) (l : List (Row D V)) : Prop where
  here : m.self.chunks < m.deques.length
  shape : Shape m.self m.chunks l

/-- Only the queue and its own deque were written. -/
structure Within (m m' : Mem D V) : Prop where
  chunks : m'.self.chunks = m.self.chunks
  length : m'.deques.length = m.deques.length
  others : ∀ a, a ≠ m.self.chunks → m'.deques[a]? = m.deques[a]?

theorem Within.refl (m : Mem D V) : Within m m := ⟨rfl, rfl, fun _ _ => rfl⟩

theorem Within.trans {m' m'' : Mem D V} (h : Within m m') (h' : Within m' m'') : Within m m'' where
  chunks := h'.chunks.trans h.chunks
  length := h'.length.trans h.length
  others a ha := (h'.others a (by rwa [h.chunks])).trans (h.others a ha)

theorem Shape.count (h : Shape q chunks l) : q.pendingRows = l.length := by
  cases h with
  | empty rows count => exact count
  | head rows cursor same filled count => exact count

theorem sum_lengths (chunks : List (Batch D V)) :
    (chunks.map fun chunk => (chunk.rows.length : Int)).sum = ((chunks.flatMap Batch.toRows).length : Int) := by
  induction chunks with
  | nil => rfl
  | cons b rest ih => rw [List.map_cons, List.sum_cons, ih, List.flatMap_cons, List.length_append, b.length_toRows,
      Int.natCast_add]

theorem Shape.postInit (h : Shape q chunks l) :
    postInit q.rows q.cursor chunks = l.length := by
  cases h with
  | empty rows count =>
    rw [rows]
    rfl
  | @head head chunks rows cursor same filled count =>
    have hlength : (head.drop q.cursor).toRows.length = head.rows.length - q.cursor := by
      rw [Batch.length_toRows]
      exact List.length_drop ..
    rw [rows, PendingTextQueue.postInit, sum_lengths, List.length_append, hlength]
    omega

/-- The queue was written, and its deque. -/
theorem Holds.write (h : Holds m l) (hq : q.chunks = m.self.chunks) {l' : List (Row D V)} (shape : Shape q chunks l') :
    Within m ⟨q, m.deques.set m.self.chunks chunks⟩ ∧ Holds ⟨q, m.deques.set m.self.chunks chunks⟩ l' := by
  have hchunks : (⟨q, m.deques.set m.self.chunks chunks⟩ : Mem D V).chunks = chunks := by
    show ((m.deques.set m.self.chunks chunks)[q.chunks]?).getD [] = chunks
    rw [hq, List.getElem?_set_self h.here, Option.getD_some]
  refine ⟨⟨hq, List.length_set, fun a ha => List.getElem?_set_ne (Ne.symm ha)⟩, ?_, hchunks.symm ▸ shape⟩
  show q.chunks < (m.deques.set m.self.chunks chunks).length
  rw [List.length_set, hq]
  exact h.here

/-- The queue was written. -/
theorem Holds.move (h : Holds m l) (hq : q.chunks = m.self.chunks) {l' : List (Row D V)}
    (shape : Shape q m.chunks l') : Within m ⟨q, m.deques⟩ ∧ Holds ⟨q, m.deques⟩ l' := by
  have hchunks : (⟨q, m.deques⟩ : Mem D V).chunks = m.chunks := by rw [Mem.chunks, Mem.chunks, hq]
  exact ⟨⟨hq, rfl, fun _ _ => rfl⟩, hq ▸ h.here, hchunks.symm ▸ shape⟩

/-! ### The methods -/

/-- The program does what is done to the list: it answers and leaves the other list, or raises and writes nothing. -/
def Does (x : Program D V α) (m : Mem D V) (out : Except ErrorClass (List (Row D V) × α)) : Prop :=
  (∃ a l m', out = .ok (l, a) ∧ x m = .ok a m' ∧ Within m m' ∧ Holds m' l) ∨
    ∃ exc, out = .error exc.cls ∧ x m = .error exc m

theorem Does.answer {x : Program D V α} {out : Except ErrorClass (List (Row D V) × α)} (h : Does x m out) (f : α → β) :
    Does (x >>= fun a => pure (f a)) m (out.map fun r => (r.1, f r.2)) := by
  rcases h with ⟨a, l, m', rfl, hx, hwithin, hholds⟩ | ⟨exc, rfl, hx⟩
  · exact .inl ⟨f a, l, m', rfl, by rw [bind_apply, hx]; rfl, hwithin, hholds⟩
  · exact .inr ⟨exc, rfl, by rw [bind_apply, hx]⟩

theorem len_eq (h : Holds m l) : len m = .ok (l.length : Int) m := by
  unfold len
  rw [read_apply, h.shape.count, if_neg (Int.not_lt.mpr (Int.natCast_nonneg _))]
  rfl

theorem iter_eq (h : Holds m l) : iter m = .ok l m := by
  obtain ⟨_, hshape⟩ := h
  unfold iter
  rw [read_apply]
  generalize m.chunks = chunks at hshape ⊢
  cases hshape with
  | empty rows count =>
    rw [rows]
    rfl
  | head rows cursor same filled count =>
    rw [rows]
    rfl

theorem getitem_cases (h : Holds m l) (idx : Int) :
    (∃ row, index? l idx = some row ∧ getitem torch idx m = .ok row m) ∨
      ∃ text, index? l idx = none ∧ getitem torch idx m = .error (.indexError text) m := by
  obtain ⟨_, hshape⟩ := h
  unfold getitem
  rw [read_apply]
  generalize m.chunks = chunks at hshape ⊢
  cases hshape with
  | empty rows count =>
    rw [rows]
    exact .inr ⟨_, index?_nil idx, rfl⟩
  | @head head chunks rows cursor same filled count =>
    rw [rows]
    dsimp only
    have hread : ∀ {b : Batch D V}, b.toRows = (head.drop m.self.cursor).toRows ++ chunks.flatMap Batch.toRows →
        (∃ row, index? ((head.drop m.self.cursor).toRows ++ chunks.flatMap Batch.toRows) idx = some row ∧
          (fromExcept id (b.getRow idx) : Program D V (Row D V)) m = .ok row m) ∨
        ∃ text, index? ((head.drop m.self.cursor).toRows ++ chunks.flatMap Batch.toRows) idx = none ∧
          (fromExcept id (b.getRow idx) : Program D V (Row D V)) m = .error (.indexError text) m := by
      intro b hb
      rw [← hb]
      rcases b.getRow_cases idx with ⟨row, hrow, hget⟩ | ⟨text, hnone, hget⟩
      · exact .inl ⟨row, hrow, by rw [hget]; rfl⟩
      · exact .inr ⟨text, hnone, by rw [hget]; rfl⟩
    split
    · next hzero =>
      refine .inl ⟨⟨head.kind, head.rows[m.self.cursor]⟩, ?_, ?_⟩
      · rw [hzero, head.toRows_drop cursor]
        rfl
      · rw [Batch.getRow, index?_natCast, List.getElem?_eq_getElem cursor]
        rfl
    · split
      · next hnone =>
        obtain rfl := List.eq_nil_of_length_eq_zero hnone
        exact hread (List.append_nil _).symm
      · obtain ⟨whole, hcat, hrows⟩ := Batch.toRows_cat torch (head.drop m.self.cursor) chunks same
        rw [hcat]
        exact hread hrows

/-- The head gives its next row, and the next block takes its place when it was the last. -/
theorem Holds.promote {row : Row D V} {rest : List (Row D V)} (h : Holds m (row :: rest)) :
    let q : Queue D V := { m.self with cursor := m.self.cursor + 1, pendingRows := m.self.pendingRows - 1 }
    Within m (promote ⟨q, m.deques⟩) ∧ Holds (promote ⟨q, m.deques⟩) rest := by
  intro q
  have hchunks : (⟨q, m.deques⟩ : Mem D V).chunks = m.chunks := rfl
  have hcount : q.pendingRows = rest.length := by
    show m.self.pendingRows - 1 = rest.length
    rw [h.shape.count, List.length_cons]
    omega
  have hshape := h.shape
  generalize hblocks : m.chunks = chunks at hshape
  generalize hlist : row :: rest = whole at hshape
  cases hshape with
  | empty rows count => exact nomatch hlist
  | @head head chunks rows cursor same filled count =>
    rw [head.toRows_drop cursor, List.cons_append] at hlist
    obtain ⟨rfl, rfl⟩ := List.cons.inj hlist
    have hrows : q.rows = some head := rows
    simp only [PendingTextQueue.promote, hrows, hchunks, hblocks]
    split
    · next hlast =>
      have hdrop : (head.drop (m.self.cursor + 1)).toRows = [] := by
        show (head.rows.drop (m.self.cursor + 1)).map _ = []
        rw [List.drop_eq_nil_of_le hlast, List.map_nil]
      rw [hdrop, List.nil_append] at hcount ⊢
      cases chunks with
      | nil =>
        refine h.move (q := { q with rows := none, cursor := 0 }) rfl ?_
        rw [hblocks]
        exact .empty rfl hcount
      | cons chunk others =>
        have hfirst := fun b hb => same b (List.mem_cons_of_mem chunk hb)
        have hchunk := same chunk List.mem_cons_self
        have hsame : ∀ b ∈ others, b.kind = chunk.kind ∧ b.width = chunk.width :=
          fun b hb => ⟨(hfirst b hb).1.trans hchunk.1.symm, (hfirst b hb).2.trans hchunk.2.symm⟩
        exact h.write (q := { q with rows := some chunk, cursor := 0 }) rfl (Shape.head rfl
          (filled chunk List.mem_cons_self) hsame (fun b hb => filled b (List.mem_cons_of_mem _ hb)) hcount)
    · next hmore =>
      refine h.move (q := q) rfl ?_
      rw [hblocks]
      exact Shape.head hrows (Nat.lt_of_not_le hmore) same filled hcount

theorem popleft_does (h : Holds m l) :
    Does (popleft torch) m (match l with | [] => .error .indexError | row :: rest => .ok (rest, row)) := by
  unfold popleft
  rcases getitem_cases torch h 0 with ⟨row, hrow, hget⟩ | ⟨text, hnone, hget⟩
  · cases l with
    | nil => exact nomatch hrow
    | cons first rest =>
      obtain rfl := Option.some.inj hrow
      obtain ⟨hwithin, hholds⟩ := h.promote
      refine .inl ⟨first, rest, _, rfl, ?_, hwithin, hholds⟩
      rw [bind_apply, hget]
      rfl
  · cases l with
    | nil => exact .inr ⟨_, rfl, by rw [bind_apply, hget]⟩
    | cons first rest => exact nomatch hnone

theorem Holds.restart (h : Holds m l) {b : Batch D V} (hb : 0 < b.rows.length) :
    Within m (restart b m) ∧ Holds (restart b m) b.toRows := by
  have hdrop : (b.drop 0).toRows ++ ([] : List (Batch D V)).flatMap Batch.toRows = b.toRows := List.append_nil _
  refine h.write (q := { m.self with rows := some b, cursor := 0, pendingRows := b.rows.length }) rfl ?_
  rw [← hdrop]
  exact Shape.head rfl hb (fun _ hx => nomatch hx) (fun _ hx => nomatch hx) (by rw [hdrop, b.length_toRows])

/-- One more block. -/
theorem Shape.snoc (h : Shape q chunks l) {head added : Batch D V}
    (rows : q.rows = some head) (kind : added.kind = head.kind) (width : added.width = head.width)
    {n : Nat} (hn : added.rows.length = n) (hpos : 0 < n) :
    Shape { q with pendingRows := q.pendingRows + n } (chunks ++ [added]) (l ++ added.toRows) := by
  cases h with
  | empty none => exact nomatch none.symm.trans rows
  | @head head' chunks rows' cursor same filled count =>
    obtain rfl := Option.some.inj (rows'.symm.trans rows)
    have hlist : (head'.drop q.cursor).toRows ++ chunks.flatMap Batch.toRows ++ added.toRows =
        (head'.drop q.cursor).toRows ++ (chunks ++ [added]).flatMap Batch.toRows := by
      rw [List.flatMap_append, List.flatMap_singleton, List.append_assoc]
    have hcount : q.pendingRows + n =
        ((head'.drop q.cursor).toRows ++ chunks.flatMap Batch.toRows ++ added.toRows).length := by
      rw [List.length_append, added.length_toRows, count, hn, Int.natCast_add]
    rw [hlist] at hcount ⊢
    refine Shape.head rows' cursor (fun b hb => ?_) (fun b hb => ?_) hcount
    · rcases List.mem_append.mp hb with hb | hb
      · exact same b hb
      · rw [List.mem_singleton.mp hb]
        exact ⟨kind, width⟩
    · rcases List.mem_append.mp hb with hb | hb
      · exact filled b hb
      · rw [List.mem_singleton.mp hb]
        exact hn ▸ hpos

theorem appendBatch_does (h : Holds m l) {b : Batch D V} (hb : 0 < b.rows.length) :
    Does (appendBatch torch b) m ((Plain.extend torch.row l b.toRows).map (·, ())) := by
  -- The rows that are given are there: at least one, all of one width.
  obtain ⟨row, others, hrows⟩ : ∃ row others, b.toRows = row :: others :=
    List.exists_cons_of_length_pos (by rwa [b.length_toRows])
  have hwidth : row.entries.length = b.width := b.width_of_mem (by rw [hrows]; exact List.mem_cons_self)
  have hlen := len_eq h
  have hshape := h.shape
  unfold Does appendBatch
  rw [read_apply]
  generalize hblocks : m.chunks = chunks at hshape
  cases hshape with
  | empty rows count =>
    rw [rows]
    obtain ⟨hwithin, hholds⟩ := h.restart hb
    refine .inl ⟨(), b.toRows, _, ?_, rfl, hwithin, hholds⟩
    rw [hrows]
    rfl
  | @head head chunks rows cursor same filled count =>
    rw [rows]
    have hfirst := head.toRows_drop cursor
    have hown : (⟨head.kind, head.rows[m.self.cursor]⟩ : Row D V).entries.length = head.width :=
      head.regular _ (List.getElem_mem cursor)
    have hnotEmpty : (((head.drop m.self.cursor).toRows ++ chunks.flatMap Batch.toRows).length : Int) ≠ 0 := by
      rw [hfirst, List.cons_append, List.length_cons]
      omega
    dsimp only
    rw [bind_apply, hlen]
    dsimp only
    rw [if_neg hnotEmpty]
    rw [hfirst, List.cons_append, hrows, Plain.extend, hwidth, hown, ← hrows]
    by_cases hsame : b.width = head.width
    · rw [if_neg (not_not_intro hsame), if_neg (not_not_intro hsame)]
      have hsnoc := h.shape.snoc rows (rfl : (b.toKind torch head.kind).kind = head.kind) hsame (List.length_map ..) hb
      rw [b.toRows_toKind torch, hfirst, List.cons_append] at hsnoc
      obtain ⟨hwithin, hholds⟩ :=
        h.write (q := { m.self with pendingRows := m.self.pendingRows + b.rows.length }) rfl hsnoc
      exact .inl ⟨(), _, _, rfl, rfl, hwithin, hholds⟩
    · rw [if_pos hsame, if_pos hsame]
      exact .inr ⟨_, rfl, rfl⟩

theorem appendRows_does (h : Holds m l) (given : Given D V) :
    Does (appendRows torch given) m ((Plain.append torch.row l given).map (·, ())) := by
  unfold appendRows Plain.append
  rcases asRows_cases given with ⟨exc, has, hrows⟩ | ⟨has, hrows⟩ | ⟨b, has, hrows, hb⟩
  · rw [has, hrows]
    exact .inr ⟨exc, rfl, rfl⟩
  · rw [has, hrows]
    refine .inl ⟨(), l, m, ?_, rfl, .refl m, h⟩
    cases l <;> rfl
  · rw [has, hrows]
    exact appendBatch_does torch h hb

/-! ### New queues -/

/-- The deques that were there are as they were. -/
def Grown (deques deques' : List (List (Batch D V))) : Prop := ∀ a, a < deques.length → deques'[a]? = deques[a]?

theorem create_holds (deques : List (List (Batch D V)))
    (shape : Shape q chunks l) : Holds (create deques q.rows q.cursor chunks) l := by
  have hchunks : (create deques q.rows q.cursor chunks).chunks = chunks := by
    show ((deques ++ [chunks])[deques.length]?).getD [] = chunks
    rw [List.getElem?_concat_length, Option.getD_some]
  refine ⟨?_, ?_⟩
  · show deques.length < (deques ++ [chunks]).length
    rw [List.length_append]
    exact Nat.lt_succ_self _
  · rw [hchunks]
    have hcount := shape.postInit
    cases shape with
    | empty rows count => exact .empty rows hcount
    | head rows cursor same filled count => exact Shape.head rows cursor same filled hcount

theorem create_empty (deques : List (List (Batch D V))) : Holds (create deques none 0 []) [] :=
  create_holds deques (q := { chunks := 0, pendingRows := 0 }) (.empty rfl rfl)

theorem create_grown (deques : List (List (Batch D V))) (rows : Option (Batch D V)) (cursor : Nat)
    (chunks : List (Batch D V)) {m' : Mem D V} (h : Within (create deques rows cursor chunks) m') :
    m'.self.chunks = deques.length ∧ Grown deques m'.deques := by
  refine ⟨h.chunks, fun a ha => ?_⟩
  rw [h.others a (Nat.ne_of_lt ha)]
  exact List.getElem?_append_left ha

theorem appendAll_does (items : List (Given D V)) (h : Holds m l) :
    (∃ l' m', Plain.appendAll torch.row l items = .ok l' ∧ appendAll torch items m = .ok () m' ∧ Within m m' ∧
        Holds m' l') ∨
      ∃ exc m', Plain.appendAll torch.row l items = .error exc.cls ∧ appendAll torch items m = .error exc m' ∧
        Within m m' := by
  induction items generalizing m l with
  | nil => exact .inl ⟨l, m, rfl, rfl, .refl m, h⟩
  | cons row rest ih =>
    unfold Plain.appendAll appendAll append
    cases happend : Plain.append torch.row l row with
    | ok given =>
      rcases appendRows_does torch h row with ⟨_, l', m', hplain, hrun, hwithin, hholds⟩ | ⟨exc, hplain, _⟩
      · rw [happend] at hplain
        cases hplain
        rw [bind_apply, hrun]
        rcases ih hholds with ⟨l'', m'', hrest, hgo, hnext, hend⟩ | ⟨exc, m'', hrest, hgo, hnext⟩
        · exact .inl ⟨l'', m'', hrest, hgo, hwithin.trans hnext, hend⟩
        · exact .inr ⟨exc, m'', hrest, hgo, hwithin.trans hnext⟩
      · rw [happend] at hplain
        exact nomatch hplain
    | error cls =>
      rcases appendRows_does torch h row with ⟨_, _, _, hplain, _⟩ | ⟨exc, hplain, hrun⟩
      · rw [happend] at hplain
        exact nomatch hplain
      · rw [happend] at hplain
        cases hplain
        exact .inr ⟨exc, m, rfl, by rw [bind_apply, hrun], .refl m⟩

theorem invoke_does (h : Holds m l) (method : Method D V) :
    Does (invoke torch method) m (Plain.call torch.row l method) := by
  cases method with
  | append row =>
    have hdoes := (appendRows_does torch h row).answer fun _ => (.done : Answer D V)
    show Does _ m ((Plain.append torch.row l row).map (·, Answer.done))
    cases hout : Plain.append torch.row l row with
    | ok l' | error cls =>
      rw [hout] at hdoes
      exact hdoes
  | appendRows rows =>
    have hdoes := (appendRows_does torch h rows).answer fun _ => (.done : Answer D V)
    show Does _ m ((Plain.append torch.row l rows).map (·, Answer.done))
    cases hout : Plain.append torch.row l rows with
    | ok l' | error cls =>
      rw [hout] at hdoes
      exact hdoes
  | popleft =>
    have hdoes := (popleft_does torch h).answer (Answer.row (D := D) (V := V))
    cases l with
    | nil => exact hdoes
    | cons row rest => exact hdoes
  | getitem idx =>
    cases idx with
    | int idx =>
      show Does (getitem torch idx >>= fun row => pure (Answer.row row)) m _
      unfold Does
      rcases getitem_cases torch h idx with ⟨row, hrow, hget⟩ | ⟨text, hnone, hget⟩
      · rw [bind_apply, hget, Plain.call, hrow]
        exact .inl ⟨_, l, m, rfl, rfl, .refl m, h⟩
      · rw [bind_apply, hget, Plain.call, hnone]
        exact .inr ⟨_, rfl, rfl⟩
    | other => exact .inr ⟨_, rfl, rfl⟩
  | iter =>
    refine .inl ⟨_, l, m, rfl, ?_, .refl m, h⟩
    rw [invoke, bind_apply, iter_eq h]
    rfl
  | len =>
    refine .inl ⟨_, l, m, rfl, ?_, .refl m, h⟩
    rw [invoke, bind_apply, len_eq h]
    rfl
  | bool =>
    refine .inl ⟨_, l, m, rfl, ?_, .refl m, h⟩
    rw [invoke, bind_apply, bool, bind_apply, len_eq h]
    cases l with
    | nil => rfl
    | cons row rest =>
      have hpos : (0 : Int) < (row :: rest).length := by
        rw [List.length_cons]
        omega
      show EStateM.Result.ok (Answer.truth (decide _)) m = _
      rw [decide_eq_true hpos]
      rfl

/-! ### Programs with queues -/

/-- The queues hold the lists, and have each a deque of their own. -/
structure Sim (s : World D V) (t : List (List (Row D V))) : Prop where
  length : s.queues.length = t.length
  holds : ∀ (i : Nat) (q : Queue D V) (l : List (Row D V)), s.queues[i]? = some q → t[i]? = some l →
    Holds ⟨q, s.deques⟩ l
  apart : ∀ (i j : Nat) (q q' : Queue D V), s.queues[i]? = some q → s.queues[j]? = some q' →
    q.chunks = q'.chunks → i = j

variable {s : World D V} {t : List (List (Row D V))}

/-- What is held depends on one deque. -/
theorem Holds.frame {deques' : List (List (Batch D V))} (h : Holds ⟨q, deques⟩ l)
    (hsame : deques'[q.chunks]? = deques[q.chunks]?) : Holds ⟨q, deques'⟩ l := by
  obtain ⟨hhere, hshape⟩ := h
  have hhere' : q.chunks < deques'.length := by
    rw [List.getElem?_eq_getElem hhere] at hsame
    exact (List.getElem?_eq_some_iff.mp hsame).1
  refine ⟨hhere', ?_⟩
  show Shape q ((deques'[q.chunks]?).getD []) l
  rw [hsame]
  exact hshape

theorem Sim.here (h : Sim s t) {i : Nat} (hq : s.queues[i]? = some q) : q.chunks < s.deques.length := by
  have hi : i < t.length := h.length ▸ (List.getElem?_eq_some_iff.mp hq).1
  exact (h.holds i q t[i] hq (List.getElem?_eq_getElem hi)).here

/-- There are more deques. -/
theorem Sim.grow (h : Sim s t) (grown : Grown s.deques deques) :
    Sim ⟨s.queues, deques⟩ t where
  length := h.length
  holds i q l hq hl := (h.holds i q l hq hl).frame (grown _ (h.here hq))
  apart := h.apart

theorem getElem?_concat_cases {l : List α} {x a : α} {i : Nat} (h : (l ++ [x])[i]? = some a) :
    l[i]? = some a ∧ i < l.length ∨ i = l.length ∧ x = a := by
  rcases Nat.lt_trichotomy i l.length with hi | rfl | hi
  · exact .inl ⟨(List.getElem?_append_left hi).symm.trans h, hi⟩
  · rw [List.getElem?_concat_length] at h
    exact .inr ⟨rfl, Option.some.inj h⟩
  · rw [List.getElem?_eq_none (by rw [List.length_append]; exact hi)] at h
    exact nomatch h

/-- There is one more queue. -/
theorem Sim.push (h : Sim s t) (hm : Holds m l) (hnew : m.self.chunks = s.deques.length)
    (grown : Grown s.deques m.deques) :
    Sim ⟨s.queues ++ [m.self], m.deques⟩ (t ++ [l]) where
  length := by rw [List.length_append, List.length_append, h.length]; rfl
  holds i q l' hq hl := by
    have hlength := h.length
    rcases getElem?_concat_cases hq with ⟨hq, hi⟩ | ⟨hi, rfl⟩
    · rcases getElem?_concat_cases hl with ⟨hl, _⟩ | ⟨hi', _⟩
      · exact (h.grow grown).holds i q l' hq hl
      · omega
    · rcases getElem?_concat_cases hl with ⟨_, hi'⟩ | ⟨_, rfl⟩
      · omega
      · exact hm
  apart i j q q' hi hj hchunks := by
    rcases getElem?_concat_cases hi with ⟨hi, _⟩ | ⟨rfl, rfl⟩
    · rcases getElem?_concat_cases hj with ⟨hj, _⟩ | ⟨rfl, rfl⟩
      · exact h.apart i j q q' hi hj hchunks
      · exact absurd (hchunks.trans hnew) (Nat.ne_of_lt (h.here hi))
    · rcases getElem?_concat_cases hj with ⟨hj, _⟩ | ⟨rfl, rfl⟩
      · exact absurd (hchunks.symm.trans hnew) (Nat.ne_of_lt (h.here hj))
      · rfl

/-- One queue was written. -/
theorem Sim.write (h : Sim s t) {i : Nat} (hq : s.queues[i]? = some q)
    (within : Within ⟨q, s.deques⟩ m) (hm : Holds m l) : Sim ⟨s.queues.set i m.self, m.deques⟩ (t.set i l) where
  length := by rw [List.length_set, List.length_set, h.length]
  holds j x l' hx hl := by
    by_cases hij : i = j
    · subst hij
      have hi := (List.getElem?_eq_some_iff.mp hq).1
      rw [List.getElem?_set_self hi] at hx
      rw [List.getElem?_set_self (h.length ▸ hi)] at hl
      obtain rfl := Option.some.inj hx
      obtain rfl := Option.some.inj hl
      exact hm
    · rw [List.getElem?_set_ne hij] at hx hl
      refine (h.holds j x l' hx hl).frame (within.others _ fun heq => hij ?_)
      exact h.apart i j q x hq hx heq.symm
  apart j k x y hx hy hchunks := by
    have hback : ∀ (j : Nat) (x : Queue D V), (s.queues.set i m.self)[j]? = some x →
        ∃ x', s.queues[j]? = some x' ∧ x'.chunks = x.chunks := by
      intro j x hx
      by_cases hij : i = j
      · subst hij
        rw [List.getElem?_set_self (List.getElem?_eq_some_iff.mp hq).1] at hx
        exact ⟨q, hq, by rw [← Option.some.inj hx, within.chunks]⟩
      · rw [List.getElem?_set_ne hij] at hx
        exact ⟨x, hx, rfl⟩
    obtain ⟨x', hx', hxc⟩ := hback j x hx
    obtain ⟨y', hy', hyc⟩ := hback k y hy
    exact h.apart j k x' y' hx' hy' (hxc.trans (hchunks.trans hyc.symm))

/-- A queue, and what is in its deque. -/
def World.object (s : World D V) (i : Nat) : Option (Queue D V × Option (List (Batch D V))) :=
  s.queues[i]?.map fun q => (q, s.deques[q.chunks]?)

/-- The queue that an operation may change. -/
def Op.target : Op D V → Option Nat
  | .call i _ => some i
  | _ => none

/-- What one operation has to do with what it does to the lists: it is the same operation; where it raises, and to every
other queue, it does nothing. -/
structure Follows (s : World D V) (t : List (List (Row D V))) (op : Op D V) (out : World D V × Outcome D V Error)
    (plain : List (List (Row D V)) × Outcome D V ErrorClass) : Prop where
  sim : Sim out.1 plain.1
  outcome : out.2.map (Except.mapError Error.cls) = plain.2
  others : ∀ i, i < s.queues.length → op.target ≠ some i → out.1.object i = s.object i
  raising : ∀ exc, out.2 = some (.error exc) → ∀ i, out.1.object i = s.object i

theorem Sim.object_grow (h : Sim s t) (grown : Grown s.deques deques) (i : Nat) :
    (⟨s.queues, deques⟩ : World D V).object i = s.object i := by
  show s.queues[i]?.map _ = s.queues[i]?.map _
  cases hq : s.queues[i]? with
  | none => rfl
  | some q => exact congrArg (fun chunks => some (q, chunks)) (grown _ (h.here hq))

theorem Sim.object_push (h : Sim s t) (grown : Grown s.deques deques)
    {i : Nat} (hi : i < s.queues.length) : (⟨s.queues ++ [q], deques⟩ : World D V).object i = s.object i := by
  rw [← h.object_grow grown i]
  show (s.queues ++ [q])[i]?.map _ = s.queues[i]?.map _
  rw [List.getElem?_append_left hi]

/-- A queue is made. -/
theorem Sim.follows_hold (h : Sim s t) {op : Op D V} {out : EStateM.Result Error (Mem D V) Unit}
    {plain : Except ErrorClass (List (Row D V))}
    (made : (∃ l m, plain = .ok l ∧ out = .ok () m ∧ Holds m l ∧ m.self.chunks = s.deques.length ∧
        Grown s.deques m.deques) ∨
      ∃ exc m, plain = .error exc.cls ∧ out = .error exc m ∧ Grown s.deques m.deques) :
    Follows s t op (s.hold out) (Plain.hold t plain) := by
  rcases made with ⟨l, m, rfl, rfl, hm, hnew, grown⟩ | ⟨exc, m, rfl, rfl, grown⟩
  · exact ⟨h.push hm hnew grown, rfl, fun i hi _ => h.object_push grown hi, fun _ h => nomatch h⟩
  · exact ⟨h.grow grown, rfl, fun i _ _ => h.object_grow grown i, fun _ _ i => h.object_grow grown i⟩

theorem Sim.follows_fromTensor (h : Sim s t) {op : Op D V} (tensor : Given D V) :
    Follows s t op (s.fromTensor torch tensor) (Plain.hold t (Plain.append torch.row [] tensor)) := by
  refine h.follows_hold ?_
  have hdoes := appendRows_does torch (create_empty s.deques) tensor
  cases hplain : Plain.append torch.row [] tensor with
  | ok l =>
    rw [hplain] at hdoes
    rcases hdoes with ⟨_, l', m', heq, hrun, hwithin, hholds⟩ | ⟨_, heq, _⟩
    · cases heq
      obtain ⟨hnew, grown⟩ := create_grown _ _ _ _ hwithin
      exact .inl ⟨l, m', rfl, hrun, hholds, hnew, grown⟩
    · exact nomatch heq
  | error cls =>
    rw [hplain] at hdoes
    rcases hdoes with ⟨_, _, _, heq, _⟩ | ⟨exc, heq, hrun⟩
    · exact nomatch heq
    · cases heq
      exact .inr ⟨exc, _, rfl, hrun, (create_grown _ _ _ _ (.refl _)).2⟩

theorem Sim.follows_copy (h : Sim s t) {op : Op D V} (i : Nat) :
    Follows s t op (s.copy i) (Plain.copy t i) := by
  unfold World.copy Plain.copy
  cases hq : s.queues[i]? with
  | none =>
    have hl : t[i]? = none := by
      rw [List.getElem?_eq_none_iff] at hq ⊢
      exact h.length ▸ hq
    rw [hl]
    exact ⟨h, rfl, fun _ _ _ => rfl, fun _ h => nomatch h⟩
  | some q =>
    have hi := (List.getElem?_eq_some_iff.mp hq).1
    obtain ⟨l, hl⟩ : ∃ l, t[i]? = some l := ⟨_, List.getElem?_eq_getElem (h.length ▸ hi)⟩
    rw [hl]
    have hholds := h.holds i q l hq hl
    obtain ⟨hnew, grown⟩ := create_grown s.deques q.rows q.cursor (⟨q, s.deques⟩ : Mem D V).chunks (.refl _)
    exact h.follows_hold (.inl ⟨l, _, rfl, rfl, create_holds s.deques hholds.shape, hnew, grown⟩)

theorem Sim.follows_coerce (h : Sim s t) (value : Source D V) :
    Follows s t (.coerce value) (s.coerce torch value) (Plain.coerce torch.row t value) := by
  cases value with
  | none =>
    obtain ⟨hnew, grown⟩ := create_grown s.deques none 0 [] (.refl _)
    exact h.follows_hold (.inl ⟨[], _, rfl, rfl, create_empty s.deques, hnew, grown⟩)
  | queue i => exact h.follows_copy i
  | tensor tensor => exact h.follows_fromTensor torch tensor
  | iterable items =>
    refine h.follows_hold ?_
    rcases appendAll_does torch items (create_empty s.deques) with
      ⟨l, m, hplain, hrun, hwithin, hholds⟩ | ⟨exc, m, hplain, hrun, hwithin⟩
    · obtain ⟨hnew, grown⟩ := create_grown _ _ _ _ hwithin
      exact .inl ⟨l, m, hplain, hrun, hholds, hnew, grown⟩
    · exact .inr ⟨exc, m, hplain, hrun, (create_grown _ _ _ _ hwithin).2⟩
  | object => exact ⟨h, rfl, fun _ _ _ => rfl, fun _ _ _ => rfl⟩

theorem Sim.follows_call (h : Sim s t) (i : Nat) (method : Method D V) :
    Follows s t (.call i method) (s.call torch i method) (Plain.step torch.row t (.call i method)) := by
  unfold World.call Plain.step
  cases hq : s.queues[i]? with
  | none =>
    have hl : t[i]? = none := by
      rw [List.getElem?_eq_none_iff] at hq ⊢
      exact h.length ▸ hq
    dsimp only
    rw [hl]
    exact ⟨h, rfl, fun _ _ _ => rfl, fun _ h => nomatch h⟩
  | some q =>
    have hi := (List.getElem?_eq_some_iff.mp hq).1
    obtain ⟨l, hl⟩ : ∃ l, t[i]? = some l := ⟨_, List.getElem?_eq_getElem (h.length ▸ hi)⟩
    dsimp only
    rw [hl]
    rcases invoke_does torch (h.holds i q l hq hl) method with
      ⟨answer, l', m', hplain, hrun, hwithin, hholds⟩ | ⟨exc, hplain, hrun⟩
    · dsimp only
      rw [hplain, hrun]
      refine ⟨h.write hq hwithin hholds, rfl, fun j hj hne => ?_, fun _ h => nomatch h⟩
      have hij : i ≠ j := fun heq => hne (congrArg some heq)
      show (s.queues.set i m'.self)[j]?.map _ = s.queues[j]?.map _
      rw [List.getElem?_set_ne hij]
      cases hx : s.queues[j]? with
      | none => rfl
      | some x =>
        exact congrArg (fun chunks => some (x, chunks))
          (hwithin.others _ fun heq => hij (h.apart i j q x hq hx heq.symm))
    · dsimp only
      rw [hplain, hrun]
      have hsame : (⟨s.queues.set i q, s.deques⟩ : World D V) = s := by
        rw [← (List.getElem?_eq_some_iff.mp hq).2, List.set_getElem_self]
      have hobject : ∀ j, (⟨s.queues.set i q, s.deques⟩ : World D V).object j = s.object j := fun j => by rw [hsame]
      refine ⟨?_, rfl, fun j _ _ => hobject j, fun _ _ j => hobject j⟩
      show Sim ⟨s.queues.set i q, s.deques⟩ t
      rw [hsame]
      exact h

/-- **One operation.** -/
theorem Sim.follows (h : Sim s t) (op : Op D V) : Follows s t op (step torch s op) (Plain.step torch.row t op) := by
  cases op with
  | fromTensor tensor => exact h.follows_fromTensor torch tensor
  | coerce value => exact h.follows_coerce torch value
  | copy i => exact h.follows_copy i
  | call i method => exact h.follows_call torch i method

theorem sim_nil : Sim ({} : World D V) [] where
  length := rfl
  holds _ _ _ h := nomatch h
  apart _ _ _ _ h := nomatch h

/-- The queues after a program. -/
def after (ops : List (Op D V)) : World D V := run (fun s op => (step torch s op).1) {} ops

/-- The lists after it. -/
def Plain.after (convert : D → Row D V → Row D V) (ops : List (Op D V)) : List (List (Row D V)) :=
  run (fun t op => (Plain.step convert t op).1) [] ops

theorem sim_after (ops : List (Op D V)) : Sim (after torch ops) (Plain.after torch.row ops) := by
  induction ops using List.reverseRecOn with
  | nil => exact sim_nil
  | append_singleton ops op ih =>
    rw [after, Plain.after, run_concat, run_concat]
    exact (ih.follows torch op).sim

/-- **Main theorem.** After any program with queues: the next operation comes to what it comes to on the lists; a queue
counts the rows of its list, which are the rows that it gives when it is iterated over; an operation changes no queue
but the one that it is called on, and none when it raises. -/
theorem queue_refines_fifo (ops : List (Op D V)) :
    (∀ op, (step torch (after torch ops) op).2.map (Except.mapError Error.cls) =
        (Plain.step torch.row (Plain.after torch.row ops) op).2) ∧
      (∀ (i : Nat) (q : Queue D V), (after torch ops).queues[i]? = some q → ∃ l,
        (Plain.after torch.row ops)[i]? = some l ∧
        q.pendingRows = l.length ∧ iter ⟨q, (after torch ops).deques⟩ = .ok l ⟨q, (after torch ops).deques⟩) ∧
      (∀ op i, i < (after torch ops).queues.length → op.target ≠ some i →
        (step torch (after torch ops) op).1.object i = (after torch ops).object i) ∧
      ∀ op exc, (step torch (after torch ops) op).2 = some (.error exc) →
        ∀ i, (step torch (after torch ops) op).1.object i = (after torch ops).object i := by
  have hsim := sim_after torch ops
  refine ⟨fun op => (hsim.follows torch op).outcome, fun i q hq => ?_, fun op => (hsim.follows torch op).others,
    fun op => (hsim.follows torch op).raising⟩
  have hi := (List.getElem?_eq_some_iff.mp hq).1
  obtain ⟨l, hl⟩ : ∃ l, (Plain.after torch.row ops)[i]? = some l := ⟨_, List.getElem?_eq_getElem (hsim.length ▸ hi)⟩
  have hholds := hsim.holds i q l hq hl
  exact ⟨l, hl, hholds.shape.count, iter_eq hholds⟩

/-! ### A list that takes rows as they come -/

inductive Dtype where
  | bfloat16
  | float32
  deriving DecidableEq

/-- Up to 258, `bfloat16` has all whole numbers but 257, which becomes 256. -/
def rounding : Torch Dtype Nat where
  convert
    | .float32, .bfloat16, n => if n = 257 then 256 else n
    | _, _, n => n
  cat first rest :=
    if same : ∀ b ∈ rest, b.kind = first.kind ∧ b.width = first.width then
      .ok ⟨first.kind, first.width, first.rows ++ rest.flatMap Batch.rows, by
        intro row hrow
        rcases List.mem_append.mp hrow with hrow | hrow
        · exact first.regular row hrow
        · obtain ⟨b, hb, hrow⟩ := List.mem_flatMap.mp hrow
          exact (b.regular row hrow).trans (same b hb).2⟩
    else .error "Sizes of tensors must match except in dimension 0"
  cat_eq first rest same := ⟨_, dif_pos same, rfl, rfl⟩

/-- A row of another dtype that comes to a queue with a row is popped as a rounded one. -/
theorem queue_converts_rows :
    (step rounding (after rounding [.fromTensor (.vector .bfloat16 [2]), .call 0 (.append (.vector .float32 [257])),
        .call 0 .popleft]) (.call 0 .popleft)).2 = some (.ok (.row ⟨.bfloat16, [256]⟩)) ∧
      (Plain.step (fun _ row => row) (Plain.after (fun _ row => row) [.fromTensor (.vector Dtype.bfloat16 [2]),
        .call 0 (.append (.vector .float32 [257])), .call 0 .popleft]) (.call 0 .popleft)).2 =
          some (.ok (.row ⟨.float32, [257]⟩)) :=
  ⟨rfl, rfl⟩

end SglangOmni.Models.Qwen3Omni.PendingTextQueue

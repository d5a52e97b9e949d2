import SglangOmni.Lib.Raising

/-! The metadata of a stream chunk sent by direct CUDA IPC.

Message packing knows neither tensors nor tuples, so a tensor is written as a dictionary of one key
with its pickle, and a tuple as one with the list of its items. The decoder goes by these
keys alone, and a dictionary of the sender's that has one of them as its only key is read as
the other thing, or refused: `plain` values have no such dictionary at any depth. -/
namespace SglangOmni.Comm.IpcMetadata
open Lib

/-- Keys of dictionaries: strings, and whatever else is hashable. -/
inductive Key (κ : Type) where
  | str (s : String)
  | other (k : κ)
  deriving DecidableEq

/-- Metadata values. A dictionary is its entries, of distinct keys. -/
inductive Value (κ τ σ β : Type) where
  | tensor (t : τ)
  | dict (entries : List (Key κ × Value κ τ σ β))
  | list (items : List (Value κ τ σ β))
  | tuple (items : List (Value κ τ σ β))
  | bytes (b : β)
  | scalar (s : σ)

/-- What a message carries. -/
inductive Wire (κ σ β : Type) where
  | bytes (b : β)
  | dict (entries : List (Key κ × Wire κ σ β))
  | list (items : List (Wire κ σ β))
  | scalar (s : σ)

inductive Error (ε : Type) where
  | tensorNotBytes
  | tupleNotList
  | pickle (e : ε)

variable {κ τ σ β ε : Type}

def tensorKey : Key κ := .str "_ipc_tensor"

def tupleKey : Key κ := .str "_ipc_tuple"

/-! ### The codec -/

section Serialize
variable (dumps : τ → β)

mutual

/-- `_serialize_direct_ipc_metadata_value`. -/
def serialize : Value κ τ σ β → Wire κ σ β
  | .tensor t => .dict [(tensorKey, .bytes (dumps t))]
  | .dict entries => .dict (serializeEntries entries)
  | .list items => .list (serializeItems items)
  | .tuple items => .dict [(tupleKey, .list (serializeItems items))]
  | .bytes b => .bytes b
  | .scalar s => .scalar s

def serializeEntries : List (Key κ × Value κ τ σ β) → List (Key κ × Wire κ σ β)
  | [] => []
  | (key, item) :: rest => (key, serialize item) :: serializeEntries rest

def serializeItems : List (Value κ τ σ β) → List (Wire κ σ β)
  | [] => []
  | item :: rest => serialize item :: serializeItems rest

end

end Serialize

section Deserialize
variable [DecidableEq κ] (loads : β → Except ε (Value κ τ σ β))

def loadTensor : List (Key κ × Wire κ σ β) → Except (Error ε) (Value κ τ σ β)
  | [(_, .bytes b)] => (loads b).mapError .pickle
  | _ => .error .tensorNotBytes

mutual

/-- `deserialize_direct_ipc_metadata`. -/
def deserialize : Wire κ σ β → Except (Error ε) (Value κ τ σ β)
  | .dict entries =>
    if entries.map Prod.fst = [tensorKey] then loadTensor loads entries
    else if entries.map Prod.fst = [tupleKey] then deserializeTuple entries
    else do return .dict (← deserializeEntries entries)
  | .list items => do return .list (← deserializeItems items)
  | .bytes b => .ok (.bytes b)
  | .scalar s => .ok (.scalar s)

def deserializeTuple : List (Key κ × Wire κ σ β) → Except (Error ε) (Value κ τ σ β)
  | [(_, .list items)] => do return .tuple (← deserializeItems items)
  | _ => .error .tupleNotList

def deserializeEntries : List (Key κ × Wire κ σ β) → Except (Error ε) (List (Key κ × Value κ τ σ β))
  | [] => .ok []
  | (key, item) :: rest => do
    let item ← deserialize item
    let rest ← deserializeEntries rest
    return (key, item) :: rest

def deserializeItems : List (Wire κ σ β) → Except (Error ε) (List (Value κ τ σ β))
  | [] => .ok []
  | item :: rest => do
    let item ← deserialize item
    let rest ← deserializeItems rest
    return item :: rest

end

end Deserialize

/-! ### Values without the codec's keys -/

section Plain
variable [DecidableEq κ]

mutual

/-- No dictionary at any depth has one of the codec's keys as its only key. -/
def Value.plain : Value κ τ σ β → Bool
  | .dict entries =>
    decide (entries.map Prod.fst ≠ [tensorKey]) && decide (entries.map Prod.fst ≠ [tupleKey]) && plainEntries entries
  | .list items => plainItems items
  | .tuple items => plainItems items
  | _ => true

def plainEntries : List (Key κ × Value κ τ σ β) → Bool
  | [] => true
  | (_, item) :: rest => item.plain && plainEntries rest

def plainItems : List (Value κ τ σ β) → Bool
  | [] => true
  | item :: rest => item.plain && plainItems rest

end

end Plain

mutual

/-- Built from dictionaries, lists, tuples, tensors and scalars. -/
def Value.noBytes : Value κ τ σ β → Bool
  | .dict entries => noBytesEntries entries
  | .list items => noBytesItems items
  | .tuple items => noBytesItems items
  | .bytes _ => false
  | _ => true

def noBytesEntries : List (Key κ × Value κ τ σ β) → Bool
  | [] => true
  | (_, item) :: rest => item.noBytes && noBytesEntries rest

def noBytesItems : List (Value κ τ σ β) → Bool
  | [] => true
  | item :: rest => item.noBytes && noBytesItems rest

end

/-! ### The round trip -/

theorem serializeEntries_keys (dumps : τ → β) (entries : List (Key κ × Value κ τ σ β)) :
    (serializeEntries dumps entries).map Prod.fst = entries.map Prod.fst := by
  induction entries with
  | nil => rfl
  | cons e rest ih =>
    rw [serializeEntries, List.map_cons, List.map_cons, ih]

theorem tupleKey_ne : (tupleKey : Key κ) ≠ tensorKey := by simp [tupleKey, tensorKey]

/-- A value is written as bytes only when it is bytes. -/
theorem serialize_ne_bytes (dumps : τ → β) {v : Value κ τ σ β} (h : v.noBytes = true) (b : β) :
    serialize dumps v ≠ .bytes b := by
  cases v with
  | bytes => cases h
  | _ => simp [serialize]

section RoundTrip
variable [DecidableEq κ] {dumps : τ → β} {loads : β → Except ε (Value κ τ σ β)}

/-- What becomes of a dictionary that has none of the keys as its only key. -/
theorem deserialize_dict {entries : List (Key κ × Wire κ σ β)} (htensor : entries.map Prod.fst ≠ [tensorKey])
    (htuple : entries.map Prod.fst ≠ [tupleKey]) :
    deserialize loads (.dict entries) = (deserializeEntries loads entries).map .dict := by
  rw [deserialize, if_neg htensor, if_neg htuple]
  cases deserializeEntries loads entries <;> rfl

theorem deserialize_tuple (items : List (Wire κ σ β)) :
    deserialize loads (.dict [(tupleKey, .list items)]) = (deserializeItems loads items).map .tuple := by
  have htensor : [(tupleKey, Wire.list items)].map Prod.fst ≠ [(tensorKey : Key κ)] := by simp [tupleKey_ne]
  rw [deserialize, if_neg htensor, if_pos (List.map_singleton ..), deserializeTuple]
  cases deserializeItems loads items <;> rfl

theorem map_eq_ok {α γ δ : Type} {x : Except δ α} {f : α → γ} {c : γ} :
    x.map f = .ok c ↔ ∃ a, x = .ok a ∧ f a = c := by
  cases x with
  | error e => exact ⟨(fun h => nomatch h), (fun ⟨_, h, _⟩ => nomatch h)⟩
  | ok a => simp [Except.map]

theorem deserialize_list (items : List (Wire κ σ β)) :
    deserialize loads (.list items) = (deserializeItems loads items).map .list := by
  rw [deserialize]
  cases deserializeItems loads items <;> rfl

/-- A dictionary whose only key marks a tensor is refused: its value is not written as bytes. -/
theorem deserialize_tensorKey_ne {entries : List (Key κ × Value κ τ σ β)} (hkeys : entries.map Prod.fst = [tensorKey])
    (h : noBytesEntries entries = true) :
    deserialize loads (.dict (serializeEntries dumps entries)) ≠ .ok (.dict entries) := by
  match entries, hkeys with
  | [(key, item)], hkeys =>
    have hitem : item.noBytes = true := (Bool.and_eq_true_iff.mp h).1
    rw [deserialize, if_pos (by rw [serializeEntries_keys]; exact hkeys), serializeEntries, serializeEntries]
    cases hw : serialize dumps item with
    | bytes b => exact absurd hw (serialize_ne_bytes dumps hitem b)
    | _ => exact fun heq => nomatch heq

/-- One whose only key marks a tuple is refused, or comes back as a tuple. -/
theorem deserialize_tupleKey_ne {entries : List (Key κ × Value κ τ σ β)} (hkeys : entries.map Prod.fst = [tupleKey])
    (out : List (Key κ × Value κ τ σ β)) :
    deserialize loads (.dict (serializeEntries dumps entries)) ≠ .ok (.dict out) := by
  match entries, hkeys with
  | [(key, item)], hkeys =>
    have htensor : [(key, item)].map Prod.fst ≠ [tensorKey] := by simp [hkeys, tupleKey_ne]
    rw [deserialize, if_neg (by rw [serializeEntries_keys]; exact htensor),
      if_pos (by rw [serializeEntries_keys]; exact hkeys), serializeEntries, serializeEntries]
    cases hw : serialize dumps item with
    | list items =>
      intro heq
      obtain ⟨_, -, heq⟩ := bind_eq_ok.mp heq
      cases heq
    | _ => exact fun heq => nomatch heq

mutual

theorem roundTrip_value (round : ∀ t, loads (dumps t) = .ok (.tensor t)) :
    ∀ v : Value κ τ σ β, v.noBytes = true → (deserialize loads (serialize dumps v) = .ok v ↔ v.plain = true)
  | .tensor t, _ => by
    simp [serialize, deserialize, loadTensor, round, Value.plain, Except.mapError]
  | .dict entries, h => by
    have ih := roundTrip_entries round entries h
    rw [serialize, Value.plain]
    by_cases htensor : entries.map Prod.fst = [tensorKey]
    · simp only [htensor, ne_eq, not_true_eq_false, decide_false, Bool.false_and, Bool.false_eq_true, iff_false]
      exact deserialize_tensorKey_ne htensor h
    · by_cases htuple : entries.map Prod.fst = [tupleKey]
      · simp only [htuple, ne_eq, not_true_eq_false, decide_false, Bool.and_false, Bool.false_and,
          Bool.false_eq_true, iff_false]
        exact deserialize_tupleKey_ne htuple _
      · rw [deserialize_dict (by rwa [serializeEntries_keys]) (by rwa [serializeEntries_keys]), map_eq_ok]
        simp [htensor, htuple, ih]
  | .list items, h => by
    rw [serialize, deserialize_list, map_eq_ok, Value.plain, ← roundTrip_items round items h]
    simp
  | .tuple items, h => by
    rw [serialize, deserialize_tuple, map_eq_ok, Value.plain, ← roundTrip_items round items h]
    simp
  | .bytes b, h => by cases h
  | .scalar s, _ => by simp [serialize, deserialize, Value.plain]

theorem roundTrip_entries (round : ∀ t, loads (dumps t) = .ok (.tensor t)) :
    ∀ entries : List (Key κ × Value κ τ σ β), noBytesEntries entries = true →
      (deserializeEntries loads (serializeEntries dumps entries) = .ok entries ↔ plainEntries entries = true)
  | [], _ => by simp [serializeEntries, deserializeEntries, plainEntries]
  | (key, item) :: rest, h => by
    obtain ⟨hitem, hrest⟩ := Bool.and_eq_true_iff.mp h
    rw [serializeEntries, deserializeEntries, plainEntries, Bool.and_eq_true,
      ← roundTrip_value round item hitem, ← roundTrip_entries round rest hrest]
    simp [bind_eq_ok, pure, Except.pure]

theorem roundTrip_items (round : ∀ t, loads (dumps t) = .ok (.tensor t)) :
    ∀ items : List (Value κ τ σ β), noBytesItems items = true →
      (deserializeItems loads (serializeItems dumps items) = .ok items ↔ plainItems items = true)
  | [], _ => by simp [serializeItems, deserializeItems, plainItems]
  | item :: rest, h => by
    obtain ⟨hitem, hrest⟩ := Bool.and_eq_true_iff.mp h
    rw [serializeItems, deserializeItems, plainItems, Bool.and_eq_true,
      ← roundTrip_value round item hitem, ← roundTrip_items round rest hrest]
    simp [bind_eq_ok, pure, Except.pure]

end

/-- **Metadata comes back as it was sent**, tuples as tuples and lists as lists at every depth, just when no
dictionary in it has one of the codec's keys as its only key. -/
theorem deserialize_serialize_iff (round : ∀ t, loads (dumps t) = .ok (.tensor t)) (v : Value κ τ σ β)
    (h : v.noBytes = true) : deserialize loads (serialize dumps v) = .ok v ↔ v.plain = true :=
  roundTrip_value round v h

end RoundTrip

/-- A pickle of a one-byte tensor, between the opcodes that open and end it. -/
def dumpsByte (t : UInt8) : List UInt8 := [0x80, 2, t, 0x2e]

def loadsByte : List UInt8 → Except String (Value Empty UInt8 Int (List UInt8))
  | [0x80, 2, t, 0x2e] => .ok (.tensor t)
  | _ => .error "invalid load key"

/-- Metadata with a tuple of tensors in a list comes back. -/
theorem deserialize_serialize_crops :
    let v : Value Empty UInt8 Int (List UInt8) :=
      .dict [(.str "crops", .list [.tuple [.tensor 7, .scalar 3], .dict []])]
    v.noBytes = true ∧ deserialize loadsByte (serialize dumpsByte v) = .ok v :=
  ⟨rfl, (deserialize_serialize_iff (fun _ => rfl) _ rfl).mpr rfl⟩

/-- A dictionary of the sender's comes back as a tuple, or is refused. -/
theorem deserialize_serialize_fails :
    deserialize loadsByte
      (serialize dumpsByte (.dict [(.str "size", .dict [(tupleKey, .list [.scalar 1, .scalar 2])])])) =
        .ok (.dict [(.str "size", .tuple [.scalar 1, .scalar 2])]) ∧
      deserialize loadsByte (serialize dumpsByte (.dict [(tensorKey, .tensor 7)])) = .error .tensorNotBytes :=
  ⟨rfl, rfl⟩

end SglangOmni.Comm.IpcMetadata

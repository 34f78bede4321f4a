import BitLayout.Json.Transport
import BitLayout.Proofs.Outcome
import BitLayout.Proofs.Text.Numeral
import BitLayout.Proofs.Value.Parts

/-!
# Wrapped values read back

Wrapping the byte strings of a value leaves only what JSON has, and opening the wrappers gives the
value back. A record that looks like a wrapper is enclosed in another one, and what is opened there
is not looked at as a wrapper again, however deep such records are nested.

## Main results

* `bytesOfHex_hexOfBytes`: hexadecimal digits spell the bytes that they were written for
* `Value.MadeOf.toTransport`: what wrapped values are made of
* `Value.MadeOf.ofTransport_toTransport`: opening after wrapping
* `Value.transport_loses_nothing`
-/

namespace BitLayout

section Hexadecimal

variable {data : List UInt8}

theorem bytesOfPairs_hexOfBytes {position : Nat} :
    bytesOfPairs position (Text.hexOfBytes data) = .ok data := by
  induction data generalizing position with
  | nil => rfl
  | cons b rest ih =>
    have small := b.toNat_lt
    have value : UInt8.ofNat (16 * (b.toNat / 16) + b.toNat % 16) = b := by
      rw [Nat.div_add_mod, UInt8.ofNat_toNat]
    have solid : ∀ d < 16, isHexBlank (CodePoint.ofChar d.digitChar) = false := by decide
    have pair : Text.hexOfBytes (b :: rest) = CodePoint.ofChar (b.toNat / 16).digitChar ::
        CodePoint.ofChar (b.toNat % 16).digitChar :: Text.hexOfBytes rest := by
      rw [Text.hexOfBytes, List.flatMap_cons, Text.hex_two small]
      rfl
    rw [pair, bytesOfPairs, solid _ (by omega), CodePoint.hexValue?_digitChar (by omega)]
    dsimp only
    rw [CodePoint.hexValue?_digitChar (by omega), if_neg (by decide), ih]
    dsimp only [bind, Except.bind]
    rw [value]

/-- A hexadecimal numeral is in ASCII. -/
theorem ascii_of_mem_hexOfBytes {c : CodePoint} (member : c ∈ Text.hexOfBytes data) :
    c.toNat < 0x80 := by
  obtain ⟨b, -, digit⟩ := List.mem_flatMap.mp member
  have small := b.toNat_lt
  have ascii : ∀ d < 16, (CodePoint.ofChar d.digitChar).toNat < 0x80 := by decide
  rw [Text.hex_two small] at digit
  rcases List.mem_cons.mp digit with rfl | digit
  · exact ascii _ (by omega)
  · rw [List.mem_singleton.mp digit]
    exact ascii _ (by omega)

theorem bytesOfHex_hexOfBytes : bytesOfHex (Text.hexOfBytes data) = .ok data := by
  have ascii : (Text.hexOfBytes data).findIdx? (0x80 ≤ ·.toNat) = none := by
    refine List.findIdx?_eq_none_iff.mpr fun c member => ?_
    exact decide_eq_false (Nat.not_le_of_lt (ascii_of_mem_hexOfBytes member))
  rw [bytesOfHex, ascii]
  exact bytesOfPairs_hexOfBytes

end Hexadecimal

variable {value : Value} {items : List Value} {entries : Entries} {text name : Text → Prop}

section Wrapping

theorem itemsToTransport_eq_map : itemsToTransport items = items.map Value.toTransport := by
  induction items with
  | nil => rfl
  | cons item rest ih => rw [itemsToTransport, ih, List.map_cons]

theorem entriesToTransport_eq_map :
    entriesToTransport entries = entries.map fun entry => (entry.1, entry.2.toTransport) := by
  induction entries with
  | nil => rfl
  | cons entry rest ih => rw [entriesToTransport, ih, List.map_cons]

theorem keys_entriesToTransport : Entries.keys (entriesToTransport entries) = entries.keys := by
  rw [entriesToTransport_eq_map, Entries.keys, List.map_map]
  rfl

theorem Entries.keyedBy_singleton {t : Text} (holds : name t) :
    Entries.KeyedBy [(.text t, value)] name := by
  refine ⟨fun key member => ⟨t, List.mem_singleton.mp member, holds⟩, ?_⟩
  exact List.pairwise_singleton _ _

/-- Wrapping leaves no byte string. -/
theorem Value.MadeOf.toTransport (made : value.MadeOf (IsPlain text) name)
    (digits : ∀ data, text (Text.hexOfBytes data)) (bytesName : name bytesKey)
    (recordName : name recordKey) : value.toTransport.MadeOf (IsScalar text) name := by
  have wrapped {t content} (holds : name t) (inside : content.MadeOf (IsScalar text) name) :
      (Value.dict [(.text t, content)]).MadeOf (IsScalar text) name :=
    .dict (Entries.keyedBy_singleton holds) (by simpa using inside)
  induction made with
  | @part value holds =>
    match value, holds with
    | .null, _ => exact .part trivial
    | .bool b, _ => exact .part trivial
    | .int n, _ => exact .part trivial
    | .text t, holds => exact .part holds
    | .bytes .fixed data, _ => exact wrapped bytesName (.part (digits data))
  | list _ ih =>
    rw [Value.toTransport, itemsToTransport_eq_map]
    exact .list (List.forall_mem_map.mpr ih)
  | @dict entries keyed _ ih =>
    have converted : (Value.dict (entriesToTransport entries)).MadeOf (IsScalar text) name := by
      refine .dict ⟨?_, ?_⟩ ?_
      · rw [keys_entriesToTransport]
        exact keyed.named
      · rw [keys_entriesToTransport]
        exact keyed.once
      · rw [entriesToTransport_eq_map]
        exact List.forall_mem_map.mpr ih
    rw [Value.toTransport]
    split
    · exact wrapped recordName converted
    · exact converted

end Wrapping

section Opening

theorem itemsOfTransport_itemsToTransport
    (each : ∀ item ∈ items, item.toTransport.ofTransport = .ok item) :
    itemsOfTransport (itemsToTransport items) = .ok items := by
  induction items with
  | nil => rfl
  | cons item rest ih =>
    obtain ⟨first, others⟩ := List.forall_mem_cons.mp each
    rw [itemsToTransport, itemsOfTransport, first, ih others]
    rfl

theorem entriesOfTransport_entriesToTransport
    (each : ∀ entry ∈ entries, entry.2.toTransport.ofTransport = .ok entry.2) :
    entriesOfTransport (entriesToTransport entries) = .ok entries := by
  induction entries with
  | nil => rfl
  | cons entry rest ih =>
    obtain ⟨first, others⟩ := List.forall_mem_cons.mp each
    rw [entriesToTransport, entriesOfTransport, first, ih others]
    rfl

theorem isSingleton_entriesToTransport {t : Text} :
    Entries.isSingleton (entriesToTransport entries) t = entries.isSingleton t := by
  match entries with
  | [] => rfl
  | [_] => rfl
  | _ :: _ :: _ => rfl

/-- A record that is no wrapper is opened entry by entry. -/
theorem ofTransport_of_not_wrapper (notBytes : entries.isSingleton bytesKey = false)
    (notRecord : entries.isSingleton recordKey = false) :
    (Value.dict entries).ofTransport = .dict <$> entriesOfTransport entries := by
  cases entries with
  | nil => rfl
  | cons entry rest =>
    obtain ⟨key, content⟩ := entry
    have refused {t : Text} (other : Entries.isSingleton ((key, content) :: rest) t = false) :
        (rest.isEmpty && key.equals (.text t)) = false := by
      cases rest with
      | nil => exact other
      | cons second rest => rfl
    conv_lhs => unfold Value.ofTransport
    dsimp only
    rw [refused notBytes, refused notRecord, if_neg Bool.false_ne_true,
      if_neg Bool.false_ne_true, entriesOfTransport]
    cases content.ofTransport with
    | error e => rfl
    | ok first => cases entriesOfTransport rest <;> rfl

/-- What a record wrapper encloses is opened entry by entry, even if it is one entry. -/
theorem ofTransport_record_wrapper :
    (Value.dict [(.text recordKey, .dict entries)]).ofTransport =
      .dict <$> entriesOfTransport entries := by
  have different : (Value.text recordKey).equals (.text bytesKey) = false := by decide
  have same : (Value.text recordKey).equals (.text recordKey) = true := by decide
  rw [Value.ofTransport, different, same]
  cases entriesOfTransport entries <;> rfl

/-- Opening gives back what was wrapped. -/
theorem Value.MadeOf.ofTransport_toTransport (made : value.MadeOf (IsPlain text) name) :
    value.toTransport.ofTransport = .ok value := by
  induction made with
  | @part value holds =>
    match value, holds with
    | .null, _ | .bool b, _ | .int n, _ | .text t, _ => rfl
    | .bytes .fixed data, _ =>
      have same : (Value.text bytesKey).equals (.text bytesKey) = true := by decide
      rw [Value.toTransport, Value.ofTransport, same, List.isEmpty_nil, Bool.and_self, if_pos rfl,
        bytesOfHex_hexOfBytes]
      rfl
  | list _ ih =>
    rw [Value.toTransport, Value.ofTransport, itemsOfTransport_itemsToTransport ih]
    rfl
  | @dict entries _ _ ih =>
    have opened := entriesOfTransport_entriesToTransport ih
    rw [Value.toTransport]
    split
    case isTrue => rw [ofTransport_record_wrapper, opened]; rfl
    case isFalse plain =>
      rw [Bool.or_eq_true, not_or, Bool.not_eq_true, Bool.not_eq_true] at plain
      rw [ofTransport_of_not_wrapper (isSingleton_entriesToTransport.trans plain.1)
        (isSingleton_entriesToTransport.trans plain.2), opened]
      rfl

end Opening

/-- A value made of nothing, truth values, integers, texts and byte strings, in lists and in records
with texts for keys, loses nothing on its way through JSON: what travels holds no byte string, and
what arrives is the same value, with the keys in the same order. -/
theorem Value.transport_loses_nothing (value : Value)
    (made : value.MadeOf (IsPlain fun _ => True) fun _ => True) :
    (value.toTransport.MadeOf (IsScalar fun _ => True) fun _ => True) ∧
      value.toTransport.ofTransport = .ok value :=
  ⟨made.toTransport (fun _ => trivial) trivial trivial, made.ofTransport_toTransport⟩

/-- Both records are enclosed, and the byte string is wrapped. -/
example : (Value.dict [(.text recordKey, .dict [(.text bytesKey, .ofBytes [1])])]).toTransport =
    .dict [(.text recordKey, .dict [(.text recordKey, .dict [(.text recordKey,
      .dict [(.text bytesKey, .dict [(.text bytesKey, .text "01")])])])])] := by
  rfl

/-- A record that looks like a record wrapper around one that looks like a byte string. -/
def Value.enclosed : Value :=
  .dict [(.text recordKey, .dict [(.text bytesKey, .ofBytes [1, 255])])]

theorem Value.transport_loses_nothing_enclosed :
    enclosed.MadeOf (IsPlain fun _ => True) (fun _ => True) ∧
      (enclosed.toTransport.MadeOf (IsScalar fun _ => True) fun _ => True) ∧
      enclosed.toTransport.ofTransport = .ok enclosed := by
  have made : enclosed.MadeOf (IsPlain fun _ => True) fun _ => True := by
    have inner : (Value.dict [(.text bytesKey, .ofBytes [1, 255])]).MadeOf
        (IsPlain fun _ => True) fun _ => True :=
      .dict (Entries.keyedBy_singleton trivial) (List.forall_mem_singleton.mpr (.part trivial))
    exact .dict (Entries.keyedBy_singleton trivial) (List.forall_mem_singleton.mpr inner)
  exact ⟨made, transport_loses_nothing enclosed made⟩

end BitLayout

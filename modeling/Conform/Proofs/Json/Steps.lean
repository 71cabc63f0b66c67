import Conform.Json.Read
import Mathlib.Logic.Basic

/-! What each reader of documents does in one step, as a relation with one rule for
each way it goes on. Every proof about the readers goes through these relations. -/
namespace Conform.Json

variable {text : List StringUnit → Bytes} {inner : Reader Json}

/-- A step over the items of an array: an item, and after it a comma with the items that
follow, or the end. -/
inductive ItemsStep (inner : Reader Json) (fuel : Nat) (done : List Json) (input : Bytes) :
    Json × Bytes → Prop where
  | more {item : Json} {after tail : Bytes} {r : Json × Bytes}
      (first : inner (skipSpace input) = some (item, after))
      (comma : skipSpace after = octet ',' :: tail)
      (others : items inner fuel (item :: done) tail = some r) : ItemsStep inner fuel done input r
  | last {item : Json} {after tail : Bytes} (first : inner (skipSpace input) = some (item, after))
      (close : skipSpace after = octet ']' :: tail) :
      ItemsStep inner fuel done input (.array (item :: done).reverse, tail)

theorem items_eq_some_iff {fuel : Nat} {done : List Json} {input : Bytes} {r : Json × Bytes} :
    items inner (fuel + 1) done input = some r ↔ ItemsStep inner fuel done input r := by
  rw [items]
  constructor
  · intro read
    split at read
    · contradiction
    · rename_i item after first
      split at read
      · contradiction
      · rename_i b tail next
        split at read
        · rename_i comma
          exact .more first (comma ▸ next) read
        · split at read
          · rename_i close
            obtain rfl := Option.some.inj read
            exact .last first (close ▸ next)
          · contradiction
  · intro step
    cases step with
    | more first comma others => simp only [first, comma, if_true, others]
    | last first close =>
      simp only [first, close]
      rw [if_neg (by decide), if_true]

/-- The name of a member, with its colon. -/
inductive Named (input : Bytes) (name : List StringUnit) (after : Bytes) : Prop where
  | intro {rest tail : Bytes} (quote : skipSpace input = 0x22 :: rest)
      (units : stringRest [] rest = some (name, tail)) (colon : skipSpace tail = octet ':' :: after)

/-- A step over the members of an object: a name and its value, and after it a comma with the
members that follow, or the end. -/
inductive MembersStep (text : List StringUnit → Bytes) (inner : Reader Json) (fuel : Nat)
    (done : List (Bytes × Json)) (input : Bytes) : Json × Bytes → Prop where
  | more {name : List StringUnit} {value : Json} {start after tail : Bytes} {r : Json × Bytes}
      (named : Named input name start) (first : inner (skipSpace start) = some (value, after))
      (comma : skipSpace after = octet ',' :: tail)
      (others : members text inner fuel ((text name, value) :: done) tail = some r) :
      MembersStep text inner fuel done input r
  | last {name : List StringUnit} {value : Json} {start after tail : Bytes}
      (named : Named input name start) (first : inner (skipSpace start) = some (value, after))
      (close : skipSpace after = 0x7D :: tail) :
      MembersStep text inner fuel done input (.object ((text name, value) :: done).reverse, tail)

theorem members_eq_some_iff {fuel : Nat} {done : List (Bytes × Json)} {input : Bytes}
    {r : Json × Bytes} : members text inner (fuel + 1) done input = some r ↔
      MembersStep text inner fuel done input r := by
  rw [members]
  constructor
  · intro read
    split at read
    · contradiction
    · rename_i mark rest quote
      split at read
      · contradiction
      · rename_i quoted
        obtain rfl := not_not.mp quoted
        split at read
        · contradiction
        · rename_i name tail units
          split at read
          · contradiction
          · rename_i mark start colon
            split at read
            · contradiction
            · rename_i parted
              obtain rfl := not_not.mp parted
              have named : Named input name start := .intro quote units colon
              split at read
              · contradiction
              · rename_i value after first
                split at read
                · contradiction
                · rename_i b tail next
                  split at read
                  · rename_i comma
                    exact .more named first (comma ▸ next) read
                  · split at read
                    · rename_i close
                      obtain rfl := Option.some.inj read
                      exact .last named first (close ▸ next)
                    · contradiction
  · intro step
    cases step with
    | more named first comma others =>
      obtain ⟨quote, units, colon⟩ := named
      simp only [quote, units, colon, first, comma, ne_eq, not_true_eq_false, if_false, if_true,
        others]
    | last named first close =>
      obtain ⟨quote, units, colon⟩ := named
      simp only [quote, units, colon, first, close, ne_eq, not_true_eq_false, if_false]
      rw [if_neg (by decide), if_true]

/-- What is read at an octet that opens no text, array or object. -/
def wordOrNumber (b : UInt8) (rest : Bytes) : Option (Json × Bytes) :=
  if b = octet 'n' then (Bytes.after? "ull" rest).map (.null, ·)
  else if b = octet 't' then (Bytes.after? "rue" rest).map (.bool true, ·)
  else if b = octet 'f' then (Bytes.after? "alse" rest).map (.bool false, ·)
  else
    match numeral (b :: rest) with
    | some (n, rest) => some (.number n, rest)
    | none => none

theorem value_wordOrNumber (length depth : Nat) {b : UInt8} (noText : b ≠ 0x22)
    (noArray : b ≠ octet '[') (noObject : b ≠ 0x7B) (rest : Bytes) :
    value text length depth (b :: rest) = wordOrNumber b rest := by
  rw [value.eq_def]
  simp only
  rw [if_neg noText, if_neg noArray, if_neg noObject]
  rfl

/-- What a value starts with, and how it goes on. -/
inductive ValueStep (text : List StringUnit → Bytes) (length depth : Nat) :
    Bytes → Json × Bytes → Prop where
  | string {rest after : Bytes} {units : List StringUnit}
      (found : stringRest [] rest = some (units, after)) :
      ValueStep text length depth (0x22 :: rest) (.string (text units), after)
  | emptyArray {less : Nat} {rest after : Bytes} (deep : depth = less + 1)
      (close : skipSpace rest = octet ']' :: after) :
      ValueStep text length depth (octet '[' :: rest) (.array [], after)
  | array {less : Nat} {rest after : Bytes} {c : UInt8} {r : Json × Bytes} (deep : depth = less + 1)
      (next : skipSpace rest = c :: after) (nonempty : c ≠ octet ']')
      (list : items (value text length less) length [] (c :: after) = some r) :
      ValueStep text length depth (octet '[' :: rest) r
  | emptyObject {less : Nat} {rest after : Bytes} (deep : depth = less + 1)
      (close : skipSpace rest = 0x7D :: after) :
      ValueStep text length depth (0x7B :: rest) (.object [], after)
  | object {less : Nat} {rest after : Bytes} {c : UInt8} {r : Json × Bytes}
      (deep : depth = less + 1) (next : skipSpace rest = c :: after) (nonempty : c ≠ 0x7D)
      (list : members text (value text length less) length [] (c :: after) = some r) :
      ValueStep text length depth (0x7B :: rest) r
  | wordOrNumber {b : UInt8} {rest : Bytes} {r : Json × Bytes} (noText : b ≠ 0x22)
      (noArray : b ≠ octet '[') (noObject : b ≠ 0x7B) (found : wordOrNumber b rest = some r) :
      ValueStep text length depth (b :: rest) r

theorem value_eq_some_iff {length depth : Nat} {input : Bytes} {r : Json × Bytes} :
    value text length depth input = some r ↔ ValueStep text length depth input r := by
  constructor
  · intro read
    rw [value.eq_def] at read
    split at read
    · contradiction
    · split at read
      · rename_i quote
        subst quote
        split at read
        · rename_i units after found
          obtain rfl := Option.some.inj read
          exact .string found
        · contradiction
      · rename_i noText
        split at read
        · rename_i bracket
          subst bracket
          split at read
          · contradiction
          · split at read
            · contradiction
            · rename_i c after next
              split at read
              · rename_i close
                obtain rfl := Option.some.inj read
                exact .emptyArray rfl (close ▸ next)
              · rename_i nonempty
                exact .array rfl next nonempty read
        · rename_i noArray
          split at read
          · rename_i brace
            subst brace
            split at read
            · contradiction
            · split at read
              · contradiction
              · rename_i c after next
                split at read
                · rename_i close
                  obtain rfl := Option.some.inj read
                  exact .emptyObject rfl (close ▸ next)
                · rename_i nonempty
                  exact .object rfl next nonempty read
          · rename_i noObject
            exact .wordOrNumber noText noArray noObject read
  · intro step
    cases step with
    | string found =>
      rw [value.eq_def]
      simp only [if_true, found]
    | emptyArray deep close =>
      subst deep
      rw [value.eq_def]
      simp only
      rw [if_neg (by decide), if_true]
      simp only [close, if_true]
    | array deep next nonempty list =>
      subst deep
      rw [value.eq_def]
      simp only
      rw [if_neg (by decide), if_true]
      simp only [next, if_neg nonempty, list]
    | emptyObject deep close =>
      subst deep
      rw [value.eq_def]
      simp only
      rw [if_neg (by decide), if_neg (by decide), if_true]
      simp only [close, if_true]
    | object deep next nonempty list =>
      subst deep
      rw [value.eq_def]
      simp only
      rw [if_neg (by decide), if_neg (by decide), if_true]
      simp only [next, if_neg nonempty, list]
    | wordOrNumber noText noArray noObject found =>
      rw [value_wordOrNumber length depth noText noArray noObject, found]

end Conform.Json

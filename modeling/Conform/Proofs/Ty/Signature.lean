import Conform.Proofs.Ty.Words

/-! Signatures tell types apart. A signature can be split off the front of any
text that goes on the way types can end, and what was split off decides the type
up to the quoting of its string literals. The members of a union end before a
bar, everything else ends before a closing bracket or a comma. -/
namespace Conform

theorem quoteWith_cancel {quote : UInt8} (distinct : quote ≠ 0x5C) {text text' rest rest' : Bytes}
    (same : quoteWith quote text ++ rest = quoteWith quote text' ++ rest') :
    text = text' ∧ rest = rest' := by
  simp only [quoteWith, List.cons_append, List.append_assoc, List.cons.injEq, true_and] at same
  induction text generalizing text' with
  | nil =>
    cases text' with
    | nil => simpa using same
    | cons b tail' =>
      -- An octet of the other text that is the quote is escaped, so it starts with a backslash.
      simp only [List.flatMap_nil, List.nil_append, List.flatMap_cons] at same
      split at same <;> simp_all
  | cons b tail ih =>
    cases text' with
    | nil =>
      simp only [List.flatMap_nil, List.nil_append, List.flatMap_cons] at same
      split at same <;> simp_all
    | cons b' tail' =>
      simp only [List.flatMap_cons, List.append_assoc] at same
      have heads : b = b' ∧
          tail.flatMap (fun b => if b = quote ∨ b = 0x5C then [0x5C, b] else [b]) ++
              ([quote] ++ rest) =
            tail'.flatMap (fun b => if b = quote ∨ b = 0x5C then [0x5C, b] else [b]) ++
              ([quote] ++ rest') := by
        split at same <;> split at same <;> simp_all
      obtain ⟨rfl, rfl⟩ := ih heads.2
      exact ⟨by rw [heads.1], rfl⟩

/-- The octets before which a type ends, unless it is the member of a union. -/
def isClose (b : UInt8) : Bool := b == 0x3E || b == 0x2C || b == 0x7D

/-- The octets before which the member of a union ends. -/
def isEnd (b : UInt8) : Bool := b == 0x7C || isClose b

theorem isWordOctet_of_end {b : UInt8} (ends : isEnd b = true) : isWordOctet b = false :=
  octet_cases (P := fun b => isEnd b = true → isWordOctet b = false) (by decide) b ends

theorem Starts.end_of_close {text : Bytes} (closes : Starts isClose text) : Starts isEnd text := by
  intro b member
  rw [isEnd, closes b member, Bool.or_true]

theorem Starts.stops {text : Bytes} (ends : Starts isEnd text) :
    ∀ b ∈ text.head?, isWordOctet b = false :=
  fun b member => isWordOctet_of_end (ends b member)

/-- The key of a field as it stands in a shape. -/
def keyForm (key : Bytes) : Bytes := if isBareKey key then key else quoteWith 0x27 key

theorem isBareKey_words {key : Bytes} (bare : isBareKey key = true) :
    key ≠ [] ∧ key.all isWordOctet = true := by
  simp only [isBareKey, Bool.or_eq_true] at bare
  rcases bare with integer | word
  · constructor
    · rintro rfl
      exact Bool.false_ne_true integer
    · exact isIntegerForm_words integer
  · cases key with
    | nil => contradiction
    | cons b rest =>
      simp only [Bool.and_eq_true, List.all_eq_true] at word
      refine ⟨List.cons_ne_nil b rest, List.all_eq_true.mpr ?_⟩
      intro c member
      have start : startsWord c = true ∨ isDigit c = true := by
        rcases List.mem_cons.mp member with rfl | member
        · exact Or.inl word.1
        · exact Bool.or_eq_true _ _ ▸ word.2 c member
      simp only [isWordOctet, Bool.or_eq_true]
      tauto

theorem keyForm_first (key : Bytes) :
    ∃ b rest, keyForm key = b :: rest ∧ (isWordOctet b = true ∨ b = 0x27) := by
  simp only [keyForm]
  split
  · rename_i bare
    obtain ⟨nonempty, words⟩ := isBareKey_words bare
    obtain ⟨b, rest, rfl⟩ := List.exists_cons_of_ne_nil nonempty
    exact ⟨b, rest, rfl, Or.inl (List.all_eq_true.mp words b (by simp))⟩
  · exact ⟨0x27, _, rfl, Or.inr rfl⟩

/-- A bare key starts with a letter, a digit or a sign, never with a quote. -/
theorem bareKey_ne_quoted {key text rest rest' : Bytes} (bare : isBareKey key = true) :
    key ++ rest ≠ quoteWith 0x27 text ++ rest' := by
  obtain ⟨nonempty, words⟩ := isBareKey_words bare
  obtain ⟨b, tail, rfl⟩ := List.exists_cons_of_ne_nil nonempty
  intro same
  have first : b = 0x27 := (List.cons.inj same).1
  have word := List.all_eq_true.mp words b (by simp)
  rw [first] at word
  contradiction

theorem keyForm_cancel {key key' rest rest' : Bytes}
    (stop : ∀ b ∈ rest.head?, isWordOctet b = false)
    (stop' : ∀ b ∈ rest'.head?, isWordOctet b = false)
    (same : keyForm key ++ rest = keyForm key' ++ rest') : key = key' ∧ rest = rest' := by
  simp only [keyForm] at same
  split at same <;> split at same
  · rename_i bare bare'
    exact run_cancel (isBareKey_words bare).2 (isBareKey_words bare').2 stop stop' same
  · rename_i bare _
    exact absurd same (bareKey_ne_quoted bare)
  · rename_i _ bare'
    exact absurd same.symm (bareKey_ne_quoted bare')
  · exact quoteWith_cancel (by decide) same

namespace Ty

theorem Regular.kind_ne_none {t : Ty} (regular : t.Regular) : t.kind? ≠ none := by
  intro unknown
  have known := every_self regular.known
  rw [unknown] at known
  contradiction

/-- A signature is that of the first member followed by those of the others. -/
theorem Regular.signature_members {t : Ty} (regular : t.Regular) : ∃ first rest,
    t.members = first :: rest ∧
      t.signature = first.signature ++ rest.flatMap fun m => 0x7C :: m.signature := by
  by_cases union : t.kind? = some .union
  · cases t with
    | union ms =>
      have length := regular.members_length
      cases ms with
      | nil => simp at length
      | cons first rest =>
        refine ⟨first, rest, rfl, ?_⟩
        simp only [signature, render, renderAll_eq, List.map_cons, Bytes.join_cons,
          List.flatMap_map]
        rfl
    | _ => simp [kind?] at union
  · exact ⟨t, [], members_single union, by simp⟩

/-- The members decide the type, since a union has two at least. -/
theorem unquoted_of_members {s t : Ty} (sRegular : s.Regular) (tRegular : t.Regular)
    (same : s.members.map unquoted = t.members.map unquoted) : s.unquoted = t.unquoted := by
  have lengths := congrArg List.length same
  simp only [List.length_map] at lengths
  by_cases sUnion : s.kind? = some .union <;> by_cases tUnion : t.kind? = some .union
  · cases s <;> simp [kind?] at sUnion
    cases t <;> simp [kind?] at tUnion
    simp only [members] at same
    simp only [unquoted, unquotedAll_eq, same]
  · cases s <;> simp [kind?] at sUnion
    have length := sRegular.members_length
    rw [members_single tUnion, List.length_singleton] at lengths
    simp only [members] at lengths
    omega
  · cases t <;> simp [kind?] at tUnion
    have length := tRegular.members_length
    rw [members_single sUnion, List.length_singleton] at lengths
    simp only [members] at lengths
    omega
  · rw [members_single sUnion, members_single tUnion] at same
    simpa using same

/-- The signature of a type that is no union can be split off before an end. -/
def Splits (s : Ty) : Prop :=
  ∀ t : Ty, t.Regular → t.kind? ≠ some .union → ∀ x y, Starts isEnd x → Starts isEnd y →
    s.signature ++ x = t.signature ++ y → s.unquoted = t.unquoted ∧ x = y

theorem rest_ends (ms : List Ty) {x : Bytes} (closes : Starts isClose x) :
    Starts isEnd ((ms.flatMap fun m => 0x7C :: m.signature) ++ x) := by
  cases ms with
  | nil => exact closes.end_of_close
  | cons m rest => exact Starts.cons _ (by decide)

theorem members_cancel {ms ns : List Ty} (splits : ∀ m ∈ ms, m.Splits)
    (singles : ∀ n ∈ ns, n.Regular ∧ n.kind? ≠ some .union) {x y : Bytes}
    (closes : Starts isClose x) (closes' : Starts isClose y)
    (same : (ms.flatMap fun m => 0x7C :: m.signature) ++ x =
      (ns.flatMap fun m => 0x7C :: m.signature) ++ y) :
    ms.map unquoted = ns.map unquoted ∧ x = y := by
  induction ms generalizing ns with
  | nil =>
    cases ns with
    | nil => exact ⟨rfl, same⟩
    | cons n ns =>
      obtain rfl : x = _ := same
      exact absurd closes.head (by decide)
  | cons m ms ih =>
    cases ns with
    | nil =>
      obtain rfl : _ = y := same
      exact absurd closes'.head (by decide)
    | cons n ns =>
      simp only [List.flatMap_cons, List.cons_append, List.append_assoc, List.cons.injEq,
        true_and] at same
      obtain ⟨regular, single⟩ := singles n (by simp)
      obtain ⟨first, same⟩ := splits m (by simp) n regular single _ _
        (rest_ends ms closes) (rest_ends ns closes') same
      obtain ⟨others, rest⟩ := ih (fun m member => splits m (by simp [member]))
        (fun n member => singles n (by simp [member])) same
      exact ⟨by rw [List.map_cons, List.map_cons, first, others], rest⟩

/-- When the members' signatures can be split off, so can that of the type. -/
theorem cancel_of_members {s t : Ty} (sRegular : s.Regular) (tRegular : t.Regular)
    (splits : ∀ m ∈ s.members, m.Splits) {x y : Bytes} (closes : Starts isClose x)
    (closes' : Starts isClose y) (same : s.signature ++ x = t.signature ++ y) :
    s.unquoted = t.unquoted ∧ x = y := by
  obtain ⟨m, ms, sMembers, sSignature⟩ := sRegular.signature_members
  obtain ⟨n, ns, tMembers, tSignature⟩ := tRegular.signature_members
  have singles : ∀ n' ∈ n :: ns, n'.Regular ∧ n'.kind? ≠ some .union := by
    intro n' member
    exact tRegular.single (tMembers ▸ member)
  rw [sMembers] at splits
  -- Put a bar before both, so that the first members are treated like the others.
  have barred : ((m :: ms).flatMap fun m => 0x7C :: m.signature) ++ x =
      ((n :: ns).flatMap fun m => 0x7C :: m.signature) ++ y := by
    rw [sSignature, tSignature] at same
    simp only [List.flatMap_cons, List.cons_append, same]
  obtain ⟨parts, rest⟩ := members_cancel splits singles closes closes' barred
  refine ⟨unquoted_of_members sRegular tRegular ?_, rest⟩
  rw [sMembers, tMembers, parts]

/-- The signature can be split off before a closing octet. -/
def Cancels (s : Ty) : Prop :=
  ∀ t : Ty, t.Regular → ∀ x y, Starts isClose x → Starts isClose y →
    s.signature ++ x = t.signature ++ y → s.unquoted = t.unquoted ∧ x = y

theorem fieldForm_eq (f : Field Ty) (x : Bytes) : fieldForm f ++ x =
    keyForm f.key ++ ((if f.optional then [0x3F] else []) ++ 0x3A :: 0x20 :: (f.type.signature ++ x)) := by
  simp only [fieldForm, renderField, List.append_assoc, keyForm]
  rfl

theorem field_cancel {f g : Field Ty} (cancels : f.type.Cancels) (regular : g.type.Regular)
    {x y : Bytes} (closes : Starts isClose x) (closes' : Starts isClose y)
    (same : fieldForm f ++ x = fieldForm g ++ y) :
    (f.key = g.key ∧ f.optional = g.optional ∧ f.type.unquoted = g.type.unquoted) ∧ x = y := by
  have stops : ∀ (optional : Bool) (rest : Bytes),
      ∀ b ∈ ((if optional then [0x3F] else []) ++ 0x3A :: rest : Bytes).head?,
        isWordOctet b = false := by
    intro optional rest b member
    cases optional <;> obtain rfl := Option.some.inj member <;> decide
  rw [fieldForm_eq, fieldForm_eq] at same
  obtain ⟨key, same⟩ := keyForm_cancel (stops _ _) (stops _ _) same
  have optional : f.optional = g.optional := by
    cases hf : f.optional <;> cases hg : g.optional <;> simp_all
  rw [optional] at same
  have types := List.append_cancel_left same
  simp only [List.cons.injEq, true_and] at types
  obtain ⟨type, rest⟩ := cancels g.type regular x y closes closes' types
  exact ⟨⟨key, optional, type⟩, rest⟩

theorem fields_close (fields : List (Field Ty)) (x : Bytes) :
    Starts isClose ((fields.flatMap fun f => utf8 ", " ++ fieldForm f) ++ 0x7D :: x) := by
  cases fields with
  | nil => exact Starts.cons _ (by decide)
  | cons f rest => exact Starts.cons _ (by decide)

theorem fields_cancel {fs gs : List (Field Ty)} (cancels : ∀ f ∈ fs, f.type.Cancels)
    (regular : ∀ g ∈ gs, g.type.Regular) {x y : Bytes}
    (same : (fs.flatMap fun f => utf8 ", " ++ fieldForm f) ++ 0x7D :: x =
      (gs.flatMap fun f => utf8 ", " ++ fieldForm f) ++ 0x7D :: y) :
    unquotedFields fs = unquotedFields gs ∧ x = y := by
  induction fs generalizing gs with
  | nil =>
    cases gs with
    | nil => exact ⟨rfl, (List.cons.inj same).2⟩
    | cons g gs => exact absurd (List.cons.inj same).1 (by decide)
  | cons f fs ih =>
    cases gs with
    | nil => exact absurd (List.cons.inj same).1 (by decide)
    | cons g gs =>
      rw [List.flatMap_cons, List.flatMap_cons, List.append_assoc, List.append_assoc,
        List.append_assoc, List.append_assoc] at same
      obtain ⟨⟨key, optional, type⟩, same⟩ := field_cancel (cancels f (by simp))
        (regular g (by simp)) (fields_close fs x) (fields_close gs y)
        (List.append_cancel_left same)
      obtain ⟨others, rest⟩ := ih (fun f member => cancels f (by simp [member]))
        (fun g member => regular g (by simp [member])) same
      refine ⟨?_, rest⟩
      rw [unquotedFields, unquotedFields, key, optional, type, others]

theorem fieldForm_ne_close (f : Field Ty) (x y : Bytes) : fieldForm f ++ x ≠ 0x7D :: y := by
  obtain ⟨b, rest, form, first⟩ := keyForm_first f.key
  rw [fieldForm_eq, form]
  intro same
  have close : b = 0x7D := (List.cons.inj same).1
  subst close
  exact absurd first (by decide)

theorem shape_cancel {fs gs : List (Field Ty)} (cancels : ∀ f ∈ fs, f.type.Cancels)
    (regular : ∀ g ∈ gs, g.type.Regular) {x y : Bytes}
    (same : Bytes.join (utf8 ", ") (fs.map fieldForm) ++ 0x7D :: x =
      Bytes.join (utf8 ", ") (gs.map fieldForm) ++ 0x7D :: y) :
    unquotedFields fs = unquotedFields gs ∧ x = y := by
  cases fs with
  | nil =>
    cases gs with
    | nil => exact ⟨rfl, (List.cons.inj same).2⟩
    | cons g gs =>
      rw [List.map_cons, Bytes.join_cons, List.append_assoc] at same
      exact absurd same.symm (fieldForm_ne_close g _ _)
  | cons f fs =>
    cases gs with
    | nil =>
      rw [List.map_cons, Bytes.join_cons, List.append_assoc] at same
      exact absurd same (fieldForm_ne_close f _ _)
    | cons g gs =>
      refine fields_cancel cancels regular (x := x) (y := y) ?_
      rw [List.map_cons, List.map_cons, Bytes.join_cons, Bytes.join_cons, List.flatMap_map,
        List.flatMap_map] at same
      rw [List.flatMap_cons, List.flatMap_cons, List.append_assoc (utf8 ", "),
        List.append_assoc (utf8 ", "), List.append_assoc (utf8 ", "),
        List.append_assoc (utf8 ", "), same]

theorem elementForm_starts (value : Ty) : elementForm value = [] ∨
    ∃ b rest, elementForm value = b :: rest ∧ isWordOctet b = false := by
  simp only [elementForm]
  split
  · exact Or.inl rfl
  · exact Or.inr ⟨0x3C, _, rfl, by decide⟩

theorem afterWord_stops {t : Ty} {x : Bytes} (ends : Starts isEnd x) :
    ∀ b ∈ (t.afterWord ++ x).head?, isWordOctet b = false := by
  have starts : t.afterWord = [] ∨ ∃ b rest, t.afterWord = b :: rest ∧ isWordOctet b = false := by
    cases t with
    | stringLit value quote => exact Or.inr ⟨0x27, _, rfl, by decide⟩
    | arrayKey kind =>
      cases kind with
      | any => exact Or.inl rfl
      | integer => exact Or.inr ⟨0x3C, _, rfl, by decide⟩
      | string => exact Or.inr ⟨0x3C, _, rfl, by decide⟩
    | array key value =>
      cases key with
      | any => exact elementForm_starts value
      | integer => exact Or.inr ⟨0x3C, _, rfl, by decide⟩
      | string => exact Or.inr ⟨0x3C, _, rfl, by decide⟩
    | list value => exact elementForm_starts value
    | shape fields => exact Or.inr ⟨0x7B, _, rfl, by decide⟩
    | _ => exact Or.inl rfl
  rcases starts with none | ⟨b, rest, some, stop⟩
  · rw [none, List.nil_append]
    exact ends.stops
  · rw [some]
    intro c member
    obtain rfl := Option.some.inj member
    exact stop

/-- It is enough to tell apart what follows a common word. -/
theorem splits_of_afterWord {s : Ty} (regular : s.Regular) (single : s.kind? ≠ some .union)
    (after : s.isPlain = false → ∀ t : Ty, t.Regular → t.isPlain = false →
      t.kind? ≠ some .union → s.frontWord = t.frontWord → ∀ x y, Starts isEnd x → Starts isEnd y →
      s.afterWord ++ x = t.afterWord ++ y → s.unquoted = t.unquoted ∧ x = y) : s.Splits := by
  intro t tRegular tSingle x y ends ends' same
  rw [signature_eq_words, signature_eq_words, List.append_assoc, List.append_assoc] at same
  obtain ⟨words, rest⟩ := run_cancel (frontWord_words regular.kind_ne_none single)
    (frontWord_words tRegular.kind_ne_none tSingle) (afterWord_stops ends) (afterWord_stops ends')
    same
  have read := ofWord?_frontWord regular.kind_ne_none single
  rw [words, ofWord?_frontWord tRegular.kind_ne_none tSingle] at read
  by_cases plain : s.isPlain = true
  · rw [if_pos plain] at read
    split at read
    · obtain rfl := Option.some.inj read
      exact ⟨rfl, List.append_cancel_left rest⟩
    · contradiction
  · rw [if_neg plain] at read
    split at read
    · contradiction
    · rename_i tPlain
      exact after (Bool.not_eq_true _ ▸ plain) t tRegular (Bool.not_eq_true _ ▸ tPlain) tSingle
        words x y ends ends' rest

theorem cancels_of_splits {s : Ty} (regular : s.Regular) (splits : ∀ m ∈ s.members, m.Splits) :
    s.Cancels :=
  fun _ tRegular _ _ closes closes' => cancel_of_members regular tRegular splits closes closes'

theorem cancels_plain {s : Ty} (regular : s.Regular) (plain : s.isPlain = true) : s.Cancels := by
  have single : s.kind? ≠ some .union := by
    cases s <;> simp_all [isPlain, kind?]
  refine cancels_of_splits regular fun m member => ?_
  obtain rfl : m = s := by simpa [members_single single] using member
  refine splits_of_afterWord regular single fun complex => ?_
  rw [plain] at complex
  contradiction

theorem bracketed_cancel {inside inside' x y : Bytes}
    (same : bracketed inside ++ x = bracketed inside' ++ y) :
    inside ++ 0x3E :: x = inside' ++ 0x3E :: y := by
  simpa [bracketed] using same

theorem ends_ne_bracketed {x inside y : Bytes} (ends : Starts isEnd x) :
    x ≠ bracketed inside ++ y := by
  rintro rfl
  exact absurd ends.head (by decide)

theorem element_cancel {v w : Ty} (cancels : v.Cancels) (regular : w.Regular) {x y : Bytes}
    (ends : Starts isEnd x) (ends' : Starts isEnd y)
    (same : elementForm v ++ x = elementForm w ++ y) : v.unquoted = w.unquoted ∧ x = y := by
  simp only [elementForm] at same
  split at same <;> split at same
  · rename_i mixed mixed'
    cases v <;> simp [isMixed] at mixed
    cases w <;> simp [isMixed] at mixed'
    exact ⟨rfl, same⟩
  · exact absurd same (ends_ne_bracketed ends)
  · exact absurd same.symm (ends_ne_bracketed ends')
  · obtain ⟨type, rest⟩ := cancels w regular _ _ (Starts.cons _ (by decide))
      (Starts.cons _ (by decide)) (bracketed_cancel same)
    exact ⟨type, (List.cons.inj rest).2⟩

theorem afterWord_keyed {key : KeyKind} (narrow : key ≠ .any) (value : Ty) :
    (Ty.array key value).afterWord = keyedForm key value := by
  cases key with
  | any => exact absurd rfl narrow
  | _ => rfl

/-- The narrowed key of an array is followed by a comma, the type of its elements is not. -/
theorem elementForm_ne_keyed {key : KeyKind} (narrow : key ≠ .any) {v w : Ty} (regular : v.Regular)
    {x y : Bytes} (ends : Starts isEnd x) : elementForm v ++ x ≠ keyedForm key w ++ y := by
  intro same
  simp only [elementForm, keyedForm] at same
  split at same
  · exact ends_ne_bracketed ends same
  · have inside := (bracketed_cancel same).symm
    rw [List.append_assoc, List.append_assoc] at inside
    have keyType : ∃ k : Ty, k.signature = key.word ∧ k.Regular ∧ k.isPlain = true := by
      cases key with
      | any => exact absurd rfl narrow
      | integer => exact ⟨.integer, rfl, ⟨rfl, rfl⟩, rfl⟩
      | string => exact ⟨.string, rfl, ⟨rfl, rfl⟩, rfl⟩
    obtain ⟨k, word, kRegular, plain⟩ := keyType
    rw [← word] at inside
    have rest := (cancels_plain kRegular plain v regular _ _ (Starts.cons _ (by decide))
      (Starts.cons _ (by decide)) inside).2
    exact absurd (List.cons.inj rest).1 (by decide)

theorem keyed_cancel {key key' : KeyKind} (narrow : key ≠ .any) (narrow' : key' ≠ .any) {v w : Ty}
    (cancels : v.Cancels) (regular : w.Regular) {x y : Bytes}
    (same : keyedForm key v ++ x = keyedForm key' w ++ y) :
    key = key' ∧ v.unquoted = w.unquoted ∧ x = y := by
  have inside := bracketed_cancel same
  simp only [List.append_assoc] at inside
  have words : ∀ kind : KeyKind, kind ≠ .any → kind.word.all isWordOctet = true := by
    intro kind narrow
    cases kind <;> first | contradiction | decide
  obtain ⟨word, rest⟩ := run_cancel (words key narrow) (words key' narrow')
    (by rintro b ⟨⟩; decide) (by rintro b ⟨⟩; decide) inside
  obtain ⟨type, rest⟩ := cancels w regular _ _ (Starts.cons _ (by decide))
    (Starts.cons _ (by decide)) (List.append_cancel_left rest)
  refine ⟨?_, type, (List.cons.inj rest).2⟩
  cases key <;> cases key' <;> first | rfl | contradiction

theorem splits_stringLit (value : Bytes) (quote : Quote) : (Ty.stringLit value quote).Splits := by
  refine splits_of_afterWord ⟨rfl, rfl⟩ (by simp [kind?]) ?_
  intro _ t regular plain single word x y _ _ same
  cases t with
  | stringLit value' quote' =>
    obtain ⟨rfl, rest⟩ := quoteWith_cancel (by decide) same
    exact ⟨rfl, rest⟩
  | union members => exact absurd rfl single
  | unknown name accepted => exact absurd regular (not_regular_unknown name accepted)
  | _ => contradiction

theorem splits_arrayKey (kind : KeyKind) : (Ty.arrayKey kind).Splits := by
  refine splits_of_afterWord ⟨rfl, rfl⟩ (by simp [kind?]) ?_
  intro _ t regular plain single word x y ends ends' same
  cases t with
  | arrayKey kind' =>
    cases kind <;> cases kind' <;> simp only [afterWord, List.nil_append] at same
    · exact ⟨rfl, same⟩
    · exact absurd same (ends_ne_bracketed ends)
    · exact absurd same (ends_ne_bracketed ends)
    · exact absurd same.symm (ends_ne_bracketed ends')
    · exact ⟨rfl, List.append_cancel_left same⟩
    · exact absurd (List.cons.inj (bracketed_cancel same)).1 (by decide)
    · exact absurd same.symm (ends_ne_bracketed ends')
    · exact absurd (List.cons.inj (bracketed_cancel same)).1 (by decide)
    · exact ⟨rfl, List.append_cancel_left same⟩
  | union members => exact absurd rfl single
  | unknown name accepted => exact absurd regular (not_regular_unknown name accepted)
  | _ =>
    first
    | contradiction
    | exact absurd (show utf8 "array-key" = _ from word) (by simp only [frontWord]; decide)

/-- Elements of an array stand between angle brackets, those of a shape between braces. -/
theorem array_ne_shape (key : KeyKind) (value : Ty) (fields : List (Field Ty)) {x y : Bytes}
    (ends : Starts isEnd x) :
    (Ty.array key value).afterWord ++ x ≠ (Ty.shape fields).afterWord ++ y := by
  have brace : ∀ rest : Bytes, x ≠ 0x7B :: rest := by
    rintro rest rfl
    exact absurd ends.head (by decide)
  cases key with
  | any =>
    simp only [afterWord, elementForm]
    split
    · exact brace _
    · exact fun same => absurd (List.cons.inj same).1 (by decide)
  | _ => exact fun same => absurd (List.cons.inj same).1 (by decide)

theorem splits_array {key : KeyKind} {value : Ty} (regular : (Ty.array key value).Regular)
    (cancels : value.Cancels) : (Ty.array key value).Splits := by
  refine splits_of_afterWord regular (by simp [kind?]) ?_
  intro _ t tRegular plain single word x y ends ends' same
  cases t with
  | array key' value' =>
    have element := tRegular.arrayValue
    by_cases wide : key = .any <;> by_cases wide' : key' = .any
    · subst wide wide'
      obtain ⟨type, rest⟩ := element_cancel cancels element ends ends' same
      exact ⟨by rw [unquoted, unquoted, type], rest⟩
    · subst wide
      rw [afterWord_keyed wide'] at same
      exact absurd same (elementForm_ne_keyed wide' regular.arrayValue ends)
    · subst wide'
      rw [afterWord_keyed wide] at same
      exact absurd same.symm (elementForm_ne_keyed wide element ends')
    · rw [afterWord_keyed wide, afterWord_keyed wide'] at same
      obtain ⟨keys, type, rest⟩ := keyed_cancel wide wide' cancels element same
      exact ⟨by rw [unquoted, unquoted, keys, type], rest⟩
  | shape fields => exact absurd same (array_ne_shape key value fields ends)
  | union members => exact absurd rfl single
  | unknown name accepted => exact absurd tRegular (not_regular_unknown name accepted)
  | _ =>
    first
    | contradiction
    | exact absurd (show utf8 "array" = _ from word) (by simp only [frontWord]; decide)

theorem splits_list {value : Ty} (regular : (Ty.list value).Regular) (cancels : value.Cancels) :
    (Ty.list value).Splits := by
  refine splits_of_afterWord regular (by simp [kind?]) ?_
  intro _ t tRegular plain single word x y ends ends' same
  cases t with
  | list value' =>
    obtain ⟨type, rest⟩ := element_cancel cancels tRegular.listValue ends ends' same
    exact ⟨by rw [unquoted, unquoted, type], rest⟩
  | union members => exact absurd rfl single
  | unknown name accepted => exact absurd tRegular (not_regular_unknown name accepted)
  | _ =>
    first
    | contradiction
    | exact absurd (show utf8 "list" = _ from word) (by simp only [frontWord]; decide)

theorem splits_shape {fields : List (Field Ty)} (regular : (Ty.shape fields).Regular)
    (cancels : ∀ f ∈ fields, f.type.Cancels) : (Ty.shape fields).Splits := by
  refine splits_of_afterWord regular (by simp [kind?]) ?_
  intro _ t tRegular plain single word x y ends ends' same
  cases t with
  | shape fields' =>
    simp only [afterWord, List.cons_append, List.append_assoc, List.cons.injEq, true_and,
      List.nil_append] at same
    obtain ⟨parts, rest⟩ := shape_cancel cancels (fun g member => tRegular.field member) same
    exact ⟨by rw [unquoted, unquoted, parts], rest⟩
  | array key value => exact absurd same.symm (array_ne_shape key value fields ends')
  | union members => exact absurd rfl single
  | unknown name accepted => exact absurd tRegular (not_regular_unknown name accepted)
  | _ =>
    first
    | contradiction
    | exact absurd (show utf8 "array" = _ from word) (by simp only [frontWord]; decide)

/-- Whatever follows, the signature of each member can be split off. -/
theorem Regular.splits {s : Ty} (regular : s.Regular) : ∀ m ∈ s.members, m.Splits := by
  induction s using Ty.induct with
  | union ms ih =>
    intro m member
    obtain ⟨part, _, single⟩ := regular.member member
    exact ih m member part m (by simp [members_single single])
  | stringLit value quote => simpa [members] using splits_stringLit value quote
  | arrayKey kind => simpa [members] using splits_arrayKey kind
  | array key value ih =>
    have cancels := cancels_of_splits regular.arrayValue (ih regular.arrayValue)
    simpa [members] using splits_array regular cancels
  | list value ih =>
    have cancels := cancels_of_splits regular.listValue (ih regular.listValue)
    simpa [members] using splits_list regular cancels
  | shape fields ih =>
    have cancels : ∀ f ∈ fields, f.type.Cancels := fun f member =>
      cancels_of_splits (regular.field member) (ih f member (regular.field member))
    simpa [members] using splits_shape regular cancels
  | unknown name accepted => exact absurd regular (not_regular_unknown name accepted)
  | _ =>
    intro m member
    obtain rfl := List.mem_singleton.mp member
    exact splits_of_afterWord regular (by simp [kind?]) (by simp [isPlain])

theorem Regular.cancels {s : Ty} (regular : s.Regular) : s.Cancels :=
  cancels_of_splits regular regular.splits

theorem isMixed_unquoted (t : Ty) : t.unquoted.isMixed = t.isMixed := by
  cases t <;> rfl

/-- Signatures do not show the quoting of string literals. -/
theorem signature_unquoted (t : Ty) : t.unquoted.signature = t.signature := by
  simp only [signature]
  induction t using Ty.induct with
  | union ms ih =>
    simp only [unquoted, unquotedAll_eq, render, renderAll_eq, List.map_map]
    exact congrArg _ (List.map_congr_left ih)
  | array key value ih => simp only [unquoted, render, isMixed_unquoted, ih]
  | list value ih => simp only [unquoted, render, isMixed_unquoted, ih]
  | shape fields ih =>
    simp only [unquoted, unquotedFields_eq, render, renderFields_eq, List.map_map]
    have same : ∀ f ∈ fields, renderField f.key f.optional (f.type.unquoted.render .signature) =
        renderField f.key f.optional (f.type.render .signature) :=
      fun f member => by rw [ih f member]
    rw [← List.map_congr_left same]
    rfl
  | _ => rfl

/-- Types of one signature are the same up to quoting. -/
theorem unquoted_of_signature {s t : Ty} (sRegular : s.Regular) (tRegular : t.Regular)
    (same : s.signature = t.signature) : s.unquoted = t.unquoted := by
  refine (sRegular.cancels t tRegular [] [] (Starts.nil _) (Starts.nil _) ?_).1
  rw [same]

/-- A signature names a type: two types have the same one exactly when they
differ at most in the quoting of their string literals. -/
theorem signature_eq_iff_unquoted_eq {s t : Ty} (sRegular : s.Regular) (tRegular : t.Regular) :
    s.signature = t.signature ↔ s.unquoted = t.unquoted := by
  constructor
  · exact unquoted_of_signature sRegular tRegular
  · intro same
    rw [← signature_unquoted s, ← signature_unquoted t, same]

/-- A literal that spells a family, in two quotings, beside a shape whose key has to be quoted. -/
theorem signature_of_quoted_family :
    let type (quote : Quote) : Ty :=
      .union [.stringLit "int" quote, .shape [⟨"a'|", true, .array .integer .mixed⟩]]
    (type .single).Regular ∧ (type .none).Regular ∧
      (type .single).signature = (type .none).signature := by
  have regular : ∀ quote, (Ty.union [.stringLit "int" quote,
      .shape [⟨"a'|", true, .array .integer .mixed⟩]]).Regular := fun _ => ⟨rfl, rfl⟩
  exact ⟨regular _, regular _, (signature_eq_iff_unquoted_eq (regular _) (regular _)).mpr rfl⟩

end Ty

end Conform

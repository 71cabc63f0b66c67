import Conform.Compile
import Conform.Proofs.Source.Emit
import Conform.Proofs.Source.Prose
import Conform.Proofs.Utf8

/-! Which types have a source file. Under valid names a type has one when its
signature is source text that does not end the comment it is quoted in. Then the
comment goes on to its own end: a reader that skips comments reads the function
next, and nothing of the signature before it. -/
namespace Conform.Source

/-! ### Names -/

theorem continuesName_of_startsName {piece : Utf8.Piece} (starts : startsName piece = true) :
    continuesName piece = true := by
  cases piece with
  | char code octets => simp_all [startsName, continuesName]
  | stray octet => contradiction

theorem continuesName_of_isName {text : Bytes} (name : isName text = true) :
    ∀ piece ∈ Utf8.pieces text, continuesName piece = true := by
  rw [isName, Bool.and_eq_true] at name
  obtain ⟨spelled, -⟩ := name
  cases parts : Utf8.pieces text with
  | nil => simp
  | cons first rest =>
    rw [parts] at spelled
    simp only [Bool.and_eq_true, List.all_eq_true] at spelled
    exact List.forall_mem_cons.mpr ⟨continuesName_of_startsName spelled.1, spelled.2⟩

/-- A name holds no octet below 128 but those of letters and digits and underscores. -/
theorem not_mem_of_isName {text : Bytes} (name : isName text = true) {b : UInt8} (small : b < 0x80)
    (refused : continuesName (.char b.toNat [b]) = false) : b ∉ text := by
  intro member
  obtain ⟨before, after, rfl⟩ := List.append_of_mem member
  have inside : .char b.toNat [b] ∈ Utf8.pieces (before ++ b :: after) := by
    rw [Utf8.pieces_append_ascii small]
    exact List.mem_append_right _ List.mem_cons_self
  have spelled := continuesName_of_isName name _ inside
  rw [refused] at spelled
  contradiction

/-- The codes of blanks and of the star, and those that no comment holds. -/
def nameless : List Nat := [0, 0x09, 0x0A, 0x0D, 0x20, 0x2A, 0xFEFF]

theorem continuesName_nameless {code : Nat} (listed : code ∈ nameless) (octets : Bytes) :
    continuesName (.char code octets) = false := by
  have checked : ∀ code ∈ nameless, continuesName (.char code []) = false := by decide +kernel
  exact checked code listed

theorem not_blank_of_isName {text : Bytes} (name : isName text = true) :
    ∀ b ∈ text, isSourceBlank b = false := by
  intro b member
  by_contra blank
  have listed : b < 0x80 ∧ b.toNat ∈ nameless := by
    simp only [Bool.not_eq_false, isSourceBlank, Bool.or_eq_true, beq_iff_eq] at blank
    rcases blank with ((rfl | rfl) | rfl) | rfl <;> decide
  exact not_mem_of_isName name listed.1 (continuesName_nameless listed.2 _) member

theorem clean_name {text : Bytes} (name : isName text = true) : Clean text := by
  have star : (0x2A : UInt8) ∉ text :=
    not_mem_of_isName name (by decide) (continuesName_nameless (by decide) _)
  exact fun found => star (found.subset List.mem_cons_self)

/-- Nothing is split off a text that no octet of passes. -/
theorem split_none {test : UInt8 → Bool} {text : Bytes} (none : ∀ b ∈ text, test b = false) :
    text.takeWhile test = [] ∧ text.dropWhile test = text := by
  have run : ([] : Bytes).all test = true := rfl
  exact split_run run fun b member => none b (List.mem_of_head? member)

theorem packageIn_name {text : Bytes} (name : isName text = true) : packageIn text = text := by
  have none := not_blank_of_isName name
  rw [packageIn, (split_none none).2, (split_none (by simpa using none)).2, List.reverse_reverse]

theorem functionIn_name {text : Bytes} (name : isName text = true) : functionIn text = text := by
  have none := not_blank_of_isName name
  have inner : ∀ b ∈ text.reverse, (isSourceBlank b && b != 0x0A) = false := by simp_all
  rw [functionIn, (split_none none).2, (split_none inner).2, List.reverse_reverse]

theorem nameGap_name {text : Bytes} (name : isName text = true) : nameGap text = [0x20] := by
  rw [nameGap, (split_none (not_blank_of_isName name)).1]
  rfl

theorem ne_nil_of_isName {text : Bytes} (name : isName text = true) : text ≠ [] := by
  rintro rfl
  contradiction

/-! ### Source text in comments -/

theorem isCommentText_name {text : Bytes} (name : isName text = true) : isCommentText text = true := by
  refine List.all_eq_true.mpr fun piece member => ?_
  have spelled := continuesName_of_isName name piece member
  cases piece with
  | char code octets =>
    have other : code ≠ 0 ∧ code ≠ 0xFEFF := by
      constructor <;> rintro rfl
      · exact absurd spelled (by simp [continuesName_nameless (show 0 ∈ nameless by decide)])
      · exact absurd spelled (by simp [continuesName_nameless (show 0xFEFF ∈ nameless by decide)])
    simpa using other
  | stray octet => exact absurd spelled (by simp [continuesName])

theorem isCommentText_cut {b : UInt8} (positive : 0 < b) (small : b < 0x80) (before after : Bytes) :
    isCommentText (before ++ b :: after) = (isCommentText before && isCommentText after) := by
  have code : (b.toNat != 0 && b.toNat != 0xFEFF) = true := by
    have first : 0 < b.toNat := positive
    have last : b.toNat < 0x80 := small
    simp only [Bool.and_eq_true, bne_iff_ne]
    omega
  simp only [isCommentText, Utf8.pieces_append_ascii small, List.all_append, List.all_cons, code,
    Bool.true_and]

theorem isCommentText_word {word : Bytes} (plain : word.all (fun b => 0 < b && b < 0x80) = true)
    (rest : Bytes) : isCommentText (word ++ rest) = isCommentText rest := by
  induction word with
  | nil => rfl
  | cons b word ih =>
    simp only [List.all_cons, Bool.and_eq_true, decide_eq_true_eq] at plain
    rw [List.cons_append, ← List.nil_append (b :: _), isCommentText_cut plain.1.1 plain.1.2, ih plain.2]
    rfl

/-- The sentence that stands before a function. -/
def aboutText (functionName signature : Bytes) : Bytes :=
  functionName ++ utf8 " reports whether v is accepted by `" ++ signature ++ utf8 "`."

theorem isCommentText_about {functionName : Bytes} (name : isName functionName = true)
    (signature : Bytes) : isCommentText (aboutText functionName signature) = isCommentText signature := by
  have middle : utf8 " reports whether v is accepted by `" =
      0x20 :: utf8 "reports whether v is accepted by `" := by decide
  have last : utf8 "`." = [0x60, 0x2E] := by decide
  have words : aboutText functionName signature = functionName ++ 0x20 ::
      (utf8 "reports whether v is accepted by `" ++ (signature ++ [0x60, 0x2E])) := by
    simp only [aboutText, middle, last, List.append_assoc, List.cons_append]
  rw [words, isCommentText_cut (by decide) (by decide), isCommentText_name name,
    isCommentText_word (by decide), isCommentText_cut (by decide) (by decide)]
  simp [isCommentText, Utf8.pieces]

theorem clean_about {functionName : Bytes} (name : isName functionName = true) {signature : Bytes}
    (clean : Clean signature) : Clean (aboutText functionName signature) :=
  (closed_before (closed_before (clean_name name) _ (by decide) signature clean) _ (by decide)).clean

theorem mem_about {functionName : Bytes} (name : isName functionName = true) {signature : Bytes} :
    0x0A ∈ aboutText functionName signature ↔ 0x0A ∈ signature := by
  have newline : (0x0A : UInt8) ∉ functionName :=
    not_mem_of_isName name (by decide) (continuesName_nameless (by decide) _)
  have words : 0x0A ∉ utf8 " reports whether v is accepted by `" ∧ 0x0A ∉ utf8 "`." := by decide
  simp [aboutText, newline, words]

/-! ### Reading past comments -/

/-- Where a reader of source text is. -/
inductive Region where
  | code
  | line
  | block

/-- What is left of a source text after the blanks and comments at its start. A line
comment ends with its line and a block with the first end of a comment in it. -/
def afterComments : Region → Bytes → Bytes
  | _, [] => []
  | .code, 0x2F :: 0x2F :: rest => afterComments .line rest
  | .code, 0x2F :: 0x2A :: rest => afterComments .block rest
  | .code, b :: rest => if isSourceBlank b then afterComments .code rest else b :: rest
  | .line, b :: rest => if b = 0x0A then afterComments .code rest else afterComments .line rest
  | .block, 0x2A :: 0x2F :: rest => afterComments .code rest
  | .block, _ :: rest => afterComments .block rest

theorem afterComments_line {line : Bytes} (one : 0x0A ∉ line) (rest : Bytes) :
    afterComments .line (line ++ 0x0A :: rest) = afterComments .code rest := by
  induction line with
  | nil => rfl
  | cons b line ih =>
    rw [List.mem_cons, not_or] at one
    rw [List.cons_append, afterComments, if_neg (Ne.symm one.1), ih one.2]

theorem afterComments_block {text : Bytes} (clean : Clean text) (rest : Bytes) :
    afterComments .block (text ++ 0x2A :: 0x2F :: rest) = afterComments .code rest := by
  induction text with
  | nil => rfl
  | cons b text ih =>
    obtain ⟨next, clean⟩ := clean_cons.mp clean
    rw [List.cons_append, afterComments, ih clean]
    rintro tail rfl same
    cases text with
    | nil => simp at same
    | cons c text => exact next rfl (congrArg some (List.cons.inj same).1)

/-- A text that is read as comments and blanks only. -/
def Skipped (comment : Bytes) : Prop :=
  ∀ rest, afterComments .code (comment ++ rest) = afterComments .code rest

theorem Skipped.append {first second : Bytes} (left : Skipped first) (right : Skipped second) :
    Skipped (first ++ second) := by
  intro rest
  rw [List.append_assoc, left, right]

theorem skipped_line {line : Bytes} (one : 0x0A ∉ line) : Skipped (utf8 "// " ++ line ++ utf8 "\n") := by
  intro rest
  have whole : utf8 "// " ++ line ++ utf8 "\n" ++ rest = 0x2F :: 0x2F :: ((0x20 :: line) ++ 0x0A :: rest) := by
    simp
    rfl
  rw [whole, afterComments, afterComments_line (by simp [one])]

theorem skipped_lines {lines : List Bytes} (each : ∀ line ∈ lines, 0x0A ∉ line) :
    Skipped (lines.flatMap fun line => utf8 "// " ++ Utf8.trimRight line ++ utf8 "\n") := by
  induction lines with
  | nil => exact fun rest => rfl
  | cons line lines ih =>
    rw [List.forall_mem_cons] at each
    rw [List.flatMap_cons]
    refine Skipped.append (skipped_line fun member => ?_) (ih each.2)
    exact each.1 ((trimRight_starts line).subset member)

theorem skipped_block {text : Bytes} (clean : Clean text) : Skipped (utf8 "/*\n" ++ text ++ utf8 "*/") := by
  intro rest
  have whole : utf8 "/*\n" ++ text ++ utf8 "*/" ++ rest =
      0x2F :: 0x2A :: ((0x0A :: text) ++ 0x2A :: 0x2F :: rest) := by
    simp
    rfl
  rw [whole, afterComments, afterComments_block (clean_cons.mpr ⟨by simp, clean⟩)]

/-! ### The comment of a function -/

/-- Taking out carriage returns brings no star and slash together. -/
theorem withoutReturns_clean {front text : Bytes} (clean : Clean (front ++ text)) :
    Clean (front ++ withoutReturns true front.getLast? text) := by
  induction text generalizing front with
  | nil => exact clean
  | cons b rest ih =>
    rw [withoutReturns]
    split
    · rw [List.append_cons]
      have last : some b = (front ++ [b]).getLast? := by simp
      rw [last]
      apply ih
      rwa [← List.append_cons]
    · rename_i taken
      apply ih
      have before : front <:+: front ++ b :: rest := ⟨[], b :: rest, rfl⟩
      have after : rest <:+: front ++ b :: rest := ⟨front ++ [b], [], by simp⟩
      exact (clean.part before).append (clean.part after) fun star slash =>
        taken (.inr ⟨rfl, star, slash⟩)

theorem blockLines_clean {lines : List Bytes} (clean : CleanLines lines) :
    CleanLines (blockLines lines) := by
  intro line member
  obtain ⟨kept, mapped, rfl⟩ := List.mem_map.mp member
  obtain ⟨whole, inside, rfl⟩ := List.mem_map.mp mapped
  refine Clean.part ?_ ((trimRight_starts _).isInfix.trans (List.drop_suffix _ _).isInfix)
  split
  · exact clean_nil
  · exact clean whole inside

/-- A comment is written exactly when its text is source text and, in a block, holds no end of
a comment. -/
theorem commentText?_isSome (text : Bytes) : (commentText? text).isSome = true ↔
    isCommentText text = true ∧ (0x0A ∈ text → Clean text) := by
  rw [commentText?]
  dsimp only
  rw [← containsCommentEnd_iff]
  split_ifs <;> simp_all

/-- A reader skips the whole comment, in whichever form it is written. -/
theorem commentText?_skipped {text comment : Bytes} (found : commentText? text = some comment) :
    Skipped comment := by
  rw [commentText?] at found
  dsimp only at found
  split at found
  · contradiction
  · split at found
    · rename_i block
      split at found
      · contradiction
      · rename_i unended
        obtain rfl := Option.some.inj found
        have clean : Clean text := (containsCommentEnd_iff text).mp (Bool.eq_false_iff.mpr unended)
        have plain : Clean (withoutReturns (text.contains 0x0A) none text) := by
          have whole : Clean ([] ++ text) := clean
          rw [block]
          exact withoutReturns_clean whole
        refine Skipped.append (skipped_block (clean_join (by decide) (blockLines_clean ?_))) ?_
        · apply linesOf_clean
          split
          · exact prose_clean clean
          · exact (closed_before plain [0x0A] (by decide)).clean
        · intro rest
          split_ifs <;> rfl
    · obtain rfl := Option.some.inj found
      refine skipped_lines fun line member => ?_
      exact Bytes.not_mem_splitAt ((List.dropLast_subset _) member)

/-! ### Files -/

/-- The text before the comment of a file. -/
def headText (packageName : Bytes) (body : Expr) : Bytes :=
  "// Code generated by valtype. DO NOT EDIT.\n\npackage " ++ packageName ++ "\n\n" ++ importText body

/-- The function of a file. -/
def functionText (functionName : Bytes) (body : Expr) : Bytes :=
  "func " ++ functionName ++ "(v interface\x7b\x7d) bool \x7b\n\treturn " ++ body.text 1 ++ "\n\x7d\n"

theorem fileText?_names {packageName functionName : Bytes} (package : isName packageName = true)
    (function : isName functionName = true) (signature : Bytes) (body : Expr) :
    fileText? packageName functionName signature body =
      (commentText? (aboutText functionName signature)).map fun comment =>
        headText packageName body ++ (comment ++ functionText functionName body) := by
  have packageWord : utf8 "// Code generated by valtype. DO NOT EDIT.\n\npackage " =
      utf8 "// Code generated by valtype. DO NOT EDIT.\n\npackage" ++ [0x20] := rfl
  have functionWord : utf8 "func " = utf8 "func" ++ [0x20] := by decide
  rw [fileText?, packageIn_name package, functionIn_name function, nameGap_name package,
    nameGap_name function, package, function, ← aboutText]
  cases commentText? (aboutText functionName signature) with
  | none => rfl
  | some comment =>
    simp only [headText, functionText, packageWord, functionWord, Option.map_some, List.append_assoc]
    rfl

theorem afterComments_function (functionName : Bytes) (body : Expr) :
    afterComments .code (functionText functionName body) = functionText functionName body := by
  have word : utf8 "func " = 0x66 :: utf8 "unc " := by decide
  simp only [functionText, word, List.append_assoc, List.cons_append]
  rw [afterComments]
  · rfl
  · simp
  · simp

end Conform.Source

namespace Conform.Ty

open Source

theorem compile_source_names {t : Ty} {packageName functionName : Bytes}
    (package : isName packageName = true) (function : isName functionName = true)
    {body : Expr} {used : Nat} (emitted : emit 0 0 t = .ok (body, used)) :
    t.compile (.source packageName functionName) =
      (commentText? (aboutText functionName t.signature)).elim (.error .unprintable) fun comment =>
        .ok ⟨t.signature, utf8 "go",
          headText packageName body ++ (comment ++ functionText functionName body)⟩ := by
  have named : ∀ {name usual : Bytes}, isName name = true → orDefault name usual = name := by
    intro name usual spelled
    rw [orDefault, if_neg (by simpa using ne_nil_of_isName spelled)]
  rw [compile, emitted]
  dsimp only
  rw [named package, named function, fileText?_names package function]
  cases commentText? (aboutText functionName t.signature) <;> rfl

end Conform.Ty

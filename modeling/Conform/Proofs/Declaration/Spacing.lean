import Conform.Proofs.Declaration.Tiling
import Conform.Proofs.Declaration.Unplaced

/-! White space between tokens. A token is cut off by looking at the octets after it, three
at most. Where a text is written anew with other white space between its tokens, the octets
after a token are those that were there before, or they break off with white space earlier
than they did. No name, number or exponent that stopped before goes on then, so every token
is cut off again. -/
namespace Conform.Declaration

/-! ### Looking ahead -/

/-- The second text goes on like the first up to white space, or up to its end. -/
inductive GoesOnLike : Bytes → Bytes → Prop where
  | stop {after after' : Bytes} (blank : Starts isSpace after') : GoesOnLike after after'
  | same (b : UInt8) {after after' : Bytes} (rest : GoesOnLike after after') :
      GoesOnLike (b :: after) (b :: after')

theorem GoesOnLike.append {after after' : Bytes} (like : GoesOnLike after after') (front : Bytes) :
    GoesOnLike (front ++ after) (front ++ after') := by
  induction front with
  | nil => exact like
  | cons b front ih => exact .same b ih

/-- What does not start the first text does not start the second, unless it is white space. -/
theorem GoesOnLike.not_startsWith {test : UInt8 → Bool}
    (solid : ∀ b, isSpace b = true → test b = false) {after after' : Bytes}
    (like : GoesOnLike after after') (other : startsWith test after = false) :
    startsWith test after' = false := by
  cases like with
  | stop blank =>
    cases after' with
    | nil => rfl
    | cons b rest => exact solid b blank.head
  | same b rest => exact other

theorem startsWith_eq_false_iff {test : UInt8 → Bool} {text : Bytes} :
    startsWith test text = false ↔ ∀ b ∈ text.head?, test b = false := by
  cases text with
  | nil => simp [startsWith]
  | cons b rest => simp [startsWith]

/-- White space belongs to no name and to no number. -/
theorem solid_of_space {b : UInt8} (blank : isSpace b = true) :
    isLetter b = false ∧ continuesName b = false ∧ isSign b = false ∧ isDigit b = false ∧
      b ≠ 0x2D ∧ b ≠ 0x2E ∧ b ≠ 0x65 ∧ b ≠ 0x45 :=
  octet_cases (P := fun b => isSpace b = true → isLetter b = false ∧ continuesName b = false ∧
    isSign b = false ∧ isDigit b = false ∧ b ≠ 0x2D ∧ b ≠ 0x2E ∧ b ≠ 0x65 ∧ b ≠ 0x45)
    (by decide) b blank

theorem isDigit_of_space (b : UInt8) (blank : isSpace b = true) : isDigit b = false :=
  (solid_of_space blank).2.2.2.1

theorem isSign_of_space (b : UInt8) (blank : isSpace b = true) : isSign b = false :=
  (solid_of_space blank).2.2.1

theorem isPoint_of_space (b : UInt8) (blank : isSpace b = true) : (b == 0x2E) = false :=
  beq_eq_false_iff_ne.mpr (solid_of_space blank).2.2.2.2.2.1

/-- A cut comes out the same when what follows it goes on like before. -/
def Steady (split : Bytes → Bytes × Bytes) : Prop :=
  ∀ front after after', GoesOnLike after after' → split (front ++ after) = (front, after) →
    split (front ++ after') = (front, after')

theorem splitOne_steady {test : UInt8 → Bool} (solid : ∀ b, isSpace b = true → test b = false) :
    Steady (splitOne test) := by
  intro front after after' like split
  cases front with
  | nil =>
    have other : startsWith test after = false := by
      cases after with
      | nil => rfl
      | cons b rest =>
        rw [List.nil_append, splitOne] at split
        split at split
        · simp at split
        · rename_i fails
          simpa [startsWith] using fails
    exact splitOne_stop (startsWith_eq_false_iff.mp (like.not_startsWith solid other))
  | cons b front =>
    rw [List.cons_append, splitOne] at split ⊢
    split at split
    · rename_i passes
      obtain ⟨same, -⟩ := Prod.mk.inj split
      obtain rfl : [] = front := (List.cons.inj same).2
      rw [if_pos passes]
      rfl
    · simp at split

theorem run_steady {test : UInt8 → Bool} (solid : ∀ b, isSpace b = true → test b = false) :
    Steady fun text => (text.takeWhile test, text.dropWhile test) := by
  intro front after after' like split
  obtain ⟨taken, dropped⟩ := Prod.mk.inj split
  have all : front.all test = true := taken ▸ List.all_takeWhile
  have other : startsWith test after = false := by
    rw [startsWith_eq_false_iff]
    intro b member
    have stop := List.head?_dropWhile_not test (front ++ after)
    rw [dropped, Option.mem_def.mp member] at stop
    simpa using stop
  obtain ⟨taken, dropped⟩ :=
    split_run all (startsWith_eq_false_iff.mp (like.not_startsWith solid other))
  exact Prod.ext taken dropped

theorem splitFraction_of_point (rest : Bytes) : splitFraction (0x2E :: rest) =
    (0x2E :: rest.takeWhile isDigit, rest.dropWhile isDigit) := rfl

theorem splitFraction_of_not_point {text : Bytes}
    (other : startsWith (· == 0x2E) text = false) : splitFraction text = ([], text) := by
  rw [splitFraction, splitOne_stop (startsWith_eq_false_iff.mp other)]

theorem splitFraction_steady : Steady splitFraction := by
  intro front after after' like split
  cases front with
  | nil =>
    refine splitFraction_of_not_point (like.not_startsWith isPoint_of_space ?_)
    cases after with
    | nil => rfl
    | cons b rest =>
      by_contra point
      obtain rfl : b = 0x2E := by simpa [startsWith] using point
      rw [List.nil_append, splitFraction_of_point] at split
      simp at split
  | cons b front =>
    rw [List.cons_append] at split ⊢
    by_cases point : b = 0x2E
    · subst point
      rw [splitFraction_of_point] at split ⊢
      obtain ⟨taken, dropped⟩ := Prod.mk.inj split
      have run := run_steady isDigit_of_space front after after' like
        (Prod.ext (List.cons.inj taken).2 dropped)
      obtain ⟨taken, dropped⟩ := Prod.mk.inj run
      rw [taken, dropped]
    · rw [splitFraction_of_not_point (by simpa [startsWith] using point)] at split
      simp at split

/-- A mark that no exponent follows is still followed by none. -/
theorem splitExponent_none {after after' : Bytes} (like : GoesOnLike after after')
    (split : splitExponent after = ([], after)) : splitExponent after' = ([], after') := by
  cases like with
  | stop blank =>
    exact splitExponent_of_not_mark fun b member =>
      (solid_of_space (blank b member)).2.2.2.2.2.2
  | @same b rest rest' like =>
    by_cases isMark : b = 0x65 ∨ b = 0x45
    · rw [splitExponent_of_mark isMark] at split ⊢
      split at split
      · simp at split
      · rename_i none
        rw [Bool.not_eq_true] at none
        have still : startsWith isDigit (splitOne isSign rest').2 = false := by
          cases like with
          | stop blank =>
            have sign : splitOne isSign rest' = ([], rest') :=
              splitOne_stop fun b member => isSign_of_space b (blank b member)
            rw [sign, startsWith_eq_false_iff]
            exact fun b member => isDigit_of_space b (blank b member)
          | same c like =>
            rw [splitOne] at none ⊢
            split
            · rename_i sign
              rw [if_pos sign] at none
              exact like.not_startsWith isDigit_of_space none
            · rename_i sign
              rwa [if_neg sign] at none
        rw [still]
        rfl
    · exact splitExponent_of_not_mark (by simpa using isMark)

theorem splitExponent_steady : Steady splitExponent := by
  intro front after after' like split
  cases front with
  | nil => exact splitExponent_none like split
  | cons b front =>
    rw [List.cons_append] at split ⊢
    by_cases isMark : b = 0x65 ∨ b = 0x45
    · rw [splitExponent_of_mark isMark] at split ⊢
      split at split
      · rename_i digit
        obtain ⟨same, dropped⟩ := Prod.mk.inj split
        have written := (List.cons.inj same).2
        have whole := splitOne_join isSign (front ++ after)
        rcases sign : splitOne isSign (front ++ after) with ⟨s, rest⟩
        rw [sign] at digit dropped written whole
        simp only at digit dropped written whole
        have parts := List.takeWhile_append_dropWhile (p := isDigit) (l := rest)
        rw [dropped] at parts
        have digits := startsWith_takeWhile digit
        generalize taken : rest.takeWhile isDigit = run at digits parts written
        subst written parts
        rw [List.append_assoc] at sign ⊢
        have run := run_steady isDigit_of_space run after after' like (Prod.ext taken dropped)
        obtain ⟨taken, dropped⟩ := Prod.mk.inj run
        rw [splitOne_steady isSign_of_space _ _ _ (like.append _) sign]
        simp only [startsWith_append digits, if_true, taken, dropped]
      · simp at split
    · rw [splitExponent_of_not_mark (by simpa using isMark)] at split
      simp at split

theorem splitName_steady : Steady splitName := by
  intro front after after' like split
  induction front with
  | nil =>
    cases like with
    | stop blank =>
      cases after' with
      | nil => rfl
      | cons b rest =>
        obtain ⟨-, continues, -, -, dash, -⟩ := solid_of_space blank.head
        simp [splitName, continues, dash]
    | @same b rest rest' like =>
      rw [List.nil_append, splitName] at split ⊢
      split at split
      · simp at split
      · rename_i ends
        rw [Bool.or_eq_true, Bool.and_eq_true, not_or, not_and, Bool.not_eq_true,
          Bool.not_eq_true] at ends
        refine if_neg ?_
        rw [Bool.or_eq_true, Bool.and_eq_true, not_or, not_and, Bool.not_eq_true,
          Bool.not_eq_true]
        exact ⟨ends.1, fun dash => like.not_startsWith
          (fun _ blank => (solid_of_space blank).1) (ends.2 dash)⟩
  | cons b front ih =>
    rw [List.cons_append, splitName] at split ⊢
    split at split
    · rename_i continues
      simp only [Prod.mk.injEq, List.cons.injEq, true_and] at split
      have rest : splitName (front ++ after) = (front, after) := Prod.ext split.1 split.2
      have still : (continuesName b || (b == 0x2D && startsWith isLetter (front ++ after'))) =
          true := by
        rw [Bool.or_eq_true, Bool.and_eq_true] at continues ⊢
        refine continues.imp_right fun both => ⟨both.1, ?_⟩
        cases front with
        | cons c front => exact both.2
        | nil =>
          -- A letter after the dash would belong to the name.
          cases after with
          | nil => exact absurd both.2 Bool.false_ne_true
          | cons c tail =>
            have letter : isLetter c = true := both.2
            simp [splitName, continuesName, letter] at rest
      rw [if_pos still, ih rest]
    · simp at split

/-- A number is cut off again, whatever goes on like before after it. -/
theorem splitNumber_steady {kind : TokenKind} {number after after' : Bytes}
    (like : GoesOnLike after after')
    (split : splitNumber (number ++ after) = (kind, number, after)) :
    splitNumber (number ++ after') = (kind, number, after') := by
  generalize same : number ++ after = text at split
  have signJoin := splitOne_join isSign text
  rcases front : splitOne isSign text with ⟨sign, afterSign⟩
  have whole := List.takeWhile_append_dropWhile (p := isDigit) (l := afterSign)
  generalize taken : afterSign.takeWhile isDigit = digits at whole
  generalize dropped : afterSign.dropWhile isDigit = afterDigits at whole
  have fractionJoin := (splitFraction_text afterDigits).2
  rcases middle : splitFraction afterDigits with ⟨fraction, afterFraction⟩
  have exponentJoin := (splitExponent_text afterFraction).2
  rcases back : splitExponent afterFraction with ⟨exponent, rest⟩
  rw [front] at signJoin
  rw [middle] at fractionJoin
  rw [back] at exponentJoin
  simp only at signJoin fractionJoin exponentJoin
  simp only [splitNumber, front, taken, dropped, middle, back, Prod.mk.injEq] at split
  obtain ⟨rfl, rfl, rfl⟩ := split
  -- Each part is cut off before the later ones, which stay, and what goes on like before.
  subst exponentJoin
  subst fractionJoin
  subst whole
  subst signJoin
  have sign' := splitOne_steady isSign_of_space _ _ _ (((like.append exponent).append
    fraction).append digits) front
  have digits' := run_steady isDigit_of_space _ _ _ ((like.append exponent).append fraction)
    (Prod.ext taken dropped)
  have fraction' := splitFraction_steady _ _ _ (like.append exponent) middle
  have exponent' := splitExponent_steady _ _ _ like back
  obtain ⟨taken', dropped'⟩ := Prod.mk.inj digits'
  simp only [splitNumber, List.append_assoc, sign', taken', dropped', fraction', exponent']

/-- A token is cut off again wherever its text stands, if what follows goes on like before. -/
theorem splitToken_steady {start : Nat} {b : UInt8} {rest after after' : Bytes} {token : Token}
    (split : splitToken start b rest = .ok (token, after)) (like : GoesOnLike after after')
    (position : Nat) : ∃ rest', token.raw ++ after' = b :: rest' ∧
      splitToken position b rest' = .ok ({ token with position }, after') := by
  obtain ⟨tail, raw, whole⟩ : ∃ tail, token.raw = b :: tail ∧ rest = tail ++ after := by
    obtain ⟨join, some⟩ := splitToken_join split
    obtain ⟨c, tail, raw⟩ := List.exists_cons_of_ne_nil some
    rw [raw] at join
    obtain ⟨rfl, rfl⟩ := List.cons.inj join
    exact ⟨tail, raw, rfl⟩
  refine ⟨tail ++ after', by rw [raw]; rfl, ?_⟩
  cases splitToken_eq_ok_iff.mp split with
  | name letter split =>
    obtain rfl := raw
    rw [whole] at split
    exact splitToken_eq_ok_iff.mpr
      (.name letter (splitName_steady (b :: tail) after after' like split))
  | number letter starts split =>
    obtain ⟨n, _, parts, _⟩ := splitNumber_numeral starts
    obtain ⟨rfl, same⟩ := Prod.mk.inj (split.symm.trans parts)
    obtain ⟨rfl, rfl⟩ := Prod.mk.inj same
    have text : n.text = b :: tail := raw
    rw [whole, ← List.cons_append, ← text] at parts
    refine splitToken_eq_ok_iff.mpr (.number letter ?_ ?_)
    · rw [← List.cons_append, ← text, n.starts after']
    · rw [← List.cons_append, ← text, splitNumber_steady like parts]
  | quoted opens split =>
    obtain rfl := (List.cons.inj raw).2
    exact splitToken_eq_ok_iff.mpr (.quoted opens (splitQuoted_steady split after'))
  | mark found =>
    obtain rfl : [] = tail := (List.cons.inj raw).2
    exact splitToken_eq_ok_iff.mpr (.mark found)

/-! ### Respacing -/

/-- A text that writes tokens one after the other with white space before each and at the end.
The white space before a token may be empty, unless the token stood apart from the one before
it, which ended at the offset given. -/
inductive Respaced : Option Nat → List Token → Bytes → Prop where
  | ended {finish : Option Nat} (last : Token) {gap : Bytes} (blank : gap.all isSpace = true) :
      Respaced finish [last] gap
  | token {finish : Option Nat} {t : Token} {tokens : List Token} {gap text : Bytes}
      (blank : gap.all isSpace = true) (kept : ∀ p, finish = some p → p < t.position → gap ≠ [])
      (next : Respaced (some t.finish) tokens text) :
      Respaced finish (t :: tokens) (gap ++ (t.raw ++ text))

theorem starts_blank {gap : Bytes} (blank : gap.all isSpace = true) : Starts isSpace gap :=
  fun b member => List.all_eq_true.mp blank b (List.mem_of_mem_head? member)

/-- Scanning a respaced text gives the same tokens in other places, and the text goes on like
the old one, provided that white space that was there is not taken away at its front. -/
theorem Scanning.respaced {position : Nat} {text : Bytes} {tokens : List Token}
    {failure : Option ScanError} (run : Scanning position text tokens failure)
    (complete : failure = none) {finish : Option Nat} {text' : Bytes}
    (respaced : Respaced finish tokens text') (position' : Nat) :
    (∃ tokens', Scanning position' text' tokens' none ∧
        tokens'.map Token.unplaced = tokens.map Token.unplaced) ∧
      (finish = some position → GoesOnLike text text') := by
  induction run generalizing finish text' position' with
  | ended blank =>
    cases respaced with
    | ended last blank' =>
      exact ⟨⟨_, .ended blank', rfl⟩, fun _ => .stop (starts_blank blank')⟩
    | token blank' kept next => cases next
  | failed => contradiction
  | @cut position gap rest after b token tokens failure blank solid split next ih =>
    cases respaced with
    | ended last blank' =>
      cases next
      contradiction
    | @token _ _ _ gap' after' blank' kept respaced =>
      have place := splitToken_position split
      obtain ⟨join, -⟩ := splitToken_join split
      obtain ⟨-, like⟩ := ih complete respaced 0
      have like : GoesOnLike after after' := like (by rw [Token.finish, place])
      obtain ⟨rest', written, again⟩ := splitToken_steady split like (position' + gap'.length)
      obtain ⟨⟨tokens', run', same⟩, -⟩ :=
        ih complete respaced (position' + gap'.length + token.raw.length)
      refine ⟨⟨{ token with position := position' + gap'.length } :: tokens', ?_, ?_⟩,
        fun here => ?_⟩
      · rw [written]
        exact .cut blank' solid again run'
      · rw [List.map_cons, List.map_cons, same]
        rfl
      · cases gap' with
        | cons c more => exact .stop (Starts.cons _ (List.all_eq_true.mp blank' c List.mem_cons_self))
        | nil =>
          have none : gap = [] := by
            by_contra some
            have positive := List.length_pos_iff.mpr some
            exact kept position here (by omega) rfl
          rw [none, List.nil_append, List.nil_append, join]
          exact like.append token.raw

/-- White space between tokens does not matter. Where the tokens of a declaration are written
anew, with any white space between them that is not empty where there was some, and any before
the first and after the last, they are scanned again, in other places; and under any aliases the
text denotes the type that the declaration denotes, or is refused with the same code. -/
theorem parse_respaced {source : Bytes} {tokens : List Token} (scanned : scan source = .ok tokens)
    {text : Bytes} (respaced : Respaced none tokens text) :
    (∃ tokens', scan text = .ok tokens' ∧
      tokens'.map Token.unplaced = tokens.map Token.unplaced) ∧
    ∀ aliases, (parse aliases text).mapError (·.code) = (parse aliases source).mapError (·.code) := by
  obtain ⟨⟨tokens', run, same⟩, -⟩ := (scan_eq_ok_iff.mp scanned).respaced rfl respaced 0
  have scanned' := scan_eq_ok_iff.mpr run
  refine ⟨⟨tokens', scanned', same⟩, fun aliases => ?_⟩
  rw [parse, parse, scanned, scanned']
  exact typeOfTokens_same same

/-- Space goes between a number that ends in a point and the bar after it; the line end between
the brackets stays for a space. -/
theorem parse_respaced_brackets : ∃ tokens, scan "1.|array-key[ ]" = .ok tokens ∧
    Respaced none tokens "1. |array-key[\n] " ∧
    (∃ tokens', scan "1. |array-key[\n] " = .ok tokens' ∧
      tokens'.map Token.unplaced = tokens.map Token.unplaced) ∧
    ∀ aliases, (parse aliases "1. |array-key[\n] ").mapError (·.code) =
      (parse aliases "1.|array-key[ ]").mapError (·.code) := by
  have respaced : Respaced none [⟨.float, "1.", "1.", 0, .none⟩, ⟨.or, "|", "|", 2, .none⟩,
      ⟨.name, "array-key", "array-key", 3, .none⟩, ⟨.lbrack, "[", "[", 12, .none⟩,
      ⟨.rbrack, "]", "]", 14, .none⟩, ⟨.eof, [], [], 15, .none⟩] "1. |array-key[\n] " :=
    @Respaced.token none _ _ [] _ rfl (by simp) <|
    @Respaced.token _ _ _ [0x20] _ rfl (by simp) <|
    @Respaced.token _ _ _ [] _ rfl (by simp [Token.finish]; decide) <|
    @Respaced.token _ _ _ [] _ rfl (by simp [Token.finish]; decide) <|
    @Respaced.token _ _ _ [0x0A] _ rfl (by simp) <|
    @Respaced.ended _ _ [0x20] rfl
  exact ⟨_, rfl, respaced, parse_respaced rfl respaced⟩

end Conform.Declaration

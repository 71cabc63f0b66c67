import Conform.Proofs.Declaration.Numeral
import Conform.Proofs.Declaration.Symbols

/-! What scanning gives. Every number token is a numeral, and the end is marked
once, after all other tokens. In the other direction a text is scanned piece by
piece: a piece with its actual rest present gives its symbols and hands over to
the rest, so that no longest match can reach over the border. -/
namespace Conform.Declaration

/-! ### Cutting a token off -/

/-- Punctuation ends names and numbers and starts none. -/
theorem punctuation {b : UInt8} (mark : (TokenKind.ofOctet? b).isSome = true) :
    isSpace b = false ∧ isLetter b = false ∧ continuesName b = false ∧ isSign b = false ∧
      endsNumber b = true ∧ b ≠ 0x27 ∧ b ≠ 0x22 :=
  octet_cases (P := fun b => (TokenKind.ofOctet? b).isSome = true → isSpace b = false ∧
    isLetter b = false ∧ continuesName b = false ∧ isSign b = false ∧ endsNumber b = true ∧
    b ≠ 0x27 ∧ b ≠ 0x22) (by decide) b mark

theorem not_startsNumber {b : UInt8} {rest : Bytes} (sign : isSign b = false)
    (ends : endsNumber b = true) : startsNumber (b :: rest) = false := by
  obtain ⟨digit, point, _⟩ := (endsNumber_iff b).mp ends
  simp [startsNumber, splitOne, sign, point, startsWith, digit]

/-- The token that is cut off at an offset where an octet starts it, and what follows it. -/
inductive Cutting (position : Nat) (b : UInt8) (rest : Bytes) : Token → Bytes → Prop where
  | name {name after : Bytes} (letter : isLetter b = true)
      (split : splitName (b :: rest) = (name, after)) :
      Cutting position b rest ⟨.name, name, name, position, .none⟩ after
  | number {kind : TokenKind} {number after : Bytes} (letter : isLetter b = false)
      (starts : startsNumber (b :: rest) = true)
      (split : splitNumber (b :: rest) = (kind, number, after)) :
      Cutting position b rest ⟨kind, number, number, position, .none⟩ after
  | quoted {content raw after : Bytes} (opens : b = 0x27 ∨ b = 0x22)
      (split : splitQuoted b rest = some (content, raw, after)) :
      Cutting position b rest
        ⟨.string, content, b :: raw, position, if b = 0x22 then .double else .single⟩ after
  | mark {kind : TokenKind} (found : TokenKind.ofOctet? b = some kind) :
      Cutting position b rest ⟨kind, [b], [b], position, .none⟩ rest

theorem not_startsNumber_of_quote {b : UInt8} (opens : b = 0x27 ∨ b = 0x22) (rest : Bytes) :
    isLetter b = false ∧ startsNumber (b :: rest) = false := by
  rcases opens with rfl | rfl <;> exact ⟨rfl, rfl⟩

theorem splitToken_eq_ok_iff {position : Nat} {b : UInt8} {rest after : Bytes} {token : Token} :
    splitToken position b rest = .ok (token, after) ↔ Cutting position b rest token after := by
  constructor
  · intro split
    rw [splitToken] at split
    simp only at split
    split at split
    · rename_i letter
      obtain ⟨rfl, rfl⟩ := Prod.mk.inj (Except.ok.inj split)
      exact .name letter rfl
    · rename_i letter
      split at split
      · rename_i starts
        obtain ⟨rfl, rfl⟩ := Prod.mk.inj (Except.ok.inj split)
        exact .number (Bool.not_eq_true _ ▸ letter) starts rfl
      · split at split
        · rename_i opens
          split at split
          · rename_i quoted
            obtain ⟨rfl, rfl⟩ := Prod.mk.inj (Except.ok.inj split)
            exact .quoted opens quoted
          · contradiction
        · split at split
          · rename_i found
            obtain ⟨rfl, rfl⟩ := Prod.mk.inj (Except.ok.inj split)
            exact .mark found
          · contradiction
  · intro cutting
    rw [splitToken]
    cases cutting with
    | name letter split => simp only [letter, if_true, split]
    | number letter starts split =>
      simp only [letter, Bool.false_eq_true, if_false, starts, if_true, split]
    | quoted opens split =>
      obtain ⟨letter, number⟩ := not_startsNumber_of_quote opens rest
      simp only [letter, number, Bool.false_eq_true, if_false, opens, if_true, split]
    | mark found =>
      obtain ⟨-, letter, -, sign, ends, single, double⟩ := punctuation (by rw [found]; rfl)
      simp only [letter, not_startsNumber sign ends, Bool.false_eq_true, if_false, single, double,
        or_self, found]

/-! ### Tokens -/

/-- A token that was cut off a text: it does not mark the end, and its literal is
a numeral if it is a number. -/
structure Cut (token : Token) : Prop where
  kind_ne : token.kind ≠ .eof
  number : token.kind = .integer ∨ token.kind = .float →
    ∃ n : Numeral, token.kind = n.kind ∧ token.literal = n.text

theorem ofOctet?_mark {b : UInt8} {kind : TokenKind} (found : TokenKind.ofOctet? b = some kind) :
    kind.isMark = true ∧ kind ≠ .eof := by
  rw [TokenKind.ofOctet?] at found
  iterate 9
    rcases ite_eq_some found with ⟨_, rfl⟩ | found
    · decide
  rcases ite_eq_some found with ⟨_, rfl⟩ | found
  · decide
  · contradiction

theorem splitToken_cut {position : Nat} {b : UInt8} {rest after : Bytes} {token : Token}
    (split : splitToken position b rest = .ok (token, after)) : Cut token := by
  cases splitToken_eq_ok_iff.mp split with
  | name letter split => exact ⟨by simp, by simp⟩
  | number letter starts split =>
    obtain ⟨n, after', parts, _⟩ := splitNumber_numeral starts
    obtain ⟨rfl, rest⟩ := Prod.mk.inj (split.symm.trans parts)
    obtain ⟨rfl, rfl⟩ := Prod.mk.inj rest
    refine ⟨?_, fun _ => ⟨n, rfl, rfl⟩⟩
    rcases n.kind_cases with kind | kind <;> simp [kind]
  | quoted opens split => exact ⟨by simp, by simp⟩
  | mark found =>
    obtain ⟨mark, other⟩ := ofOctet?_mark found
    refine ⟨other, ?_⟩
    rintro (number | number) <;> simp only at number <;> rw [number] at mark <;> contradiction

/-- The tokens of a text, of which all but the last one were cut off it. -/
theorem scanFrom_tokens (fuel position : Nat) (text : Bytes) :
    ∃ front last, (scanFrom fuel position text).1 = front ++ last ∧ (∀ token ∈ front, Cut token) ∧
      (last = [] ∨ ∃ token, last = [token] ∧ token.kind = .eof) := by
  induction fuel generalizing position text with
  | zero => exact ⟨[], [], rfl, nofun, Or.inl rfl⟩
  | succ fuel ih =>
    rw [scanFrom]
    simp only
    split
    · exact ⟨[], _, rfl, nofun, Or.inr ⟨_, rfl, rfl⟩⟩
    · rename_i b rest _
      split
      · exact ⟨[], [], rfl, nofun, Or.inl rfl⟩
      · rename_i token after split
        obtain ⟨front, last, same, cuts, ends⟩ := ih (position + (text.takeWhile isSpace).length +
          token.raw.length) after
        refine ⟨token :: front, last, ?_, ?_, ends⟩
        · rw [List.cons_append, ← same]
        · exact List.forall_mem_cons.mpr ⟨splitToken_cut split, cuts⟩

theorem tokens_of_scan {source : Bytes} {tokens : List Token} (scanned : scan source = .ok tokens) :
    ∃ front last, tokens = front ++ last ∧ (∀ token ∈ front, Cut token) ∧
      (last = [] ∨ ∃ token, last = [token] ∧ token.kind = .eof) := by
  rw [scan, Declaration.scanned] at scanned
  obtain ⟨front, last, same, cuts, ends⟩ := scanFrom_tokens (source.length + 1) 0 source
  split at scanned
  · rename_i found
    rw [found] at same
    obtain rfl := Except.ok.inj scanned
    exact ⟨front, last, same, cuts, ends⟩
  · contradiction

/-- The end is marked once, after all other tokens. -/
def EndsOnce (tokens : List Token) : Prop :=
  ∀ front rest, symbols tokens = front ++ .mark .eof :: rest → rest = []

theorem endsOnce_of_scan {source : Bytes} {tokens : List Token}
    (scanned : scan source = .ok tokens) : EndsOnce tokens := by
  obtain ⟨front, last, rfl, cuts, ends⟩ := tokens_of_scan scanned
  have inside : .mark .eof ∉ symbols front := by
    intro member
    obtain ⟨token, found, same⟩ := List.mem_map.mp member
    exact (cuts token found).kind_ne ((@symbol_eq_mark .eof rfl token).mp same)
  intro before rest same
  rw [symbols, List.map_append] at same
  rcases List.append_eq_append_iff.mp same with ⟨more, rfl, tail⟩ | ⟨more, split, tail⟩
  · rcases ends with rfl | ⟨token, rfl, _⟩
    · simp at tail
    · cases more with
      | nil => exact (List.cons.inj tail).2.symm
      | cons s others => simp at tail
  · cases more with
    | nil =>
      rcases ends with rfl | ⟨token, rfl, _⟩
      · simp at tail
      · exact (List.cons.inj tail).2
    | cons s others =>
      obtain ⟨rfl, _⟩ := List.cons.inj tail
      rw [symbols, split] at inside
      exact absurd (List.mem_append_right before List.mem_cons_self) inside

/-- A number token is a numeral. -/
theorem numeral_of_scan {source : Bytes} {tokens : List Token} (scanned : scan source = .ok tokens)
    {token : Token} (member : token ∈ tokens)
    (number : token.kind = .integer ∨ token.kind = .float) :
    ∃ n : Numeral, token.kind = n.kind ∧ token.literal = n.text := by
  obtain ⟨front, last, rfl, cuts, ends⟩ := tokens_of_scan scanned
  rcases List.mem_append.mp member with inside | inside
  · exact (cuts token inside).number number
  · rcases ends with rfl | ⟨token', rfl, eof⟩
    · contradiction
    · rw [List.mem_singleton.mp inside, eof] at number
      simp at number

/-! ### Texts -/

/-- Scanning the text gives the symbols and then the end. -/
def Scans (text : Bytes) (found : List Symbol) : Prop :=
  ∀ fuel position, text.length < fuel →
    ∃ tokens, scanFrom fuel position text = (tokens, none) ∧ symbols tokens = found ++ [.mark .eof]

/-- The text is empty or starts with punctuation. -/
abbrev Delimited (text : Bytes) : Prop := Starts (fun b => (TokenKind.ofOctet? b).isSome) text

theorem isSpace_of_letter {b : UInt8} (letter : isLetter b = true) : isSpace b = false :=
  octet_cases (P := fun b => isLetter b = true → isSpace b = false) (by decide) b letter

/-- The first octet of a number is neither a letter nor a space. -/
theorem startsNumber_first {b : UInt8} {rest : Bytes} (starts : startsNumber (b :: rest) = true) :
    isLetter b = false ∧ isSpace b = false := by
  have first : isSign b = true ∨ b = 0x2E ∨ isDigit b = true := by
    by_contra none
    rw [not_or, not_or, Bool.not_eq_true, Bool.not_eq_true] at none
    simp [startsNumber, splitOne, startsWith, none] at starts
  exact octet_cases (P := fun b => isSign b = true ∨ b = 0x2E ∨ isDigit b = true →
    isLetter b = false ∧ isSpace b = false) (by decide) b first

theorem splitName_join (text : Bytes) : (splitName text).1 ++ (splitName text).2 = text := by
  fun_induction splitName text with
  | case1 => rfl
  | case2 b rest more name tail split ih =>
    rw [split] at ih
    exact congrArg (b :: ·) ih
  | case3 => rfl

theorem splitName_all {name : Bytes} (all : ∀ b ∈ name, continuesName b = true) :
    splitName name = (name, []) := by
  induction name with
  | nil => rfl
  | cons b rest ih =>
    obtain ⟨first, others⟩ := List.forall_mem_cons.mp all
    rw [splitName, first, Bool.true_or, if_pos rfl, ih others]

/-- A name that is cut off whole when nothing follows is so before punctuation. -/
theorem splitName_append {name rest : Bytes} (whole : splitName name = (name, []))
    (stop : Delimited rest) : splitName (name ++ rest) = (name, rest) := by
  induction name with
  | nil =>
    cases rest with
    | nil => rfl
    | cons b tail =>
      obtain ⟨_, _, continues, sign, _⟩ := punctuation stop.head
      rw [isSign, Bool.or_eq_false_iff] at sign
      simp [splitName, continues, sign]
  | cons b tail ih =>
    rw [splitName] at whole
    split at whole
    · rename_i continues
      have rest' : splitName tail = (tail, []) := by
        simp only [Prod.mk.injEq, List.cons.injEq, true_and] at whole
        exact Prod.ext whole.1 whole.2
      have still :
          (continuesName b || (b == 0x2D && startsWith isLetter (tail ++ rest))) = true := by
        rw [Bool.or_eq_true, Bool.and_eq_true] at continues ⊢
        exact continues.imp_right fun both => ⟨both.1, startsWith_append both.2 rest⟩
      rw [List.cons_append, splitName, if_pos still, ih rest']
    · simp at whole

/-- The escaped form of a text is read back up to the closing quote. -/
theorem splitQuoted_escaped {quote : UInt8} (plain : quote ≠ 0x5C) (content rest : Bytes) :
    ∃ raw, splitQuoted quote
      (content.flatMap (fun b => if b = quote ∨ b = 0x5C then [0x5C, b] else [b]) ++ quote :: rest) =
        some (content, raw, rest) := by
  induction content with
  | nil =>
    refine ⟨[quote], ?_⟩
    rw [List.flatMap_nil, List.nil_append, splitQuoted.eq_def]
    simp only [plain, if_false, if_true]
  | cons b tail ih =>
    obtain ⟨raw, read⟩ := ih
    rw [List.flatMap_cons, List.append_assoc]
    by_cases escaped : b = quote ∨ b = 0x5C
    · refine ⟨0x5C :: b :: raw, ?_⟩
      rw [if_pos escaped, List.cons_append, List.cons_append, List.nil_append, splitQuoted,
        if_pos rfl, read]
      rfl
    · refine ⟨b :: raw, ?_⟩
      rw [if_neg escaped, List.singleton_append, splitQuoted.eq_def]
      rw [not_or] at escaped
      simp only [escaped, if_false, read, Option.map_some]

/-- The symbol of a numeral. -/
def Numeral.symbol (n : Numeral) : Symbol :=
  if n.kind = .integer then .integer n.text else .float n.text

theorem scan_of_scans {text : Bytes} {found : List Symbol} (scans : Scans text found) :
    ∃ tokens, scan text = .ok tokens ∧ symbols tokens = found ++ [.mark .eof] := by
  obtain ⟨tokens, run, same⟩ := scans (text.length + 1) 0 (Nat.lt_succ_self _)
  exact ⟨tokens, by rw [scan, scanned, run], same⟩

namespace Scans

variable {text rest : Bytes} {w : List Symbol}

theorem nil : Scans [] [] := by
  intro fuel position enough
  obtain ⟨fuel, rfl⟩ := Nat.exists_eq_succ_of_ne_zero (Nat.ne_zero_of_lt enough)
  exact ⟨_, rfl, rfl⟩

theorem space {b : UInt8} (blank : isSpace b = true) (scans : Scans rest w) :
    Scans (b :: rest) w := by
  intro fuel position enough
  obtain ⟨fuel, rfl⟩ := Nat.exists_eq_succ_of_ne_zero (Nat.ne_zero_of_lt enough)
  obtain ⟨tokens, run, same⟩ := scans (fuel + 1) (position + 1) (Nat.lt_of_succ_lt enough)
  refine ⟨tokens, ?_, same⟩
  rw [← run, scanFrom, scanFrom, List.takeWhile_cons_of_pos blank,
    List.dropWhile_cons_of_pos blank, List.length_cons, Nat.add_right_comm, Nat.add_assoc]

/-- A token at the front is cut off, and scanning goes on with what follows it. -/
theorem token {b : UInt8} {after : Bytes} {s : Symbol} (solid : isSpace b = false)
    (cut : ∀ position, ∃ token, splitToken position b rest = .ok (token, after) ∧ token.symbol = s)
    (shorter : after.length ≤ rest.length) (scans : Scans after w) : Scans (b :: rest) (s :: w) := by
  intro fuel position enough
  obtain ⟨fuel, rfl⟩ := Nat.exists_eq_succ_of_ne_zero (Nat.ne_zero_of_lt enough)
  obtain ⟨token, split, symbol⟩ := cut position
  have size : after.length < fuel := by
    rw [List.length_cons] at enough
    omega
  obtain ⟨tokens, run, same⟩ := scans fuel (position + token.raw.length) size
  refine ⟨token :: tokens, ?_, ?_⟩
  · have other : ¬ isSpace b = true := by rw [solid]; decide
    rw [scanFrom, List.takeWhile_cons_of_neg other, List.dropWhile_cons_of_neg other]
    simp only [List.length_nil, Nat.add_zero, split, run]
  · rw [List.cons_append, ← same, ← symbol]
    rfl

theorem mark {b : UInt8} {kind : TokenKind} (found : TokenKind.ofOctet? b = some kind)
    (scans : Scans rest w) : Scans (b :: rest) (.mark kind :: w) := by
  refine token (punctuation (by rw [found]; rfl)).1 ?_ (Nat.le_refl _) scans
  intro position
  exact ⟨⟨kind, [b], [b], position, .none⟩, splitToken_eq_ok_iff.mpr (.mark found),
    (symbol_eq_mark (ofOctet?_mark found).1 _).mpr rfl⟩

theorem name {name : Bytes} (first : startsWith isLetter name = true)
    (whole : splitName name = (name, [])) (stop : Delimited rest) (scans : Scans rest w) :
    Scans (name ++ rest) (.name name :: w) := by
  cases name with
  | nil => contradiction
  | cons b tail =>
    have letter : isLetter b = true := first
    have cut : splitName (b :: (tail ++ rest)) = (b :: tail, rest) := splitName_append whole stop
    rw [List.cons_append]
    refine token (isSpace_of_letter letter) ?_ (by simp) scans
    intro position
    exact ⟨⟨.name, b :: tail, b :: tail, position, .none⟩,
      splitToken_eq_ok_iff.mpr (.name letter cut), rfl⟩

theorem numeral (n : Numeral) (stop : Delimited rest) (scans : Scans rest w) :
    Scans (n.text ++ rest) (n.symbol :: w) := by
  have cut := n.split fun b member => (punctuation (stop b member)).2.2.2.2.1
  have starts := n.starts rest
  obtain ⟨b, tail, written⟩ : ∃ b tail, n.text = b :: tail := by
    obtain ⟨b, tail, body, _⟩ := n.body_head
    exact List.exists_cons_of_ne_nil (by simp [Numeral.text, body])
  have front : n.text ++ rest = b :: (tail ++ rest) := by rw [written, List.cons_append]
  rw [front] at cut starts ⊢
  obtain ⟨letter, solid⟩ := startsNumber_first starts
  refine token solid ?_ (by simp) scans
  intro position
  refine ⟨⟨n.kind, n.text, n.text, position, .none⟩,
    splitToken_eq_ok_iff.mpr (.number letter starts cut), ?_⟩
  · rw [Token.symbol, Numeral.symbol]
    rcases n.kind_cases with kind | kind <;> simp [kind]

/-- A text between quotes stands for itself, whatever octets it has. -/
theorem quoted {quote : UInt8} (isQuote : quote = 0x27 ∨ quote = 0x22) (content : Bytes)
    (scans : Scans rest w) :
    Scans (quoteWith quote content ++ rest)
      (.string content (if quote = 0x22 then .double else .single) :: w) := by
  have facts : isSpace quote = false ∧ quote ≠ 0x5C := by rcases isQuote with rfl | rfl <;> decide
  obtain ⟨solid, plain⟩ := facts
  obtain ⟨raw, read⟩ := splitQuoted_escaped plain content rest
  rw [quoteWith, List.cons_append, List.cons_append, List.append_assoc, List.singleton_append]
  refine token solid ?_ (by simp; omega) scans
  intro position
  exact ⟨⟨.string, content, quote :: raw, position, if quote = 0x22 then .double else .single⟩,
    splitToken_eq_ok_iff.mpr (.quoted isQuote read), rfl⟩

end Scans

end Conform.Declaration

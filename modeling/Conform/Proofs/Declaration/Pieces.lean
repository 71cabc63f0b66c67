import Conform.Proofs.Declaration.Written

/-! Declarations as pieces of others. Each token takes a text off the front and looks at
most at the octets that follow, so punctuation after a text changes nothing in how the
text is cut. Hence a declaration that can be scanned by itself is scanned to the same
symbols where it stands between punctuation, and scanning always gets to the end. -/
namespace Conform.Declaration

/-! ### Tokens take text off the front -/

theorem splitQuoted_join {quote : UInt8} {text content raw after : Bytes}
    (split : splitQuoted quote text = some (content, raw, after)) : text = raw ++ after := by
  fun_induction splitQuoted quote text generalizing content raw after with
  | case1 => contradiction
  | case2 => contradiction
  | case3 c tail ih =>
    obtain ⟨⟨content, raw, after⟩, inner, same⟩ := Option.map_eq_some_iff.mp split
    obtain ⟨rfl, rfl, rfl⟩ := by simpa using same
    rw [ih inner]
    rfl
  | case4 rest other =>
    obtain ⟨rfl, rfl, rfl⟩ := by simpa using split
    rfl
  | case5 b rest escape other ih =>
    obtain ⟨⟨content, raw, after⟩, inner, same⟩ := Option.map_eq_some_iff.mp split
    obtain ⟨rfl, rfl, rfl⟩ := by simpa using same
    rw [ih inner]
    rfl

/-- A quoted literal is cut off again whatever follows it. -/
theorem splitQuoted_steady {quote : UInt8} {text content raw after : Bytes}
    (split : splitQuoted quote text = some (content, raw, after)) (after' : Bytes) :
    splitQuoted quote (raw ++ after') = some (content, raw, after') := by
  fun_induction splitQuoted quote text generalizing content raw after with
  | case1 => contradiction
  | case2 => contradiction
  | case3 c tail ih =>
    obtain ⟨⟨content, raw, after⟩, inner, same⟩ := Option.map_eq_some_iff.mp split
    obtain ⟨rfl, rfl, rfl⟩ := by simpa using same
    rw [List.cons_append, List.cons_append, splitQuoted, if_pos rfl, ih inner]
    rfl
  | case4 rest other =>
    obtain ⟨rfl, rfl, rfl⟩ := by simpa using split
    rw [List.singleton_append, splitQuoted.eq_def]
    simp only [other, if_false, if_true]
  | case5 b rest escape other ih =>
    obtain ⟨⟨content, raw, after⟩, inner, same⟩ := Option.map_eq_some_iff.mp split
    obtain ⟨rfl, rfl, rfl⟩ := by simpa using same
    rw [List.cons_append, splitQuoted.eq_def]
    simp only [escape, other, if_false, ih inner, Option.map_some]

/-- A token is cut off the front of the text, of which it takes one octet at least. -/
theorem splitToken_join {position : Nat} {b : UInt8} {rest after : Bytes} {token : Token}
    (split : splitToken position b rest = .ok (token, after)) :
    b :: rest = token.raw ++ after ∧ token.raw ≠ [] := by
  cases splitToken_eq_ok_iff.mp split with
  | name letter split =>
    have continues : continuesName b = true := by simp [continuesName, letter]
    have join := splitName_join (b :: rest)
    rw [split] at join
    refine ⟨join.symm, ?_⟩
    rintro rfl
    simp [splitName, continues] at split
  | number letter starts split =>
    obtain ⟨n, after', parts, whole⟩ := splitNumber_numeral starts
    obtain ⟨-, same⟩ := Prod.mk.inj (split.symm.trans parts)
    obtain ⟨rfl, rfl⟩ := Prod.mk.inj same
    obtain ⟨c, body, written, _⟩ := n.body_head
    exact ⟨whole.symm, by simp [Numeral.text, written]⟩
  | quoted opens split => exact ⟨congrArg (b :: ·) (splitQuoted_join split), List.cons_ne_nil _ _⟩
  | mark found => exact ⟨rfl, List.cons_ne_nil _ _⟩

theorem splitToken_shorter {position : Nat} {b : UInt8} {rest after : Bytes} {token : Token}
    (split : splitToken position b rest = .ok (token, after)) : after.length ≤ rest.length := by
  obtain ⟨whole, some⟩ := splitToken_join split
  have length := congrArg List.length whole
  have positive := List.length_pos_iff.mpr some
  rw [List.length_cons, List.length_append] at length
  omega

/-! ### What follows a token does not change it -/

section Following

variable {more : Bytes}

theorem startsWith_following {test : UInt8 → Bool} (stop : ∀ b ∈ more.head?, test b = false)
    (text : Bytes) : startsWith test (text ++ more) = startsWith test text := by
  cases text with
  | nil =>
    cases more with
    | nil => rfl
    | cons b rest => exact stop b rfl
  | cons b rest => rfl

theorem splitOne_following {test : UInt8 → Bool} (stop : ∀ b ∈ more.head?, test b = false)
    (text : Bytes) :
    splitOne test (text ++ more) = ((splitOne test text).1, (splitOne test text).2 ++ more) := by
  cases text with
  | nil => exact splitOne_stop stop
  | cons b rest =>
    rw [List.cons_append, splitOne, splitOne]
    split <;> rfl

theorem run_following {test : UInt8 → Bool} (stop : ∀ b ∈ more.head?, test b = false)
    (text : Bytes) : (text ++ more).takeWhile test = text.takeWhile test ∧
      (text ++ more).dropWhile test = text.dropWhile test ++ more := by
  induction text with
  | nil => exact split_run (show ([] : Bytes).all test = true from rfl) stop
  | cons b rest ih =>
    rw [List.cons_append, List.takeWhile_cons, List.takeWhile_cons, List.dropWhile_cons,
      List.dropWhile_cons]
    split
    · exact ⟨congrArg (b :: ·) ih.1, ih.2⟩
    · exact ⟨rfl, rfl⟩

variable (stop : Delimited more)

include stop

theorem Delimited.not_digit : ∀ b ∈ more.head?, isDigit b = false := fun b member =>
  ((endsNumber_iff b).mp (punctuation (stop b member)).2.2.2.2.1).1

theorem Delimited.not_sign : ∀ b ∈ more.head?, isSign b = false := fun b member =>
  (punctuation (stop b member)).2.2.2.1

theorem Delimited.not_point : ∀ b ∈ more.head?, (b == 0x2E) = false := fun b member =>
  beq_eq_false_iff_ne.mpr ((endsNumber_iff b).mp (punctuation (stop b member)).2.2.2.2.1).2.1

theorem splitName_following (text : Bytes) :
    splitName (text ++ more) = ((splitName text).1, (splitName text).2 ++ more) := by
  induction text with
  | nil => exact splitName_append (show splitName [] = ([], []) from rfl) stop
  | cons b rest ih =>
    have letters := startsWith_following (fun b member => (punctuation (stop b member)).2.1) rest
    rw [List.cons_append, splitName, splitName, letters, ih]
    split <;> rfl

theorem startsNumber_following (text : Bytes) :
    startsNumber (text ++ more) = startsNumber text := by
  rw [startsNumber, startsNumber, splitOne_following stop.not_sign,
    splitOne_following stop.not_point, startsWith_following stop.not_digit]

theorem splitFraction_following (text : Bytes) : splitFraction (text ++ more) =
    ((splitFraction text).1, (splitFraction text).2 ++ more) := by
  rw [splitFraction, splitFraction, splitOne_following stop.not_point]
  rcases splitOne (· == 0x2E) text with ⟨_ | ⟨b, point⟩, rest⟩
  · rfl
  · obtain ⟨taken, dropped⟩ := run_following stop.not_digit rest
    simp only [taken, dropped]

theorem splitExponent_following (text : Bytes) : splitExponent (text ++ more) =
    ((splitExponent text).1, (splitExponent text).2 ++ more) := by
  have notMark : ∀ b ∈ more.head?, (b == 0x65 || b == 0x45) = false := by
    intro b member
    obtain ⟨_, _, small, capital⟩ := (endsNumber_iff b).mp (punctuation (stop b member)).2.2.2.2.1
    simp [small, capital]
  rw [splitExponent, splitExponent, splitOne_following notMark]
  simp only [splitOne_following stop.not_sign, startsWith_following stop.not_digit,
    run_following stop.not_digit]
  split <;> rfl

theorem splitNumber_following (text : Bytes) : splitNumber (text ++ more) =
    ((splitNumber text).1, (splitNumber text).2.1, (splitNumber text).2.2 ++ more) := by
  simp only [splitNumber, splitOne_following stop.not_sign, run_following stop.not_digit,
    splitFraction_following stop, splitExponent_following stop]

omit stop in
theorem splitQuoted_following {quote : UInt8} {text content raw after : Bytes}
    (split : splitQuoted quote text = some (content, raw, after)) (more : Bytes) :
    splitQuoted quote (text ++ more) = some (content, raw, after ++ more) := by
  rw [splitQuoted_join split, List.append_assoc]
  exact splitQuoted_steady split (after ++ more)

/-- A token that is cut off a text is cut off in the same way before punctuation, wherever
the text stands. -/
theorem splitToken_following {start : Nat} {b : UInt8} {rest after : Bytes} {token : Token}
    (split : splitToken start b rest = .ok (token, after)) (position : Nat) :
    splitToken position b (rest ++ more) = .ok ({ token with position }, after ++ more) := by
  cases splitToken_eq_ok_iff.mp split with
  | name letter split =>
    refine splitToken_eq_ok_iff.mpr (.name letter ?_)
    rw [← List.cons_append, splitName_following stop, split]
  | number letter starts split =>
    refine splitToken_eq_ok_iff.mpr (.number letter ?_ ?_)
    · rw [← List.cons_append, startsNumber_following stop, starts]
    · rw [← List.cons_append, splitNumber_following stop, split]
  | quoted opens split =>
    exact splitToken_eq_ok_iff.mpr (.quoted opens (splitQuoted_following split more))
  | mark found => exact splitToken_eq_ok_iff.mpr (.mark found)

end Following

/-! ### Texts that scan -/

theorem Spells.blank {spaces text : Bytes} {front : List Symbol}
    (blank : ∀ b ∈ spaces, isSpace b = true) (spells : Spells text front) :
    Spells (spaces ++ text) front := by
  induction spaces with
  | nil => exact spells
  | cons b spaces ih =>
    obtain ⟨first, others⟩ := List.forall_mem_cons.mp blank
    intro rest w stop scans
    exact (ih others rest w stop scans).space first

/-- Where there is fuel for every octet, scanning without an error gets to the end, and what
was scanned is scanned in the same way before punctuation. -/
theorem spells_of_scanFrom {fuel position : Nat} {text : Bytes} {tokens : List Token}
    (enough : text.length < fuel) (found : scanFrom fuel position text = (tokens, none)) :
    ∃ front, symbols tokens = front ++ [.mark .eof] ∧ Spells text front := by
  induction fuel generalizing position text tokens with
  | zero => contradiction
  | succ fuel ih =>
    have blank : ∀ b ∈ text.takeWhile isSpace, isSpace b = true :=
      List.all_eq_true.mp List.all_takeWhile
    have whole := List.takeWhile_append_dropWhile (p := isSpace) (l := text)
    rw [scanFrom] at found
    simp only at found
    split at found
    · rename_i nothing
      obtain ⟨rfl, -⟩ := Prod.mk.inj found
      rw [nothing] at whole
      exact ⟨[], rfl, whole ▸ Spells.nil.blank blank⟩
    · rename_i b rest some
      have solid : isSpace b = false := by
        have head := List.head?_dropWhile_not isSpace text
        rw [some] at head
        simpa using head
      split at found
      · simp at found
      · rename_i token after split
        obtain ⟨rfl, failure⟩ := Prod.mk.inj found
        have shorter := splitToken_shorter split
        have size : after.length < fuel := by
          have length := congrArg List.length whole
          rw [some, List.length_append, List.length_cons] at length
          omega
        obtain ⟨front, same, spells⟩ := ih size (Prod.ext rfl failure)
        refine ⟨token.symbol :: front, ?_, ?_⟩
        · rw [symbols, List.map_cons, ← symbols, same]
          rfl
        · rw [← whole, some]
          refine Spells.blank blank fun more w stop scans => ?_
          refine Scans.token solid (fun position => ?_) ?_ (spells more w stop scans)
          · exact ⟨_, splitToken_following stop split position, rfl⟩
          · change (after ++ more).length ≤ (rest ++ more).length
            rw [List.length_append, List.length_append]
            omega

/-- A declaration that scans by itself scans to the same symbols before punctuation. -/
theorem spells_of_scan {source : Bytes} {tokens : List Token} (found : scan source = .ok tokens) :
    ∃ front, symbols tokens = front ++ [.mark .eof] ∧ Spells source front := by
  rw [scan] at found
  split at found
  · rename_i run
    obtain rfl := Except.ok.inj found
    exact spells_of_scanFrom (Nat.lt_succ_self _) run
  · contradiction

/-- What derives a text alone derives it before punctuation. -/
theorem derives_iff_spells {source : Bytes} {tree : UnionTree} :
    Derives source tree ↔ Spells source tree.yield := by
  constructor
  · rintro ⟨tokens, scanned, same⟩
    obtain ⟨front, ended, spells⟩ := spells_of_scan scanned
    obtain rfl : front = tree.yield := List.append_cancel_right (ended.symm.trans same)
    exact spells
  · intro spells
    have scans := spells [] [] (.nil _) .nil
    rw [List.append_nil, List.append_nil] at scans
    exact scan_of_scans scans

/-- A declaration denotes a type exactly when it is scanned, wherever it stands, to a tree
that denotes the type. -/
theorem parse_eq_ok_iff_spelled {aliases : Aliases}
    (known : ∀ name t, aliases.find? name = some t → t ≠ .union []) {source : Bytes} {t : Ty} :
    parse aliases source = .ok t ↔ Spelled aliases source t := by
  rw [parse_eq_ok_iff known]
  refine exists_congr fun tree => ?_
  rw [derives_iff_spells]
  exact and_comm

/-- The tokens end in the mark of the end, which stands nowhere else. -/
def Ended (tokens : List Token) : Prop :=
  ∃ front last, tokens = front ++ [last] ∧ last.kind = .eof ∧ ∀ token ∈ front, token.kind ≠ .eof

/-- Scanning ends with an error or at the end of the text. -/
theorem ended_of_scan {source : Bytes} {tokens : List Token} (found : scan source = .ok tokens) :
    Ended tokens := by
  obtain ⟨before, same, _⟩ := spells_of_scan found
  obtain ⟨front, last, rfl, cuts, rfl | ⟨token, rfl, eof⟩⟩ := tokens_of_scan found
  · rw [List.append_nil] at same
    have member : .mark .eof ∈ symbols front := same ▸ List.mem_append_right _ List.mem_cons_self
    obtain ⟨token, inside, mark⟩ := List.mem_map.mp member
    exact absurd ((@symbol_eq_mark .eof rfl token).mp mark) (cuts token inside).kind_ne
  · exact ⟨front, token, rfl, eof, fun token inside => (cuts token inside).kind_ne⟩

end Conform.Declaration

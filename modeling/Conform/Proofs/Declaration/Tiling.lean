import Conform.Proofs.Declaration.Pieces

/-! Tokens tile the text that they are cut from. Scanning is a run of steps, each of which
skips white space and then reaches the end, cuts a token off, or fails. A step neither skips
nor takes again any octet but white space, so a run leaves the tokens in their places, one
after the other, with white space between them, up to the end or to where it fails. -/
namespace Conform.Declaration

/-! ### Runs -/

/-- A run of the scanner over a text at an offset: the tokens it cuts off, and its failure. -/
inductive Scanning : Nat → Bytes → List Token → Option ScanError → Prop where
  | ended {position : Nat} {gap : Bytes} (blank : gap.all isSpace = true) :
      Scanning position gap [⟨.eof, [], [], position + gap.length, .none⟩] none
  | failed {position : Nat} {gap rest : Bytes} {b : UInt8} {e : ScanError}
      (blank : gap.all isSpace = true) (solid : isSpace b = false)
      (refused : splitToken (position + gap.length) b rest = .error e) :
      Scanning position (gap ++ b :: rest) [] (some e)
  | cut {position : Nat} {gap rest after : Bytes} {b : UInt8} {token : Token} {tokens : List Token}
      {failure : Option ScanError} (blank : gap.all isSpace = true) (solid : isSpace b = false)
      (split : splitToken (position + gap.length) b rest = .ok (token, after))
      (next : Scanning (position + gap.length + token.raw.length) after tokens failure) :
      Scanning position (gap ++ b :: rest) (token :: tokens) failure

/-- White space is skipped up to the first other octet. -/
theorem skip_gap {gap rest : Bytes} {b : UInt8} (blank : gap.all isSpace = true)
    (solid : isSpace b = false) : (gap ++ b :: rest).takeWhile isSpace = gap ∧
      (gap ++ b :: rest).dropWhile isSpace = b :: rest := by
  refine split_run blank fun c member => ?_
  obtain rfl := Option.some.inj member
  exact solid

theorem scanning_scanFrom {fuel : Nat} (position : Nat) {text : Bytes} (enough : text.length < fuel) :
    Scanning position text (scanFrom fuel position text).1 (scanFrom fuel position text).2 := by
  induction fuel generalizing position text with
  | zero => contradiction
  | succ fuel ih =>
    have whole := List.takeWhile_append_dropWhile (p := isSpace) (l := text)
    have blank : (text.takeWhile isSpace).all isSpace = true := List.all_takeWhile
    have stop := List.head?_dropWhile_not isSpace text
    rw [scanFrom]
    generalize text.takeWhile isSpace = gap at whole blank
    generalize text.dropWhile isSpace = solid at whole stop
    subst whole
    cases solid with
    | nil =>
      rw [List.append_nil]
      exact .ended blank
    | cons b rest =>
      have solid : isSpace b = false := by simpa using stop
      simp only
      cases split : splitToken (position + gap.length) b rest with
      | error e => exact .failed blank solid split
      | ok result =>
        have shorter := splitToken_shorter split
        rw [List.length_append, List.length_cons] at enough
        exact .cut blank solid split (ih _ (by omega))

/-- A run is what the scanner does, given fuel for every octet. -/
theorem Scanning.scanFrom_eq {position : Nat} {text : Bytes} {tokens : List Token}
    {failure : Option ScanError} (run : Scanning position text tokens failure) {fuel : Nat}
    (enough : text.length < fuel) : scanFrom fuel position text = (tokens, failure) := by
  induction run generalizing fuel with
  | @ended position gap blank =>
    obtain ⟨fuel, rfl⟩ := Nat.exists_eq_succ_of_ne_zero (Nat.ne_zero_of_lt enough)
    have stop : ∀ b ∈ ([] : Bytes).head?, isSpace b = false := by simp
    obtain ⟨taken, dropped⟩ := split_run blank stop
    rw [List.append_nil] at taken dropped
    rw [scanFrom, taken, dropped]
  | failed blank solid refused =>
    obtain ⟨fuel, rfl⟩ := Nat.exists_eq_succ_of_ne_zero (Nat.ne_zero_of_lt enough)
    obtain ⟨taken, dropped⟩ := skip_gap blank solid
    rw [scanFrom, taken, dropped]
    simp only [refused]
  | cut blank solid split _ ih =>
    obtain ⟨fuel, rfl⟩ := Nat.exists_eq_succ_of_ne_zero (Nat.ne_zero_of_lt enough)
    obtain ⟨taken, dropped⟩ := skip_gap blank solid
    have shorter := splitToken_shorter split
    rw [List.length_append, List.length_cons] at enough
    have rest := ih (show _ < fuel by omega)
    rw [scanFrom, taken, dropped]
    simp only [split, rest]

theorem scan_eq_ok_iff {source : Bytes} {tokens : List Token} :
    scan source = .ok tokens ↔ Scanning 0 source tokens none := by
  have run := scanning_scanFrom 0 (Nat.lt_succ_self source.length)
  rw [scan, scanned]
  constructor
  · intro found
    split at found
    · rename_i result
      rw [result] at run
      exact Except.ok.inj found ▸ run
    · contradiction
  · intro run
    rw [run.scanFrom_eq (Nat.lt_succ_self source.length)]

/-! ### Tiles -/

/-- The offset right after a token's text. -/
def Token.finish (t : Token) : Nat := t.position + t.raw.length

/-- The tokens tile a source between two offsets: each has a text, which stands in the source
at its offset, they are in order and apart, and what they leave is white space. -/
structure Tiles (source : Bytes) (start limit : Nat) (tokens : List Token) : Prop where
  within : start ≤ limit ∧ limit ≤ source.length
  proper : ∀ t ∈ tokens, t.kind ≠ .eof ∧ t.raw ≠ []
  stands : ∀ t ∈ tokens, (source.drop t.position).take t.raw.length = t.raw
  inside : ∀ t ∈ tokens, start ≤ t.position ∧ t.finish ≤ limit
  apart : tokens.Pairwise fun t u => t.position < u.position ∧ t.finish ≤ u.position
  spaced : ∀ i b, start ≤ i → i < limit → source[i]? = some b →
    (∃ t ∈ tokens, t.position ≤ i ∧ i < t.finish) ∨ isSpace b = true

/-- Where scanning fails: at an octet that starts no token, or at the quote that opens a
literal which is not closed. -/
inductive ScanError.PointsAt (source : Bytes) (place : Nat) : ScanError → Prop where
  | unknown {b : UInt8} (here : source[place]? = some b)
      (starts : isSpace b = false ∧ isLetter b = false ∧ startsNumber (source.drop place) = false)
      (other : b ≠ 0x27 ∧ b ≠ 0x22 ∧ TokenKind.ofOctet? b = none) :
      PointsAt source place (.unknownSymbol [b])
  | unclosed {quote : UInt8} (here : source[place]? = some quote)
      (opens : quote = 0x27 ∨ quote = 0x22)
      (unclosed : splitQuoted quote (source.drop (place + 1)) = none) :
      PointsAt source place (.unclosedString (source.drop place) place)

/-- What a run has tiled from an offset on: all the rest, and then the end is marked, or what
lies before the place of its failure. -/
def Tiled (source : Bytes) (start : Nat) (tokens : List Token) : Option ScanError → Prop
  | none => ∃ front, tokens = front ++ [⟨.eof, [], [], source.length, .none⟩] ∧
      Tiles source start source.length front
  | some e => ∃ place, Tiles source start place tokens ∧ e.PointsAt source place

theorem getElem?_of_drop {source front rest : Bytes} {start i : Nat}
    (here : source.drop start = front ++ rest) (after : start ≤ i) (before : i < start + front.length) :
    source[i]? = front[i - start]? := by
  obtain ⟨k, rfl⟩ := Nat.exists_eq_add_of_le after
  rw [← List.getElem?_drop, here, Nat.add_sub_cancel_left,
    List.getElem?_append_left (by omega)]

theorem isSpace_of_gap {source gap rest : Bytes} {start i : Nat} {b : UInt8}
    (here : source.drop start = gap ++ rest) (blank : gap.all isSpace = true) (after : start ≤ i)
    (before : i < start + gap.length) (found : source[i]? = some b) : isSpace b = true := by
  rw [getElem?_of_drop here after before] at found
  exact List.all_eq_true.mp blank b (List.mem_of_getElem? found)

theorem length_of_drop {source front rest : Bytes} {start : Nat} (within : start ≤ source.length)
    (here : source.drop start = front ++ rest) : start + front.length ≤ source.length := by
  have length := congrArg List.length here
  rw [List.length_drop, List.length_append] at length
  omega

theorem drop_of_drop {source front rest : Bytes} {start : Nat}
    (here : source.drop start = front ++ rest) : source.drop (start + front.length) = rest := by
  rw [← List.drop_drop, here, List.drop_left]

namespace Tiles

variable {source : Bytes} {start limit : Nat}

theorem gap {gap rest : Bytes} (within : start ≤ source.length)
    (here : source.drop start = gap ++ rest) (blank : gap.all isSpace = true) :
    Tiles source start (start + gap.length) [] where
  within := ⟨Nat.le_add_right _ _, length_of_drop within here⟩
  proper := by simp
  stands := by simp
  inside := by simp
  apart := .nil
  spaced := fun _ _ after before found => Or.inr (isSpace_of_gap here blank after before found)

/-- One more token before those that tile what follows it. -/
theorem cons {gap rest : Bytes} {t : Token} {tokens : List Token}
    (here : source.drop start = gap ++ (t.raw ++ rest)) (blank : gap.all isSpace = true)
    (place : t.position = start + gap.length) (proper : t.kind ≠ .eof ∧ t.raw ≠ [])
    (tiles : Tiles source t.finish limit tokens) : Tiles source start limit (t :: tokens) where
  within := by
    have after := tiles.within
    rw [Token.finish] at after
    omega
  proper := List.forall_mem_cons.mpr ⟨proper, tiles.proper⟩
  stands := by
    refine List.forall_mem_cons.mpr ⟨?_, tiles.stands⟩
    rw [place, drop_of_drop here, List.take_left]
  inside := by
    refine List.forall_mem_cons.mpr ⟨⟨by omega, tiles.within.1⟩, fun u member => ?_⟩
    obtain ⟨after, before⟩ := tiles.inside u member
    rw [Token.finish] at after
    exact ⟨by omega, before⟩
  apart := by
    refine .cons (fun u member => ?_) tiles.apart
    have after := (tiles.inside u member).1
    have positive := List.length_pos_iff.mpr proper.2
    refine ⟨?_, after⟩
    rw [Token.finish] at after
    omega
  spaced := by
    intro i b after before found
    by_cases skipped : i < start + gap.length
    · exact Or.inr (isSpace_of_gap here blank after skipped found)
    · by_cases taken : i < t.finish
      · exact Or.inl ⟨t, List.mem_cons_self, by omega, taken⟩
      · refine (tiles.spaced i b (by omega) before found).imp_left ?_
        rintro ⟨u, member, covers⟩
        exact ⟨u, List.mem_cons_of_mem t member, covers⟩

end Tiles

theorem splitToken_position {position : Nat} {b : UInt8} {rest after : Bytes} {token : Token}
    (split : splitToken position b rest = .ok (token, after)) : token.position = position := by
  cases splitToken_eq_ok_iff.mp split <;> rfl

/-- A token that cannot be cut off is an unknown octet or an unclosed literal in its place. -/
theorem splitToken_refused {source rest : Bytes} {place : Nat} {b : UInt8} {e : ScanError}
    (here : source.drop place = b :: rest) (solid : isSpace b = false)
    (refused : splitToken place b rest = .error e) : e.PointsAt source place := by
  have first : source[place]? = some b := by
    rw [← Nat.add_zero place, ← List.getElem?_drop, here]
    rfl
  have others : source.drop (place + 1) = rest := by
    rw [← List.drop_drop, here]
    rfl
  rw [splitToken] at refused
  simp only at refused
  split at refused
  · contradiction
  · rename_i letter
    split at refused
    · contradiction
    · rename_i number
      split at refused
      · rename_i quote
        split at refused
        · contradiction
        · rename_i unclosed
          obtain rfl := Except.error.inj refused
          rw [← here]
          exact .unclosed first quote (others ▸ unclosed)
      · rename_i quote
        split at refused
        · contradiction
        · rename_i unknown
          obtain rfl := Except.error.inj refused
          rw [not_or] at quote
          refine .unknown first ⟨solid, ?_, ?_⟩ ⟨quote.1, quote.2, unknown⟩
          · simpa using letter
          · simpa [here] using number

theorem Scanning.tiled {source text : Bytes} {position : Nat} {tokens : List Token}
    {failure : Option ScanError} (run : Scanning position text tokens failure)
    (within : position ≤ source.length) (here : source.drop position = text) :
    Tiled source position tokens failure := by
  induction run with
  | @ended position gap blank =>
    have whole : position + gap.length = source.length := by
      have length := congrArg List.length here
      rw [List.length_drop] at length
      omega
    rw [← List.append_nil gap] at here
    refine ⟨[], by rw [whole]; rfl, ?_⟩
    rw [← whole]
    exact .gap within here blank
  | @failed position gap rest b e blank solid refused =>
    exact ⟨_, .gap within here blank, splitToken_refused (drop_of_drop here) solid refused⟩
  | @cut position gap rest after b token tokens failure blank solid split next ih =>
    obtain ⟨taken, some⟩ := splitToken_join split
    have place := splitToken_position split
    have proper : token.kind ≠ .eof ∧ token.raw ≠ [] := ⟨(splitToken_cut split).kind_ne, some⟩
    rw [taken] at here
    have finish : token.finish = position + gap.length + token.raw.length := by
      rw [Token.finish, place]
    have reached := length_of_drop (length_of_drop within here) (drop_of_drop here)
    have tiles := ih reached (drop_of_drop (drop_of_drop here))
    rw [← finish] at tiles
    cases failure with
    | none =>
      obtain ⟨front, rfl, tiles⟩ := tiles
      exact ⟨token :: front, rfl, .cons here blank place proper tiles⟩
    | some e =>
      obtain ⟨limit, tiles, points⟩ := tiles
      exact ⟨limit, .cons here blank place proper tiles, points⟩

/-- Tokens tile the source. When scanning succeeds, the mark of the end stands once, last and at
the length of the source, and the tokens before it tile the source. When it fails, the tokens
cut off so far tile the source up to the octet that starts none or to the opening quote of the
literal that is not closed. -/
theorem scan_tiles (source : Bytes) :
    (∀ tokens, scan source = .ok tokens → ∃ front,
      tokens = front ++ [⟨.eof, [], [], source.length, .none⟩] ∧ Tiles source 0 source.length front) ∧
    ∀ e, scan source = .error e → ∃ place,
      Tiles source 0 place (scanned source).1 ∧ e.PointsAt source place := by
  refine ⟨fun tokens found => ?_, fun e found => ?_⟩
  · exact (scan_eq_ok_iff.mp found).tiled (Nat.zero_le _) rfl
  · have run := scanning_scanFrom 0 (Nat.lt_succ_self source.length)
    rw [scan] at found
    split at found
    · contradiction
    · rename_i tokens failure result
      obtain rfl := Except.error.inj found
      rw [← scanned, result] at run
      rw [result]
      exact run.tiled (Nat.zero_le _) rfl

/-- A backslash at the very end escapes nothing and closes nothing: the name before the literal
and the space after it tile the text up to its quote. -/
theorem scan_tiles_unclosed : scan "a 'b\\" = .error (.unclosedString "'b\\" 2) ∧ ∃ place,
    Tiles "a 'b\\" 0 place (scanned "a 'b\\").1 ∧
      (ScanError.unclosedString "'b\\" 2).PointsAt "a 'b\\" place :=
  ⟨rfl, (scan_tiles "a 'b\\").2 _ rfl⟩

end Conform.Declaration

import Conform.Proofs.Source.Clean

/-! Layout ends no comment. The groups of lines, and the definitions among them, are
made of parts of the lines. Each is written with words between the parts that hold
neither a star nor a slash, and wording a paragraph keeps the octets around every
cut, so the prose of a clean text is clean. -/
namespace Conform.Source

/-! ### Parts of lines -/

theorem trim_inside (text : Bytes) : Utf8.trim text <:+: text := by
  have inner : (((Utf8.pieces text).dropWhile Utf8.Piece.isBlank).reverse.dropWhile
      Utf8.Piece.isBlank).reverse <:+: Utf8.pieces text := by
    refine List.IsInfix.trans ?_ (List.dropWhile_suffix Utf8.Piece.isBlank).isInfix
    rw [← List.reverse_infix, List.reverse_reverse]
    exact (List.dropWhile_suffix _).isInfix
  obtain ⟨before, after, whole⟩ := inner
  refine ⟨before.flatMap Utf8.Piece.octets, after.flatMap Utf8.Piece.octets, ?_⟩
  rw [Utf8.trim, ← List.flatMap_append, ← List.flatMap_append, whole, Utf8.pieces_octets]

theorem trimRight_starts (text : Bytes) : Utf8.trimRight text <+: text := by
  have inner : ((Utf8.pieces text).reverse.dropWhile Utf8.Piece.isBlank).reverse <+:
      Utf8.pieces text := by
    rw [← List.reverse_suffix, List.reverse_reverse]
    exact List.dropWhile_suffix _
  obtain ⟨after, whole⟩ := inner
  refine ⟨after.flatMap Utf8.Piece.octets, ?_⟩
  rw [Utf8.trimRight, ← List.flatMap_append, whole, Utf8.pieces_octets]

theorem append_of_cut? {word text before after : Bytes} (found : cut? word text = some (before, after)) :
    text = before ++ (word ++ after) := by
  induction text generalizing before with
  | nil => contradiction
  | cons b rest ih =>
    rw [cut?] at found
    split at found
    · rename_i tail here
      obtain ⟨rfl, rfl⟩ := Prod.mk.inj (Option.some.inj found)
      exact (Bytes.append_of_after? here).symm
    · split at found
      · rename_i front tail later
        obtain ⟨rfl, rfl⟩ := Prod.mk.inj (Option.some.inj found)
        rw [ih later]
        rfl
      · contradiction

/-- All lines are clean. -/
def CleanLines (lines : List Bytes) : Prop := ∀ line ∈ lines, Clean line

theorem CleanLines.of_subset {part whole : List Bytes} (clean : CleanLines whole)
    (inside : part ⊆ whole) : CleanLines part := fun line member => clean line (inside member)

theorem linesOf_clean {text : Bytes} (clean : Clean text) : CleanLines (linesOf text) := by
  intro line member
  have inside := Bytes.infix_join [0x0A] member
  rw [linesOf, Bytes.join_splitAt] at inside
  exact clean.part inside

theorem dropTrailingBlank_starts (lines : List Bytes) : dropTrailingBlank lines <+: lines := by
  rw [← List.reverse_suffix, dropTrailingBlank, List.reverse_reverse]
  exact List.dropWhile_suffix _

theorem dropTrailingBlank_clean {lines : List Bytes} (clean : CleanLines lines) :
    CleanLines (dropTrailingBlank lines) := clean.of_subset (dropTrailingBlank_starts lines).subset

theorem unindented_clean {lines : List Bytes} (clean : CleanLines lines) :
    CleanLines (unindented lines) := by
  rw [unindented]
  split
  · exact clean
  · intro line member
    obtain ⟨whole, inside, rfl⟩ := List.mem_map.mp member
    generalize List.foldl _ _ _ = shared
    cases found : Bytes.after? shared whole with
    | none => exact clean whole inside
    | some rest =>
      have tail : rest <:+ whole := ⟨shared, Bytes.append_of_after? found⟩
      exact (clean whole inside).part tail.isInfix

/-- The number of an item and what follows its marker are parts of the line. -/
theorem listMarker?_inside {line number rest : Bytes}
    (found : listMarker? line = some (number, rest)) : number <:+: line ∧ rest <:+: line := by
  have inner := trim_inside line
  rw [listMarker?] at found
  generalize Utf8.trim line = text at found inner
  have parts : number <:+: text ∧ rest <:+: text := by
    dsimp only at found
    split at found
    · rename_i marker
      obtain ⟨-, same⟩ := Option.ite_none_right_eq_some.mp found
      obtain ⟨rfl, rfl⟩ := Prod.mk.inj (Option.some.inj same)
      split at marker
      · split at marker
        · obtain ⟨rfl, rfl⟩ := Prod.mk.inj (Option.some.inj marker)
          exact ⟨List.nil_infix, (List.drop_suffix _ _).isInfix⟩
        · split at marker
          · rename_i mark after digits dropped
            obtain ⟨-, same⟩ := Option.ite_none_right_eq_some.mp marker
            obtain ⟨rfl, rfl⟩ := Prod.mk.inj (Option.some.inj same)
            refine ⟨(List.takeWhile_prefix _).isInfix, ?_⟩
            have tail := List.dropWhile_suffix (l := text) isDigit
            rw [dropped] at tail
            exact ((List.suffix_cons mark after).trans tail).isInfix
          · contradiction
      · contradiction
    · contradiction
  exact ⟨parts.1.trans inner, parts.2.trans inner⟩

def Definition.Clean (d : Definition) : Prop := Source.Clean d.text ∧ Source.Clean d.address

theorem definition?_clean {line : Bytes} {d : Definition} (found : definition? line = some d)
    (clean : Clean line) : d.Clean := by
  rw [definition?.eq_def] at found
  split at found
  · contradiction
  · rename_i bracket rest
    split at found
    · contradiction
    · split at found
      · rename_i text blank after cut
        dsimp only at found
        split at found
        · obtain ⟨-, same⟩ := Option.ite_none_right_eq_some.mp found
          obtain rfl := Option.some.inj same
          have whole := append_of_cut? cut
          have inside : rest <:+: bracket :: rest := (List.suffix_cons bracket rest).isInfix
          have before : text <:+: rest := ⟨[], _, whole.symm⟩
          have behind : after <:+: rest := ⟨text ++ utf8 "]:" ++ [blank], [], by simp [whole]⟩
          exact ⟨clean.part (before.trans inside),
            clean.part (((trim_inside after).trans behind).trans inside)⟩
        · contradiction
      · contradiction

theorem definitions?_clean {lines : List Bytes} {found : List Definition}
    (all : definitions? lines = some found) (clean : CleanLines lines) : ∀ d ∈ found, d.Clean := by
  induction lines generalizing found with
  | nil => simp_all [definitions?]
  | cons line rest ih =>
    rw [CleanLines, List.forall_mem_cons] at clean
    simp only [definitions?, List.mapM_cons, Option.bind_eq_bind, Option.bind_eq_some_iff,
      Option.pure_def, Option.some.injEq] at all
    obtain ⟨d, one, later, others, rfl⟩ := all
    exact List.forall_mem_cons.mpr ⟨definition?_clean one clean.1, ih others clean.2⟩

/-! ### Groups of lines -/

/-- The texts that an item is made of. -/
def Item.texts (item : Item) : List Bytes := item.number :: item.paragraphs.flatten

/-- The texts that a block is made of. -/
def Block.texts : Block → List Bytes
  | .paragraph lines => lines
  | .heading text => [text]
  | .code lines => lines
  | .list _ _ items => items.flatMap Item.texts

theorem splitIndented_append (forced : Nat) (listOk : Bool) (lines : List Bytes) :
    (splitIndented forced listOk lines).1 ++ (splitIndented forced listOk lines).2 = lines := by
  fun_induction splitIndented forced listOk lines with
  | case1 => rfl
  | case2 forced listOk line rest _ taken left split ih => simp_all
  | case3 => rfl

theorem splitIndented_clean (forced : Nat) (listOk : Bool) {lines : List Bytes}
    (clean : CleanLines lines) : CleanLines (splitIndented forced listOk lines).1 ∧
      CleanLines (splitIndented forced listOk lines).2 := by
  rw [← splitIndented_append forced listOk lines] at clean
  exact List.forall_mem_append.mp clean

/-- The texts of the item that is being read. -/
def pendingTexts : Option (Bytes × List (List Bytes) × List Bytes) → List Bytes
  | none => []
  | some (number, done, current) => number :: (done.flatten ++ current)

/-- Ending a paragraph neither adds nor loses a text. -/
theorem mem_ended {done : List (List Bytes)} {current : List Bytes} {text : Bytes} :
    text ∈ (if current.isEmpty then done else current.reverse :: done).flatten ↔
      text ∈ done.flatten ++ current := by
  cases current with
  | nil => simp
  | cons first rest =>
    rw [if_neg (by simp), List.flatten_cons, List.mem_append, List.mem_reverse, List.mem_append, or_comm]

theorem ended_clean {number : Bytes} {done : List (List Bytes)} {current : List Bytes}
    (clean : CleanLines (pendingTexts (some (number, done, current)))) :
    CleanLines (Item.texts
      ⟨number, (if current.isEmpty then done else current.reverse :: done).reverse⟩) := by
  rw [pendingTexts, CleanLines, List.forall_mem_cons] at clean
  rw [Item.texts, CleanLines, List.forall_mem_cons]
  refine ⟨clean.1, fun text member => clean.2 text (mem_ended.mp ?_)⟩
  simpa using member

theorem itemsOf_clean (numbered : Bool) {lines : List Bytes} (clean : CleanLines lines)
    {state : Option (Bytes × List (List Bytes) × List Bytes)} (pending : CleanLines (pendingTexts state)) :
    ∀ item ∈ itemsOf numbered state lines, CleanLines item.texts := by
  induction lines generalizing state with
  | nil =>
    cases state with
    | none => simp [itemsOf]
    | some item =>
      obtain ⟨number, done, current⟩ := item
      rw [itemsOf]
      exact List.forall_mem_singleton.mpr (ended_clean pending)
  | cons line rest ih =>
    rw [CleanLines, List.forall_mem_cons] at clean
    have others : ∀ number after, listMarker? line = some (number, after) →
        ∀ item ∈ itemsOf numbered (some (number, [], [Utf8.trim after])) rest,
          CleanLines item.texts := by
      intro number after marked
      obtain ⟨first, second⟩ := listMarker?_inside marked
      apply ih clean.2
      rw [pendingTexts, CleanLines, List.forall_mem_cons]
      exact ⟨clean.1.part first, List.forall_mem_singleton.mpr
        (clean.1.part ((trim_inside after).trans second))⟩
    cases state with
    | none =>
      rw [itemsOf]
      split
      · rename_i number after marked
        split
        · exact ih clean.2 pending
        · exact others number after marked
      · exact ih clean.2 pending
    | some item =>
      obtain ⟨old, done, current⟩ := item
      have plain : ∀ item ∈ (if (Utf8.trim line).isEmpty = true then
            itemsOf numbered
              (some (old, if current.isEmpty then done else current.reverse :: done, [])) rest
          else itemsOf numbered (some (old, done, Utf8.trim line :: current)) rest),
          CleanLines item.texts := by
        rw [pendingTexts, CleanLines, List.forall_mem_cons] at pending
        split
        · apply ih clean.2
          rw [pendingTexts, CleanLines, List.forall_mem_cons, List.append_nil]
          exact ⟨pending.1, fun text member => pending.2 text (mem_ended.mp member)⟩
        · apply ih clean.2
          rw [pendingTexts, CleanLines, List.forall_mem_cons]
          refine ⟨pending.1, fun text member => ?_⟩
          rcases List.mem_append.mp member with done | current
          · exact pending.2 text (List.mem_append_left _ done)
          · rcases List.mem_cons.mp current with rfl | current
            · exact clean.1.part (trim_inside line)
            · exact pending.2 text (List.mem_append_right _ current)
      rw [itemsOf]
      split
      · rename_i number after marked
        split
        · exact plain
        · exact List.forall_mem_cons.mpr ⟨ended_clean pending, others number after marked⟩
      · exact plain

theorem listBlock_clean (spaced : Bool) {lines : List Bytes} (clean : CleanLines lines) :
    CleanLines (listBlock spaced lines).texts := by
  intro text member
  obtain ⟨item, found, inside⟩ := List.mem_flatMap.mp member
  have none : CleanLines (pendingTexts none) := by simp [CleanLines, pendingTexts]
  exact itemsOf_clean _ clean none item found text inside

/-- The groups are made of parts of the lines. -/
theorem blocks_clean (fuel forced : Nat) (spaced : Bool) {lines : List Bytes}
    (clean : CleanLines lines) :
    ∀ block ∈ blocks fuel forced spaced lines, CleanLines block.texts := by
  induction fuel generalizing forced spaced lines with
  | zero => simp [blocks]
  | succ fuel ih =>
    cases lines with
    | nil => simp [blocks]
    | cons line rest =>
      have tail : CleanLines rest := clean.of_subset (List.subset_cons_self line rest)
      rw [blocks]
      split
      · exact ih forced true tail
      · split
        · -- An indented group takes the lines up to the next unindented one, and a brace there.
          obtain ⟨takenClean, leftClean⟩ :=
            splitIndented_clean (forced - 1) (isListLine line && 0 < forced) tail
          generalize splitIndented (forced - 1) (isListLine line && 0 < forced) rest = parts
            at takenClean leftClean ⊢
          obtain ⟨taken, left⟩ := parts
          have groupClean : CleanLines (dropTrailingBlank (line :: taken)) :=
            dropTrailingBlank_clean (List.forall_mem_cons.mpr ⟨clean line List.mem_cons_self, takenClean⟩)
          have step : ∀ (gap : Bool) (group left : List Bytes), CleanLines group → CleanLines left →
              ∀ block ∈ (if isListLine line then listBlock spaced group else .code (unindented group)) ::
                blocks fuel 0 gap left, CleanLines block.texts := by
            intro gap group left first second
            refine List.forall_mem_cons.mpr ⟨?_, ih 0 gap second⟩
            split
            · exact listBlock_clean spaced first
            · exact unindented_clean first
          dsimp only
          generalize dropTrailingBlank (line :: taken) = group at groupClean ⊢
          generalize decide (group.length < taken.length + 1) = gap
          cases gap with
          | true => exact step true group left groupClean leftClean
          | false =>
            cases left with
            | nil => exact step false group [] groupClean leftClean
            | cons close after =>
              rw [CleanLines, List.forall_mem_cons] at leftClean
              by_cases brace : close.head? = some 0x7D
              · simp only [if_pos brace]
                refine step false _ after (List.forall_mem_append.mpr ⟨groupClean, ?_⟩) leftClean.2
                exact List.forall_mem_singleton.mpr leftClean.1
              · simp only [if_neg brace]
                exact step false group _ groupClean (List.forall_mem_cons.mpr leftClean)
        · -- An unindented group may leave its last lines to the group after it.
          dsimp only
          generalize (fun l : Bytes => !l.isEmpty && !isIndented l) = plain
          have wholeClean : CleanLines (line :: rest.takeWhile plain) :=
            clean.of_subset (List.cons_subset_cons line (List.takeWhile_prefix plain).subset)
          have afterClean : CleanLines (rest.dropWhile plain) :=
            tail.of_subset (List.dropWhile_suffix plain).subset
          generalize line :: rest.takeWhile plain = whole at wholeClean ⊢
          generalize rest.dropWhile plain = after at afterClean ⊢
          generalize linesLeft whole after = left
          have groupClean : CleanLines (whole.take (whole.length - left)) :=
            wholeClean.of_subset (List.take_subset _ _)
          generalize whole.take (whole.length - left) = group at groupClean ⊢
          have later := ih left (group.isEmpty && spaced) (List.forall_mem_append.mpr
            ⟨wholeClean.of_subset (List.drop_subset (whole.length - left) whole), afterClean⟩)
          split
          · exact later
          · rename_i only
            have onlyClean : Clean only := List.forall_mem_singleton.mp groupClean
            split_ifs
            · refine List.forall_mem_cons.mpr ⟨List.forall_mem_singleton.mpr ?_, later⟩
              exact onlyClean.part ((trim_inside _).trans (List.drop_suffix 1 only).isInfix)
            · refine List.forall_mem_cons.mpr ⟨List.forall_mem_singleton.mpr ?_, later⟩
              exact onlyClean.part (trim_inside only)
            · exact List.forall_mem_cons.mpr ⟨groupClean, later⟩
          · exact List.forall_mem_cons.mpr ⟨groupClean, later⟩

theorem Block.define_clean {block : Block} (clean : CleanLines block.texts) :
    (∀ d ∈ block.define.1, d.Clean) ∧ ∀ kept ∈ block.define.2, CleanLines kept.texts := by
  cases block with
  | paragraph lines =>
    rw [Block.define]
    split
    · rename_i found all
      exact ⟨definitions?_clean all clean, by simp⟩
    · exact ⟨by simp, by simpa using clean⟩
  | heading text => exact ⟨by simp [Block.define], by simpa [Block.define] using clean⟩
  | code lines => exact ⟨by simp [Block.define], by simpa [Block.define] using clean⟩
  | list spaced loose items =>
    have paragraph : ∀ item ∈ items, ∀ lines ∈ item.paragraphs, CleanLines lines := by
      intro item inside lines found line member
      refine clean line (List.mem_flatMap.mpr ⟨item, inside, List.mem_cons_of_mem _ ?_⟩)
      exact List.mem_flatten.mpr ⟨lines, found, member⟩
    constructor
    · intro d member
      obtain ⟨item, inside, member⟩ := List.mem_flatMap.mp member
      obtain ⟨lines, found, member⟩ := List.mem_flatMap.mp member
      cases all : definitions? lines with
      | none => simp [all] at member
      | some definitions =>
        rw [all] at member
        exact definitions?_clean all (paragraph item inside lines found) d member
    · intro kept same
      obtain rfl := Option.some.inj same
      intro text member
      obtain ⟨kept, keeps, member⟩ := List.mem_flatMap.mp member
      obtain ⟨item, inside, rfl⟩ := List.mem_map.mp keeps
      rcases List.mem_cons.mp member with rfl | member
      · exact clean item.number (List.mem_flatMap.mpr ⟨item, inside, List.mem_cons_self⟩)
      · obtain ⟨lines, found, member⟩ := List.mem_flatten.mp member
        exact paragraph item inside lines (List.mem_filter.mp found).1 text member

/-! ### Wording -/

/-- Wording a text after a front of it makes no end of a comment, neither in the text nor
across the two. -/
theorem wordedFrom_clean (plain : Bytes → Nat) (whole : Bytes) (fuel offset : Nat)
    {front text : Bytes} (clean : Clean (front ++ text)) :
    Clean (front ++ wordedFrom plain whole fuel offset text) := by
  -- The part that is already worded moves to the front, so that the induction sees the octets
  -- on both sides of every cut.
  fun_induction wordedFrom plain whole fuel offset text generalizing front with
  | case1 offset text => exact clean.part ⟨[], text, by simp⟩
  | case2 => exact clean
  | case3 fuel offset b rest | case4 fuel offset b rest =>
    rename_i ih
    rw [← List.append_assoc]
    apply ih
    rwa [List.append_assoc, List.take_append_drop]
  | case5 fuel offset b rest | case6 fuel offset b rest =>
    rename_i ih
    rw [← List.append_assoc]
    apply ih
    have before : front <:+: front ++ b :: rest := ⟨[], b :: rest, rfl⟩
    have after : rest.drop 1 <:+: front ++ b :: rest :=
      ((List.drop_suffix 1 rest).trans ⟨front ++ [b], by simp⟩).isInfix
    rw [List.append_assoc]
    exact clean_around _ (by decide) (clean.part before) (clean.part after)
  | case7 fuel offset b rest =>
    rename_i ih
    rw [List.append_cons]
    apply ih
    rwa [← List.append_cons]

theorem worded_clean {text : Bytes} (clean : Clean text) : Clean (worded text) := by
  have whole : Clean ([] ++ text) := clean
  exact wordedFrom_clean plainLength text text.length 0 whole

theorem wordedReference_clean {text : Bytes} (clean : Clean text) : Clean (wordedReference text) := by
  have whole : Clean ([] ++ text) := clean
  exact wordedFrom_clean (fun _ => 0) text text.length 0 whole

theorem append_of_bracketed? {text before inside name : Bytes}
    (found : bracketed? text = some (before, inside, name)) : text = before ++ (utf8 "[" ++ inside) := by
  rw [bracketed?] at found
  split at found
  · rename_i last part parts split
    obtain ⟨rfl, rest⟩ := Prod.mk.inj (Option.some.inj found)
    obtain ⟨rfl, -⟩ := Prod.mk.inj rest
    have order : Bytes.splitAt 0x5B text = (part :: parts).reverse ++ [last] := by
      rw [← List.reverse_cons, ← split, List.reverse_reverse]
    calc text = Bytes.join [0x5B] (Bytes.splitAt 0x5B text) := (Bytes.join_splitAt 0x5B text).symm
      _ = _ := by rw [order, Bytes.join_concat [0x5B] last (by simp)]; rfl
  · contradiction

theorem linkedParts_clean (known : List Bytes) {pending : Bytes} {parts : List Bytes}
    (clean : Clean (pending ++ Bytes.join "]" parts)) : Clean (linkedParts known pending parts).1 := by
  fun_induction linkedParts known pending parts with
  | case1 pending => exact worded_clean (by simpa [Bytes.join] using clean)
  | case2 pending last => exact worded_clean clean
  | case3 pending part next rest _ ih | case5 pending part next rest before inside name _ _ _ ih =>
    apply ih
    simpa [Bytes.join] using clean
  | case4 pending part next rest before inside name found edges _ text used later ih =>
    rw [later] at ih
    have whole : Bytes.join "]" (part :: next :: rest) =
        before ++ (utf8 "[" ++ inside) ++ (utf8 "]" ++ Bytes.join "]" (next :: rest)) := by
      rw [← append_of_bracketed? found]
      simp [Bytes.join]
    rw [whole] at clean
    have first : Clean (pending ++ before) := clean.part ⟨[], _, by simp; rfl⟩
    have second : Clean inside := clean.part
      ⟨pending ++ before ++ utf8 "[", utf8 "]" ++ Bytes.join "]" (next :: rest), by simp⟩
    have third : Clean text := ih (clean.part
      ⟨pending ++ before ++ utf8 "[" ++ inside ++ utf8 "]", [], by simp⟩)
    have reference := clean_around (utf8 "]") (by decide) (wordedReference_clean second) third
    simpa using clean_around (utf8 "[") (by decide) (worded_clean first) reference

theorem linked_clean (known : List Bytes) {text : Bytes} (clean : Clean text) :
    Clean (linked known text).1 := by
  apply linkedParts_clean
  rw [List.nil_append]
  exact (Bytes.join_splitAt 0x5D text).symm ▸ clean

/-! ### Layout -/

theorem paragraphText_closed (known : List Bytes) {indent : Bytes}
    (apart : isApart (0x0A :: indent) = true) {lines : List Bytes} (clean : CleanLines lines) :
    Closed (paragraphText known indent lines).1 := by
  have newline : isApart (utf8 "\n") = true := by decide
  have text := linked_clean known (clean_join newline clean)
  exact closed_before (clean_join apart (linesOf_clean text)) _ newline

theorem gathered_closed {separator : Bytes} (closed : Closed separator)
    {parts : List (Bytes × List Bytes)} (each : ∀ part ∈ parts, Closed part.1) :
    Closed (gathered separator parts).1 := by
  refine closed_join closed fun text member => ?_
  obtain ⟨part, inside, rfl⟩ := List.mem_map.mp member
  exact each part inside

theorem itemText_closed (known : List Bytes) {item : Item} (clean : CleanLines item.texts) :
    Closed (itemText known item).1 := by
  rw [Item.texts, CleanLines, List.forall_mem_cons] at clean
  have marker : Closed (if item.number.isEmpty then utf8 "  - " else " " ++ item.number ++ ". ") := by
    split
    · exact closed_of_apart _ (by decide)
    · exact closed_before (closed_of_apart _ (by decide) item.number clean.1) _ (by decide)
  refine marker.append (gathered_closed (closed_of_apart _ (by decide)) fun part member => ?_)
  obtain ⟨lines, inside, rfl⟩ := List.mem_map.mp member
  refine paragraphText_closed known (by decide) fun line found => ?_
  exact clean.2 line (List.mem_flatten.mpr ⟨lines, inside, found⟩)

theorem Block.text_closed (known : List Bytes) {block : Block} (clean : CleanLines block.texts) :
    Closed (block.text known).1 := by
  cases block with
  | paragraph lines => exact paragraphText_closed known (by decide) clean
  | heading text =>
    have whole : Clean (utf8 "# " ++ text) :=
      closed_of_apart _ (by decide) text (List.forall_mem_singleton.mp clean)
    exact closed_before whole _ (by decide)
  | code lines =>
    refine closed_flatMap fun line member => closed_before ?_ _ (by decide)
    split
    · exact clean_nil
    · exact closed_of_apart [0x09] (by decide) line (clean line member)
  | list spaced loose items =>
    refine gathered_closed ?_ fun part member => ?_
    · split
      · exact closed_of_apart _ (by decide)
      · exact closed_nil
    · obtain ⟨item, inside, rfl⟩ := List.mem_map.mp member
      refine itemText_closed known fun text found => ?_
      exact clean text (List.mem_flatMap.mpr ⟨item, inside, found⟩)

theorem Block.laterText_closed (known : List Bytes) {block : Block} (clean : CleanLines block.texts) :
    Closed (block.laterText known).1 := by
  have text := Block.text_closed known clean
  rw [Block.laterText]
  dsimp only
  split
  · exact (closed_of_apart [0x0A] (by decide)).append text
  · exact text

theorem layout_closed (known : List Bytes) {blocks : List Block}
    (clean : ∀ block ∈ blocks, CleanLines block.texts) : Closed (layout known blocks).1 := by
  cases blocks with
  | nil => exact closed_nil
  | cons first rest =>
    rw [List.forall_mem_cons] at clean
    refine gathered_closed closed_nil (List.forall_mem_cons.mpr ⟨first.text_closed known clean.1, ?_⟩)
    intro part member
    obtain ⟨block, inside, rfl⟩ := List.mem_map.mp member
    exact block.laterText_closed known (clean.2 block inside)

theorem Definition.line_closed {d : Definition} (clean : d.Clean) : Closed d.line := by
  have text := closed_before (closed_of_apart (utf8 "[") (by decide) d.text clean.1) (utf8 "]: ") (by decide)
  exact closed_before (text d.address clean.2) (utf8 "\n") (by decide)

theorem definitionText_closed {definitions : List (Definition × Bool)}
    (clean : ∀ d ∈ definitions, d.1.Clean) (used : Bool) : Closed (definitionText definitions used) := by
  rw [definitionText]
  split
  · exact closed_nil
  · refine (closed_of_apart [0x0A] (by decide)).append (closed_flatMap fun d member => ?_)
    exact Definition.line_closed (clean d (List.mem_filter.mp member).1)

theorem markUsed_fst (used seen : List Bytes) (definitions : List Definition) :
    (markUsed used seen definitions).map Prod.fst = definitions := by
  induction definitions generalizing seen with
  | nil => rfl
  | cons d rest ih => rw [markUsed, List.map_cons, ih]

/-- Laying out a clean text makes no end of a comment. -/
theorem prose_clean {text : Bytes} (clean : Clean text) : Clean (prose text) := by
  rw [prose]
  dsimp only
  have lines : CleanLines ((linesOf text).map fun line => if isBlankText line then [] else line) := by
    intro line member
    obtain ⟨whole, inside, rfl⟩ := List.mem_map.mp member
    split
    · exact clean_nil
    · exact linesOf_clean clean whole inside
  generalize (linesOf text).map _ = all at lines ⊢
  have kept : CleanLines (dropTrailingBlank (all.dropWhile (·.isEmpty))) :=
    dropTrailingBlank_clean (lines.of_subset (List.dropWhile_suffix _).subset)
  generalize dropTrailingBlank (all.dropWhile (·.isEmpty)) = all at kept ⊢
  have groups := blocks_clean (2 * all.length) 0 false (unindented_clean kept)
  generalize blocks (2 * all.length) 0 false (unindented all) = found at groups ⊢
  have definitions : ∀ d ∈ (found.map Block.define).flatMap (·.1), d.Clean := by
    intro d member
    obtain ⟨pair, defined, member⟩ := List.mem_flatMap.mp member
    obtain ⟨block, inside, rfl⟩ := List.mem_map.mp defined
    exact (Block.define_clean (groups block inside)).1 d member
  have others : ∀ block ∈ (found.map Block.define).filterMap (·.2), CleanLines block.texts := by
    intro kept member
    obtain ⟨pair, defined, member⟩ := List.mem_filterMap.mp member
    obtain ⟨block, inside, rfl⟩ := List.mem_map.mp defined
    exact (Block.define_clean (groups block inside)).2 kept member
  have marked : ∀ used, ∀ d ∈ markUsed used [] ((found.map Block.define).flatMap (·.1)), d.1.Clean := by
    intro used d member
    have inside := List.mem_map_of_mem (f := Prod.fst) member
    rw [markUsed_fst] at inside
    exact definitions d.1 inside
  exact (((layout_closed _ others).append (definitionText_closed (marked _) true)).append
    (definitionText_closed (marked _) false)).clean

end Conform.Source

import Conform.Proofs.Json.Steps
import Conform.Proofs.Json.Strings

/-! Documents read back. What is read from the text of a document is the document
with every string repaired, provided that it nests no deeper than the reader
allows and that its numbers are numerals. -/
namespace Conform.Json

/-- A property holds of every document once it is inherited from the parts. -/
@[elab_as_elim]
theorem induct {P : Json → Prop} (null : P .null) (bool : ∀ b, P (.bool b))
    (number : ∀ text, P (.number text)) (string : ∀ text, P (.string text))
    (array : ∀ items, (∀ item ∈ items, P item) → P (.array items))
    (object : ∀ members : List (Bytes × Json), (∀ m ∈ members, P m.2) → P (.object members))
    (j : Json) : P j := by
  refine @Json.rec P (fun items => ∀ item ∈ items, P item) (fun members => ∀ m ∈ members, P m.2)
    (fun m => P m.2) null bool number string array object ?_ ?_ ?_ ?_ ?_ j
  · intro item member
    contradiction
  · intro first rest hfirst hrest item member
    rcases List.mem_cons.mp member with rfl | member
    · exact hfirst
    · exact hrest item member
  · intro m member
    contradiction
  · intro first rest hfirst hrest m member
    rcases List.mem_cons.mp member with rfl | member
    · exact hfirst
    · exact hrest m member
  · intro _ _ h
    exact h

mutual

/-- The document with every string and every name repaired. -/
def repaired : Json → Json
  | .string text => .string (Utf8.repaired text)
  | .array items => .array (repairedItems items)
  | .object members => .object (repairedMembers members)
  | j => j

def repairedItems : List Json → List Json
  | [] => []
  | item :: rest => item.repaired :: repairedItems rest

def repairedMembers : List (Bytes × Json) → List (Bytes × Json)
  | [] => []
  | (name, value) :: rest => (Utf8.repaired name, value.repaired) :: repairedMembers rest

end

mutual

/-- How deep arrays and objects stand within one another. -/
def depth : Json → Nat
  | .array items => depthItems items + 1
  | .object members => depthMembers members + 1
  | _ => 0

def depthItems : List Json → Nat
  | [] => 0
  | item :: rest => max item.depth (depthItems rest)

def depthMembers : List (Bytes × Json) → Nat
  | [] => 0
  | (_, value) :: rest => max value.depth (depthMembers rest)

end

mutual

/-- Every string and name has the one property, every number the other. -/
def Every (text number : Bytes → Prop) : Json → Prop
  | .string s => text s
  | .number n => number n
  | .array items => EveryItem text number items
  | .object members => EveryMember text number members
  | _ => True

def EveryItem (text number : Bytes → Prop) : List Json → Prop
  | [] => True
  | item :: rest => item.Every text number ∧ EveryItem text number rest

def EveryMember (text number : Bytes → Prop) : List (Bytes × Json) → Prop
  | [] => True
  | (name, value) :: rest =>
    (text name ∧ value.Every text number) ∧ EveryMember text number rest

end

theorem writeItems_eq (items : List Json) : writeItems items = items.map write := by
  induction items with
  | nil => rfl
  | cons item rest ih => rw [writeItems, ih, List.map_cons]

/-- A member of an object as it is written. -/
def memberText (m : Bytes × Json) : Bytes := quotedText m.1 ++ utf8 ":" ++ m.2.write

theorem writeMembers_eq (members : List (Bytes × Json)) :
    writeMembers members = members.map memberText := by
  induction members with
  | nil => rfl
  | cons m rest ih => rw [writeMembers, ih, List.map_cons, memberText]

theorem repairedItems_eq (items : List Json) : repairedItems items = items.map repaired := by
  induction items with
  | nil => rfl
  | cons item rest ih => rw [repairedItems, ih, List.map_cons]

theorem repairedMembers_eq (members : List (Bytes × Json)) :
    repairedMembers members = members.map fun m => (Utf8.repaired m.1, m.2.repaired) := by
  induction members with
  | nil => rfl
  | cons m rest ih => rw [repairedMembers, ih, List.map_cons]

theorem depthItems_le (items : List Json) (bound : Nat) :
    depthItems items ≤ bound ↔ ∀ item ∈ items, item.depth ≤ bound := by
  induction items with
  | nil => simp [depthItems]
  | cons item rest ih => rw [depthItems, Nat.max_le, ih, List.forall_mem_cons]

theorem depthMembers_le (members : List (Bytes × Json)) (bound : Nat) :
    depthMembers members ≤ bound ↔ ∀ m ∈ members, m.2.depth ≤ bound := by
  induction members with
  | nil => simp [depthMembers]
  | cons m rest ih => rw [depthMembers, Nat.max_le, ih, List.forall_mem_cons]

section Every

variable (text number : Bytes → Prop)

theorem everyItem_iff (items : List Json) :
    EveryItem text number items ↔ ∀ item ∈ items, item.Every text number := by
  induction items with
  | nil => simp [EveryItem]
  | cons item rest ih => simp [EveryItem, ih]

theorem everyMember_iff (members : List (Bytes × Json)) : EveryMember text number members ↔
    ∀ m ∈ members, text m.1 ∧ m.2.Every text number := by
  induction members with
  | nil => simp [EveryMember]
  | cons m rest ih => rw [EveryMember, ih, List.forall_mem_cons]

theorem everyMember_append (before after : List (Bytes × Json)) :
    EveryMember text number (before ++ after) ↔
      EveryMember text number before ∧ EveryMember text number after := by
  rw [everyMember_iff, everyMember_iff, everyMember_iff, List.forall_mem_append]

variable {text number} {text' number' : Bytes → Prop}

theorem Every.mono (texts : ∀ s, text s → text' s) (numbers : ∀ n, number n → number' n)
    {j : Json} (every : j.Every text number) : j.Every text' number' := by
  induction j using Json.induct with
  | null => trivial
  | bool b => trivial
  | number n => exact numbers n every
  | string s => exact texts s every
  | array items ih =>
    have each := (everyItem_iff text number items).mp every
    exact (everyItem_iff text' number' items).mpr fun item member => ih item member (each item member)
  | object members ih =>
    have each := (everyMember_iff text number members).mp every
    refine (everyMember_iff text' number' members).mpr fun m member => ?_
    exact ⟨texts _ (each m member).1, ih m member (each m member).2⟩

end Every

theorem depthMembers_append (before after : List (Bytes × Json)) :
    depthMembers (before ++ after) = max (depthMembers before) (depthMembers after) := by
  induction before with
  | nil => simp [depthMembers]
  | cons m rest ih => rw [List.cons_append, depthMembers, depthMembers, ih, Nat.max_assoc]

/-- A document of well-formed texts needs no repair. -/
theorem repaired_of_valid {number : Bytes → Prop} {j : Json}
    (legible : j.Every (fun s => Utf8.valid s = true) number) : j.repaired = j := by
  induction j using Json.induct with
  | string text => rw [repaired, Utf8.repaired_of_valid legible]
  | array items ih =>
    have each := (everyItem_iff _ _ items).mp legible
    rw [repaired, repairedItems_eq, List.map_congr_left fun i member => ih i member (each i member),
      List.map_id']
  | object members ih =>
    have each := (everyMember_iff _ _ members).mp legible
    have same : ∀ m ∈ members, (Utf8.repaired m.1, m.2.repaired) = m := fun m member => by
      rw [Utf8.repaired_of_valid (each m member).1, ih m member (each m member).2]
    rw [repaired, repairedMembers_eq, List.map_congr_left same, List.map_id']
  | _ => rfl

/-- The octets that can follow a value. -/
def isStop (b : UInt8) : Bool := b == 0x2C || b == 0x5D || b == 0x7D || isSpace b

/-- A number that is read as it is written, wherever a value can end. -/
structure Numeral (text : Bytes) : Prop where
  first : ∃ b rest, text = b :: rest ∧ (isDigit b = true ∨ b = 0x2D)
  reads : ∀ rest, Starts isStop rest → numeral (text ++ rest) = some (text, rest)

/-- A document whose numbers can be read. -/
def Sound (j : Json) : Prop := j.Every (fun _ => True) Numeral

theorem skipSpace_cons {b : UInt8} (visible : isSpace b = false) (rest : Bytes) :
    skipSpace (b :: rest) = b :: rest := by
  simp [skipSpace, visible]

/-- An octet with which a value can start. -/
def isOpening (b : UInt8) : Bool := !isSpace b && b != 0x5D && b != 0x7D

theorem isOpening_numeral {b : UInt8} (first : isDigit b = true ∨ b = 0x2D) : isOpening b = true :=
  octet_cases (P := fun b => isDigit b = true ∨ b = 0x2D → isOpening b = true)
    (by decide) b first

theorem write_opening {j : Json} (sound : j.Sound) :
    ∃ b rest, j.write = b :: rest ∧ isOpening b = true := by
  cases j with
  | number text =>
    obtain ⟨b, rest, written, first⟩ := Numeral.first sound
    exact ⟨b, rest, written, isOpening_numeral first⟩
  | bool b => cases b <;> exact ⟨_, _, rfl, by decide⟩
  | _ => exact ⟨_, _, rfl, by decide⟩

theorem skipSpace_opening {b : UInt8} (opening : isOpening b = true) (rest : Bytes) :
    skipSpace (b :: rest) = b :: rest := by
  simp only [isOpening, Bool.and_eq_true, Bool.not_eq_true'] at opening
  exact skipSpace_cons opening.1.1 rest

theorem skipSpace_write {j : Json} (sound : j.Sound) (rest : Bytes) :
    skipSpace (j.write ++ rest) = j.write ++ rest := by
  obtain ⟨b, tail, written, opening⟩ := write_opening sound
  rw [written]
  exact skipSpace_opening opening _

section Reading

variable {text : List StringUnit → Bytes} {inner : Reader Json}

/-- The reader gets a value back from its text wherever it can end. -/
def ReadsBack (inner : Reader Json) (j : Json) : Prop :=
  ∀ rest, Starts isStop rest → inner (j.write ++ rest) = some (j.repaired, rest)

/-- What is written after the first part of a list: a comma before each other part, then the
closing octet. -/
def listTail (close : UInt8) (others : List Bytes) (rest : Bytes) : Bytes :=
  others.flatMap (utf8 "," ++ ·) ++ close :: rest

theorem listTail_stops {close : UInt8} (closes : isStop close = true) (others : List Bytes)
    (rest : Bytes) : Starts isStop (listTail close others rest) := by
  cases others with
  | nil => exact Starts.cons rest closes
  | cons next others => exact Starts.cons _ (by decide)

theorem listTail_cons (close : UInt8) (next : Bytes) (others : List Bytes) (rest : Bytes) :
    listTail close (next :: others) rest = 0x2C :: (next ++ listTail close others rest) := by
  rw [listTail, List.flatMap_cons, List.append_assoc, List.append_assoc]
  rfl

theorem join_listTail (first : Bytes) (others : List Bytes) (close : UInt8) (rest : Bytes) :
    Bytes.join (utf8 ",") (first :: others) ++ close :: rest =
      first ++ listTail close others rest := by
  rw [Bytes.join_cons, List.append_assoc, listTail]

theorem ReadsBack.first {j : Json} (reads : ReadsBack inner j) (sound : j.Sound) {close : UInt8}
    (closes : isStop close = true) (others : List Bytes) (rest : Bytes) :
    inner (skipSpace (j.write ++ listTail close others rest)) =
      some (j.repaired, listTail close others rest) := by
  rw [skipSpace_write sound]
  exact reads _ (listTail_stops closes others rest)

theorem skipSpace_listTail_cons (close : UInt8) (next : Bytes) (others : List Bytes)
    (rest : Bytes) : skipSpace (listTail close (next :: others) rest) =
      octet ',' :: (next ++ listTail close others rest) := by
  rw [listTail_cons]
  exact skipSpace_cons (by decide) _

theorem items_write {item : Json} {others : List Json} (sound : ∀ i ∈ item :: others, i.Sound)
    (reads : ∀ i ∈ item :: others, ReadsBack inner i) {fuel : Nat} (enough : others.length < fuel)
    (done : List Json) (rest : Bytes) :
    items inner fuel done (item.write ++ listTail 0x5D (others.map write) rest) =
      some (.array (done.reverse ++ (item :: others).map repaired), rest) := by
  induction others generalizing item fuel done with
  | nil =>
    obtain ⟨fuel, rfl⟩ := Nat.exists_eq_add_of_lt enough
    have first := (reads item (by simp)).first (sound item (by simp))
      (show isStop 0x5D = true by decide) [] rest
    rw [List.map_nil, items_eq_some_iff.mpr (.last first (skipSpace_cons (by decide) rest))]
    simp
  | cons next others ih =>
    obtain ⟨fuel, rfl⟩ := Nat.exists_eq_add_of_lt enough
    have first := (reads item (by simp)).first (sound item (by simp))
      (show isStop 0x5D = true by decide) ((next :: others).map write) rest
    have remaining := ih (fun i member => sound i (List.mem_cons_of_mem item member))
      (fun i member => reads i (List.mem_cons_of_mem item member))
      (show others.length < others.length + 1 + fuel by omega)
      (item.repaired :: done)
    rw [List.map_cons] at first
    rw [List.map_cons, List.length_cons,
      items_eq_some_iff.mpr (.more first (skipSpace_listTail_cons ..) remaining)]
    simp

theorem quotedText_append (name rest : Bytes) : quotedText name ++ rest =
    0x22 :: ((Utf8.pieces name).flatMap escaped ++ 0x22 :: rest) := by
  simp [quotedText]

theorem memberText_append (m : Bytes × Json) (rest : Bytes) : memberText m ++ rest =
    0x22 :: ((Utf8.pieces m.1).flatMap escaped ++ 0x22 :: 0x3A :: (m.2.write ++ rest)) := by
  rw [memberText, List.append_assoc, List.append_assoc, quotedText_append]
  rfl

theorem value_null (length depth : Nat) : ReadsBack (value text length depth) .null := by
  intro rest _
  change value text length depth (0x6E :: (utf8 "ull" ++ rest)) = _
  rw [value_wordOrNumber length depth (by decide) (by decide) (by decide), wordOrNumber,
    if_pos (by decide), Bytes.after?_append]
  rfl

theorem value_bool (length depth : Nat) (b : Bool) :
    ReadsBack (value text length depth) (.bool b) := by
  intro rest _
  cases b with
  | true =>
    change value text length depth (0x74 :: (utf8 "rue" ++ rest)) = _
    rw [value_wordOrNumber length depth (by decide) (by decide) (by decide), wordOrNumber,
      if_neg (by decide), if_pos (by decide), Bytes.after?_append]
    rfl
  | false =>
    change value text length depth (0x66 :: (utf8 "alse" ++ rest)) = _
    rw [value_wordOrNumber length depth (by decide) (by decide) (by decide), wordOrNumber,
      if_neg (by decide), if_neg (by decide), if_pos (by decide), Bytes.after?_append]
    rfl

theorem value_number (length depth : Nat) {n : Bytes} (numeral : Numeral n) :
    ReadsBack (value text length depth) (.number n) := by
  intro rest stops
  obtain ⟨b, tail, rfl, first⟩ := numeral.first
  have read := numeral.reads rest stops
  have other : ∀ c, isDigit c = false → c ≠ 0x2D → b ≠ c := by
    rintro c noDigit noMinus rfl
    rcases first with digit | minus
    · rw [noDigit] at digit
      contradiction
    · exact noMinus minus
  rw [write, List.cons_append] at *
  rw [value_wordOrNumber length depth (other _ (by decide) (by decide))
      (other _ (by decide) (by decide)) (other _ (by decide) (by decide)), wordOrNumber,
    if_neg (other (octet 'n') (by decide) (by decide)),
    if_neg (other (octet 't') (by decide) (by decide)),
    if_neg (other (octet 'f') (by decide) (by decide)), read]
  rfl

theorem value_array {length depth : Nat} {list : List Json} (sound : (Json.array list).Sound)
    (enough : (Json.array list).write.length ≤ length)
    (reads : ∀ item ∈ list, ReadsBack (value text length depth) item) :
    ReadsBack (value text length (depth + 1)) (.array list) := by
  intro rest _
  have written : (Json.array list).write ++ rest =
      0x5B :: (Bytes.join (utf8 ",") (list.map write) ++ 0x5D :: rest) := by
    simp only [write, writeItems_eq, List.append_assoc]
    rfl
  rw [written, repaired, repairedItems_eq]
  have each := (everyItem_iff _ _ list).mp sound
  cases list with
  | nil => exact value_eq_some_iff.mpr (.emptyArray rfl (skipSpace_cons (by decide) rest))
  | cons item others =>
    obtain ⟨b, tail, first, opening⟩ := write_opening (each item (by simp))
    have close : b ≠ octet ']' := by
      simp only [isOpening, Bool.and_eq_true, bne_iff_ne] at opening
      exact opening.1.2
    have fuel : others.length < length := by
      have count := Bytes.count_le_join (utf8 ",") (by decide)
        ((item :: others).map write)
      have total := congrArg List.length written
      simp only [List.length_append, List.length_cons, List.length_map] at count total
      omega
    have read := items_write each reads fuel [] rest
    rw [List.map_cons, join_listTail]
    rw [first, List.cons_append] at read ⊢
    exact value_eq_some_iff.mpr (.array rfl (skipSpace_opening opening _) close read)

theorem named_memberText (m : Bytes × Json) (rest : Bytes) :
    Named (memberText m ++ rest) (stringUnits m.1) (m.2.write ++ rest) := by
  rw [memberText_append]
  exact .intro (skipSpace_cons (by decide) _) (stringRest_quoted ..) (skipSpace_cons (by decide) _)

variable (same : ∀ s, text (stringUnits s) = Utf8.repaired s)

include same

theorem members_write {m : Bytes × Json} {others : List (Bytes × Json)}
    (sound : ∀ n ∈ m :: others, n.2.Sound) (reads : ∀ n ∈ m :: others, ReadsBack inner n.2)
    {fuel : Nat} (enough : others.length < fuel) (done : List (Bytes × Json)) (rest : Bytes) :
    members text inner fuel done (memberText m ++ listTail 0x7D (others.map memberText) rest) =
      some (.object (done.reverse ++
        (m :: others).map fun n => (Utf8.repaired n.1, n.2.repaired)), rest) := by
  induction others generalizing m fuel done with
  | nil =>
    obtain ⟨fuel, rfl⟩ := Nat.exists_eq_add_of_lt enough
    have first := (reads m (by simp)).first (sound m (by simp))
      (show isStop 0x7D = true by decide) [] rest
    rw [List.map_nil, members_eq_some_iff.mpr
      (.last (named_memberText ..) first (skipSpace_cons (by decide) rest))]
    simp [same]
  | cons next others ih =>
    obtain ⟨fuel, rfl⟩ := Nat.exists_eq_add_of_lt enough
    have first := (reads m (by simp)).first (sound m (by simp))
      (show isStop 0x7D = true by decide) ((next :: others).map memberText) rest
    have remaining := ih (fun n member => sound n (List.mem_cons_of_mem m member))
      (fun n member => reads n (List.mem_cons_of_mem m member))
      (show others.length < others.length + 1 + fuel by omega)
      ((text (stringUnits m.1), m.2.repaired) :: done)
    rw [List.map_cons] at first
    rw [List.map_cons, List.length_cons, members_eq_some_iff.mpr
      (.more (named_memberText ..) first (skipSpace_listTail_cons ..) remaining)]
    simp [same]

theorem value_string (length depth : Nat) (s : Bytes) :
    ReadsBack (value text length depth) (.string s) := by
  intro rest _
  rw [write, quotedText_append, value_eq_some_iff.mpr (.string (stringRest_quoted ..)), same,
    repaired]

theorem value_object {length depth : Nat} {list : List (Bytes × Json)}
    (sound : (Json.object list).Sound) (enough : (Json.object list).write.length ≤ length)
    (reads : ∀ m ∈ list, ReadsBack (value text length depth) m.2) :
    ReadsBack (value text length (depth + 1)) (.object list) := by
  intro rest _
  have written : (Json.object list).write ++ rest =
      0x7B :: (Bytes.join (utf8 ",") (list.map memberText) ++ 0x7D :: rest) := by
    simp only [write, writeMembers_eq, List.append_assoc]
    rfl
  rw [written, repaired, repairedMembers_eq]
  have each := (everyMember_iff _ _ list).mp sound
  cases list with
  | nil => exact value_eq_some_iff.mpr (.emptyObject rfl (skipSpace_cons (by decide) rest))
  | cons m others =>
    have fuel : others.length < length := by
      have count := Bytes.count_le_join (utf8 ",") (by decide)
        ((m :: others).map memberText)
      have total := congrArg List.length written
      simp only [List.length_append, List.length_cons, List.length_map] at count total
      omega
    have read := members_write same (fun n member => (each n member).2) reads fuel [] rest
    rw [List.map_cons, join_listTail]
    rw [memberText_append] at read ⊢
    exact value_eq_some_iff.mpr (.object rfl (skipSpace_cons (by decide) _) (by decide) read)

/-- A value nested within the limit is read back from its text. -/
theorem value_write {j : Json} (sound : j.Sound) {length depth : Nat}
    (enough : j.write.length ≤ length) (shallow : j.depth ≤ depth) :
    ReadsBack (value text length depth) j := by
  induction j using Json.induct generalizing depth with
  | null => exact value_null length depth
  | bool b => exact value_bool length depth b
  | number n => exact value_number length depth sound
  | string s => exact value_string same length depth s
  | array list ih =>
    obtain ⟨depth, rfl⟩ := Nat.exists_eq_add_of_le' (Nat.le_trans (Nat.le_add_left 1 _) shallow)
    have below := (depthItems_le list depth).mp (Nat.le_of_succ_le_succ shallow)
    refine value_array sound enough fun item member => ?_
    refine ih item member ((everyItem_iff _ _ list).mp sound item member) ?_ (below item member)
    have part := Bytes.length_le_join (utf8 ",") (List.mem_map_of_mem (f := write) member)
    simp only [write, writeItems_eq, List.length_append] at enough
    omega
  | object list ih =>
    obtain ⟨depth, rfl⟩ := Nat.exists_eq_add_of_le' (Nat.le_trans (Nat.le_add_left 1 _) shallow)
    have below := (depthMembers_le list depth).mp (Nat.le_of_succ_le_succ shallow)
    refine value_object same sound enough fun m member => ?_
    refine ih m member ((everyMember_iff _ _ list).mp sound m member).2 ?_ (below m member)
    have part := Bytes.length_le_join (utf8 ",") (List.mem_map_of_mem (f := memberText) member)
    simp only [write, writeMembers_eq, List.length_append] at enough
    simp only [memberText, List.length_append] at part
    omega

theorem read?_write {j : Json} (sound : j.Sound) {depth : Nat} (shallow : j.depth ≤ depth) :
    read? text depth j.write = some j.repaired := by
  have skipped := skipSpace_write sound []
  have read := value_write same sound (Nat.le_refl _) shallow [] (Starts.nil _)
  rw [List.append_nil] at skipped read
  rw [read?, skipped, read]
  rfl

end Reading

/-- Stored text holds the document it was written from, with every string repaired. -/
theorem readStored?_write {j : Json} (sound : j.Sound) (shallow : j.depth ≤ 10000) :
    readStored? j.write = some j.repaired :=
  read?_write (fun s => by rw [pairedText_stringUnits, Utf8.repaired_repaired]) sound shallow

end Conform.Json

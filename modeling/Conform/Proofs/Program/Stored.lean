import Conform.Program.Text
import Conform.Proofs.Json.Documents

/-! Stored programs read back. The members of a written node are read into an
empty draft one after another: each puts its text into the place it was taken
from, and what writing left out is empty in the draft already. -/
namespace Conform

namespace Node

/-- A property holds of every node once it is inherited from the operands. -/
@[elab_as_elim]
theorem induct {P : Node → Prop}
    (node : ∀ n : Node, (∀ child, some child ∈ n.children → P child) → P n) (n : Node) : P n := by
  refine @Node.rec P (fun children => ∀ child, some child ∈ children → P child)
    (fun child => ∀ c, child = some c → P c) ?_ ?_ ?_ ?_ ?_ n
  · intro op type literal quote keys key optional children ih
    exact node _ ih
  · intro child member
    contradiction
  · intro first rest hfirst hrest child member
    rcases List.mem_cons.mp member with same | member
    · exact hfirst child same.symm
    · exact hrest child member
  · intro c same
    contradiction
  · intro c ih d same
    obtain rfl := Option.some.inj same
    exact ih

/-- The places of a node that hold a text. -/
inductive Slot where
  | op | type | literal | quote | keys | key
  deriving DecidableEq

namespace Slot

def name : Slot → String
  | .op => "op"
  | .type => "type"
  | .literal => "literal"
  | .quote => "quote"
  | .keys => "keys"
  | .key => "key"

def get : Slot → Node → Bytes
  | .op, n => n.op
  | .type, n => n.type
  | .literal, n => n.literal
  | .quote, n => n.quote
  | .keys, n => n.keys
  | .key, n => n.key

def put (text : Bytes) : Slot → Node → Node
  | .op, n => { n with op := text }
  | .type, n => { n with type := text }
  | .literal, n => { n with literal := text }
  | .quote, n => { n with quote := text }
  | .keys, n => { n with keys := text }
  | .key, n => { n with key := text }

theorem put_get (slot : Slot) (n : Node) : slot.put (slot.get n) n = n := by
  cases n
  cases slot <;> rfl

end Slot

mutual

/-- The draft that a written node is read into. -/
def draft : Node → Draft
  | ⟨op, type, literal, quote, keys, key, optional, children⟩ =>
    ⟨⟨op, type, literal, quote, keys, key, optional, []⟩, drafts children, []⟩

def drafts : List (Option Node) → List (Option Draft)
  | [] => []
  | none :: rest => none :: drafts rest
  | some child :: rest => some child.draft :: drafts rest

end

end Node

namespace Draft

open Node (Slot)

mutual

theorem finish_draft : ∀ n : Node, n.draft.finish = n
  | ⟨op, type, literal, quote, keys, key, optional, children⟩ => by
    simp only [Node.draft, finish, finishAll_drafts children]

theorem finishAll_drafts : ∀ children, finishAll (Node.drafts children) = children
  | [] => rfl
  | none :: rest => by rw [Node.drafts, finishAll, finishAll_drafts rest]
  | some child :: rest => by
    rw [Node.drafts, finishAll, finish_draft child, finishAll_drafts rest]

end

theorem updatedMembers_text (slot : Slot) (n : Node) (text : Bytes) (rest : List (Bytes × Json)) :
    updatedMembers ⟨n, [], []⟩ ((utf8 slot.name, .string text) :: rest) =
      updatedMembers ⟨slot.put text n, [], []⟩ rest := by
  have lower : (utf8 slot.name).all isLower = true := by cases slot <;> decide
  rw [updatedMembers.eq_def]
  simp only [Utf8.foldsTo_lower lower]
  cases slot with
  | op => rw [if_pos (by decide)]; rfl
  | type => rw [if_neg (by decide), if_pos (by decide)]; rfl
  | literal => rw [if_neg (by decide), if_neg (by decide), if_pos (by decide)]; rfl
  | quote =>
    rw [if_neg (by decide), if_neg (by decide), if_neg (by decide), if_pos (by decide)]
    rfl
  | keys =>
    rw [if_neg (by decide), if_neg (by decide), if_neg (by decide), if_neg (by decide),
      if_pos (by decide)]
    rfl
  | key =>
    rw [if_neg (by decide), if_neg (by decide), if_neg (by decide), if_neg (by decide),
      if_neg (by decide), if_pos (by decide)]
    rfl

/-- A text that is left out when empty is read into a place that was empty. -/
theorem updatedMembers_textMember (slot : Slot) {n : Node} (unset : slot.get n = [])
    (text : Bytes) (rest : List (Bytes × Json)) :
    updatedMembers ⟨n, [], []⟩ (textMember slot.name text ++ rest) =
      updatedMembers ⟨slot.put text n, [], []⟩ rest := by
  rw [textMember]
  split
  · rename_i empty
    rw [List.isEmpty_iff.mp empty, ← unset, slot.put_get]
    rfl
  · exact updatedMembers_text slot n text rest

theorem updatedMembers_optional (op type literal quote keys key : Bytes) (optional : Bool)
    (rest : List (Bytes × Json)) :
    updatedMembers ⟨⟨op, type, literal, quote, keys, key, false, []⟩, [], []⟩
        ((if optional then [(utf8 "optional", .bool true)] else []) ++ rest) =
      updatedMembers ⟨⟨op, type, literal, quote, keys, key, optional, []⟩, [], []⟩ rest := by
  cases optional with
  | false => rfl
  | true =>
    have lower : (utf8 "optional").all isLower = true := by decide
    rw [if_pos rfl, List.singleton_append, updatedMembers.eq_def]
    simp only [Utf8.foldsTo_lower lower]
    rw [if_neg (by decide), if_neg (by decide), if_neg (by decide), if_neg (by decide),
      if_neg (by decide), if_neg (by decide), if_pos (by decide)]
    rfl

theorem updatedMembers_children (n : Node) (children : List (Option Node))
    (places : updatedPlaces [] (Node.childrenJson children) = some (Node.drafts children, [])) :
    updatedMembers ⟨n, [], []⟩ (if children.isEmpty then []
      else [(utf8 "children", .array (Node.childrenJson children))]) =
      some ⟨n, Node.drafts children, []⟩ := by
  cases children with
  | nil => rfl
  | cons first rest =>
    have lower : (utf8 "children").all isLower = true := by decide
    obtain ⟨item, items, cons⟩ : ∃ item items,
        Node.childrenJson (first :: rest) = item :: items := by
      cases first <;> exact ⟨_, _, rfl⟩
    rw [List.isEmpty_cons, if_neg (by decide), updatedMembers.eq_def]
    simp only [Utf8.foldsTo_lower lower]
    rw [if_neg (by decide), if_neg (by decide), if_neg (by decide), if_neg (by decide),
      if_neg (by decide), if_neg (by decide), if_neg (by decide), if_pos (by decide), cons]
    rw [cons] at places
    simp only [List.append_nil, places]
    rfl

/-- The members of a written node fill an empty draft. -/
theorem updatedMembers_toJson (op type literal quote keys key : Bytes) (optional : Bool)
    (children : List (Option Node))
    (places : updatedPlaces [] (Node.childrenJson children) = some (Node.drafts children, [])) :
    updated none (Node.toJson ⟨op, type, literal, quote, keys, key, optional, children⟩) =
      some (some (Node.draft ⟨op, type, literal, quote, keys, key, optional, children⟩)) := by
  rw [Node.toJson, updated]
  simp only [Option.getD_none, List.append_assoc, List.cons_append, List.nil_append]
  rw [show empty = ⟨.empty, [], []⟩ from rfl, show utf8 "op" = utf8 Slot.op.name from rfl,
    updatedMembers_text, show utf8 "type" = utf8 Slot.type.name from rfl, updatedMembers_text,
    show "literal" = Slot.literal.name from rfl, updatedMembers_textMember .literal rfl,
    show "quote" = Slot.quote.name from rfl, updatedMembers_textMember .quote rfl,
    show "keys" = Slot.keys.name from rfl, updatedMembers_textMember .keys rfl,
    show "key" = Slot.key.name from rfl, updatedMembers_textMember .key rfl]
  rw [show Slot.key.put key _ = ⟨op, type, literal, quote, keys, key, false, []⟩ from rfl,
    updatedMembers_optional, updatedMembers_children _ _ places]
  rfl

mutual

/-- A written node is read back into its draft. -/
theorem updated_toJson : ∀ n : Node, updated none n.toJson = some (some n.draft)
  | ⟨op, type, literal, quote, keys, key, optional, children⟩ =>
    updatedMembers_toJson op type literal quote keys key optional children
      (updatedPlaces_childrenJson children)

theorem updatedPlaces_childrenJson : ∀ children,
    updatedPlaces [] (Node.childrenJson children) = some (Node.drafts children, [])
  | [] => rfl
  | none :: rest => by
    simp only [Node.childrenJson, updatedPlaces, List.tail_nil, updatedPlaces_childrenJson rest,
      updated, Node.drafts]
  | some child :: rest => by
    simp only [Node.childrenJson, updatedPlaces, List.tail_nil, updatedPlaces_childrenJson rest,
      List.head?_nil, Option.getD_none, updated_toJson child, Node.drafts]

end

end Draft

namespace Node

theorem childrenJson_every {text number : Bytes → Prop} {children : List (Option Node)}
    (each : ∀ child, some child ∈ children → child.toJson.Every text number) :
    Json.EveryItem text number (childrenJson children) := by
  induction children with
  | nil => trivial
  | cons first rest ih =>
    have others := ih fun child member => each child (by simp [member])
    cases first with
    | none => exact ⟨trivial, others⟩
    | some child => exact ⟨each child (by simp), others⟩

/-- The texts of a written node are its own, those of its operands, and the names of members. -/
theorem toJson_every {text number : Bytes → Prop}
    (names : ∀ name : Bytes, name.all isLower = true → text name) {n : Node}
    (texts : ∀ slot : Slot, text (slot.get n))
    (children : ∀ child, some child ∈ n.children → child.toJson.Every text number) :
    n.toJson.Every text number := by
  have slot : ∀ slot : Slot,
      Json.EveryMember text number (textMember slot.name (slot.get n)) := by
    intro slot
    rw [textMember]
    split
    · trivial
    · exact ⟨⟨names _ (by cases slot <;> decide), texts slot⟩, trivial⟩
  have flag : Json.EveryMember text number
      (if n.optional then [(utf8 "optional", .bool true)] else []) := by
    split
    · exact ⟨⟨names _ (by decide), trivial⟩, trivial⟩
    · trivial
  have operands : Json.EveryMember text number (if n.children.isEmpty then []
      else [(utf8 "children", .array (childrenJson n.children))]) := by
    split
    · trivial
    · exact ⟨⟨names _ (by decide), childrenJson_every children⟩, trivial⟩
  cases n
  rw [toJson, Json.Every]
  simp only [Json.everyMember_append]
  exact ⟨⟨⟨⟨⟨⟨⟨⟨names _ (by decide), texts .op⟩, ⟨names _ (by decide), texts .type⟩, trivial⟩,
    slot .literal⟩, slot .quote⟩, slot .keys⟩, slot .key⟩, flag⟩, operands⟩

/-- A node holds no numbers. -/
theorem toJson_sound (n : Node) : n.toJson.Sound := by
  induction n using Node.induct with
  | node n ih => exact toJson_every (fun _ _ => trivial) (fun _ => trivial) ih

theorem depthMembers_textMember (name : String) (text : Bytes) :
    Json.depthMembers (textMember name text) = 0 := by
  rw [textMember]
  split <;> rfl

theorem toJson_depth (n : Node) : n.toJson.depth =
    if n.children.isEmpty then 1 else Json.depthItems (childrenJson n.children) + 2 := by
  obtain ⟨op, type, literal, quote, keys, key, optional, children⟩ := n
  have flag : Json.depthMembers (if optional then [(utf8 "optional", .bool true)] else []) = 0 := by
    split <;> rfl
  rw [toJson, Json.depth]
  simp only [Json.depthMembers_append, depthMembers_textMember, flag]
  split <;> simp [Json.depthMembers, Json.depth]

end Node

namespace Program

variable {signature : Bytes} {root : Node}

theorem toJson_sound (signature : Bytes) (root : Node) :
    (Program.toJson ⟨signature, some root⟩).Sound :=
  ⟨⟨trivial, trivial⟩, ⟨trivial, root.toJson_sound⟩, trivial⟩

theorem toJson_depth (signature : Bytes) (root : Node) :
    (Program.toJson ⟨signature, some root⟩).depth = root.toJson.depth + 1 := by
  simp [toJson, Json.depth, Json.depthMembers]

theorem updatedMembers_signature (text old : Bytes) (root : Option Draft)
    (rest : List (Bytes × Json)) :
    updatedMembers old root ((utf8 "signature", .string text) :: rest) =
      updatedMembers text root rest := by
  rw [updatedMembers, Utf8.foldsTo_lower (by decide), if_pos (by decide)]
  rfl

theorem updatedMembers_root (document : Json) (signature : Bytes) :
    updatedMembers signature none [(utf8 "root", document)] =
      match Draft.updated none document with
      | some root => some ⟨signature, root.map Draft.finish⟩
      | none => none := by
  rw [updatedMembers, Utf8.foldsTo_lower (by decide), Utf8.foldsTo_lower (by decide),
    if_neg (by decide), if_pos (by decide)]
  rfl

theorem readStored?_source (shallow : root.toJson.depth < 10000) :
    Json.readStored? (source ⟨signature, some root⟩) =
      some (.object [(utf8 "signature", .string (Utf8.repaired signature)),
        (utf8 "root", root.toJson.repaired)]) := by
  rw [source, Json.readStored?_write (toJson_sound signature root)
    (by rw [toJson_depth]; exact shallow), toJson]
  simp only [Json.repaired, Json.repairedMembers,
    Utf8.repaired_lower (show (utf8 "signature").all isLower = true by decide),
    Utf8.repaired_lower (show (utf8 "root").all isLower = true by decide)]

/-- The program that is read from a stored one has its signature, repaired. -/
theorem read?_signature (shallow : root.toJson.depth < 10000) {p : Program}
    (read : read? (source ⟨signature, some root⟩) = some p) :
    p.signature = Utf8.repaired signature := by
  rw [read?, readStored?_source shallow] at read
  simp only [updatedMembers_signature, updatedMembers_root] at read
  split at read
  · obtain rfl := Option.some.inj read
    rfl
  · contradiction

/-- A program of well-formed texts is read back from its stored form. -/
theorem read?_source (shallow : root.toJson.depth < 10000)
    (validSignature : Utf8.valid signature = true)
    (validTexts : root.toJson.Every (fun s => Utf8.valid s = true) Json.Numeral) :
    read? (source ⟨signature, some root⟩) = some ⟨signature, some root⟩ := by
  rw [read?, readStored?_source shallow, Utf8.repaired_of_valid validSignature,
    Json.repaired_of_valid validTexts]
  simp only [updatedMembers_signature, updatedMembers_root, Draft.updated_toJson, Option.map_some,
    Draft.finish_draft]

end Program

end Conform

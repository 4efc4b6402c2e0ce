import ScalarStore.Reading
import ScalarStore.Yaml.Node
import ScalarStore.Yaml.Token.Lexer

/-! # Reading nodes

The tree that tokens stand for. An anchor names the node that it stands at, and a reference is
that node once more. -/

namespace ScalarStore.Yaml

/-! ## Scope -/

/-- What holds for a whole document: the handles of tags, and what it means that no token is
left. -/
structure Scope where
  handles : List (String × String)
  stop : Refusal

/-- An anchor: where its node starts, and the node unless it is still being read. -/
structure Anchor where
  name : String
  place : Nat
  node : Option Node

abbrev Anchors := List Anchor

namespace Anchors

def find? (anchors : Anchors) (name : String) : Option Anchor :=
  List.find? (·.name = name) anchors

/-- Gives the node at a place the name asked for, which must be new. -/
def announce (anchors : Anchors) (name : Option String) (place : Nat) :
    Except Refusal Anchors :=
  match name with
  | none => .ok anchors
  | some name =>
      match anchors.find? name with
      | some first =>
          .error (.marked (some (.repeatedAnchor name, first.place)) .secondAnchor place)
      | none => .ok (⟨name, place, none⟩ :: anchors)

/-- Makes the node of a name known. -/
def settle (anchors : Anchors) (name : Option String) (node : Node) : Anchors :=
  match name with
  | none => anchors
  | some name => ⟨name, node.place, some node⟩ :: anchors

/-- The node that a reference at a place stands for. -/
def resolve (anchors : Anchors) (name : String) (place : Nat) : Except Refusal Node :=
  match anchors.find? name with
  | none => .error (.marked none (.unknownReference name) place)
  | some ⟨_, _, some node⟩ => .ok node
  | some ⟨_, _, none⟩ => .ok (.scalar place .endless [])

end Anchors

/-! ## Properties -/

/-- What may stand before a node: an anchor, and a tag in full. -/
structure Properties where
  anchor : Option String
  tag : Option String

/-- A tag in full, of which a handle is replaced by what it stands for. The place is that of the
properties. -/
def fullTag (sc : Scope) (start : Nat) (handle : Option String) (name : String) (place : Nat) :
    Except Refusal String :=
  match handle with
  | none => .ok name
  | some handle =>
      match sc.handles.lookup handle with
      | some space => .ok (space ++ name)
      | none => .error (.marked (some (.node, start)) (.unknownHandle handle) place)

/-- The anchor and the tag before a node, in either order, and where they start; if there are
any. -/
def properties (sc : Scope) : (ts : List Token) →
    Except Refusal (Option (Taken (Nat × Properties) ts))
  | ⟨.anchor anchor, start, _⟩ :: ⟨.tag handle name, place, _⟩ :: rest => do
      let tag ← fullTag sc start handle name place
      return some ⟨(start, ⟨some anchor, some tag⟩), rest, by simp only [List.length_cons]; omega⟩
  | ⟨.anchor anchor, start, _⟩ :: rest =>
      .ok (some ⟨(start, ⟨some anchor, none⟩), rest, Nat.lt_succ_self _⟩)
  | ⟨.tag handle name, start, _⟩ :: ⟨.anchor anchor, _, _⟩ :: rest => do
      let tag ← fullTag sc start handle name start
      return some ⟨(start, ⟨some anchor, some tag⟩), rest, by simp only [List.length_cons]; omega⟩
  | ⟨.tag handle name, start, _⟩ :: rest => do
      if rest.isEmpty then throw sc.stop
      let tag ← fullTag sc start handle name start
      return some ⟨(start, ⟨none, some tag⟩), rest, Nat.lt_succ_self _⟩
  | _ => .ok none

/-- The tag that a name asks for; an exclamation mark alone asks for the usual one. -/
def tagOr (usual : Tag) (name : Option String) : Tag :=
  match name with
  | none => usual
  | some name => if name = "!" then usual else .ofName name

/-- The tag of a scalar. A quoted one is a text, unless an exclamation mark makes it count as
plain. -/
def scalarTag (isPlain : Bool) (text : List Char) (name : Option String) : Tag :=
  if isPlain ∨ name = some "!" then tagOr (.ofPlain text) name else tagOr .str name

/-! ## Nodes -/

/-- Where a node stands. Behind the key of a block map the items of a list need no further
indentation. -/
inductive Position
  | block
  | behindKey
  | flow
deriving DecidableEq

def Position.activity : Position → Activity
  | .flow => .flowNode
  | _ => .blockNode

/-- Whether an item of a block list is left out before a token. -/
def endsItem : Lexeme → Bool
  | .item => true
  | .blockEnd => true
  | _ => false

/-- Whether a part of a block map is left out before a token. -/
def endsEntry : Lexeme → Bool
  | .key => true
  | .value => true
  | .blockEnd => true
  | _ => false

/-- The same for an item of a list within a map, behind which the map goes on. -/
def endsLooseItem : Lexeme → Bool
  | .item => true
  | lexeme => endsEntry lexeme

/-- Whether a value is left out before a token within a flow collection that ends with `close`. -/
def endsFlowValue (isMap : Bool) : Lexeme → Bool
  | .flowNext => true
  | .flowMapEnd => isMap
  | .flowListEnd => !isMap
  | _ => false

def endsFlowKey (isMap : Bool) : Lexeme → Bool
  | .value => true
  | lexeme => endsFlowValue isMap lexeme

/-- What was read of tokens, with the anchors known behind it. -/
abbrev NodeReading (α : Type) (ts : List Token) := Except Refusal (Taken (α × Anchors) ts)

/-- The same where perhaps no token was taken. -/
abbrev NodeGuess (α : Type) (ts : List Token) := Except Refusal (Maybe (α × Anchors) ts)

/-- A token that is not what had to follow in a collection or node. -/
def unexpected (activity : Activity) (since : Nat) (wanted : WantedToken) (t : Token) : Refusal :=
  .marked (some (activity, since)) (.expectedToken wanted t.lexeme.word) t.start

/-- What stands behind the comma between two members of a flow collection; before the first
member there is none. -/
def behindComma (sc : Scope) (refusal : Token → Refusal) (isFirst : Bool) :
    (ts : List Token) → Except Refusal (Maybe Unit ts)
  | [] => .error sc.stop
  | t :: rest =>
      if isFirst then .ok ⟨(), t :: rest, Nat.le_refl _⟩
      else
        match t.lexeme with
        | .flowNext => .ok ⟨(), rest, Nat.le_succ _⟩
        | _ => .error (refusal t)

/-- A collection of what was read behind its first token. -/
def collect {α : Type} {t : Token} {rest : List Token} (make : α → Node) (name : Option String)
    (found : Taken (α × Anchors) rest) : Taken (Node × Anchors) (t :: rest) :=
  ⟨(make found.value.1, found.value.2.settle name (make found.value.1)), found.rest,
    Nat.lt_succ_of_lt found.shorter⟩

mutual

/-- A node at a position. -/
def node (sc : Scope) (position : Position) (anchors : Anchors) (ts : List Token) :
    NodeReading Node ts :=
  match ts with
  | [] => .error sc.stop
  | t :: rest => do
      if let .reference name := t.lexeme then
        return ⟨(← anchors.resolve name t.start, anchors), rest, Nat.lt_succ_self _⟩
      match ← properties sc (t :: rest) with
      | none =>
          match ← content sc position anchors t.start ⟨none, none⟩ (t :: rest) with
          | some found => return found
          | none => throw (unexpected position.activity t.start .content t)
      | some p =>
          have : p.rest.length ≤ rest.length := Nat.le_of_lt_succ p.shorter
          let (start, properties) := p.value
          match ← content sc position anchors start properties p.rest with
          | some found => return ⟨found.value, found.rest, Nat.lt_trans found.shorter p.shorter⟩
          | none =>
              let anchors ← anchors.announce properties.anchor start
              let found := Node.scalar start (tagOr .null properties.tag) []
              return ⟨(found, anchors.settle properties.anchor found), p.rest, p.shorter⟩
termination_by 8 * ts.length + 2

/-- The node behind its properties, unless it is left out. -/
def content (sc : Scope) (position : Position) (anchors : Anchors) (start : Nat)
    (p : Properties) (ts : List Token) :
    Except Refusal (Option (Taken (Node × Anchors) ts)) :=
  match ts with
  | [] => .error sc.stop
  | t :: rest => do
      match t.lexeme, position with
      | .scalar isPlain text, _ =>
          let anchors ← anchors.announce p.anchor start
          let found := Node.scalar start (scalarTag isPlain text p.tag) text
          return some ⟨(found, anchors.settle p.anchor found), rest, Nat.lt_succ_self _⟩
      | .flowListStart, _ =>
          let items ← flowItems sc t.start true (← anchors.announce p.anchor start) rest
          return some (collect (.list start (tagOr .list p.tag)) p.anchor items)
      | .flowMapStart, _ =>
          let entries ← flowEntries sc t.start true (← anchors.announce p.anchor start) rest
          return some (collect (.map start (tagOr .map p.tag)) p.anchor entries)
      | .item, .behindKey =>
          let items ← looseItems sc (← anchors.announce p.anchor start) (t :: rest)
          let found := Node.list start (tagOr .list p.tag) items.value.1
          return some ⟨(found, items.value.2.settle p.anchor found), items.rest, items.shorter⟩
      | _, .flow => return none
      | .blockListStart, _ =>
          let items ← blockItems sc t.start (← anchors.announce p.anchor start) rest
          return some (collect (.list start (tagOr .list p.tag)) p.anchor items)
      | .blockMapStart, _ =>
          let entries ← blockEntries sc t.start (← anchors.announce p.anchor start) rest
          return some (collect (.map start (tagOr .map p.tag)) p.anchor entries)
      | _, _ => return none
termination_by 8 * ts.length + 1

/-- A node, unless a token shows that it is left out at a place. -/
def nodeOr (sc : Scope) (position : Position) (isLeftOut : Lexeme → Bool) (place : Nat)
    (anchors : Anchors) (ts : List Token) : NodeGuess Node ts :=
  match ts with
  | [] => .error sc.stop
  | t :: rest =>
      if isLeftOut t.lexeme then .ok ⟨(.empty place, anchors), t :: rest, Nat.le_refl _⟩
      else do
        let found ← node sc position anchors (t :: rest)
        return ⟨found.value, found.rest, Nat.le_of_lt found.shorter⟩
termination_by 8 * ts.length + 3

/-- The value behind a key, if its mark is there. -/
def valueOr (sc : Scope) (position : Position) (isLeftOut : Lexeme → Bool) (anchors : Anchors)
    (ts : List Token) : NodeGuess Node ts :=
  match ts with
  | [] => .error sc.stop
  | t :: rest =>
      match t.lexeme with
      | .value => do
          let found ← nodeOr sc position isLeftOut t.finish anchors rest
          return ⟨found.value, found.rest, Nat.le_succ_of_le found.noLonger⟩
      | _ => .ok ⟨(.empty t.start, anchors), t :: rest, Nat.le_refl _⟩
termination_by 8 * ts.length + 4

/-- The items of a block list that started at a place, and its end. -/
def blockItems (sc : Scope) (since : Nat) (anchors : Anchors) (ts : List Token) :
    NodeReading (List Node) ts :=
  match ts with
  | [] => .error sc.stop
  | t :: rest => do
      match t.lexeme with
      | .blockEnd => return ⟨([], anchors), rest, Nat.lt_succ_self _⟩
      | .item =>
          let first ← nodeOr sc .block endsItem t.finish anchors rest
          have := first.noLonger
          let more ← blockItems sc since first.value.2 first.rest
          return ⟨(first.value.1 :: more.value.1, more.value.2), more.rest, by
            have := more.shorter
            simp only [List.length_cons]
            omega⟩
      | _ => throw (unexpected .blockList since .blockEnd t)
termination_by 8 * ts.length

/-- The items of a list that ends with the last of them. -/
def looseItems (sc : Scope) (anchors : Anchors) (ts : List Token) :
    NodeReading (List Node) ts :=
  match ts with
  | [] => .error sc.stop
  | t :: rest => do
      let first ← nodeOr sc .block endsLooseItem t.finish anchors rest
      have := first.noLonger
      match _h : first.rest with
      | [] => throw sc.stop
      | next :: left =>
          have : left.length + 1 ≤ rest.length := by simpa [_h] using first.noLonger
          match next.lexeme with
          | .item =>
              let more ← looseItems sc first.value.2 (next :: left)
              return ⟨(first.value.1 :: more.value.1, more.value.2), more.rest, by
                have := more.shorter
                simp only [List.length_cons] at *
                omega⟩
          | _ =>
              return ⟨([first.value.1], first.value.2), next :: left, by
                simp only [List.length_cons]
                omega⟩
termination_by 8 * ts.length

/-- The entries of a block map that started at a place, and its end. -/
def blockEntries (sc : Scope) (since : Nat) (anchors : Anchors) (ts : List Token) :
    NodeReading (List (Node × Node)) ts :=
  match ts with
  | [] => .error sc.stop
  | t :: rest => do
      match t.lexeme with
      | .blockEnd => return ⟨([], anchors), rest, Nat.lt_succ_self _⟩
      | .key =>
          let key ← nodeOr sc .behindKey endsEntry t.finish anchors rest
          have := key.noLonger
          let found ← valueOr sc .behindKey endsEntry key.value.2 key.rest
          have := found.noLonger
          let more ← blockEntries sc since found.value.2 found.rest
          return ⟨((key.value.1, found.value.1) :: more.value.1, more.value.2), more.rest, by
            have := more.shorter
            simp only [List.length_cons]
            omega⟩
      | _ => throw (unexpected .blockMap since .blockEnd t)
termination_by 8 * ts.length

/-- A key whose mark has been read and its value, within a flow collection. -/
def flowEntry (sc : Scope) (isMap : Bool) (place : Nat) (anchors : Anchors) (ts : List Token) :
    NodeGuess (Node × Node) ts := do
  let key ← nodeOr sc .flow (endsFlowKey isMap) place anchors ts
  have := key.noLonger
  let found ← valueOr sc .flow (endsFlowValue isMap) key.value.2 key.rest
  return ⟨((key.value.1, found.value.1), found.value.2), found.rest, by
    have := found.noLonger
    omega⟩
termination_by 8 * ts.length + 5

/-- The items of a flow list that started at a place, and its end. A key and its value are an item
that is a map of its own. -/
def flowItems (sc : Scope) (since : Nat) (isFirst : Bool) (anchors : Anchors)
    (ts : List Token) : NodeReading (List Node) ts :=
  match ts with
  | [] => .error sc.stop
  | t :: rest => do
      if let .flowListEnd := t.lexeme then return ⟨([], anchors), rest, Nat.lt_succ_self _⟩
      let here ← behindComma sc (unexpected .flowList since .listEnd) isFirst (t :: rest)
      match _h : here.rest with
      | [] => throw sc.stop
      | u :: left =>
          have : left.length ≤ rest.length := by simpa [_h] using here.noLonger
          match u.lexeme with
          | .flowListEnd =>
              return ⟨([], anchors), left, by simp only [List.length_cons] at *; omega⟩
          | .key =>
              let entry ← flowEntry sc false u.finish anchors left
              have := entry.noLonger
              let more ← flowItems sc since false entry.value.2 entry.rest
              return ⟨(.map u.start .map [entry.value.1] :: more.value.1, more.value.2), more.rest,
                by have := more.shorter; simp only [List.length_cons] at *; omega⟩
          | _ =>
              let first ← node sc .flow anchors (u :: left)
              have : first.rest.length ≤ left.length := Nat.le_of_lt_succ first.shorter
              let more ← flowItems sc since false first.value.2 first.rest
              return ⟨(first.value.1 :: more.value.1, more.value.2), more.rest, by
                have := more.shorter
                simp only [List.length_cons] at *
                omega⟩
termination_by 8 * ts.length + 6

/-- The entries of a flow map that started at a place, and its end. A node alone is a key. -/
def flowEntries (sc : Scope) (since : Nat) (isFirst : Bool) (anchors : Anchors)
    (ts : List Token) : NodeReading (List (Node × Node)) ts :=
  match ts with
  | [] => .error sc.stop
  | t :: rest => do
      if let .flowMapEnd := t.lexeme then return ⟨([], anchors), rest, Nat.lt_succ_self _⟩
      let here ← behindComma sc (unexpected .flowMap since .mapEnd) isFirst (t :: rest)
      match _h : here.rest with
      | [] => throw sc.stop
      | u :: left =>
          have : left.length ≤ rest.length := by simpa [_h] using here.noLonger
          match u.lexeme with
          | .flowMapEnd =>
              return ⟨([], anchors), left, by simp only [List.length_cons] at *; omega⟩
          | .key =>
              let entry ← flowEntry sc true u.finish anchors left
              have := entry.noLonger
              let more ← flowEntries sc since false entry.value.2 entry.rest
              return ⟨(entry.value.1 :: more.value.1, more.value.2), more.rest, by
                have := more.shorter
                simp only [List.length_cons] at *
                omega⟩
          | _ =>
              let key ← node sc .flow anchors (u :: left)
              have : key.rest.length ≤ left.length := Nat.le_of_lt_succ key.shorter
              match _h : key.rest with
              | [] => throw sc.stop
              | next :: _ =>
                  let more ← flowEntries sc since false key.value.2 key.rest
                  return ⟨((key.value.1, .empty next.start) :: more.value.1, more.value.2),
                    more.rest, by
                      have := more.shorter
                      simp only [List.length_cons] at *
                      omega⟩
termination_by 8 * ts.length + 6

end

end ScalarStore.Yaml

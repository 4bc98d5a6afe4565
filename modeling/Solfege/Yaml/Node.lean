import Solfege.Yaml.Layout

/-!
# Solfege.Yaml.Node

The tree of a YAML document.

* `Node`      — a scalar, a sequence, a mapping, or a reference to an anchor.
* `Anchors`   — the numbers of the anchors, and the nodes that have them.
* `Reader`    — marks not yet read, and the anchors seen so far.
* `Document`  — a node with the anchors that its references lead to.
* `document?` — the one document of a text: `some none` if the text holds none, and `none` if it is
  not YAML or holds several.
-/

namespace Solfege
namespace Yaml

structure Scalar where
  style : Style
  tag : Option Tag
  text : List Char
  deriving DecidableEq, Repr

inductive Node where
  | scalar (scalar : Scalar)
  | sequence (items : List Node)
  | mapping (entries : List (Node × Node))
  | reference (number : Nat)

def Node.absent : Node := .scalar ⟨.plain, none, []⟩

/-- Anchors by number. The number of an anchor is how many names were known before it, so a name
that is given again takes a new number, which it shares with the next new name. -/
structure Anchors where
  /-- The number that each name has now. -/
  numbers : List (List Char × Nat) := []
  /-- The last node with each number, if it is a scalar. -/
  nodes : List (Nat × Option Scalar) := []

namespace Anchors

def add (anchors : Anchors) (name : List Char) (node : Option Scalar) : Anchors :=
  let number := anchors.numbers.length
  ⟨(name, number) :: anchors.numbers.filter fun known => known.1 ≠ name,
    (number, node) :: anchors.nodes⟩

def number? (anchors : Anchors) (name : List Char) : Option Nat :=
  anchors.numbers.lookup name

def scalar? (anchors : Anchors) : Node → Option Scalar
  | .scalar scalar => some scalar
  | .reference number => (anchors.nodes.lookup number).join
  | _ => none

end Anchors

structure Reader where
  marks : List Mark
  anchors : Anchors
  /-- What tag handles expand to. -/
  handles : List (List Char × Tag)

namespace Reader

def next (r : Reader) : Option Mark := r.marks.head?

def tail (r : Reader) : Reader := { r with marks := r.marks.tail }

def bindAnchor (r : Reader) (anchor : Option (List Char)) (node : Option Scalar) : Reader :=
  match anchor with
  | none => r
  | some name => { r with anchors := r.anchors.add name node }

end Reader

structure Properties where
  anchor : Option (List Char) := none
  tag : Option WrittenTag := none

namespace Properties

def read (r : Reader) : Properties × Reader :=
  match r.marks with
  | .anchor name :: .tag tag :: rest => (⟨some name, some tag⟩, { r with marks := rest })
  | .tag tag :: .anchor name :: rest => (⟨some name, some tag⟩, { r with marks := rest })
  | .anchor name :: rest => (⟨some name, none⟩, { r with marks := rest })
  | .tag tag :: rest => (⟨none, some tag⟩, { r with marks := rest })
  | _ => ({}, r)

/-- The full tag; a handle without an expansion has none. -/
def fullTag? (p : Properties) (r : Reader) : Option (Option Tag) :=
  match p.tag with
  | none => some none
  | some tag => (tag.expand? r.handles).map some

end Properties

def Reader.sees (r : Reader) (marks : List Mark) : Bool :=
  match r.next with
  | none => false
  | some mark => marks.contains mark

/-- Properties alone stand for an empty scalar. -/
def bare? (properties : Properties) (tag : Option Tag) (r : Reader) : Option (Node × Reader) :=
  if properties.anchor.isSome || properties.tag.isSome then
    let scalar : Scalar := ⟨.plain, tag, []⟩
    some (.scalar scalar, r.bindAnchor properties.anchor (some scalar))
  else none

mutual

/-- A node. Block collections are read only if `block`, and entries without an opening, which may
stand at the column of their key, only if `entries`. -/
def node? (fuel : Nat) (block entries : Bool) (r : Reader) : Option (Node × Reader) :=
  match fuel with
  | 0 => none
  | fuel + 1 =>
    match r.next with
    | some (.alias name) => (r.anchors.number? name).map fun number => (.reference number, r.tail)
    | _ =>
      let (properties, r) := Properties.read r
      match properties.fullTag? r with
      | none => none
      | some tag =>
        match r.next with
        | some (.scalar style text) =>
          let scalar : Scalar := ⟨style, tag, text⟩
          some (.scalar scalar, r.tail.bindAnchor properties.anchor (some scalar))
        | some .openFlowSequence =>
          flowItems? fuel true (r.tail.bindAnchor properties.anchor none)
            |>.map fun (items, r) => (.sequence items, r)
        | some .openFlowMapping =>
          flowPairs? fuel true (r.tail.bindAnchor properties.anchor none)
            |>.map fun (pairs, r) => (.mapping pairs, r)
        | some mark =>
          if block && mark = .openSequence then
            blockItems? fuel (r.tail.bindAnchor properties.anchor none)
              |>.map fun (items, r) => (.sequence items, r)
          else if block && mark = .openMapping then
            blockPairs? fuel (r.tail.bindAnchor properties.anchor none)
              |>.map fun (pairs, r) => (.mapping pairs, r)
          else if entries && mark = .entry then
            looseItems? fuel (r.bindAnchor properties.anchor none)
              |>.map fun (items, r) => (.sequence items, r)
          else bare? properties tag r
        | none => bare? properties tag r

def nodeUnless? (fuel : Nat) (stops : List Mark) (block entries : Bool) (r : Reader) :
    Option (Node × Reader) :=
  match fuel with
  | 0 => none
  | fuel + 1 => if r.sees stops then some (.absent, r) else node? fuel block entries r

def blockItems? (fuel : Nat) (r : Reader) : Option (List Node × Reader) :=
  match fuel with
  | 0 => none
  | fuel + 1 =>
    match r.next with
    | some .close => some ([], r.tail)
    | some .entry =>
      match nodeUnless? fuel [.entry, .close] true false r.tail with
      | none => none
      | some (item, r) => (blockItems? fuel r).map fun (items, r) => (item :: items, r)
    | _ => none

/-- Entries at the column of their key, which end where no entry follows. -/
def looseItems? (fuel : Nat) (r : Reader) : Option (List Node × Reader) :=
  match fuel with
  | 0 => none
  | fuel + 1 =>
    match r.next with
    | some .entry =>
      match nodeUnless? fuel [.entry, .key, .value, .close] true false r.tail with
      | none => none
      | some (item, r) => (looseItems? fuel r).map fun (items, r) => (item :: items, r)
    | _ => some ([], r)

def blockPairs? (fuel : Nat) (r : Reader) : Option (List (Node × Node) × Reader) :=
  match fuel with
  | 0 => none
  | fuel + 1 =>
    match r.next with
    | some .close => some ([], r.tail)
    | some .key =>
      match nodeUnless? fuel [.key, .value, .close] true true r.tail with
      | none => none
      | some (key, r) =>
        match valueOf? fuel [.key, .value, .close] true r with
        | none => none
        | some (value, r) => (blockPairs? fuel r).map fun (pairs, r) => ((key, value) :: pairs, r)
    | _ => none

def valueOf? (fuel : Nat) (stops : List Mark) (block : Bool) (r : Reader) :
    Option (Node × Reader) :=
  match fuel with
  | 0 => none
  | fuel + 1 =>
    match r.next with
    | some .value => nodeUnless? fuel stops block block r.tail
    | _ => some (.absent, r)

/-- The key of a single pair in a flow sequence. The mark that shows it to be absent is passed
over. -/
def flowKey? (fuel : Nat) (r : Reader) : Option (Node × Reader) :=
  match fuel with
  | 0 => none
  | fuel + 1 =>
    if r.sees [.value, .flowEntry, .closeFlowSequence] then some (.absent, r.tail)
    else node? fuel false false r

/-- The items of a flow sequence, with its closing bracket. A single pair may stand as an item. -/
def flowItems? (fuel : Nat) (first : Bool) (r : Reader) : Option (List Node × Reader) :=
  match fuel with
  | 0 => none
  | fuel + 1 =>
    if r.sees [.closeFlowSequence] then some ([], r.tail)
    else if !first && !r.sees [.flowEntry] then none
    else
      let r := if first then r else r.tail
      if r.sees [.closeFlowSequence] then some ([], r.tail)
      else if r.sees [.key] then
        match flowKey? fuel r.tail with
        | none => none
        | some (key, r) =>
          match valueOf? fuel [.flowEntry, .closeFlowSequence] false r with
          | none => none
          | some (value, r) =>
            (flowItems? fuel false r).map fun (items, r) => (.mapping [(key, value)] :: items, r)
      else
        match node? fuel false false r with
        | none => none
        | some (item, r) => (flowItems? fuel false r).map fun (items, r) => (item :: items, r)

def flowPairs? (fuel : Nat) (first : Bool) (r : Reader) : Option (List (Node × Node) × Reader) :=
  match fuel with
  | 0 => none
  | fuel + 1 =>
    if r.sees [.closeFlowMapping] then some ([], r.tail)
    else if !first && !r.sees [.flowEntry] then none
    else
      let r := if first then r else r.tail
      if r.sees [.closeFlowMapping] then some ([], r.tail)
      else if r.sees [.key] then
        match nodeUnless? fuel [.value, .flowEntry, .closeFlowMapping] false false r.tail with
        | none => none
        | some (key, r) =>
          match valueOf? fuel [.flowEntry, .closeFlowMapping] false r with
          | none => none
          | some (value, r) =>
            (flowPairs? fuel false r).map fun (pairs, r) => ((key, value) :: pairs, r)
      else
        match node? fuel false false r with
        | none => none
        | some (key, r) =>
          (flowPairs? fuel false r).map fun (pairs, r) => ((key, .absent) :: pairs, r)

end

structure Document where
  root : Node
  anchors : Anchors

namespace Document

def standardHandles : List (List Char × Tag) :=
  [(['!'], Tag.ofString "!"), (['!', '!'], Tag.ofString "tag:yaml.org,2002:")]

/-- The directives before a document: at most one version and one expansion for each handle. -/
def directives? (version : Bool) (handles : List (List Char × Tag)) :
    List Mark → Option (List (List Char × Tag) × List Mark)
  | .directive .version :: rest => if version then none else directives? true handles rest
  | .directive (.tagHandle handle expansion) :: rest =>
    if (handles.lookup handle).isSome then none
    else directives? version ((handle, expansion) :: handles) rest
  | rest => some (handles, rest)

def ended (r : Reader) : Bool :=
  r.marks.all (· = .documentEnd)

def ofReader? (fuel : Nat) (r : Reader) : Option Document :=
  match node? fuel true false r with
  | none => none
  | some (root, r) => if ended r then some ⟨root, r.anchors⟩ else none

end Document

def document? (text : List Char) : Option (Option Document) :=
  match cells? text with
  | none => none
  | some cells =>
    match marks? cells with
    | none => none
    | some [] => some none
    | some marks =>
      let fuel := 4 * marks.length + 4
      match Document.directives? false [] marks with
      | none => none
      | some (handles, rest) =>
        let handles := handles ++ Document.standardHandles
        match rest with
        | .documentStart :: rest =>
          let r : Reader := ⟨rest, {}, handles⟩
          if Document.ended r then some (some ⟨.absent, {}⟩)
          else (Document.ofReader? fuel r).map some
        | _ =>
          if rest.length < marks.length then none
          else (Document.ofReader? fuel ⟨rest, {}, handles⟩).map some

end Yaml
end Solfege

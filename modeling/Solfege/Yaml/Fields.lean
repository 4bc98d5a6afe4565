import Solfege.FrontMatter.Metadata
import Solfege.Yaml.Node

/-!
# Solfege.Yaml.Fields

Front matter in YAML: a mapping with an optional `title` and an optional `bar-beats`. Other keys are
read over, whatever they hold; these two may not repeat.

* `ofDocument?` — the fields of a document. The reader of front matter is built from it.
-/

namespace Solfege
namespace Yaml

def nullTag : Tag := .ofString "tag:yaml.org,2002:null"

def floatTag : Tag := .ofString "tag:yaml.org,2002:float"

def isNull (text : List Char) : Bool :=
  ["~".toList, "null".toList, "Null".toList, "NULL".toList].contains text

/-- A plain scalar may say that there is no value; a quoted one never does. -/
def present? (scalar : Scalar) : Option Bool :=
  if scalar.style = .plain then
    match scalar.tag with
    | none => some !(scalar.text.isEmpty || isNull scalar.text)
    | some tag =>
      if tag = nullTag then if isNull scalar.text then some false else none else some true
  else some true

def title? (scalar : Scalar) : Option (Option String) :=
  (present? scalar).map fun present =>
    if present then some (String.ofList scalar.text) else none

def number? (text : List Char) : Option Float :=
  let positive :=
    match text with
    | '+' :: rest => if rest.head? = some '+' ∨ rest.head? = some '-' then none else some rest
    | _ => some text
  match positive with
  | none => none
  | some unsigned =>
    let word := String.ofList unsigned
    if word = ".inf" ∨ word = ".Inf" ∨ word = ".INF" then
      some (Decimal.ofMagnitude false Decimal.infinityBits)
    else if word = "-.inf" ∨ word = "-.Inf" ∨ word = "-.INF" then
      some (Decimal.ofMagnitude true Decimal.infinityBits)
    else if text = unsigned ∧ (word = ".nan" ∨ word = ".NaN" ∨ word = ".NAN") then
      some (Float.ofBits 0x7ff8000000000000)
    else
      match Decimal.read? unsigned with
      | none => none
      | some x => if x.isFinite then some x else none

/-- Numbers are written plainly; a literal block is one only if it says so. -/
def isNumeral (scalar : Scalar) : Bool :=
  scalar.style = .plain || (scalar.style = .literal && scalar.tag = some floatTag)

def barBeats? (scalar : Scalar) : Option (Option Float) :=
  match present? scalar with
  | none => none
  | some false => some none
  | some true => if isNumeral scalar then (number? scalar.text).map some else none

structure Fields where
  title : Option (Option String) := none
  barBeats : Option (Option Float) := none

/-- Every key is a scalar, and so are the values of the two fields. -/
def Fields.add? (fields : Fields) (anchors : Anchors) (pair : Node × Node) : Option Fields :=
  match anchors.scalar? pair.1 with
  | none => none
  | some key =>
    if key.text = "title".toList then
      if fields.title.isSome then none
      else
        ((anchors.scalar? pair.2).bind title?).map fun title =>
          { fields with title := some title }
    else if key.text = "bar-beats".toList then
      if fields.barBeats.isSome then none
      else
        ((anchors.scalar? pair.2).bind barBeats?).map fun beats =>
          { fields with barBeats := some beats }
    else some fields

def Fields.addAll? (fields : Fields) (anchors : Anchors) : List (Node × Node) → Option Fields
  | [] => some fields
  | pair :: rest =>
    match fields.add? anchors pair with
    | none => none
    | some fields => fields.addAll? anchors rest

def Fields.metadata (fields : Fields) : Metadata :=
  ⟨fields.title.join, fields.barBeats.join⟩

/-- A text without a document, or with an empty one, has no fields. -/
def ofDocument? : Option Document → Option Metadata
  | none => some {}
  | some document =>
    match document.root with
    | .mapping pairs => (Fields.addAll? {} document.anchors pairs).map Fields.metadata
    | .scalar scalar => if scalar.style = .plain ∧ scalar.text = [] then some {} else none
    | _ => none

instance : FrontMatter.Reader where
  read content :=
    match (document? content).bind ofDocument? with
    | none => .error "not a YAML mapping of scalars"
    | some metadata => .ok metadata

end Yaml
end Solfege

import Spindle.Json.Value

/-!
# Schemas

A description of the records of a format and its text as a JSON schema, draft 7.
-/

namespace Spindle

open Json (Value)

namespace Schema

inductive Word where
  | uint64
  | uint32
  | int32
  deriving DecidableEq, Repr

namespace Word

def format : Word → String
  | uint64 => "uint64"
  | uint32 => "uint32"
  | int32 => "int32"

def isUnsigned : Word → Bool
  | uint64 | uint32 => true
  | int32 => false

end Word

inductive Shape where
  | string
  | boolean
  | integer (w : Word)
  | list (item : Shape)
  /-- What a definition describes. -/
  | named (name : String)
  | nullable (s : Shape)
  deriving DecidableEq, Repr

namespace Shape

def typeMember (nullable : Bool) (type : String) : String × Value :=
  ("type", if nullable then .array [.string type, .string "null"] else .string type)

def reference (name : String) : Value := .object [("$ref", .string ("#/definitions/" ++ name))]

def members (null : Bool) : Shape → List (String × Value)
  | string => [typeMember null "string"]
  | boolean => [typeMember null "boolean"]
  | integer w =>
    [typeMember null "integer", ("format", .string w.format)] ++
      if w.isUnsigned then [("minimum", .number ⟨false, ['0'], some ['0'], none⟩)] else []
  | list item => [typeMember null "array", ("items", .object (members false item))]
  | named name =>
    if null then
      [("anyOf", .array [reference name, .object [("type", .string "null")]])]
    else [("$ref", .string ("#/definitions/" ++ name))]
  | nullable s => members true s

end Shape

/-- A property of a record, which is required unless it has a default. -/
structure Property where
  key : String
  description : Option String
  default : Option Value
  shape : Shape

namespace Property

def schema (p : Property) : Value :=
  .object <|
    (p.description.map fun d => ("description", Value.string d)).toList ++
    (p.default.map fun v => ("default", v)).toList ++
    p.shape.members false

end Property

def tagMembers (tags : List String) : List (String × Value) :=
  [("type", .string "string"), ("enum", .array (tags.map .string))]

inductive Body where
  /-- The properties are in the order of their keys. -/
  | record (properties : List Property)
  | tags (listed : List String)
  /-- Tags, one of which has a description of its own. -/
  | tagsOr (listed : List String) (other description : String)

namespace Body

def members : Body → List (String × Value)
  | record properties =>
    [("type", .string "object"),
      ("required", .array ((properties.filter (·.default.isNone)).map (.string ·.key))),
      ("properties", .object (properties.map fun p => (p.key, p.schema)))]
  | tags listed => tagMembers listed
  | tagsOr listed other description =>
    [("oneOf", .array [.object (tagMembers listed),
      .object (("description", .string description) :: tagMembers [other])])]

end Body

structure Definition where
  name : String
  description : String
  body : Body

namespace Definition

def members (d : Definition) : List (String × Value) :=
  ("description", .string d.description) :: d.body.members

end Definition

end Schema

/-- A schema with the definitions that it refers to, in the order of their names. -/
structure Schema where
  root : Schema.Definition
  definitions : List Schema.Definition

namespace Schema

def value (s : Schema) : Value :=
  .object <|
    [("$schema", .string "http://json-schema.org/draft-07/schema#"),
      ("title", .string s.root.name)] ++
    s.root.members ++
    [("definitions", .object (s.definitions.map fun d => (d.name, .object d.members)))]

end Schema

end Spindle

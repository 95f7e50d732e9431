import TextTemplate.Tree.Basic

/-!
# Schemas of directives

A schema says which attributes a directive has, which of them are required and which values they
know. It is what directives are checked against and what descriptions are taken from. Names and
values are looked up in any case of letters.
-/
namespace TextTemplate

/-- A value that an attribute knows. -/
structure KnownValue where
  displayName : String
  description : String
deriving DecidableEq, Repr

/-- What a schema says of one attribute. -/
structure AttributeSchema where
  /-- The spelling in templates. -/
  name : String
  /-- The spelling in diagnostics. -/
  displayName : String
  description : String
  required : Bool
  /-- The values that are known; none if any text will do. -/
  values : List KnownValue
deriving DecidableEq, Repr

namespace AttributeSchema

/-- The known value of the name. -/
def value? (schema : AttributeSchema) (name : String) : Option KnownValue :=
  schema.values.find? fun known => sameLetters known.displayName name

/-- The value is known, or any text will do. -/
def accepts (schema : AttributeSchema) (value : String) : Bool :=
  schema.values.isEmpty || (schema.value? value).isSome

end AttributeSchema

/-- What is known of a kind of directive. -/
structure DirectiveSchema where
  kind : DirectiveKind
  /-- The name to offer to a writer; custom directives have none. -/
  displayName : Option String
  description : String
  attributes : List AttributeSchema
  /-- Attributes besides those of the schema are allowed. -/
  acceptsUnknown : Bool
deriving DecidableEq, Repr

namespace DirectiveSchema

/-- The attribute of the name. -/
def attribute? (schema : DirectiveSchema) (name : String) : Option AttributeSchema :=
  schema.attributes.find? fun known => sameLetters known.name name

/-- The required attributes in order. -/
def required (schema : DirectiveSchema) : List AttributeSchema :=
  schema.attributes.filter (·.required)

end DirectiveSchema

end TextTemplate

import TextTemplate.Schema.Basic

/-!
# The built-in schemas

One schema for each kind of directive. The custom directive stands for all names that are not built
in; it needs to name its processor and may have any other attribute.
-/
namespace TextTemplate

namespace AttributeSchema

/-- An attribute that may be left out and takes any text. -/
def optional (name displayName description : String) : AttributeSchema :=
  ⟨name, displayName, description, false, []⟩

/-- An attribute that must be given and takes any text. -/
def mandatory (name displayName description : String) : AttributeSchema :=
  ⟨name, displayName, description, true, []⟩

/-- An attribute that may be left out and takes one of the values. -/
def choice (name displayName description : String) (values : List KnownValue) : AttributeSchema :=
  ⟨name, displayName, description, false, values⟩

end AttributeSchema

namespace DirectiveSchema

open AttributeSchema

/-- The values of an option that is on or off. -/
def onOff : List KnownValue :=
  [⟨"true", "Enables the option."⟩, ⟨"false", "Disables the option."⟩]

/-- A schema that allows its own attributes only. -/
def closed (kind : DirectiveKind) (description : String) (attributes : List AttributeSchema) :
    DirectiveSchema :=
  ⟨kind, some kind.name, description, attributes, false⟩

def assembly : DirectiveSchema :=
  closed .assembly "Loads an assembly so that template code can use its types."
    [mandatory "name" "Name"
      "Name of an assembly in the global assembly cache, or the absolute path to an assembly file."]

def imports : DirectiveSchema :=
  closed .imports
    "Allows template code to refer to types in a namespace without fully qualified names."
    [mandatory "namespace" "Namespace" "Fully qualified name of the namespace to import."]

def includes : DirectiveSchema :=
  closed .includes "Includes text from another file at the position of the directive."
    [mandatory "file" "File"
      ("Absolute or relative path of the file to include. " ++
        "Relative paths are resolved against the including template."),
     choice "once" "Once"
      "Whether the file is included only once, even if several templates include it." onOff]

def output : DirectiveSchema :=
  closed .output "Defines the file name extension and encoding of the generated output."
    [optional "extension" "Extension"
      "File name extension of the generated output file, such as \".cs\".",
     choice "encoding" "Encoding" "Encoding used to write the generated output file."
      [⟨"Default", "The default encoding of the operating system."⟩,
       ⟨"ASCII", "7-bit ASCII."⟩,
       ⟨"BigEndianUnicode", "UTF-16 with big-endian byte order."⟩,
       ⟨"Unicode", "UTF-16 with little-endian byte order."⟩,
       ⟨"UTF32", "UTF-32 with little-endian byte order."⟩,
       ⟨"UTF7", "UTF-7."⟩,
       ⟨"UTF8", "UTF-8."⟩]]

def parameter : DirectiveSchema :=
  closed .parameter "Declares a property initialized from a value passed in by the host."
    [mandatory "name" "Name" "Name of the generated property.",
     mandatory "type" "Type"
      "Fully qualified name of the property type, such as \"System.String\"."]

def template : DirectiveSchema :=
  closed .template "Specifies how the template is transformed into generated code."
    [choice "language" "Language"
      "Language of the code in statement, expression and class feature blocks."
      [⟨"C#", "Visual C#."⟩, ⟨"VB", "Visual Basic."⟩],
     choice "debug" "Debug"
      "Whether the generated transformation code is kept for debugging." onOff,
     choice "hostspecific" "HostSpecific"
      "Whether template code can access the templating host through the Host property."
      [⟨"true", "Adds a Host property to the generated class."⟩,
       ⟨"false", "The Host property is not available."⟩,
       ⟨"trueFromBase", "The Host property is inherited from the base class."⟩],
     optional "inherits" "Inherits" "Base class of the generated transformation class.",
     optional "culture" "Culture"
      "Culture used to convert expression block values to text, such as \"en-US\".",
     optional "compilerOptions" "CompilerOptions"
      "Options passed to the compiler of the generated transformation code.",
     choice "linePragmas" "LinePragmas"
      "Whether line pragmas pointing back into the template are generated." onOff,
     choice "visibility" "Visibility" "Visibility of the generated transformation class."
      [⟨"public", "The class is visible outside its assembly."⟩,
       ⟨"internal", "The class is visible only inside its assembly."⟩]]

def custom : DirectiveSchema where
  kind := .custom
  displayName := none
  description :=
    "A custom directive handled by a directive processor registered with the templating host."
  attributes :=
    [mandatory "processor" "Processor"
      "Name of the directive processor that handles this directive."]
  acceptsUnknown := true

end DirectiveSchema

/-- The schema of each kind. -/
def DirectiveKind.schema : DirectiveKind → DirectiveSchema
  | assembly => .assembly
  | imports => .imports
  | includes => .includes
  | output => .output
  | parameter => .parameter
  | template => .template
  | custom => .custom

/-- The schema of a directive's kind. -/
def Directive.schema (d : Directive) : DirectiveSchema :=
  d.kind.schema

/-- The schemas to offer to a writer, which are all but the custom one. -/
def DirectiveSchema.builtin : List DirectiveSchema :=
  (DirectiveKind.all.filter (· ≠ .custom)).map (·.schema)

end TextTemplate

import TextTemplate.Schema.Builtin

/-!
# Directives by kind

For each kind of directive a record of its attributes' values, absent where the directive does not
have the attribute. `Directive.view` gives the record of the directive's own kind, and each
`of?` succeeds for directives of its kind only.
-/
namespace TextTemplate

structure AssemblyView where
  name : Option String
deriving DecidableEq

structure ImportView where
  namespaceName : Option String
deriving DecidableEq

structure IncludeView where
  file : Option String
  once : Option String
deriving DecidableEq

structure OutputView where
  extension : Option String
  encoding : Option String
deriving DecidableEq

structure ParameterView where
  name : Option String
  type : Option String
deriving DecidableEq

structure TemplateView where
  language : Option String
  debug : Option String
  hostSpecific : Option String
  inherits : Option String
  culture : Option String
  compilerOptions : Option String
  linePragmas : Option String
  visibility : Option String
deriving DecidableEq

structure CustomView where
  processor : Option String
deriving DecidableEq

/-- The record of a directive's kind. -/
inductive DirectiveView where
  | assembly (view : AssemblyView)
  | imports (view : ImportView)
  | includes (view : IncludeView)
  | output (view : OutputView)
  | parameter (view : ParameterView)
  | template (view : TemplateView)
  | custom (view : CustomView)
deriving DecidableEq

namespace AssemblyView

def ofDirective (d : Directive) : AssemblyView :=
  ⟨d.value? "name"⟩

def of? (d : Directive) : Option AssemblyView :=
  if d.kind = .assembly then some (ofDirective d) else none

end AssemblyView

namespace ImportView

def ofDirective (d : Directive) : ImportView :=
  ⟨d.value? "namespace"⟩

def of? (d : Directive) : Option ImportView :=
  if d.kind = .imports then some (ofDirective d) else none

end ImportView

namespace IncludeView

def ofDirective (d : Directive) : IncludeView :=
  ⟨d.value? "file", d.value? "once"⟩

def of? (d : Directive) : Option IncludeView :=
  if d.kind = .includes then some (ofDirective d) else none

end IncludeView

namespace OutputView

def ofDirective (d : Directive) : OutputView :=
  ⟨d.value? "extension", d.value? "encoding"⟩

def of? (d : Directive) : Option OutputView :=
  if d.kind = .output then some (ofDirective d) else none

end OutputView

namespace ParameterView

def ofDirective (d : Directive) : ParameterView :=
  ⟨d.value? "name", d.value? "type"⟩

def of? (d : Directive) : Option ParameterView :=
  if d.kind = .parameter then some (ofDirective d) else none

end ParameterView

namespace TemplateView

def ofDirective (d : Directive) : TemplateView where
  language := d.value? "language"
  debug := d.value? "debug"
  hostSpecific := d.value? "hostspecific"
  inherits := d.value? "inherits"
  culture := d.value? "culture"
  compilerOptions := d.value? "compilerOptions"
  linePragmas := d.value? "linePragmas"
  visibility := d.value? "visibility"

def of? (d : Directive) : Option TemplateView :=
  if d.kind = .template then some (ofDirective d) else none

end TemplateView

namespace CustomView

def ofDirective (d : Directive) : CustomView :=
  ⟨d.value? "processor"⟩

def of? (d : Directive) : Option CustomView :=
  if d.kind = .custom then some (ofDirective d) else none

end CustomView

namespace Directive

/-- The record of the directive's own kind. -/
def view (d : Directive) : DirectiveView :=
  match d.kind with
  | .assembly => .assembly (.ofDirective d)
  | .imports => .imports (.ofDirective d)
  | .includes => .includes (.ofDirective d)
  | .output => .output (.ofDirective d)
  | .parameter => .parameter (.ofDirective d)
  | .template => .template (.ofDirective d)
  | .custom => .custom (.ofDirective d)

/-- The records that can be had from the directive. -/
def views (d : Directive) : List DirectiveView :=
  [(AssemblyView.of? d).map .assembly, (ImportView.of? d).map .imports,
   (IncludeView.of? d).map .includes, (OutputView.of? d).map .output,
   (ParameterView.of? d).map .parameter, (TemplateView.of? d).map .template,
   (CustomView.of? d).map .custom].reduceOption

end Directive

end TextTemplate

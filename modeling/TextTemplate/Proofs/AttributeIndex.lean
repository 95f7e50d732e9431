import Mathlib.Data.List.Nodup
import TextTemplate.Schema.Builtin

/-!
# Attributes by name

A directive finds its attributes through an index, in which of all attributes of one name only the
first is entered. So to look up a name is to search the attributes in order for the first one that
has it, in whatever case of letters (`findIdx?_eq`, `find?_eq`, `value?_eq`).

The schemas are searched in order anyway. No two of their names are the same up to case, so an
attribute of a schema is found by its name and by no other (`attribute?_eq_some_iff`). The same goes
for the values that such an attribute knows (`value?_eq_some_iff`).
-/
namespace TextTemplate

/-- What is the only one of its kind is found, wherever it stands. -/
theorem find?_eq_some_of_unique {α : Type} {p : α → Bool} {items : List α} {a : α}
    (ha : a ∈ items) (hp : p a = true) (hunique : ∀ b ∈ items, p b = true → b = a) :
    items.find? p = some a := by
  obtain ⟨found, hfound⟩ := Option.isSome_iff_exists.mp (List.find?_isSome.mpr ⟨a, ha, hp⟩)
  rw [hfound, hunique found (List.mem_of_find?_eq_some hfound) (List.find?_some hfound)]

namespace Attribute

/-- The attribute has the name, in any case of letters. -/
def isNamed (a : Attribute) (name : String) : Bool :=
  sameLetters a.name.text name

end Attribute

namespace Directive
variable {d : Directive} {name : String}

/-- What the index has of a key once more attributes have been entered. -/
theorem getElem?_foldl_insertIfNew (key : String) (attrs : List Attribute) (offset : Nat)
    (found : Std.HashMap String Nat) :
    ((attrs.zipIdx offset).foldl
        (fun found (attr, i) => found.insertIfNew (lowerCase attr.name.text) i) found)[key]? =
      found[key]?.or
        ((attrs.findIdx? fun a => lowerCase a.name.text == key).map (· + offset)) := by
  induction attrs generalizing offset found with
  | nil => simp
  | cons attr attrs ih =>
    rw [List.zipIdx_cons, List.foldl_cons, ih, Std.HashMap.getElem?_insertIfNew, List.findIdx?_cons]
    by_cases hkey : lowerCase attr.name.text = key
    · subst hkey
      by_cases hmem : lowerCase attr.name.text ∈ found <;> simp [hmem]
    · simp [hkey, Function.comp_def, Nat.add_assoc, Nat.add_comm 1]

/-- The index leads to the first attribute of the name. -/
theorem findIdx?_eq : d.findIdx? name = d.attributes.findIdx? (·.isNamed name) := by
  rw [findIdx?, index, getElem?_foldl_insertIfNew]
  simp [Attribute.isNamed, sameLetters]

theorem find?_eq : d.find? name = d.attributes.find? (·.isNamed name) := by
  rw [find?, findIdx?_eq]
  exact List.find?_eq_bind_findIdx?_getElem?.symm

end Directive

namespace DirectiveKind

/-- The names of a schema differ by more than case. -/
theorem nodup_names (kind : DirectiveKind) :
    (kind.schema.attributes.map fun known => lowerCase known.name).Nodup := by
  cases kind <;> decide

/-- So do the values that an attribute of a schema knows. -/
theorem nodup_values (kind : DirectiveKind) :
    ∀ known ∈ kind.schema.attributes,
      (known.values.map fun v => lowerCase v.displayName).Nodup := by
  cases kind <;> decide

/-- Of items that differ by more than case each is found by its name, and by no other. -/
theorem find?_sameLetters_eq_some_iff {α : Type} {nameOf : α → String} {items : List α} {item : α}
    {name : String} (h : (items.map fun i => lowerCase (nameOf i)).Nodup) :
    (items.find? fun i => sameLetters (nameOf i) name) = some item ↔
      item ∈ items ∧ sameLetters (nameOf item) name = true := by
  refine ⟨fun hfind => ⟨List.mem_of_find?_eq_some hfind, ?_⟩, fun ⟨hmem, hname⟩ => ?_⟩
  · simpa using List.find?_some hfind
  · refine find?_eq_some_of_unique hmem hname fun other hother hname' => ?_
    rw [sameLetters_iff] at hname hname'
    exact List.inj_on_of_nodup_map h hother hmem (hname'.trans hname.symm)

theorem attribute?_eq_some_iff {kind : DirectiveKind} {name : String} {known : AttributeSchema} :
    kind.schema.attribute? name = some known ↔
      known ∈ kind.schema.attributes ∧ sameLetters known.name name = true :=
  find?_sameLetters_eq_some_iff kind.nodup_names

theorem attribute?_eq_none_iff {kind : DirectiveKind} {name : String} :
    kind.schema.attribute? name = none ↔
      ∀ known ∈ kind.schema.attributes, ¬ sameLetters known.name name = true :=
  List.find?_eq_none

theorem value?_eq_some_iff {kind : DirectiveKind} {known : AttributeSchema} {name : String}
    {v : KnownValue} (hknown : known ∈ kind.schema.attributes) :
    known.value? name = some v ↔ v ∈ known.values ∧ sameLetters v.displayName name = true :=
  find?_sameLetters_eq_some_iff (kind.nodup_values known hknown)

/-- No value without letters is known. -/
theorem value?_empty (kind : DirectiveKind) :
    ∀ known ∈ kind.schema.attributes, known.value? "" = none := by
  cases kind <;> decide

/-- Custom directives are the ones that may have any attributes. -/
theorem acceptsUnknown_iff {kind : DirectiveKind} :
    kind.schema.acceptsUnknown = true ↔ kind = .custom := by
  cases kind <;> decide

end DirectiveKind

end TextTemplate

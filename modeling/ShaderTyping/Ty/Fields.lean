import ShaderTyping.Ty.Basic

namespace ShaderTyping

/-!
# Fields of structs

A struct lists its fields in label order and has one field for each label.
`Ty.ofFields` builds that list from fields in any order; where a label is given
more than once, the last field counts.
-/

namespace Ty

/-- Put a field in its place, over an earlier field with the same label. -/
def insertField (label : String) (value : α) : List (String × α) → List (String × α)
  | [] => [(label, value)]
  | (label', value') :: rest =>
      if label < label' then
        (label, value) :: (label', value') :: rest
      else if label = label' then
        (label, value) :: rest
      else
        (label', value') :: insertField label value rest

/-- Fields in label order, the last one of each label. -/
def sortFields (fields : List (String × α)) : List (String × α) :=
  fields.foldl (fun sorted field => insertField field.1 field.2 sorted) []

/-- The struct with the given fields. -/
def ofFields (fields : List (String × Ty)) : Ty :=
  .struct (sortFields fields)

/-- The fields that two structs share, with the type of each side. -/
def sharedFields (left right : List (String × Ty)) : List (String × Ty × Ty) :=
  left.filterMap fun field =>
    (right.lookup field.1).map fun other => (field.1, field.2, other)

end Ty

end ShaderTyping

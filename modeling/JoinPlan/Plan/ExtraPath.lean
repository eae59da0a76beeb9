import JoinPlan.Text.Blank
import JoinPlan.Text.Split

/-!
# Extra paths

An entry `seg/seg/field:Title,field` names relations to follow and fields of the
document they lead to, each with a title if wanted. Blanks around the parts do not
count, and fields without a name are dropped.
-/

namespace JoinPlan

/-- A field at the end of an extra path, with its title. -/
structure LeafField where
  name : String
  title : Option String
deriving DecidableEq, Repr

/-- An extra path: relations to follow, and fields to read at the end. -/
structure ExtraPath where
  segments : List String
  fields : List LeafField
deriving DecidableEq, Repr

namespace ExtraPath

/-- One field as written, `name` or `name:title`. -/
def leafField? (text : String) : Option LeafField :=
  let field :=
    match Text.cutAtFirst ':' text with
    | some (name, title) => ⟨Text.trim name, some (Text.trim title)⟩
    | none => ⟨Text.trim text, none⟩
  if field.name.isEmpty then none else some field

/-- The extra path of an entry. There must be a segment before the fields, and a
field with a name. -/
def parse (entry : String) : Option ExtraPath :=
  let parts := (Text.split '/' (Text.trim entry)).map Text.trim
  let fields := (Text.split ',' (parts.getLast?.getD "")).filterMap leafField?
  if parts.length < 2 || fields.isEmpty then none
  else some ⟨parts.dropLast, fields⟩

/-- The path of one of the fields. -/
def pathTo (path : ExtraPath) (field : String) : String :=
  "/".intercalate path.segments ++ "/" ++ field

end ExtraPath

end JoinPlan

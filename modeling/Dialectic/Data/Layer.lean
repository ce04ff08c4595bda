import Dialectic.Data.Value

/-
  This file defines how one value is laid over another one,
  as settings are laid over their defaults.

  Key definitions include:
    * `Value.layOver`
    * `Value.layFieldsOver`
-/

namespace Dialectic

namespace Value

mutual

/-
  Lay a value over its default.  Two records are merged key
  by key.  Null gives way to the default, and so does
  anything but a record if the default is a record.
  Otherwise the value itself is taken.
-/
def layOver : (explicit default : Value) → Value
| .null, default => default
| .record fields, .record defaults =>
    .record (layFieldsOver fields defaults defaults)
| _, .record defaults => .record defaults
| explicit, _ => explicit

/-
  Set each of the given fields in `merged`, laid over the
  default of its key.
-/
def layFieldsOver :
    (fields defaults merged : List (String × Value)) →
      List (String × Value)
| [], _, merged => merged
| (key, value) :: rest, defaults, merged =>
    let default := (Record.get? defaults key).getD .null
    layFieldsOver rest defaults
      (Record.insert merged key (layOver value default))

end

end Value

end Dialectic

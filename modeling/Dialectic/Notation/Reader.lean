import Dialectic.Data.Value

/-
  This file defines what reads the notations in which values
  are written.  Documents and requests are read with any
  readers; only running them takes certain ones.

  Key definitions include:
    * `YamlReader`
    * `TomlReader`
-/

namespace Dialectic

/-
  A reader of YAML.  It gives the value that a text stands
  for, if there is one; nothing else tells what it gives.
-/
class YamlReader where
  read? : String → Option Value

/- A reader of TOML, whose texts stand for records. -/
class TomlReader where
  read? : String → Option Record

end Dialectic

import Spindle.Proofs.Yaml.Mappings

/-!
# Keys that are too long

A key is only known by its colon, and no longer when that comes after 1024 characters: the text
is malformed there.
-/

namespace Spindle.Yaml

namespace Scan

variable {s : Scan} {a : Spot} {rest : List Char}

end Scan

theorem isAllowed_of_isWord {c : Char} (word : isWord c = true) : isAllowed c = true := by
  simp [isAllowed, bounds_of_isWord word]

end Spindle.Yaml

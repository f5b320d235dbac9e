/-! Sets of characters given by ranges of code points. -/
namespace DepAudit.Text

abbrev Ranges := List (Nat × Nat)

namespace Ranges

def contains (rs : Ranges) (c : Char) : Bool :=
  rs.any fun r => r.1 ≤ c.toNat && c.toNat ≤ r.2

end Ranges

end DepAudit.Text

import Latkit.SqlFilters

namespace Latkit

/-! What the filters do, told as three passes over all tokens. -/

end Latkit

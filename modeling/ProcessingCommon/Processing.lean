/-!
# What a tick reports

`Success`, the result of `process()`, `shutdown()` and the calls in between, of
which only the sign counts.
-/

namespace ProcessingCommon

inductive Success
  | pending
  | positive
  | negative
deriving DecidableEq

end ProcessingCommon

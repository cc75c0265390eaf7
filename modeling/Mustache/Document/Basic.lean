import Mustache.Document.Node
import Mustache.Entries

namespace Mustache

-- A compiled template: what it shows, and the partials that it defines, at whatever depth their
-- definitions stand.
structure Document where
  root : List Node
  partials : Entries (List Node)
deriving DecidableEq

end Mustache

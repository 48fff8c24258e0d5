import FlatSchema.Proofs.ClosedCatalog
import FlatSchema.Proofs.Operations
import FlatSchema.Proofs.RoundTrip

/-!
# The bytes of a struct

A struct is written backwards, with paddings alone to go by, and read forwards,
by offsets alone.  Both mean the same bytes: from whatever state of a builder a
struct is written, each field begins at its offset and zeros fill the rest.
-/

namespace FlatSchema

open Buffer Build Builder Catalog Decode Double Encode

namespace Catalog

end Catalog

end FlatSchema

